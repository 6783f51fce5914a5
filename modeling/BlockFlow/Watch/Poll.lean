import BlockFlow.Watch.Basic

/-!
# Polling watched descriptors

Sockets are asked first, one by one; a socket that cannot tell is passed over. Then the host is
asked for all descriptor numbers at once. A poll keeps a mark for each watch, which is set when the
watch is found ready; the answers for the numbers find their marks by the places of the numbers. The
result has the marked watches in the order of the table.

1. `Asked`: what is asked in a poll, and what is answered; `Host.asked`: by a host.
2. `WatchTable.socketMark`, `requests`, `places`, `setMarks`: the marks, and how they are set.
3. `WatchTable.pollOf`: the ready watches by any answers; `poll`: by those of a host.
4. `WatchTable.select`: the ready watches in one pass; `marked_setMarks`: they are the marked ones.
-/

namespace BlockFlow

/-- What is asked in a poll: a socket for each watch of one, and for all numbers at once how many of
them are ready, and which ones. -/
structure Asked where
  socket : Watch → String → Host.Reading
  numbers : List (Fd × Bool × Bool) → Except Host.Failure (Nat × List Bool)

/-- A host answers. -/
def Host.asked (h : Host) : Asked := ⟨fun _ => h.reading, h.pollRaw⟩

namespace WatchTable

/-- What a reading of a socket says about a watch; nothing if the socket cannot tell. -/
def socketReady? (w : Watch) (reading : Host.Reading) : Option Bool :=
  if reading.fails then none
  else some ((w.interest.read && reading.read) || (w.interest.write && reading.write))

/-- The owners of watches whose sockets cannot tell. -/
def silentOwners (t : WatchTable) (h : Host) : List BlockId :=
  t.toList.filterMap fun w => do
    let socket ← w.source.socket
    if (socketReady? w (h.reading socket)).isNone then some w.owner else none

/-- Whether a watch is one of a socket that is ready. -/
def socketMark (a : Asked) (w : Watch) : Bool :=
  w.source.socket.bind (socketReady? w <| a.socket w ·) = some true

/-- The number of watches whose sockets are ready. -/
def readySockets (t : WatchTable) (a : Asked) : Nat := t.toList.countP (socketMark a)

/-- What the host is asked for: the watches of numbers alone. -/
def requests (t : WatchTable) : List (Fd × Bool × Bool) :=
  (t.toList.filter (·.source.socket.isNone)).map fun w =>
    (w.source.fd, w.interest.read, w.interest.write)

/-- The places in the table of the watches of numbers alone. -/
def places (ws : List Watch) : List Nat :=
  (ws.zipIdx.filter (·.1.source.socket.isNone)).map (·.2)

/-- The marks after answers, each with the place of the watch that it is for. -/
def setMarks (marks : List Bool) (answers : List (Bool × Nat)) : List Bool :=
  answers.foldl (fun marks (ready, i) => if ready then marks.set i true else marks) marks

/-- The watches whose marks are set. -/
def marked (ws : List Watch) (marks : List Bool) : List Watch :=
  ((ws.zip marks).filter (·.2)).map (·.1)

/-- The ready watches by what is answered, no more of them than were counted. -/
def pollOf (t : WatchTable) (a : Asked) : Except Host.Failure (List Watch) :=
  match a.numbers t.requests with
  | .error f => .error f
  | .ok (count, answers) =>
    let marks := setMarks (t.toList.map (socketMark a)) (answers.zip (places t.toList))
    .ok ((marked t.toList marks).take (t.readySockets a + count))

/-- The ready watches on a host. -/
def poll (t : WatchTable) (h : Host) : Except Host.Failure (List Watch) := t.pollOf h.asked

/-! ## In one pass -/

variable {a : Asked} {w : Watch} {ws : List Watch} {marks : List Bool}

theorem socketMark_of_socket {socket : String} (hw : w.source.socket = some socket) :
    socketMark a w = decide (socketReady? w (a.socket w socket) = some true) := by
  rw [socketMark, hw]
  rfl

theorem socketMark_of_number (hw : w.source.socket = none) : socketMark a w = false := by
  rw [socketMark, hw]
  rfl

theorem places_of_socket {socket : String} (hw : w.source.socket = some socket) :
    places (w :: ws) = (places ws).map (· + 1) := by
  unfold places
  rw [List.zipIdx_cons', List.filter_cons_of_neg (by simp [hw]), List.filter_map, List.map_map,
    List.map_map]
  rfl

theorem places_of_number (hw : w.source.socket = none) :
    places (w :: ws) = 0 :: (places ws).map (· + 1) := by
  unfold places
  rw [List.zipIdx_cons', List.filter_cons_of_pos (by simp [hw]), List.filter_map, List.map_cons,
    List.map_map, List.map_map]
  rfl

/-- Answers for later watches leave the first mark. -/
theorem setMarks_succ (m : Bool) (marks answers : List Bool) (is : List Nat) :
    setMarks (m :: marks) (answers.zip (is.map (· + 1))) =
      m :: setMarks marks (answers.zip is) := by
  induction answers generalizing is marks with
  | nil => rfl
  | cons ready answers ih =>
    cases is with
    | nil => rfl
    | cons i is =>
      cases ready with
      | true => exact ih (marks.set i true) is
      | false => exact ih marks is

theorem marked_cons (m : Bool) :
    marked (w :: ws) (m :: marks) = if m then w :: marked ws marks else marked ws marks := by
  cases m <;> rfl

/-- The ready ones among watches; the answers of the host stand for the numbers alone, in order. -/
def select (a : Asked) : List Watch → (answers : List Bool) → List Watch
  | [], _ => []
  | w :: ws, answers =>
    match w.source.socket with
    | some socket =>
      let rest := select a ws answers
      if socketReady? w (a.socket w socket) = some true then w :: rest else rest
    | none =>
      let rest := select a ws answers.tail
      if answers.head? = some true then w :: rest else rest

/-- The marked watches are those that one pass selects. -/
theorem marked_setMarks (a : Asked) (ws : List Watch) (answers : List Bool) :
    marked ws (setMarks (ws.map (socketMark a)) (answers.zip (places ws))) =
      select a ws answers := by
  induction ws generalizing answers with
  | nil => rfl
  | cons w ws ih =>
    rw [select, List.map_cons]
    split
    · next socket hw =>
      rw [places_of_socket hw, setMarks_succ, marked_cons, ih, socketMark_of_socket hw]
      simp only [decide_eq_true_eq]
    · next hw =>
      rw [places_of_number hw, socketMark_of_number hw]
      cases answers with
      | nil => exact (marked_cons false).trans (ih [])
      | cons ready answers =>
        have hmarks : setMarks (false :: ws.map (socketMark a))
            ((ready :: answers).zip (0 :: (places ws).map (· + 1))) =
              ready :: setMarks (ws.map (socketMark a)) (answers.zip (places ws)) := by
          cases ready with
          | true => exact setMarks_succ true _ answers _
          | false => exact setMarks_succ false _ answers _
        rw [hmarks, marked_cons, ih]
        simp

theorem pollOf_of_ok {t : WatchTable} {count : Nat}
    (h : a.numbers t.requests = .ok (count, answers)) :
    t.pollOf a = .ok ((select a t.toList answers).take (t.readySockets a + count)) := by
  unfold pollOf
  rw [h, ← marked_setMarks]

end WatchTable

end BlockFlow
