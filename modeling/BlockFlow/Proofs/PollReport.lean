import BlockFlow.Watch.Poll

/-!
# What a poll reports

Sockets are asked one by one and numbers all at once, so the answers for the numbers count the
watches of numbers alone, whatever sockets stand between them. Whatever is answered, a poll reports
the watches that are ready by it, and no others.

1. `WatchTable.recordOf`: which answer is meant for a watch of a number; `getElem?_places`: it has the
   place of that watch.
2. `Watch.IsFound`: a watch is ready by what is answered.
3. `WatchTable.Reports`: a report has each watch that is ready once, in the order of the table.
4. `reporting`: a poll makes such a report, and a socket that cannot tell changes nothing in it for
   other watches.
-/

namespace BlockFlow

namespace WatchTable

variable {a : Asked} {w x : Watch} {ws : List Watch} {answers : List Bool} {i : Nat}

/-! ## Which answer is meant for a watch -/

/-- Which answer is meant for watch number `i`, if it is one of a number: as many numbers are asked
for before it. -/
def recordOf (ws : List Watch) (i : Nat) : Nat := (ws.take i).countP (·.source.socket.isNone)

theorem recordOf_succ_of_socket (hw : w.source.socket ≠ none) :
    recordOf (w :: ws) (i + 1) = recordOf ws i := by
  unfold recordOf
  rw [List.take_succ_cons, List.countP_cons_of_neg (by simpa using hw)]

theorem recordOf_succ_of_number (hw : w.source.socket = none) :
    recordOf (w :: ws) (i + 1) = recordOf ws i + 1 := by
  unfold recordOf
  rw [List.take_succ_cons, List.countP_cons_of_pos (by simp [hw])]

/-- The watch of a number is the one among watches of numbers that its answer is meant for. -/
theorem getElem?_recordOf (hi : ws[i]? = some w) (hw : w.source.socket = none) :
    (ws.filter (·.source.socket.isNone))[recordOf ws i]? = some w := by
  induction ws generalizing i with
  | nil => simp at hi
  | cons x ws ih =>
    cases i with
    | zero =>
      obtain rfl : x = w := by simpa using hi
      simp [recordOf, hw]
    | succ i =>
      have hi : ws[i]? = some w := by simpa using hi
      by_cases hx : x.source.socket = none
      · rw [List.filter_cons_of_pos (by simp [hx]), recordOf_succ_of_number hx,
          List.getElem?_cons_succ]
        exact ih hi
      · rw [List.filter_cons_of_neg (by simpa using hx), recordOf_succ_of_socket hx]
        exact ih hi

/-- The answer that is meant for a watch of a number has the place of that watch. -/
theorem getElem?_places (hi : ws[i]? = some w) (hw : w.source.socket = none) :
    (places ws)[recordOf ws i]? = some i := by
  induction ws generalizing i with
  | nil => simp at hi
  | cons x ws ih =>
    cases i with
    | zero =>
      obtain rfl : x = w := by simpa using hi
      rw [places_of_number hw]
      rfl
    | succ i =>
      have hi : ws[i]? = some w := by simpa using hi
      cases hx : x.source.socket with
      | none =>
        rw [places_of_number hx, recordOf_succ_of_number hx, List.getElem?_cons_succ,
          List.getElem?_map, ih hi]
        rfl
      | some socket =>
        rw [places_of_socket hx, recordOf_succ_of_socket (by simp [hx]), List.getElem?_map, ih hi]
        rfl

end WatchTable

/-! ## What is ready by the answers -/

/-- A watch, number `i` among some, is ready by what is answered: its socket can tell and has what
the watch is for, or the answer that is meant for its number is that it is ready. -/
def Watch.IsFound (a : Asked) (ws : List Watch) (answers : List Bool) (i : Nat) (w : Watch) :
    Prop :=
  match w.source.socket with
  | some socket => (a.socket w socket).fails = false ∧
      (w.interest.read ∧ (a.socket w socket).read ∨ w.interest.write ∧ (a.socket w socket).write)
  | none => answers[WatchTable.recordOf ws i]? = some true

namespace WatchTable

variable {a : Asked} {w x : Watch} {ws : List Watch} {answers : List Bool} {i : Nat}

theorem isFound_of_socket {socket : String} (hw : w.source.socket = some socket) :
    w.IsFound a ws answers i ↔ socketReady? w (a.socket w socket) = some true := by
  unfold Watch.IsFound socketReady?
  rw [hw]
  cases hf : (a.socket w socket).fails <;> simp [hf]

theorem isFound_of_number (hw : w.source.socket = none) :
    w.IsFound a ws answers i ↔ answers[recordOf ws i]? = some true := by
  unfold Watch.IsFound
  rw [hw]

/-- A watch of a socket takes no answer away from those behind it. -/
theorem isFound_succ_of_socket (hx : x.source.socket ≠ none) :
    w.IsFound a (x :: ws) answers (i + 1) ↔ w.IsFound a ws answers i := by
  unfold Watch.IsFound
  rw [recordOf_succ_of_socket hx]

/-- A watch of a number takes the first answer away. -/
theorem isFound_succ_of_number (hx : x.source.socket = none) :
    w.IsFound a (x :: ws) answers (i + 1) ↔ w.IsFound a ws answers.tail i := by
  unfold Watch.IsFound
  rw [recordOf_succ_of_number hx, List.getElem?_tail]

theorem select_cons_of_socket {socket : String} (hw : w.source.socket = some socket) :
    select a (w :: ws) answers =
      if socketReady? w (a.socket w socket) = some true then w :: select a ws answers
      else select a ws answers := by
  rw [select, hw]

theorem select_cons_of_number (hw : w.source.socket = none) :
    select a (w :: ws) answers =
      if answers.head? = some true then w :: select a ws answers.tail
      else select a ws answers.tail := by
  rw [select, hw]

theorem sublist_select (a : Asked) (ws : List Watch) (answers : List Bool) :
    (select a ws answers).Sublist ws := by
  induction ws generalizing answers with
  | nil => exact .slnil
  | cons w ws ih =>
    cases hw : w.source.socket with
    | some socket =>
      rw [select_cons_of_socket hw]
      split
      · exact (ih _).cons_cons w
      · exact (ih _).cons w
    | none =>
      rw [select_cons_of_number hw]
      split
      · exact (ih _).cons_cons w
      · exact (ih _).cons w

/-- A watch is selected if and only if it is ready by the answers. Watches with different sources
differ, so each one stands at one place. -/
theorem mem_select_iff (hws : ws.Pairwise fun u v => u.source ≠ v.source) (hi : ws[i]? = some w) :
    w ∈ select a ws answers ↔ w.IsFound a ws answers i := by
  induction ws generalizing i answers with
  | nil => simp at hi
  | cons x ws ih =>
    obtain ⟨hx, hws⟩ := List.pairwise_cons.1 hws
    cases i with
    | zero =>
      obtain rfl : x = w := by simpa using hi
      have hnot : ∀ answers, x ∉ select a ws answers := fun answers h =>
        hx x ((sublist_select a ws answers).subset h) rfl
      cases hs : x.source.socket with
      | some socket =>
        rw [select_cons_of_socket hs, isFound_of_socket hs]
        split <;> simp [*]
      | none =>
        rw [select_cons_of_number hs, isFound_of_number hs]
        split <;> simp_all [recordOf, List.head?_eq_getElem?]
    | succ i =>
      have hi : ws[i]? = some w := by simpa using hi
      have hne : w ≠ x := fun h => hx w (List.mem_of_getElem? hi) (h ▸ rfl)
      cases hs : x.source.socket with
      | some socket =>
        rw [select_cons_of_socket hs, isFound_succ_of_socket (by simp [hs]), ← ih hws hi]
        split <;> simp [hne]
      | none =>
        rw [select_cons_of_number hs, isFound_succ_of_number hs, ← ih hws hi]
        split <;> simp [hne]

theorem length_select (a : Asked) (ws : List Watch) (answers : List Bool)
    (hlen : answers.length = ws.countP (·.source.socket.isNone)) :
    (select a ws answers).length = ws.countP (socketMark a) + answers.count true := by
  induction ws generalizing answers with
  | nil =>
    obtain rfl := List.eq_nil_of_length_eq_zero hlen
    rfl
  | cons w ws ih =>
    rw [List.countP_cons] at hlen ⊢
    cases hw : w.source.socket with
    | some socket =>
      have hrest := ih answers (by simpa [hw] using hlen)
      rw [select_cons_of_socket hw, socketMark_of_socket hw]
      split
      · next h =>
        rw [List.length_cons, hrest, if_pos (decide_eq_true h)]
        omega
      · next h => rw [hrest, if_neg (by simpa using h), Nat.add_zero]
    | none =>
      obtain ⟨answer, answers, rfl⟩ : ∃ b bs, answers = b :: bs :=
        List.exists_cons_of_ne_nil (fun h => by simp [h, hw] at hlen)
      have hrest := ih answers (by simpa [hw] using hlen)
      rw [select_cons_of_number hw, List.tail_cons, List.head?_cons, List.count_cons,
        socketMark_of_number hw, if_neg Bool.false_ne_true]
      cases answer with
      | true =>
        rw [if_pos rfl, if_pos BEq.rfl, List.length_cons, hrest]
        omega
      | false => exact hrest

end WatchTable

/-! ## Reports -/

/-- The same is asked, but the sockets of some watches cannot tell. -/
def Asked.silence (a : Asked) (broken : Watch → Bool) : Asked where
  socket w socket :=
    if broken w then { a.socket w socket with fails := true } else a.socket w socket
  numbers := a.numbers

/-- Whether a watch is one of a number, or of a socket that is not broken. -/
def Watch.sparedBy (broken : Watch → Bool) (w : Watch) : Bool :=
  w.source.socket.isNone || !broken w

namespace WatchTable

variable {a : Asked} {answers : List Bool}

/-- Sockets that cannot tell take their own watches away and no others. -/
theorem select_silence (a : Asked) (broken : Watch → Bool) (ws : List Watch)
    (answers : List Bool) :
    select (a.silence broken) ws answers = (select a ws answers).filter (·.sparedBy broken) := by
  induction ws generalizing answers with
  | nil => rfl
  | cons w ws ih =>
    cases hs : w.source.socket with
    | some socket =>
      rw [select_cons_of_socket hs, select_cons_of_socket hs, ih]
      cases hw : broken w with
      | true =>
        have hlost : (Watch.sparedBy broken w) = false := by simp [Watch.sparedBy, hs, hw]
        rw [if_neg (by simp [socketReady?, Asked.silence, hw])]
        split <;> simp [hlost]
      | false =>
        have hkept : (Watch.sparedBy broken w) = true := by simp [Watch.sparedBy, hw]
        rw [show (a.silence broken).socket w socket = a.socket w socket by
          simp [Asked.silence, hw]]
        split <;> simp [hkept]
    | none =>
      have hkept : (Watch.sparedBy broken w) = true := by simp [Watch.sparedBy, hs]
      rw [select_cons_of_number hs, select_cons_of_number hs, ih]
      split <;> simp [hkept]

/-- What a report is that a poll makes of what is answered. -/
structure Reports (t : WatchTable) (a : Asked) (answers : List Bool) (ws : List Watch) : Prop where
  /-- It is in the order of the table. -/
  sublist : ws.Sublist t.toList
  /-- It has nothing twice. -/
  distinct : ws.Pairwise fun u v => u.source ≠ v.source
  /-- It has the watches that are ready by the answers. -/
  mem_iff : ∀ i w, t.toList[i]? = some w → (w ∈ ws ↔ w.IsFound a t.toList answers i)
  /-- The answer that is meant for a number is the one to the request for it. -/
  requested : ∀ i w, t.toList[i]? = some w → w.source.socket = none →
    t.requests[recordOf t.toList i]? = some (w.source.fd, w.interest.read, w.interest.write)
  /-- It sets the mark of the watch that has asked for it. -/
  placed : ∀ i w, t.toList[i]? = some w → w.source.socket = none →
    (places t.toList)[recordOf t.toList i]? = some i
  /-- It has as many watches as were counted. -/
  length_eq : ws.length = t.readySockets a + answers.count true

theorem length_requests (t : WatchTable) :
    t.requests.length = t.toList.countP (·.source.socket.isNone) := by
  rw [requests, List.length_map, List.countP_eq_length_filter]

/-- Without the limit to the number that was counted, a poll reports the same. -/
theorem pollOf_eq (t : WatchTable) {a : Asked}
    (hnumbers : a.numbers t.requests = .ok (answers.count true, answers))
    (hlength : answers.length = t.requests.length) :
    t.pollOf a = .ok (select a t.toList answers) := by
  rw [pollOf_of_ok hnumbers, readySockets, ← length_select a _ _ (hlength.trans t.length_requests),
    List.take_length]

/-- **Reports of polls.** Let the host tell of every number that is asked for whether it is ready,
and how many are. Whatever the sockets say then, a poll reports each watch that is ready by the
answers once, in the order of the table, and no others: watches of sockets that can tell and have
what the watch is for, and watches of numbers whose own answer is that they are ready. The number
that was counted is the length of the report, so nothing is cut off. If some more sockets could not
tell, their watches would be missing and nothing else would be different. -/
theorem reporting (t : WatchTable) (a : Asked)
    (hnumbers : a.numbers t.requests = .ok (answers.count true, answers))
    (hlength : answers.length = t.requests.length) :
    ∃ ws, t.pollOf a = .ok ws ∧ t.Reports a answers ws ∧ ∀ broken : Watch → Bool,
      t.pollOf (a.silence broken) = .ok (ws.filter (·.sparedBy broken)) := by
  have hpoll := t.pollOf_eq hnumbers hlength
  have hsublist := sublist_select a t.toList answers
  refine ⟨_, hpoll, ?_, fun broken => ?_⟩
  · constructor
    case sublist => exact hsublist
    case distinct => exact t.distinct.sublist hsublist
    case mem_iff => exact fun i w hi => mem_select_iff t.distinct hi
    case requested =>
      intro i w hi hw
      rw [requests, List.getElem?_map, getElem?_recordOf hi hw]
      rfl
    case placed => exact fun i w hi hw => getElem?_places hi hw
    case length_eq => exact length_select a t.toList answers (hlength.trans t.length_requests)
  · rw [t.pollOf_eq (a := a.silence broken) hnumbers hlength, select_silence]

/-- A host with a connection between descriptors 7 and 8, where something waits at the first one,
and with two sockets: one that cannot tell, and one with room for output. -/
def mixedHost : Host :=
  { ((Host.manual.pair 7 8).send 8 [120]).2 with
    sockets := (Keyed.empty.insert "broken" { read := true, fails := true }).insert "roomy"
      { write := true } }

/-- Watches of numbers and of sockets by turns. One socket has a number, which is not asked for, and
descriptor 9 is not open. -/
def mixed : WatchTable where
  maxFd := 1024
  toList := [.reading ⟨1⟩ 7, ⟨⟨2⟩, ⟨40, some "broken"⟩, ⟨true, true⟩⟩, .reading ⟨3⟩ 8,
    ⟨⟨4⟩, ⟨noFd, some "quiet"⟩, ⟨true, false⟩⟩, ⟨⟨5⟩, ⟨noFd, some "roomy"⟩, ⟨true, true⟩⟩,
    .reading ⟨6⟩ 9]
  distinct := by decide
  interested := by decide
  watchable := by
    unfold Source.Watchable
    decide

/-- The numbers 7 and 9 and the socket with room are reported. -/
theorem reporting_mixed :
    mixedHost.asked.numbers mixed.requests =
      .ok ([true, false, true].count true, [true, false, true]) ∧
    [true, false, true].length = mixed.requests.length ∧
    (∃ ws, mixed.pollOf mixedHost.asked = .ok ws ∧
      mixed.Reports mixedHost.asked [true, false, true] ws ∧ ∀ broken : Watch → Bool,
      mixed.pollOf (mixedHost.asked.silence broken) = .ok (ws.filter (·.sparedBy broken))) ∧
    mixed.poll mixedHost = .ok [.reading ⟨1⟩ 7, ⟨⟨5⟩, ⟨noFd, some "roomy"⟩, ⟨true, true⟩⟩,
      .reading ⟨6⟩ 9] :=
  ⟨rfl, rfl, reporting mixed mixedHost.asked rfl rfl, rfl⟩

end WatchTable

end BlockFlow
