import BlockFlow.Watch.Poll

/-!
# Which watches are ready

A poll asks sockets one by one and the host for all numbers at once, and puts the answers together.
What comes of it is what is said here of one watch at a time.

1. `Watch.IsReady`: a watch is ready on a host; `WatchTable.ready`: those of a table that are.
2. `WatchTable.poll_eq`: a poll gives just these, unless there are too many numbers to ask for.
-/

namespace BlockFlow

/-- A watch is ready on a host: its socket can tell and has what the watch is for, or its number
has. -/
def Watch.IsReady (h : Host) (w : Watch) : Prop :=
  match w.source.socket with
  | some socket => (h.reading socket).fails = false ∧
      (w.interest.read ∧ (h.reading socket).read ∨ w.interest.write ∧ (h.reading socket).write)
  | none => h.isReady w.source.fd w.interest.read w.interest.write

namespace Watch

variable {h : Host} {w : Watch}

theorem isReady_of_socket {socket : String} (hw : w.source.socket = some socket) :
    w.IsReady h ↔ WatchTable.socketReady? w (h.asked.socket w socket) = some true := by
  unfold IsReady WatchTable.socketReady? Host.asked
  rw [hw]
  cases hf : (h.reading socket).fails <;> simp [hf]

theorem isReady_of_number (hw : w.source.socket = none) :
    w.IsReady h ↔ h.isReady w.source.fd w.interest.read w.interest.write := by
  unfold IsReady
  rw [hw]

instance decidableIsReady (h : Host) (w : Watch) : Decidable (w.IsReady h) :=
  match hw : w.source.socket with
  | some _ => decidable_of_iff _ (isReady_of_socket hw).symm
  | none => decidable_of_iff _ (isReady_of_number hw).symm

end Watch

namespace WatchTable

def ready (t : WatchTable) (h : Host) : List Watch := t.toList.filter (·.IsReady h)

/-- What the host answers for the numbers among watches. -/
def answers (h : Host) (ws : List Watch) : List Bool :=
  (ws.filter (·.source.socket.isNone)).map fun w =>
    h.isReady w.source.fd w.interest.read w.interest.write

variable {h : Host} {w : Watch} {ws : List Watch}

theorem answers_of_socket (hw : w.source.socket ≠ none) :
    answers h (w :: ws) = answers h ws := by
  unfold answers
  rw [List.filter_cons_of_neg (by simpa using hw)]

theorem answers_of_number (hw : w.source.socket = none) :
    answers h (w :: ws) = decide (w.IsReady h) :: answers h ws := by
  unfold answers
  rw [List.filter_cons_of_pos (by simp [hw]), List.map_cons]
  simp [Watch.isReady_of_number hw]

/-- The watches that are selected are those that are ready. -/
theorem select_answers (h : Host) (ws : List Watch) :
    select h.asked ws (answers h ws) = ws.filter (·.IsReady h) := by
  induction ws with
  | nil => rfl
  | cons w ws ih =>
    rw [select, List.filter_cons]
    split
    · next socket hw =>
      rw [answers_of_socket (by simp [hw]), ih]
      simp only [decide_eq_true_eq, Watch.isReady_of_socket hw]
    · next hw =>
      rw [answers_of_number hw, List.tail_cons, List.head?_cons, ih]
      simp

/-- The watches that are counted are those that are ready. -/
theorem length_filter_isReady (h : Host) (ws : List Watch) :
    (ws.filter (·.IsReady h)).length =
      ws.countP (socketMark h.asked) + (answers h ws).count true := by
  induction ws with
  | nil => rfl
  | cons w ws ih =>
    rw [← List.countP_eq_length_filter] at ih ⊢
    rw [List.countP_cons, List.countP_cons, ih]
    cases hw : w.source.socket with
    | some socket =>
      rw [answers_of_socket (by simp [hw]), socketMark_of_socket hw]
      simp only [Watch.isReady_of_socket hw]
      omega
    | none =>
      rw [answers_of_number hw, List.count_cons, socketMark_of_number hw, if_neg Bool.false_ne_true]
      simp only [beq_iff_eq]
      omega

variable {t : WatchTable}

theorem pollRaw_requests (ht : t.requests.length ≤ h.pollLimit) :
    h.pollRaw t.requests = .ok ((answers h t.toList).count true, answers h t.toList) := by
  unfold Host.pollRaw
  rw [if_neg (Nat.not_lt.2 ht)]
  dsimp only
  unfold requests
  rw [List.map_map]
  rfl

/-- A poll gives the watches that are ready, unless there are too many numbers to ask for. -/
theorem poll_eq (ht : t.requests.length ≤ h.pollLimit) : t.poll h = .ok (t.ready h) := by
  rw [poll, pollOf_of_ok (pollRaw_requests ht), select_answers, readySockets,
    ← length_filter_isReady, List.take_length, ready]

theorem poll_eq_error (ht : h.pollLimit < t.requests.length) :
    t.poll h = .error .invalidArgument := by
  unfold poll pollOf
  rw [show h.asked.numbers = h.pollRaw from rfl, Host.pollRaw, if_pos ht]

theorem distinct_ready (t : WatchTable) (h : Host) :
    (t.ready h).Pairwise fun a b => a.source ≠ b.source :=
  t.distinct.sublist List.filter_sublist

end WatchTable

end BlockFlow
