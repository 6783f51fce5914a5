import BlockFlow.Basic
import BlockFlow.Duration
import BlockFlow.Payload

/-!
# Timers

Armed timers are kept in the order in which they fire: by expiration, and among those of one
expiration by the time of their arming. A timer is known by its owner and a number that the owner
chose, and arming it again replaces it.
-/

namespace BlockFlow

/-- The number of a timer, chosen by its owner. -/
abbrev TimerId := Int32

/-- An armed timer. -/
structure Timer where
  owner : BlockId
  tid : TimerId
  expiration : Instant
  /-- What the owner gets back when the timer fires. -/
  arg : Payload
  deriving Repr, Inhabited

/-- By what a timer is known. -/
def Timer.key (t : Timer) : BlockId × TimerId := (t.owner, t.tid)

/-- Armed timers in firing order, each known timer once. -/
structure TimerList where
  toList : List Timer
  sorted : toList.Pairwise fun a b => a.expiration ≤ b.expiration
  distinct : toList.Pairwise fun a b => a.key ≠ b.key

namespace TimerList

def empty : TimerList := ⟨[], .nil, .nil⟩

instance : Inhabited TimerList := ⟨empty⟩

/-- The number of armed timers. -/
def size (l : TimerList) : Nat := l.toList.length

/-- Timers in firing order with one more, which is the last of its expiration. -/
def place (t : Timer) : List Timer → List Timer
  | [] => [t]
  | x :: xs => if x.expiration ≤ t.expiration then x :: place t xs else t :: x :: xs

theorem mem_place {t x : Timer} {ts : List Timer} : x ∈ place t ts ↔ x = t ∨ x ∈ ts := by
  induction ts with
  | nil => simp [place]
  | cons y ys ih =>
    rw [place]
    split
    · simp only [List.mem_cons, ih]
      exact ⟨fun h => h.elim (.inr ∘ .inl) (·.imp_right .inr),
        fun h => h.elim (.inr ∘ .inl) (·.imp_right .inr)⟩
    · simp

theorem sorted_place {t : Timer} {ts : List Timer}
    (h : ts.Pairwise fun a b => a.expiration ≤ b.expiration) :
    (place t ts).Pairwise fun a b => a.expiration ≤ b.expiration := by
  induction ts with
  | nil => simp [place]
  | cons y ys ih =>
    obtain ⟨hy, hys⟩ := List.pairwise_cons.1 h
    rw [place]
    split
    · next hle =>
      refine List.pairwise_cons.2 ⟨fun x hx => ?_, ih hys⟩
      rcases mem_place.1 hx with rfl | hx
      · exact hle
      · exact hy x hx
    · next hgt =>
      have hlt : t.expiration ≤ y.expiration := Nat.le_of_lt (Nat.lt_of_not_le hgt)
      refine List.pairwise_cons.2 ⟨fun x hx => ?_, h⟩
      rcases List.mem_cons.1 hx with rfl | hx
      · exact hlt
      · exact Nat.le_trans hlt (hy x hx)

theorem distinct_place {t : Timer} {ts : List Timer} (h : ts.Pairwise fun a b => a.key ≠ b.key)
    (ht : ∀ x ∈ ts, x.key ≠ t.key) : (place t ts).Pairwise fun a b => a.key ≠ b.key := by
  induction ts with
  | nil => simp [place]
  | cons y ys ih =>
    obtain ⟨hy, hys⟩ := List.pairwise_cons.1 h
    rw [place]
    split
    · refine List.pairwise_cons.2 ⟨fun x hx => ?_, ih hys fun x hx => ht x (.tail _ hx)⟩
      rcases mem_place.1 hx with rfl | hx
      · exact ht y (.head _)
      · exact hy x hx
    · exact List.pairwise_cons.2 ⟨fun x hx => (ht x hx).symm, h⟩

def without (l : TimerList) (key : BlockId × TimerId) : TimerList :=
  ⟨l.toList.filter (·.key ≠ key), l.sorted.filter _, l.distinct.filter _⟩

def contains (l : TimerList) (key : BlockId × TimerId) : Bool := l.toList.any (·.key = key)

/-- Disarm a timer; whether it was armed. -/
def remove (l : TimerList) (owner : BlockId) (tid : TimerId) : Bool × TimerList :=
  (l.contains (owner, tid), l.without (owner, tid))

/-- Arm a timer; it replaces the one of the same key. -/
def add (l : TimerList) (t : Timer) : TimerList where
  toList := place t (l.without t.key).toList
  sorted := sorted_place (l.without t.key).sorted
  distinct := distinct_place (l.without t.key).distinct fun x hx => by
    simpa using (List.mem_filter.1 hx).2

theorem toList_without (l : TimerList) (key : BlockId × TimerId) :
    (l.without key).toList = l.toList.filter (·.key ≠ key) := rfl

theorem toList_add (l : TimerList) (t : Timer) :
    (l.add t).toList = place t (l.without t.key).toList := rfl

theorem mem_without {l : TimerList} {key : BlockId × TimerId} {t : Timer} :
    t ∈ (l.without key).toList ↔ t ∈ l.toList ∧ t.key ≠ key := by
  simp [without]

theorem mem_add {l : TimerList} {t u : Timer} :
    u ∈ (l.add t).toList ↔ u = t ∨ u ∈ l.toList ∧ u.key ≠ t.key := by
  rw [add, mem_place, mem_without]

theorem contains_iff {l : TimerList} {key : BlockId × TimerId} :
    l.contains key ↔ ∃ t ∈ l.toList, t.key = key := by
  simp [contains]

/-- The first timer to fire, if it has expired at a time, and the timers after it. -/
def popExpired (l : TimerList) (now : Instant) : Option Timer × TimerList :=
  match l with
  | ⟨[], h, h'⟩ => (none, ⟨[], h, h'⟩)
  | ⟨t :: ts, h, h'⟩ =>
    if t.expiration ≤ now then (some t, ⟨ts, h.of_cons, h'.of_cons⟩) else (none, ⟨t :: ts, h, h'⟩)

/-- Either no timer has expired, or the first one has and leaves the list. -/
theorem popExpired_cases (l : TimerList) (now : Instant) :
    (l.popExpired now = (none, l) ∧ ∀ x ∈ l.toList, now < x.expiration) ∨
    ∃ t rest, l.popExpired now = (some t, rest) ∧ l.toList = t :: rest.toList ∧
      t.expiration ≤ now := by
  obtain ⟨ts, hsorted, hdistinct⟩ := l
  cases ts with
  | nil => exact .inl ⟨rfl, fun x hx => by cases hx⟩
  | cons t ts =>
    by_cases hdue : t.expiration ≤ now
    · exact .inr ⟨t, _, if_pos hdue, rfl, hdue⟩
    · refine .inl ⟨if_neg hdue, fun x hx => ?_⟩
      have hlt : now < t.expiration := Nat.lt_of_not_le hdue
      rcases List.mem_cons.1 hx with rfl | hx
      · exact hlt
      · exact Nat.lt_of_lt_of_le hlt ((List.pairwise_cons.1 hsorted).1 x hx)

/-- The time at which the first timer fires. -/
def nextExpiration? (l : TimerList) : Option Instant := l.toList.head?.map (·.expiration)

end TimerList

end BlockFlow
