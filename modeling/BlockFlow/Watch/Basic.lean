import BlockFlow.Host.Basic

/-!
# Watched descriptors

A block that waits for input or room for output has a descriptor watched. The source is a number,
or a socket, which may have a number too; what is watched for is reading, writing or both.

1. `Source`, `Interest`, `Watch`: what is watched, for what, and for whom.
2. `WatchTable`: the watches, one for a source, in the order in which their sources came.
3. `add`, `remove`: its operations.
-/

namespace BlockFlow

/-- What can be watched: a descriptor number or a socket. -/
structure Source where
  fd : Fd
  socket : Option String
  deriving Repr, DecidableEq, Inhabited

/-- For what a source is watched. -/
structure Interest where
  read : Bool
  write : Bool
  deriving Repr, DecidableEq, Inhabited

namespace Interest

def any (i : Interest) : Bool := i.read || i.write

/-- The interests of two together. -/
def union (i j : Interest) : Interest := ⟨i.read || j.read, i.write || j.write⟩

/-- The interests of the first that the second has not. -/
def without (i j : Interest) : Interest := ⟨i.read && !j.read, i.write && !j.write⟩

theorem any_union (i j : Interest) : (i.union j).any = (i.any || j.any) := by
  rcases i with ⟨_ | _, _ | _⟩ <;> rcases j with ⟨_ | _, _ | _⟩ <;> rfl

end Interest

/-- A watched source and the block that waits for it. -/
structure Watch where
  owner : BlockId
  source : Source
  interest : Interest
  deriving Repr, DecidableEq, Inhabited

/-- The number of a source that has none. -/
def noFd : Fd := -1

namespace Watch

/-- A watch of a descriptor number. -/
def ofFd (owner : BlockId) (fd : Fd) (read write : Bool) : Watch :=
  ⟨owner, ⟨fd, none⟩, ⟨read, write⟩⟩

def reading (owner : BlockId) (fd : Fd) : Watch := ofFd owner fd true false

/-- The watch in full, as it is shown when the engine is examined. -/
def toText (w : Watch) : String :=
  let socket := match w.source.socket with
    | some name => "Some(" ++ name ++ ")"
    | none => "None"
  "FileDesc \x7b owner: BlockId(" ++ w.owner.toText ++ "), fd: " ++ textOfInt32 w.source.fd ++
    ", socket: " ++ socket ++ ", read: " ++ toString w.interest.read ++ ", write: " ++
    toString w.interest.write ++ " \x7d"

end Watch

/-- Why a descriptor is not watched. -/
inductive WatchError where
  | unknownOwner (id : BlockId)
  | noSource
  | outOfRange (fd max : Fd)
  | noInterest
  deriving Repr, DecidableEq, Inhabited

def WatchError.message : WatchError → String
  | .unknownOwner id => s!"Descriptor owner not found: {id.toText}"
  | .noSource => "Neither a file descriptor nor a socket"
  | .outOfRange fd max =>
    s!"File descriptor value too high [fd={textOfInt32 fd} ; max={textOfInt32 max}]"
  | .noInterest => "No read or write interest"

/-- Whether a source can be watched: a number alone must be below a ceiling and not negative. -/
def Source.Watchable (s : Source) (max : Fd) : Prop := s.socket = none → 0 ≤ s.fd ∧ s.fd < max

/-- Watches, one for a source, each with an interest and with a source that can be watched. -/
structure WatchTable where
  /-- The first number that no watched descriptor has. -/
  maxFd : Fd
  toList : List Watch
  distinct : toList.Pairwise fun a b => a.source ≠ b.source
  interested : ∀ w ∈ toList, w.interest.any
  watchable : ∀ w ∈ toList, w.source.Watchable maxFd

namespace WatchTable

def empty (maxFd : Fd) : WatchTable := ⟨maxFd, [], .nil, nofun, nofun⟩

instance : Inhabited WatchTable := ⟨empty 0⟩

def size (t : WatchTable) : Nat := t.toList.length

def contains (t : WatchTable) (s : Source) : Bool := t.toList.any (·.source = s)

/-! ## Adding -/

/-- Watches with one more. A source that is watched already gets the interests of both and the new
owner, and stays at its place. -/
def merge (w : Watch) : List Watch → List Watch
  | [] => [w]
  | x :: xs =>
    if x.source = w.source then { w with interest := x.interest.union w.interest } :: xs
    else x :: merge w xs

theorem source_of_mem_merge {w x : Watch} {ws : List Watch} (h : x ∈ merge w ws) :
    x.source = w.source ∨ x ∈ ws := by
  induction ws with
  | nil => simp_all [merge]
  | cons y ys ih =>
    rw [merge] at h
    split at h
    · rcases List.mem_cons.1 h with rfl | h
      · exact .inl rfl
      · exact .inr (.tail _ h)
    · rcases List.mem_cons.1 h with rfl | h
      · exact .inr (.head _)
      · exact (ih h).imp_right (.tail _)

theorem interested_merge {w : Watch} {ws : List Watch} (hw : w.interest.any)
    (h : ∀ x ∈ ws, x.interest.any) : ∀ x ∈ merge w ws, x.interest.any := by
  induction ws with
  | nil => simpa [merge] using hw
  | cons y ys ih =>
    rw [merge]
    split
    · intro x hx
      rcases List.mem_cons.1 hx with rfl | hx
      · simp [Interest.any_union, hw]
      · exact h x (.tail _ hx)
    · intro x hx
      rcases List.mem_cons.1 hx with rfl | hx
      · exact h _ (.head _)
      · exact ih (fun z hz => h z (.tail _ hz)) x hx

theorem distinct_merge {w : Watch} {ws : List Watch}
    (h : ws.Pairwise fun a b => a.source ≠ b.source) :
    (merge w ws).Pairwise fun a b => a.source ≠ b.source := by
  induction ws with
  | nil => simp [merge]
  | cons y ys ih =>
    obtain ⟨hy, hys⟩ := List.pairwise_cons.1 h
    rw [merge]
    split
    · next he => exact List.pairwise_cons.2 ⟨fun x hx => he ▸ hy x hx, hys⟩
    · next hne =>
      refine List.pairwise_cons.2 ⟨fun x hx => ?_, ih hys⟩
      rcases source_of_mem_merge hx with hx | hx
      · exact fun e => hne (e.trans hx)
      · exact hy x hx

/-- Why a watch cannot be added, if it cannot. -/
def refusal? (maxFd : Fd) (w : Watch) : Option WatchError :=
  if !w.interest.any then some .noInterest
  else if w.source.socket.isNone && w.source.fd < 0 then some .noSource
  else if w.source.socket.isNone && maxFd ≤ w.source.fd then some (.outOfRange w.source.fd maxFd)
  else none

theorem any_of_refusal? {maxFd : Fd} {w : Watch} (h : refusal? maxFd w = none) :
    w.interest.any := by
  unfold refusal? at h
  split at h
  · simp at h
  · next hi => simpa using hi

theorem watchable_of_refusal? {maxFd : Fd} {w : Watch} (h : refusal? maxFd w = none) :
    w.source.Watchable maxFd := by
  intro hs
  unfold refusal? at h
  simp only [hs, Option.isNone_none, Bool.true_and, decide_eq_true_eq] at h
  split at h
  · simp at h
  · split at h
    · simp at h
    · next hneg =>
      split at h
      · simp at h
      · next hmax => exact ⟨Int32.not_lt.1 hneg, Int32.not_le.1 hmax⟩

def add (t : WatchTable) (w : Watch) : Except WatchError WatchTable :=
  match h : refusal? t.maxFd w with
  | some e => .error e
  | none => .ok {
      maxFd := t.maxFd
      toList := merge w t.toList
      distinct := distinct_merge t.distinct
      interested := interested_merge (any_of_refusal? h) t.interested
      watchable := fun x hx => (source_of_mem_merge hx).elim
        (fun e => e ▸ watchable_of_refusal? h) (t.watchable x) }

/-! ## Removing -/

/-- Watches without some interests in a source. A watch without any interest is dropped, and so is
one from which no interest in particular is taken. -/
def dropInterest (s : Source) (i : Interest) : List Watch → List Watch
  | [] => []
  | x :: xs =>
    if x.source = s then
      if i.any && (x.interest.without i).any then
        { x with interest := x.interest.without i } :: xs
      else xs
    else x :: dropInterest s i xs

theorem exists_of_mem_dropInterest {s : Source} {i : Interest} {x : Watch} {ws : List Watch}
    (h : x ∈ dropInterest s i ws) : ∃ y ∈ ws, y.source = x.source := by
  induction ws with
  | nil => simp [dropInterest] at h
  | cons y ys ih =>
    rw [dropInterest] at h
    split at h
    · split at h
      · rcases List.mem_cons.1 h with rfl | h
        · exact ⟨y, .head _, rfl⟩
        · exact ⟨x, .tail _ h, rfl⟩
      · exact ⟨x, .tail _ h, rfl⟩
    · rcases List.mem_cons.1 h with rfl | h
      · exact ⟨x, .head _, rfl⟩
      · obtain ⟨z, hz, he⟩ := ih h
        exact ⟨z, .tail _ hz, he⟩

theorem distinct_dropInterest {s : Source} {i : Interest} {ws : List Watch}
    (h : ws.Pairwise fun a b => a.source ≠ b.source) :
    (dropInterest s i ws).Pairwise fun a b => a.source ≠ b.source := by
  induction ws with
  | nil => simp [dropInterest]
  | cons y ys ih =>
    obtain ⟨hy, hys⟩ := List.pairwise_cons.1 h
    rw [dropInterest]
    split
    · split
      · exact List.pairwise_cons.2 ⟨hy, hys⟩
      · exact hys
    · refine List.pairwise_cons.2 ⟨fun x hx => ?_, ih hys⟩
      obtain ⟨z, hz, he⟩ := exists_of_mem_dropInterest hx
      exact he ▸ hy z hz

theorem interested_dropInterest {s : Source} {i : Interest} {ws : List Watch}
    (h : ∀ x ∈ ws, x.interest.any) : ∀ x ∈ dropInterest s i ws, x.interest.any := by
  induction ws with
  | nil => simp [dropInterest]
  | cons y ys ih =>
    have hys := fun x hx => h x (.tail _ hx)
    rw [dropInterest]
    split
    · split
      · next hi =>
        intro x hx
        rcases List.mem_cons.1 hx with rfl | hx
        · exact (Bool.and_eq_true _ _ ▸ hi).2
        · exact hys x hx
      · exact hys
    · intro x hx
      rcases List.mem_cons.1 hx with rfl | hx
      · exact h _ (.head _)
      · exact ih hys x hx

/-- Stop watching a source for some interests, or for all if none is named. A source that is not
watched is ignored. -/
def remove (t : WatchTable) (s : Source) (i : Interest) : WatchTable where
  maxFd := t.maxFd
  toList := dropInterest s i t.toList
  distinct := distinct_dropInterest t.distinct
  interested := interested_dropInterest t.interested
  watchable := fun _ hx =>
    let ⟨y, hy, he⟩ := exists_of_mem_dropInterest hx
    he ▸ t.watchable y hy

end WatchTable

end BlockFlow
