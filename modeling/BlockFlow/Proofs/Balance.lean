import BlockFlow.Proofs.Ledger
import BlockFlow.Proofs.Untouched
import BlockFlow.Proofs.ServerHooks
import Mathlib.Logic.Function.Basic

/-!
# Servers that keep their books

The numbers that a server has are those of its listener and of its clients. While it is inside of a
hook, it has those that its script knows of. What the ledger says of these numbers is kept by each
hook of a server.

1. `Server.Fits`: the numbers that a server may have.
2. `Machine.held`, `Machine.Balanced`: the numbers that all blocks have, and what is to hold of
   them; `Machine.KeepsBusy`: blocks that are inside of hooks are left alone.
3. `Machine.Serves`: a server inside of one of its hooks; `gains`, `loses`: it opens and closes
   numbers.
4. `serves_acceptClients`, `serves_settle`, `serves_serve`, `serves_onEvent`, `serves_start`,
   `serves_stop`: the scripts of a server.
-/

namespace BlockFlow

open Run

/-! ## The numbers of a block -/

def Builtin.descriptors : Builtin → List Fd
  | .hello _ => []
  | .server sv => sv.descriptors

/-- The numbers of a server differ from each other. It has clients only while it listens, and no
numbers at all while it is stopped. -/
structure Server.Fits (sv : Server) (st : State) : Prop where
  nodup : sv.descriptors.Nodup
  clients (h : sv.listener = none) : sv.clients = []
  stopped (h : st = .stopped) : sv.descriptors = []

/-- A built-in block has numbers that it may have. -/
def Builtin.Fits : Builtin → State → Prop
  | .hello _, _ => True
  | .server sv, st => sv.Fits st

namespace Server

variable {sv sv' : Server} {st : State} {fd : Fd}

theorem descriptors_congr (hlistener : sv'.listener = sv.listener)
    (hclients : sv'.clients.map (·.fd) = sv.clients.map (·.fd)) :
    sv'.descriptors = sv.descriptors := by
  unfold descriptors
  rw [hlistener, hclients]

theorem Fits.congr (h : sv.Fits st) (hlistener : sv'.listener = sv.listener)
    (hclients : sv'.clients.map (·.fd) = sv.clients.map (·.fd)) : sv'.Fits st where
  nodup := descriptors_congr hlistener hclients ▸ h.nodup
  clients hnone := by
    rw [h.clients (hlistener ▸ hnone)] at hclients
    exact List.map_eq_nil_iff.1 hclients
  stopped hst := (descriptors_congr hlistener hclients).trans (h.stopped hst)

/-- A server without numbers fits every state. -/
theorem fits_of_descriptors (h : sv.descriptors = []) (st : State) : sv.Fits st where
  nodup := h ▸ List.nodup_nil
  clients _ := List.map_eq_nil_iff.1 (List.append_eq_nil_iff.1 h).2
  stopped _ := h

theorem map_fd_hold (sv : Server) (fd : Fd) (pending : List UInt8) :
    (sv.hold fd pending).clients.map (·.fd) = sv.clients.map (·.fd) := by
  unfold hold
  rw [List.map_map]
  refine List.map_congr_left fun c _ => ?_
  by_cases hc : c.fd = fd <;> simp [hc]

theorem mem_descriptors_of_find? {c : Client} (h : sv.clients.find? (·.fd = fd) = some c) :
    fd ∈ sv.clients.map (·.fd) := by
  refine List.mem_map.2 ⟨c, List.mem_of_find?_eq_some h, ?_⟩
  simpa using List.find?_some h

/-- A server forgets the number of a client and no other one. -/
theorem mem_descriptors_forget (h : sv.descriptors.Nodup) (hfd : fd ∈ sv.clients.map (·.fd))
    (fd' : Fd) : fd' ∈ (sv.forget fd).descriptors ↔ fd' ≠ fd ∧ fd' ∈ sv.descriptors := by
  have hlistener : fd ∉ sv.listener.toList := fun hmem =>
    (List.nodup_append.1 h).2.2 fd hmem fd hfd rfl
  unfold descriptors forget
  simp only [List.mem_append, List.mem_map, List.mem_filter]
  constructor
  · rintro (hmem | ⟨c, ⟨hc, hne⟩, rfl⟩)
    · exact ⟨fun heq => hlistener (heq ▸ hmem), .inl hmem⟩
    · exact ⟨by simpa using hne, .inr ⟨c, hc, rfl⟩⟩
  · rintro ⟨hne, hmem | ⟨c, hc, rfl⟩⟩
    · exact .inl hmem
    · exact .inr ⟨c, ⟨hc, by simpa using hne⟩, rfl⟩

theorem Fits.forget (h : sv.Fits st) (fd : Fd) : (sv.forget fd).Fits st := by
  have hsub : (sv.forget fd).descriptors.Sublist sv.descriptors :=
    (List.Sublist.refl _).append (List.filter_sublist.map _)
  refine ⟨h.nodup.sublist hsub, fun hnone => ?_, fun hst => ?_⟩
  · unfold Server.forget
    rw [h.clients hnone, List.filter_nil]
  · rw [h.stopped hst] at hsub
    exact List.sublist_nil.1 hsub

def welcome (sv : Server) (fd : Fd) : Server := { sv with clients := sv.clients ++ [{ fd }] }

theorem descriptors_welcome (sv : Server) (fd : Fd) :
    (sv.welcome fd).descriptors = sv.descriptors ++ [fd] := by
  unfold descriptors welcome
  rw [List.map_append, List.append_assoc]
  rfl

/-- A server that listens gets one client more. -/
theorem Fits.welcome (h : sv.Fits st) {listener : Fd} (hlistener : sv.listener = some listener)
    (hfd : fd ∉ sv.descriptors) : (sv.welcome fd).Fits st where
  nodup := by
    rw [descriptors_welcome]
    refine List.nodup_append.2 ⟨h.nodup, List.nodup_singleton _, fun a ha b hb heq => ?_⟩
    rw [List.mem_singleton.1 hb] at heq
    exact hfd (heq ▸ ha)
  clients hnone := by
    have hsome : sv.listener = none := hnone
    rw [hlistener] at hsome
    cases hsome
  stopped hst := by
    have hnil := h.stopped hst
    unfold descriptors at hnil
    rw [hlistener] at hnil
    cases hnil

end Server

theorem Host.sameOpen_vacate (h : Host) (path : Option String) : h.SameOpen (h.vacate path) := by
  cases path with
  | none => exact .refl h
  | some path => exact h.sameOpen_removeFile path

/-! ## The numbers of all blocks -/

namespace Machine

variable {strange : Fd → Prop} {away : BlockId → List Fd} {s t u : Machine Builtin.kit}
  {id id' : BlockId} {e : Entry Builtin.kit} {c : Builtin}

/-- The numbers that a block has; those of a block inside of a hook are given. -/
def held (s : Machine Builtin.kit) (away : BlockId → List Fd) (id : BlockId) : List Fd :=
  match s.manager.blocks.get? id with
  | none => []
  | some e => (e.contents.map Builtin.descriptors).getD (away id)

/-- The ledger holds of the numbers that all blocks have, and each block has numbers that it may
have. -/
structure Balanced (s : Machine Builtin.kit) (strange : Fd → Prop) (away : BlockId → List Fd) :
    Prop where
  ledger : Ledger strange (fun id fd => fd ∈ s.held away id) s.manager.watches s.host
  fits {id : BlockId} {e : Entry Builtin.kit} {c : Builtin}
    (hget : s.manager.blocks.get? id = some e) (hc : e.contents = some c) : c.Fits e.state

/-- From one machine to another the same blocks are inside of hooks, and they stay as they are. -/
def KeepsBusy (s t : Machine Builtin.kit) : Prop :=
  ∀ (id : BlockId) (e : Entry Builtin.kit), e.contents = none →
    (t.manager.blocks.get? id = some e ↔ s.manager.blocks.get? id = some e)

def Idle (s : Machine Builtin.kit) : Prop :=
  ∀ (id : BlockId) (e : Entry Builtin.kit), s.manager.blocks.get? id = some e → e.contents ≠ none

/-- From one machine to another nothing changes that the books tell of. -/
structure SameBooks (s t : Machine Builtin.kit) : Prop where
  blocks : t.manager.blocks = s.manager.blocks
  watches : t.manager.watches = s.manager.watches
  host : s.host.SameOpen t.host

theorem held_of_not_live (hget : s.manager.blocks.get? id = none) : s.held away id = [] := by
  unfold held
  rw [hget]

theorem held_of_idle (hget : s.manager.blocks.get? id = some e) (hc : e.contents = some c) :
    s.held away id = c.descriptors := by
  unfold held
  rw [hget]
  dsimp only
  rw [hc]
  rfl

theorem held_of_busy (hget : s.manager.blocks.get? id = some e) (he : e.contents = none) :
    s.held away id = away id := by
  unfold held
  rw [hget]
  dsimp only
  rw [he]
  rfl

theorem held_congr (hget : t.manager.blocks.get? id = s.manager.blocks.get? id) :
    t.held away id = s.held away id := by
  unfold held
  rw [hget]

theorem held_update_self (hget : s.manager.blocks.get? id = some e) (he : e.contents = none)
    (fds : List Fd) : s.held (Function.update away id fds) id = fds := by
  rw [held_of_busy hget he, Function.update_self]

theorem held_update_of_ne (hne : id' ≠ id) (fds : List Fd) :
    s.held (Function.update away id fds) id' = s.held away id' := by
  unfold held
  rw [Function.update_of_ne hne]

theorem KeepsBusy.refl (s : Machine Builtin.kit) : s.KeepsBusy s := fun _ _ _ => Iff.rfl

theorem KeepsBusy.trans (h : s.KeepsBusy t) (h' : t.KeepsBusy u) : s.KeepsBusy u :=
  fun id e he => (h' id e he).trans (h id e he)

theorem Idle.keepsBusy (hs : s.Idle) (h : s.KeepsBusy t) : t.Idle := fun id e hget he =>
  hs id e ((h id e he).1 hget) he

theorem keepsBusy_of_blocks (h : t.manager.blocks = s.manager.blocks) : s.KeepsBusy t :=
  fun _ _ _ => by rw [h]

theorem SameBooks.refl (s : Machine Builtin.kit) : s.SameBooks s := ⟨rfl, rfl, .refl _⟩

theorem SameBooks.keepsBusy (h : s.SameBooks t) : s.KeepsBusy t := keepsBusy_of_blocks h.blocks

theorem Balanced.sameBooks (hb : s.Balanced strange away) (h : s.SameBooks t) :
    t.Balanced strange away where
  ledger := by
    rw [h.watches]
    refine (hb.ledger.sameOpen h.host).congr fun id fd => ?_
    have hheld : t.held away id = s.held away id := held_congr (by rw [h.blocks])
    rw [hheld]
  fits hget := by
    rw [h.blocks] at hget
    exact hb.fits hget

theorem Balanced.told (hb : s.Balanced strange away) (es : List (Event Builtin.kit)) :
    { s with events := es }.Balanced strange away ∧ s.KeepsBusy { s with events := es } :=
  ⟨hb.sameBooks ⟨rfl, rfl, .refl _⟩, .refl s⟩

/-- Something is done to one block, which has the same numbers afterwards. -/
theorem Balanced.ledger_of_held {away' : BlockId → List Fd} (hb : s.Balanced strange away)
    (id : BlockId) (hself : t.held away' id = s.held away id)
    (hother : ∀ id', id' ≠ id → t.held away' id' = s.held away id')
    (hwatches : t.manager.watches = s.manager.watches) (hhost : t.host = s.host) :
    Ledger strange (fun id fd => fd ∈ t.held away' id) t.manager.watches t.host := by
  rw [hwatches, hhost]
  refine hb.ledger.congr fun id' fd => ?_
  by_cases hid : id' = id
  · rw [hid, hself]
  · rw [hother id' hid]

/-! ## Hooks -/

theorem get?_entered (hget : s.manager.blocks.get? id = some e) {hook : Hook} :
    ((s.marked id hook).entered e.serial id hook).manager.blocks.get? id =
      some { hook.mark e with contents := none } := by
  show ((s.manager.blocks.modify id _).modify id _).get? id = _
  rw [Keyed.modify_modify, Keyed.get?_modify, if_pos rfl, hget]
  rfl

/-- The numbers of a block stay the same when its contents are away. -/
theorem Balanced.entered (hb : s.Balanced strange away) (hget : s.manager.blocks.get? id = some e)
    (hc : e.contents = some c) (hook : Hook) :
    ((s.marked id hook).entered e.serial id hook).Balanced strange
      (Function.update away id c.descriptors) where
  ledger := by
    refine hb.ledger_of_held id ?_ (fun id' hid => ?_) rfl rfl
    · rw [held_update_self (get?_entered hget) rfl, held_of_idle hget hc]
    · rw [held_update_of_ne hid, held_congr]
      show ((s.manager.blocks.modify id _).modify id _).get? id' = _
      rw [Keyed.modify_modify, Keyed.get?_modify, if_neg (Ne.symm hid)]
  fits hget' hc' := by
    rcases of_get?_entered hget hget' with ⟨-, rfl⟩ | ⟨-, hget'⟩
    · cases hc'
    · exact hb.fits hget' hc'

/-- They stay the same when its contents come back. -/
theorem Balanced.regained (hb : t.Balanced strange (Function.update away id c.descriptors))
    (hget : t.manager.blocks.get? id = some e) (he : e.contents = none) (hfits : c.Fits e.state)
    (serial : Nat) : (t.regained ⟨serial, id⟩ c).Balanced strange away where
  ledger := by
    refine hb.ledger_of_held id ?_ (fun id' hid => ?_) rfl rfl
    · have hself : (t.regained ⟨serial, id⟩ c).manager.blocks.get? id =
          some { e with contents := some c } := by
        show (t.manager.blocks.modify id _).get? id = _
        rw [Keyed.get?_modify, if_pos rfl, hget]
        rfl
      rw [held_update_self hget he, held_of_idle hself rfl]
    · rw [held_update_of_ne hid, held_congr]
      show (t.manager.blocks.modify id _).get? id' = _
      rw [Keyed.get?_modify, if_neg (Ne.symm hid)]
  fits hget' hc' := by
    rcases of_get?_regained (f := ⟨serial, id⟩) hget hget' with ⟨-, rfl⟩ | ⟨hne, hget'⟩
    · cases hc'
      exact hfits
    · exact hb.fits hget' hc'

/-- A hook leaves the other blocks alone that are inside of hooks. -/
theorem KeepsBusy.regained {hook : Hook} (hget : s.manager.blocks.get? id = some e)
    (hc : e.contents = some c)
    (h : ((s.marked id hook).entered e.serial id hook).KeepsBusy t) (serial : Nat) (c' : Builtin) :
    s.KeepsBusy (t.regained ⟨serial, id⟩ c') := by
  intro id' e' he'
  have hblocks := h id' e' he'
  unfold Machine.entered Machine.marked at hblocks
  unfold Machine.regained
  dsimp only at hblocks ⊢
  rw [Keyed.modify_modify, Keyed.get?_modify] at hblocks
  rw [Keyed.get?_modify]
  by_cases hid : id = id'
  · subst hid
    rw [if_pos rfl, hget]
    constructor
    · intro heq
      obtain ⟨e'', -, rfl⟩ := Option.map_eq_some_iff.1 heq
      cases he'
    · intro heq
      cases heq
      rw [hc] at he'
      cases he'
  · rw [if_neg hid] at hblocks ⊢
    exact hblocks

/-! ## New blocks and deleted ones -/

/-- A new block has no numbers. -/
theorem Balanced.added (hb : s.Balanced strange away) (hnew : s.manager.blocks.get? id = none)
    (kind : BuiltinKind) (hc : e.contents = some (Builtin.build kind))
    (hblocks : t.manager.blocks = s.manager.blocks.insert id e)
    (hwatches : t.manager.watches = s.manager.watches) (hhost : t.host = s.host) :
    t.Balanced strange away where
  ledger := by
    refine hb.ledger_of_held id ?_ (fun id' hid => held_congr ?_) hwatches hhost
    · have hget : t.manager.blocks.get? id = some e := by
        rw [hblocks, Keyed.get?_insert, if_pos rfl]
      rw [held_of_idle hget hc, held_of_not_live hnew]
      cases kind <;> rfl
    · rw [hblocks, Keyed.get?_insert, if_neg (Ne.symm hid)]
  fits hget hc' := by
    rw [hblocks] at hget
    rcases Keyed.of_get?_insert hget with ⟨-, rfl⟩ | ⟨-, hget⟩
    · cases hc.symm.trans hc'
      cases kind with
      | hello => trivial
      | server => exact Server.fits_of_descriptors rfl _
    · exact hb.fits hget hc'

theorem keepsBusy_added (hnew : s.manager.blocks.get? id = none) {c : Builtin}
    (hc : e.contents = some c) (hblocks : t.manager.blocks = s.manager.blocks.insert id e) :
    s.KeepsBusy t := by
  intro id' e' he'
  rw [hblocks, Keyed.get?_insert]
  split
  · next hid =>
    rw [← hid, hnew]
    constructor
    · intro heq
      cases heq
      rw [hc] at he'
      cases he'
    · intro heq
      cases heq
  · exact Iff.rfl

/-- A stopped block has no numbers that could be left open. -/
theorem Balanced.erased (hb : s.Balanced strange away) (hget : s.manager.blocks.get? id = some e)
    (hc : e.contents = some c) (hst : e.state = .stopped)
    (hblocks : t.manager.blocks = s.manager.blocks.erase id)
    (hwatches : t.manager.watches = s.manager.watches) (hhost : t.host = c.release s.host) :
    t.Balanced strange away := by
  have hnil : c.descriptors = [] := by
    have hfits := hb.fits hget hc
    cases c with
    | hello h => rfl
    | server sv => exact hfits.stopped hst
  have hrelease : c.release s.host = s.host := by
    cases c with
    | hello h => rfl
    | server sv =>
      show sv.descriptors.foldl Host.close s.host = s.host
      rw [show sv.descriptors = [] from hnil]
      rfl
  refine ⟨?_, fun hget' hc' => ?_⟩
  · refine hb.ledger_of_held id ?_ (fun id' hid => held_congr ?_) hwatches (hhost.trans hrelease)
    · have hgone : t.manager.blocks.get? id = none := by
        rw [hblocks, Keyed.get?_erase, if_pos rfl]
      rw [held_of_not_live hgone, held_of_idle hget hc, hnil]
    · rw [hblocks, Keyed.get?_erase, if_neg (Ne.symm hid)]
  · rw [hblocks] at hget'
    exact hb.fits (Keyed.of_get?_erase hget').2 hc'

theorem keepsBusy_erased (hget : s.manager.blocks.get? id = some e) (hc : e.contents = some c)
    (hblocks : t.manager.blocks = s.manager.blocks.erase id) : s.KeepsBusy t := by
  intro id' e' he'
  rw [hblocks, Keyed.get?_erase]
  split
  · next hid =>
    rw [← hid, hget]
    constructor
    · intro heq
      cases heq
    · intro heq
      cases heq
      rw [hc] at he'
      cases he'
  · exact Iff.rfl

/-! ## A server inside of a hook -/

/-- A block is inside of one of its hooks, and its script knows of a server whose numbers are those
of the block and may be those of one in a state. -/
structure Serves (s : Machine Builtin.kit) (strange : Fd → Prop) (away : BlockId → List Fd)
    (id : BlockId) (e : Entry Builtin.kit) (st : State) (sv : Server) : Prop where
  balanced : s.Balanced strange (Function.update away id sv.descriptors)
  entry : s.manager.blocks.get? id = some e
  busy : e.contents = none
  fits : sv.Fits st

namespace Serves

variable {st : State} {sv sv' : Server} {fd : Fd} {fds : List Fd} {h : Host} {w : WatchTable}

theorem contains (hs : s.Serves strange away id e st sv) : s.manager.blocks.contains id := by
  unfold Keyed.contains
  rw [hs.entry]
  rfl

theorem sameBooks (hs : s.Serves strange away id e st sv) (h : s.SameBooks t) :
    t.Serves strange away id e st sv :=
  ⟨hs.balanced.sameBooks h, h.blocks ▸ hs.entry, hs.busy, hs.fits⟩

theorem noted (hs : s.Serves strange away id e st sv) (es : List (Event Builtin.kit)) :
    { s with events := es }.Serves strange away id e st sv := hs.sameBooks ⟨rfl, rfl, .refl _⟩

theorem congr (hs : s.Serves strange away id e st sv) (hlistener : sv'.listener = sv.listener)
    (hclients : sv'.clients.map (·.fd) = sv.clients.map (·.fd)) :
    s.Serves strange away id e st sv' where
  balanced := by
    rw [Server.descriptors_congr hlistener hclients]
    exact hs.balanced
  entry := hs.entry
  busy := hs.busy
  fits := hs.fits.congr hlistener hclients

/-- Other blocks may have been worked on. -/
theorem keepsBusy (hs : s.Serves strange away id e st sv)
    (hb : t.Balanced strange (Function.update away id sv.descriptors)) (h : s.KeepsBusy t) :
    t.Serves strange away id e st sv :=
  ⟨hb, (h id e hs.busy).2 hs.entry, hs.busy, hs.fits⟩

theorem has_iff (hs : s.Serves strange away id e st sv) {fd : Fd} :
    fd ∈ s.held (Function.update away id sv.descriptors) id' ↔
      if id' = id then fd ∈ sv.descriptors else fd ∈ s.held away id' := by
  split
  · next hid => rw [hid, held_update_self hs.entry hs.busy]
  · next hid => rw [held_update_of_ne hid]

/-- The server opens a number and has it watched. -/
theorem gains (hs : s.Serves strange away id e st sv) (ho : s.host.Opens t.host fd)
    (hadd : s.manager.watches.add (.reading id fd) = .ok w)
    (ht : t.manager = { s.manager with watches := w })
    (hd : ∀ fd', fd' ∈ sv'.descriptors ↔ fd' = fd ∨ fd' ∈ sv.descriptors)
    (hfits : sv'.Fits st) : t.Serves strange away id e st sv' := by
  have hblocks : t.manager.blocks = s.manager.blocks := by rw [ht]
  have hentry : t.manager.blocks.get? id = some e := hblocks ▸ hs.entry
  refine ⟨⟨?_, fun hget hc => hs.balanced.fits (hblocks ▸ hget) hc⟩, hentry, hs.busy, hfits⟩
  have hwatches : t.manager.watches = w := by rw [ht]
  rw [hwatches]
  refine (hs.balanced.ledger.opens ho hadd).congr fun id' fd' => ?_
  rw [hs.has_iff]
  by_cases hid : id' = id
  · rw [hid, held_update_self hentry hs.busy, if_pos rfl, hd]
    simp
  · rw [held_update_of_ne hid, held_congr (s := s) (t := t) (by rw [hblocks]), if_neg hid]
    simp [hid]

/-- The server has numbers watched no more and closes them. -/
theorem loses (hs : s.Serves strange away id e st sv) (hfds : ∀ fd ∈ fds, fd ∈ sv.descriptors)
    (hnodup : fds.Nodup) (hh : (fds.foldl Host.close s.host).SameOpen t.host)
    (ht : t.manager = { s.manager with watches := s.manager.watches.withoutReading fds })
    (hd : ∀ fd', fd' ∈ sv'.descriptors ↔ fd' ∉ fds ∧ fd' ∈ sv.descriptors)
    (hfits : sv'.Fits st) : t.Serves strange away id e st sv' := by
  have hblocks : t.manager.blocks = s.manager.blocks := by rw [ht]
  have hentry : t.manager.blocks.get? id = some e := hblocks ▸ hs.entry
  refine ⟨⟨?_, fun hget hc => hs.balanced.fits (hblocks ▸ hget) hc⟩, hentry, hs.busy, hfits⟩
  have hhas : ∀ fd ∈ fds, fd ∈ s.held (Function.update away id sv.descriptors) id := by
    intro fd hfd
    rw [held_update_self hs.entry hs.busy]
    exact hfds fd hfd
  have hwatches : t.manager.watches = s.manager.watches.withoutReading fds := by rw [ht]
  rw [hwatches]
  refine ((hs.balanced.ledger.dropAll hhas hnodup).sameOpen hh).congr fun id' fd' => ?_
  by_cases hid : id' = id
  · rw [hid, held_update_self hentry hs.busy, held_update_self hs.entry hs.busy, hd]
  · have hheld : t.held (Function.update away id sv'.descriptors) id' =
        s.held (Function.update away id sv.descriptors) id' := by
      rw [held_update_of_ne hid, held_update_of_ne hid]
      exact held_congr (by rw [hblocks])
    rw [hheld]
    -- Another block has none of these numbers.
    refine ⟨fun hfd' => ⟨fun hmem => hid ?_, hfd'⟩, And.right⟩
    exact hs.balanced.ledger.id_eq hfd' (hhas fd' hmem)

/-- A server without numbers was started. -/
theorem starts (hs : s.Serves strange away id e st sv) (hroom : s.host.HasRoom)
    (hnil : sv.descriptors = []) (hstarted : st = .started)
    (hstarts : sv.Starts id s.manager.watches s.host sv' w h)
    (hmanager : t.manager = { s.manager with watches := w }) (hhost : t.host = h) :
    t.Serves strange away id e st sv' := by
  cases hstarts with
  | unaddressed => exact hs.sameBooks ⟨by rw [hmanager], by rw [hmanager], hhost ▸ .refl _⟩
  | unbound =>
    exact hs.sameBooks ⟨by rw [hmanager], by rw [hmanager], hhost ▸ s.host.sameOpen_removeFile _⟩
  | unwatched _ hlisten =>
    have ho := Host.opens_listen (Host.hasRoom_removeFile hroom _) hlisten
    exact hs.sameBooks ⟨by rw [hmanager], by rw [hmanager],
      hhost ▸ (s.host.sameOpen_removeFile _).trans ho.close⟩
  | @listening path fd _ _ hlisten hwatch =>
    have ho := (s.host.sameOpen_removeFile path).opens
      (Host.opens_listen (Host.hasRoom_removeFile hroom _) hlisten)
    have hclients : sv.clients.map (·.fd) = [] := (List.append_eq_nil_iff.1 hnil).2
    have hdescriptors : { sv with listener := some fd }.descriptors = [fd] := by
      unfold Server.descriptors
      rw [hclients]
      rfl
    refine hs.gains (hhost ▸ ho) hwatch hmanager (fun fd' => ?_)
      ⟨?_, fun hnone => ?_, fun hst => ?_⟩
    · rw [hdescriptors, hnil]
      simp
    · rw [hdescriptors]
      exact List.nodup_singleton fd
    · cases hnone
    · rw [hstarted] at hst
      cases hst

/-- A server was stopped. -/
theorem stops (hs : s.Serves strange away id e st sv)
    (hmanager : t.manager = { s.manager with
      watches := s.manager.watches.withoutReading sv.closing })
    (hhost : t.host = (sv.closing.foldl Host.close s.host).vacate sv.path) :
    t.Serves strange away id e st sv.stopped := by
  have hperm : sv.closing.Perm sv.descriptors := List.perm_append_comm
  refine hs.loses (fun fd hfd => hperm.mem_iff.1 hfd) (hperm.nodup_iff.2 hs.fits.nodup)
    (hhost ▸ Host.sameOpen_vacate _ _) hmanager (fun fd => ?_) (Server.fits_of_descriptors rfl _)
  constructor
  · intro hfd
    cases hfd
  · rintro ⟨hnot, hfd⟩
    exact absurd (hperm.mem_iff.2 hfd) hnot

end Serves

end Machine

/-! ## The scripts of a server -/

/-- A run does not break off, as long as the host has room. -/
@[reducible]
def Terms.withRoom : Terms Builtin.kit := .given (·.host.HasRoom)

namespace Run

/-- A run keeps the books, as long as the host has room. -/
def Balances {α : Type} (strange : Fd → Prop) (r : Run Builtin.kit α) : Prop :=
  ∀ (away : BlockId → List Fd) (s : Machine Builtin.kit), s.Balanced strange away →
    r.Abides .withRoom (fun _ t => t.Balanced strange away ∧ s.KeepsBusy t) s

section Scripts

variable {strange : Fd → Prop} {away : BlockId → List Fd} {s : Machine Builtin.kit}
  {id : BlockId} {e : Entry Builtin.kit} {call : Call Builtin.kit} {m : Nat}
  {leave : Server → Run Builtin.kit Unit} {st : State} {sv c : Server} {fd listener : Fd}

/-- A server accepts the clients that wait. -/
theorem serves_acceptClients (n : Nat) (hs : s.Serves strange away id e st sv)
    (hroom : s.host.HasRoom) (hlistener : sv.listener = some listener) :
    (runScript call m leave c (Server.acceptClients id listener n sv)).Abides .withRoom
      (fun p t => t.Serves strange away id e st p.1 ∧ s.KeepsBusy t) s := by
  induction n generalizing sv s with
  | zero => exact ⟨hs, .refl s⟩
  | succ n ih =>
    unfold Server.acceptClients
    refine abides_runScript_call (r := .accept listener) (Abides.given ?_)
    show Abides .total _ (onHost (·.accept listener)) s
    rw [abides_onHost]
    rcases Host.accept_cases hroom listener with heq | ⟨fd, h, heq, ho⟩
    · rw [heq]
      exact fun _ => ⟨hs.sameBooks ⟨rfl, rfl, .refl _⟩, .refl s⟩
    rw [heq]
    intro _
    refine abides_runScript_call (r := .watch (.reading id fd)) (Abides.given ?_)
    refine ends_watch hs.contains (fun f es _ _ => ?_) fun w es hadd _ => ?_
    · -- The new number is closed again.
      refine abides_runScript_call (r := .close fd) (Abides.given fun hroom => ?_)
      have hclosed : { s with host := h.close fd, events := es }.Serves strange away id e st sv :=
        hs.sameBooks ⟨rfl, rfl, ho.close⟩
      exact (ih hclosed hroom hlistener).mono fun _ _ ht => ht
    · refine abides_runScript_notify fun hroom => ?_
      have hfd : fd ∉ sv.descriptors := fun hmem =>
        ho.fresh (hs.balanced.ledger.isOpen (hs.has_iff.2 (by rwa [if_pos rfl])))
      have hd (fd' : Fd) : fd' ∈ (sv.welcome fd).descriptors ↔ fd' = fd ∨ fd' ∈ sv.descriptors := by
        rw [Server.descriptors_welcome, List.mem_append, List.mem_singleton, or_comm]
      have hserves : { s with
          manager.watches := w
          host := h
          events := .notice (.clientConnected id fd) :: es }.Serves strange away id e st
          (sv.welcome fd) := hs.gains ho hadd rfl hd (hs.fits.welcome hlistener hfd)
      exact (ih hserves hroom hlistener).mono fun _ _ ht => ht

/-- A server keeps a client, or hangs up on it. -/
theorem serves_settle (hs : s.Serves strange away id e st sv) (hfd : fd ∈ sv.clients.map (·.fd))
    (rest : List UInt8) (ending : Host.Ending) (reached : Bool) :
    (runScript call m leave c (Server.settle id fd rest ending (sv, reached))).Abides .withRoom
      (fun p t => t.Serves strange away id e st p.1 ∧ s.KeepsBusy t) s := by
  refine Abides.given ((ends_settle id fd rest ending (sv, reached) s).mono fun p t ht => ?_)
  split at ht
  · obtain ⟨hsv, rfl⟩ := ht
    rw [hsv]
    exact ⟨hs.congr rfl (Server.map_fd_hold _ _ _), .refl t⟩
  · obtain ⟨hsv, rfl⟩ := ht
    rw [hsv]
    refine ⟨hs.loses (fun fd' (hmem : fd' ∈ [fd]) => ?_) (List.nodup_singleton fd) (.refl _) rfl
      (fun fd' => ?_) (hs.fits.forget fd), Machine.keepsBusy_of_blocks rfl⟩
    · rw [List.mem_singleton.1 hmem]
      exact List.mem_append_right _ hfd
    · rw [List.mem_singleton]
      exact Server.mem_descriptors_forget hs.fits.nodup hfd fd'

section Lines

variable (hnested : ∀ r : Request BuiltinKind Empty, ¬ r.IsDirect →
  (perform call m r).Balances strange)

include hnested

/-- A command that a server executes for a client keeps the books. -/
theorem serves_nested {r : Request BuiltinKind Empty} (hr : ¬ r.IsDirect)
    (hs : s.Serves strange away id e st sv) : (perform call m r).Abides .withRoom
      (fun _ t => t.Serves strange away id e st sv ∧ s.KeepsBusy t) s :=
  (hnested r hr _ s hs.balanced).mono fun _ _ ht => ⟨hs.keepsBusy ht.1 ht.2, ht.2⟩

theorem serves_execute (hs : s.Serves strange away id e st sv) (text : List Char) :
    (runScript call m leave c (Server.execute fd text)).Abides .withRoom
      (fun _ t => t.Serves strange away id e st sv ∧ s.KeepsBusy t) s := by
  have htold (c : Server) (err : CommandError) {t : Machine Builtin.kit}
      (ht : t.Serves strange away id e st sv ∧ s.KeepsBusy t) :
      (runScript call m leave c (do
        Script.notify (.clientCommandFailed fd err)
        return false)).Abides .withRoom
        (fun _ u => u.Serves strange away id e st sv ∧ s.KeepsBusy u) t :=
    abides_runScript_notify fun _ => ⟨ht.1.noted _, ht.2⟩
  unfold Server.execute
  split
  · refine abides_runScript_call (r := .loadBytes _)
      ((serves_nested hnested (r := .loadBytes _) not_false hs).mono fun x t ht _ => ?_)
    cases x with
    | ok _ => exact ht
    | error err => exact htold c err ht
  · refine abides_runScript_call (r := .line _)
      ((serves_nested hnested (r := .line _) not_false hs).mono fun x t ht _ => ?_)
    cases x with
    | ok _ => exact ht
    | error err => exact htold c err ht

/-- The lines of a client leave the numbers of the server as they are. -/
theorem serves_serveLines (hs : s.Serves strange away id e st sv) (rest : List UInt8)
    (lines : List (List UInt8)) :
    (runScript call m leave c (Server.serveLines fd rest sv lines)).Abides .withRoom
      (fun p t => t.Serves strange away id e st p.1.1 ∧ s.KeepsBusy t ∧
        p.1.1.clients = sv.clients) s := by
  induction lines generalizing sv c s with
  | nil => exact ⟨hs, .refl s, rfl⟩
  | cons bytes lines ih =>
    unfold Server.serveLines
    split
    · exact ih hs
    · next ch cs _ =>
      refine abides_runScript_bind ?_
      show Abides .withRoom _ (runScript _ m leave _ (_ >>= _)) s
      refine abides_runScript_bind ((serves_execute hnested hs (ch :: cs)).mono fun x t ht => ?_)
      have hsend (bytes : List UInt8) : (perform call m (.transmit fd bytes)).Abides .withRoom
          (fun _ u => u.Serves strange away id e st sv ∧ s.KeepsBusy u) t :=
        Abides.given ⟨ht.1.sameBooks ⟨rfl, rfl, t.host.sameOpen_transmit fd bytes⟩, ht.2⟩
      refine abides_runScript_call (r := .dump) (Abides.given fun _ => ?_)
      refine abides_runScript_call (r := .transmit fd _) ((hsend _).mono fun y u hu _ => ?_)
      have hcounted : u.Serves strange away id e st { sv with
          commands := sv.commands + 1
          failures := if x.1 then sv.failures else sv.failures + 1 } := hu.1.congr rfl rfl
      cases y with
      | ok _ =>
        refine (ih hcounted).mono fun p v hv => ?_
        exact ⟨hv.1, hu.2.trans hv.2.1, hv.2.2⟩
      | error f => exact abides_runScript_notify fun _ => ⟨hcounted.noted _, hu.2, rfl⟩

/-- A server serves a client, and hangs up on it at the end of its stream or if it cannot be
told. -/
theorem serves_serve (hs : s.Serves strange away id e st sv) (fd : Fd) :
    (runScript call m leave c (sv.serve id fd)).Abides .withRoom
      (fun p t => t.Serves strange away id e st p.1 ∧ s.KeepsBusy t) s := by
  unfold Server.serve
  split
  · exact ⟨hs, .refl s⟩
  next client hclient =>
  have hfd : fd ∈ sv.clients.map (·.fd) := Server.mem_descriptors_of_find? hclient
  have hlines {u : Machine Builtin.kit} (hu : u.Serves strange away id e st sv)
      (hsu : s.KeepsBusy u) (c : Server) (bytes : List UInt8) (ending : Host.Ending) :
      (runScript call m leave c (do
        let p ← Server.serveLines fd (Server.splitLines bytes).2 sv (Server.splitLines bytes).1
        Server.settle id fd (Server.splitLines bytes).2 ending p)).Abides .withRoom
        (fun p t => t.Serves strange away id e st p.1 ∧ s.KeepsBusy t) u := by
    refine abides_runScript_bind ((serves_serveLines hnested hu _ _).mono fun p t ht => ?_)
    obtain ⟨ht, hut, hclients⟩ := ht
    have hfd' : fd ∈ p.1.1.clients.map (·.fd) := hclients ▸ hfd
    exact (serves_settle ht hfd' _ _ _).mono fun _ _ hv => ⟨hv.1, (hsu.trans hut).trans hv.2⟩
  have hreceive : (perform call m (.receive fd)).Abides .withRoom
      (fun _ t => t.Serves strange away id e st sv ∧ s.KeepsBusy t) s :=
    Abides.given ⟨hs.sameBooks ⟨rfl, rfl, s.host.sameOpen_receive fd⟩, .refl s⟩
  refine abides_runScript_call (r := .receive fd) (hreceive.mono fun x t ht _ => ?_)
  obtain ⟨bytes, ending⟩ := x
  cases ending with
  | failed f =>
    refine abides_runScript_notify fun _ => ?_
    exact hlines (ht.1.noted (.notice (.clientUnreadable id fd f) :: t.events)) ht.2 c _ _
  | ongoing | ended => exact hlines ht.1 ht.2 c _ _

/-- A server of which a descriptor is ready accepts clients or serves one. -/
theorem serves_onEvent (hs : s.Serves strange away id e st sv) (w : Watch) :
    (runScript call m leave c (sv.onEvent id w)).Abides .withRoom
      (fun p t => t.Serves strange away id e st p.1 ∧ s.KeepsBusy t) s := by
  unfold Server.onEvent
  split
  · next hlistener =>
    refine abides_runScript_call (r := .waiting w.source.fd) (Abides.given fun hroom => ?_)
    exact serves_acceptClients _ hs hroom hlistener
  · exact serves_serve hnested hs w.source.fd

end Lines

/-- A server that has no numbers begins to listen. -/
theorem serves_start (hs : s.Serves strange away id e st sv) (hroom : s.host.HasRoom)
    (hnil : sv.descriptors = []) (hstarted : st = .started) :
    (runScript call m leave c (sv.start id)).Abides .withRoom
      (fun p t => t.Serves strange away id e st p.1 ∧ s.KeepsBusy t) s := by
  refine Abides.given ((ends_start sv id hs.contains).mono fun p t ht => ?_)
  obtain ⟨w, hstarts, hmanager⟩ := ht
  exact ⟨hs.starts hroom hnil hstarted hstarts hmanager rfl,
    Machine.keepsBusy_of_blocks (by rw [hmanager])⟩

theorem serves_stop (hs : s.Serves strange away id e st sv) :
    (runScript call m leave c (sv.stop id)).Abides .withRoom
      (fun p t => t.Serves strange away id e st p.1 ∧ s.KeepsBusy t ∧ p.1.descriptors = []) s := by
  refine Abides.given ((ends_stop sv id).mono fun p t ht => ?_)
  obtain ⟨hsv, hmanager, hhost⟩ := ht
  rw [hsv]
  exact ⟨hs.stops hmanager hhost, Machine.keepsBusy_of_blocks (by rw [hmanager]), rfl⟩

theorem serves_configure (hs : s.Serves strange away id e st sv) (conf : String) :
    (runScript call m leave c (sv.configure id conf)).Abides .withRoom
      (fun p t => t.Serves strange away id e st p.1 ∧ s.KeepsBusy t) s := by
  refine Abides.given ((ends_configure sv id conf).mono fun p t ht => ?_)
  obtain ⟨hsv, hmanager, hhost⟩ := ht
  rw [hsv]
  have hsame : s.SameBooks t := ⟨by rw [hmanager], by rw [hmanager], by rw [hhost]; exact .refl _⟩
  exact ⟨(hs.sameBooks hsame).congr rfl rfl, hsame.keepsBusy⟩

end Scripts

end Run

end BlockFlow
