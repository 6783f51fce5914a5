import BlockFlow.Proofs.Untouched
import Mathlib.Data.List.Nodup
import Mathlib.Data.List.Perm.Subperm

/-!
# The numbers of a host

Descriptors have numbers. A number is open for a server, for a client or for neither, and a host
gives the least one that is not open. All that a host does to its numbers can be said without its
streams and files.

1. `Host.HasOpen`, `Host.HasRoom`, `not_hasOpen_nextFd`: the next number is not open as long as
   there is one.
2. `Host.SameOpen`, `Host.Opens`: what becomes of the numbers; one lemma for each thing that a host
   does.
3. `WatchTable.mem_of_add`, `WatchTable.mem_remove`: what becomes of the watches.
4. `Ledger`: who has which number, and what is watched; `opens`, `drop`, `connect`, `act`: what it
   comes to when numbers are opened and closed.
-/

namespace BlockFlow

/-! ## Values that are replaced -/

namespace Keyed

variable {κ α : Type} [LT κ] [DecidableLT κ] [DecidableEq κ] [KeyOrder κ] {k : κ} {t : Keyed κ α}

theorem map_fst_insertPair {ps : List (κ × α)} (hps : ps.Pairwise fun p q => p.1 < q.1)
    (hk : k ∈ ps.map (·.1)) (a : α) : (insertPair k a ps).map (·.1) = ps.map (·.1) := by
  induction ps with
  | nil => cases hk
  | cons p ps ih =>
    obtain ⟨hp, hps⟩ := List.pairwise_cons.1 hps
    rw [insertPair]
    split
    · next hlt =>
      -- The key would stand before all others, so it is none of them.
      rcases List.mem_cons.1 hk with rfl | hk
      · exact absurd hlt (KeyOrder.irrefl _)
      · obtain ⟨q, hq, rfl⟩ := List.mem_map.1 hk
        exact absurd (KeyOrder.trans hlt (hp q hq)) (KeyOrder.irrefl _)
    split
    · next heq => rw [List.map_cons, List.map_cons, heq]
    · next hne =>
      rw [List.map_cons, List.map_cons, ih hps ((List.mem_cons.1 hk).resolve_left hne)]

/-- The keys stay the same when the value of one of them is replaced. -/
theorem keys_insert (hk : t.get? k ≠ none) (a : α) : (t.insert k a).keys = t.keys :=
  map_fst_insertPair t.ascending (mem_keys_iff.2 hk) a

end Keyed

namespace Host

variable {h h' h'' : Host} {fd fd' : Fd} {path : String}

def HasOpen (h : Host) (fd : Fd) : Prop := h.descriptors.get? fd ≠ none

def HasRoom (h : Host) : Prop := h.descriptors.size < UInt32.size

instance decidableHasRoom (h : Host) : Decidable h.HasRoom := inferInstanceAs (Decidable (_ < _))

/-! ## The next number -/

theorem lowestFree_cases (h : Host) (n : Nat) (fd : Fd) :
    ¬ h.HasOpen (h.lowestFree n fd) ∨ ∀ i ≤ n, h.HasOpen (fd + Int32.ofNat i) := by
  have hzero (fd : Fd) : fd + Int32.ofNat 0 = fd := Int32.add_zero fd
  induction n generalizing fd with
  | zero =>
    refine (Classical.em (h.HasOpen fd)).symm.imp id fun hopen i hi => ?_
    rw [Nat.le_zero.1 hi, hzero]
    exact hopen
  | succ n ih =>
    unfold lowestFree
    by_cases hcontains : h.descriptors.contains fd
    · rw [if_pos hcontains]
      refine (ih (fd + 1)).imp id fun hopen i hi => ?_
      cases i with
      | zero =>
        rw [hzero]
        exact Option.isSome_iff_ne_none.1 hcontains
      | succ i =>
        have hsucc : fd + Int32.ofNat (i + 1) = fd + 1 + Int32.ofNat i := by
          rw [Int32.ofNat_add, Int32.add_comm (Int32.ofNat i), ← Int32.add_assoc]
          rfl
        rw [hsucc]
        exact hopen i (Nat.le_of_succ_le_succ hi)
    · rw [if_neg hcontains]
      exact .inl fun hopen => hcontains (Option.isSome_iff_ne_none.2 hopen)

/-- Fewer numbers than there are differ from each other. -/
theorem nodup_numbers (fd : Fd) {n : Nat} (hn : n ≤ UInt32.size) :
    ((List.range n).map fun i => fd + Int32.ofNat i).Nodup := by
  refine List.Nodup.map_on (fun i hi j hj hij => ?_) List.nodup_range
  have hbits := congrArg Int32.toBitVec ((Int32.add_right_inj fd).1 hij)
  have hnat : (Int32.ofNat i).toBitVec.toNat = (Int32.ofNat j).toBitVec.toNat :=
    congrArg BitVec.toNat hbits
  have hlt (k : Nat) (hk : k ∈ List.range n) : (Int32.ofNat k).toBitVec.toNat = k :=
    Nat.mod_eq_of_lt (Nat.lt_of_lt_of_le (List.mem_range.1 hk) hn)
  rwa [hlt i hi, hlt j hj] at hnat

/-- The next number is not open as long as there is one that is not. -/
theorem not_hasOpen_nextFd (hroom : h.HasRoom) : ¬ h.HasOpen h.nextFd := by
  refine (h.lowestFree_cases h.descriptors.size firstFd).elim id fun hopen => ?_
  have hsub : ((List.range (h.descriptors.size + 1)).map fun i => firstFd + Int32.ofNat i) ⊆
      h.descriptors.keys := by
    intro fd hfd
    obtain ⟨i, hi, rfl⟩ := List.mem_map.1 hfd
    exact Keyed.mem_keys_iff.2 (hopen i (Nat.le_of_lt_succ (List.mem_range.1 hi)))
  have hle := ((nodup_numbers firstFd (Nat.succ_le_of_lt hroom)).subperm hsub).length_le
  rw [List.length_map, List.length_range, Keyed.keys, List.length_map] at hle
  exact absurd hle (Nat.not_succ_le_self _)

/-! ## What becomes of the numbers -/

/-- From one host to another the same numbers are open and clients have the same ones. -/
structure SameOpen (h h' : Host) : Prop where
  open_iff (fd : Fd) : h'.HasOpen fd ↔ h.HasOpen fd
  clients : h'.clients = h.clients

/-- From one host to another one more number is open. -/
structure Opens (h h' : Host) (fd : Fd) : Prop where
  fresh : ¬ h.HasOpen fd
  open_iff (fd' : Fd) : h'.HasOpen fd' ↔ fd' = fd ∨ h.HasOpen fd'
  clients : h'.clients = h.clients

theorem sameOpen_of_descriptors (hd : h'.descriptors = h.descriptors)
    (hc : h'.clients = h.clients) : h.SameOpen h' := by
  refine ⟨fun fd => ?_, hc⟩
  unfold HasOpen
  rw [hd]

theorem SameOpen.refl (h : Host) : h.SameOpen h := ⟨fun _ => Iff.rfl, rfl⟩

theorem SameOpen.trans (hh : h.SameOpen h') (hh' : h'.SameOpen h'') : h.SameOpen h'' :=
  ⟨fun fd => (hh'.open_iff fd).trans (hh.open_iff fd), hh'.clients.trans hh.clients⟩

theorem SameOpen.opens (hh : h.SameOpen h') (ho : h'.Opens h'' fd) : h.Opens h'' fd where
  fresh hopen := ho.fresh ((hh.open_iff fd).2 hopen)
  open_iff fd' := (ho.open_iff fd').trans (or_congr_right (hh.open_iff fd'))
  clients := ho.clients.trans hh.clients

theorem clients_close (h : Host) (fd : Fd) : (h.close fd).clients = h.clients := by
  unfold close
  cases h.descriptors.get? fd with
  | none => rfl
  | some opened => cases opened <;> rfl

theorem hasOpen_close : (h.close fd).HasOpen fd' ↔ fd' ≠ fd ∧ h.HasOpen fd' := by
  unfold HasOpen
  rw [get?_close]
  by_cases hfd : fd = fd'
  · simp [hfd]
  · simp [hfd, Ne.symm hfd]

/-- A number that was opened is closed again. -/
theorem Opens.close (ho : h.Opens h' fd) : h.SameOpen (h'.close fd) where
  open_iff fd' := by
    rw [hasOpen_close, ho.open_iff]
    constructor
    · rintro ⟨hne, rfl | hopen⟩
      · exact absurd rfl hne
      · exact hopen
    · intro hopen
      exact ⟨fun heq => ho.fresh (heq ▸ hopen), .inr hopen⟩
  clients := (h'.clients_close fd).trans ho.clients

theorem opens_openLowest (hroom : h.HasRoom) (opened : Opened) :
    h.Opens (h.openLowest opened).2 h.nextFd where
  fresh := not_hasOpen_nextFd hroom
  open_iff fd' := by
    show (h.descriptors.insert h.nextFd opened).get? fd' ≠ none ↔ _
    rw [Keyed.get?_insert]
    by_cases hfd : h.nextFd = fd'
    · simp [hfd]
    · simp [hfd, Ne.symm hfd, HasOpen]
  clients := rfl

theorem sameOpen_removeFile (h : Host) (path : String) : h.SameOpen (h.removeFile path).2 := by
  unfold removeFile
  split
  · exact ⟨fun _ => Iff.rfl, rfl⟩
  · exact .refl h

theorem hasRoom_removeFile (hroom : h.HasRoom) (path : String) :
    (h.removeFile path).2.HasRoom := by
  unfold removeFile
  split
  · exact hroom
  · exact hroom

theorem opens_listen (hroom : h.HasRoom) (hlisten : (h.listen path).1 = .ok fd) :
    h.Opens (h.listen path).2 fd := by
  unfold listen at hlisten ⊢
  split at hlisten
  · cases hlisten
  · next files _ =>
    cases hlisten
    have hsame : h.SameOpen { h with files, listeners := h.listeners + 1 } :=
      sameOpen_of_descriptors rfl rfl
    have hroom' : { h with files, listeners := h.listeners + 1 }.HasRoom := hroom
    exact hsame.opens (opens_openLowest hroom' _)

theorem sameOpen_receive (h : Host) (fd : Fd) : h.SameOpen (h.receive fd).2 := by
  unfold receive
  split
  · exact ⟨fun _ => Iff.rfl, rfl⟩
  · exact .refl h
  · exact .refl h

theorem sameOpen_send (h : Host) (fd : Fd) (bytes : List UInt8) :
    h.SameOpen (h.send fd bytes).2 := by
  unfold send
  split
  · split
    · exact ⟨fun _ => Iff.rfl, rfl⟩
    · exact .refl h
  · exact .refl h
  · exact .refl h

theorem sameOpen_transmit (h : Host) (fd : Fd) (bytes : List UInt8) :
    h.SameOpen (h.transmit fd bytes).2 := by
  have hsend := h.sameOpen_send fd bytes
  unfold transmit
  split
  · next heq =>
    rw [heq] at hsend
    exact hsend
  · next heq =>
    rw [heq] at hsend
    exact hsend

/-- What a number is open on may change. -/
theorem sameOpen_insert (hopen : h.HasOpen fd) (opened : Opened) (streams : Streams) :
    h.SameOpen { h with streams, descriptors := h.descriptors.insert fd opened } where
  open_iff fd' := by
    show (h.descriptors.insert fd opened).get? fd' ≠ none ↔ _
    rw [Keyed.get?_insert]
    by_cases hfd : fd = fd'
    · simp [← hfd, hopen]
    · simp [hfd, HasOpen]
  clients := rfl

theorem hasRoom_insert (hroom : h.HasRoom) (hopen : h.HasOpen fd) (opened : Opened)
    (streams : Streams) :
    { h with streams, descriptors := h.descriptors.insert fd opened }.HasRoom := by
  have hkeys := congrArg List.length (Keyed.keys_insert hopen opened)
  unfold Keyed.keys at hkeys
  rw [List.length_map, List.length_map] at hkeys
  unfold HasRoom Keyed.size
  rw [hkeys]
  exact hroom

theorem hasOpen_of_get? {opened : Opened} (hget : h.descriptors.get? fd = some opened) :
    h.HasOpen fd := by
  unfold HasOpen
  rw [hget]
  exact Option.some_ne_none _

theorem hasOpen_of_listenerFd? {number : Nat} {waiting : List Nat}
    (hlistener : h.listenerFd? number = some (fd, waiting)) : h.HasOpen fd := by
  obtain ⟨⟨fd', opened⟩, hmem, hfound⟩ := List.exists_of_findSome?_eq_some hlistener
  cases opened with
  | stream => cases hfound
  | listener n ws =>
    dsimp only at hfound
    split at hfound
    · cases hfound
      exact hasOpen_of_get? (Keyed.get?_eq_some_iff.2 hmem)
    · cases hfound

/-- The host after a number became that of a client. The number that the client had before is
closed. -/
def enrolled (h : Host) (name : String) (own : Fd) : Host :=
  let h := match h.clients.get? name with
    | some old => h.close old
    | none => h
  { h with clients := h.clients.insert name own }

theorem hasOpen_hangUp {name : String} :
    (h.hangUp name).2.HasOpen fd ↔ h.clients.get? name ≠ some fd ∧ h.HasOpen fd := by
  unfold hangUp
  cases hget : h.clients.get? name with
  | none => simp
  | some old => exact hasOpen_close.trans (and_congr_left' (by simp [eq_comm]))

theorem get?_hangUp (h : Host) (name name' : String) :
    (h.hangUp name).2.clients.get? name' =
      if name = name' then none else h.clients.get? name' := by
  unfold hangUp
  cases hget : h.clients.get? name with
  | none =>
    dsimp only
    split_ifs with heq
    · exact heq ▸ hget
    · rfl
  | some old => exact Keyed.get?_erase ..

theorem hasOpen_enrolled {name : String} {own : Fd} :
    (h.enrolled name own).HasOpen fd ↔ h.clients.get? name ≠ some fd ∧ h.HasOpen fd := by
  unfold enrolled
  cases hget : h.clients.get? name with
  | none => simp [HasOpen]
  | some old => exact hasOpen_close.trans (and_congr_left' (by simp [eq_comm]))

theorem get?_enrolled (h : Host) (name name' : String) (own : Fd) :
    (h.enrolled name own).clients.get? name' =
      if name = name' then some own else h.clients.get? name' := by
  unfold enrolled
  cases hget : h.clients.get? name with
  | none => exact Keyed.get?_insert ..
  | some old =>
    refine (Keyed.get?_insert ..).trans ?_
    dsimp only
    rw [clients_close]

/-- Either nothing is connected, or one more number is open and becomes that of the client. -/
theorem connect_cases (hroom : h.HasRoom) (name path : String) :
    (h.connect name path).2 = h ∨
      ∃ h' fd, h.Opens h' fd ∧ (h.connect name path).2 = h'.enrolled name fd := by
  unfold connect
  split
  · exact .inl rfl
  next number _ =>
  cases hlistener : h.listenerFd? number with
  | none => exact .inl rfl
  | some p =>
    obtain ⟨fd, waiting⟩ := p
    have hqueue := hasOpen_of_listenerFd? hlistener
    exact .inr ⟨_, _, (sameOpen_insert hqueue _ _).opens
      (opens_openLowest (hasRoom_insert hroom hqueue _ _) _), rfl⟩

/-- Either nothing is accepted, or one more number is open. -/
theorem accept_cases (hroom : h.HasRoom) (fd : Fd) :
    h.accept fd = (none, h) ∨ ∃ fd' h', h.accept fd = (some fd', h') ∧ h.Opens h' fd' := by
  unfold accept
  split
  · next number n waiting hget =>
    have hopen := hasOpen_of_get? hget
    exact .inr ⟨_, _, rfl, (sameOpen_insert hopen _ h.streams).opens
      (opens_openLowest (hasRoom_insert hroom hopen _ h.streams) _)⟩
  · exact .inl rfl

/-! ## What happens around an engine -/

/-- An action that opens and closes no numbers but those of clients. -/
def Action.IsOfClients : Action → Prop
  | .pair .. | .close _ => False
  | _ => True

theorem snd_plain (r : Except Failure Unit × Host) : (plain r).2 = r.2 := by
  obtain ⟨x, h⟩ := r
  cases x <;> rfl

theorem sameOpen_withFiles (h : Host) (r : Except Failure Files) : h.SameOpen (h.withFiles r) := by
  cases r with
  | ok files => exact sameOpen_of_descriptors rfl rfl
  | error f => exact .refl h

theorem sameOpen_halfClose (h : Host) (fd : Fd) : h.SameOpen (h.halfClose fd) := by
  unfold halfClose
  split
  · exact sameOpen_of_descriptors rfl rfl
  · exact .refl h

theorem sameOpen_advance (h : Host) (d : Duration) : h.SameOpen (h.act (.advance d)).2 := by
  simp only [act]
  split
  · exact .refl h
  split
  · exact sameOpen_of_descriptors rfl rfl
  · exact .refl h

/-- A client connects or hangs up, or the numbers stay as they are. -/
theorem act_cases (h : Host) {a : Action} (ha : a.IsOfClients) :
    (∃ name path, a = .connect name path) ∨ (∃ name, a = .hangUp name) ∨
      h.SameOpen (h.act a).2 := by
  cases a with
  | pair | close => exact ha.elim
  | connect name path => exact .inl ⟨name, path, rfl⟩
  | hangUp name => exact .inr (.inl ⟨name, rfl⟩)
  | setSocket | isThere => exact .inr (.inr (sameOpen_of_descriptors rfl rfl))
  | makeFile | makeDirectory => exact .inr (.inr (h.sameOpen_withFiles _))
  | advance d => exact .inr (.inr (h.sameOpen_advance d))
  | read fd => exact .inr (.inr (h.sameOpen_receive fd))
  | write fd data =>
    have hsend := h.sameOpen_send fd data
    refine .inr (.inr ?_)
    simp only [act]
    split
    · next heq => rwa [heq] at hsend
    · next heq => rwa [heq] at hsend
  | send name data =>
    refine .inr (.inr ?_)
    simp only [act]
    split
    · split
      · exact .refl h
      · rw [snd_plain]
        exact h.sameOpen_transmit _ data
    · exact .refl h
  | receive name =>
    refine .inr (.inr ?_)
    simp only [act]
    split
    · exact h.sameOpen_receive _
    · exact .refl h
  | halfClose name =>
    refine .inr (.inr ?_)
    simp only [act]
    split
    · exact h.sameOpen_halfClose _
    · exact .refl h

end Host

/-! ## What becomes of the watches -/

namespace WatchTable

variable {t t' : WatchTable} {w x : Watch} {fd : Fd}

theorem mem_merge {ws : List Watch} (hnew : ∀ x ∈ ws, x.source ≠ w.source) :
    x ∈ merge w ws ↔ x = w ∨ x ∈ ws := by
  induction ws with
  | nil => simp [merge]
  | cons y ws ih =>
    rw [merge, if_neg (hnew y (.head _)), List.mem_cons, List.mem_cons,
      ih fun x hx => hnew x (.tail _ hx)]
    exact or_left_comm

theorem mem_of_add (hadd : t.add w = .ok t') (hnew : ∀ x ∈ t.toList, x.source ≠ w.source) :
    x ∈ t'.toList ↔ x = w ∨ x ∈ t.toList := by
  rw [toList_of_add hadd]
  exact mem_merge hnew

/-- A source that is watched for reading alone is not watched any more. -/
theorem mem_remove (hread : ∀ x ∈ t.toList, x.source = ⟨fd, none⟩ → x.interest = ⟨true, false⟩) :
    x ∈ (t.remove ⟨fd, none⟩ ⟨true, false⟩).toList ↔ x.source ≠ ⟨fd, none⟩ ∧ x ∈ t.toList := by
  have hdrop (ws : List Watch)
      (hread : ∀ x ∈ ws, x.source = ⟨fd, none⟩ → x.interest = ⟨true, false⟩)
      (hdistinct : ws.Pairwise fun a b => a.source ≠ b.source) :
      x ∈ dropInterest ⟨fd, none⟩ ⟨true, false⟩ ws ↔ x.source ≠ ⟨fd, none⟩ ∧ x ∈ ws := by
    induction ws with
    | nil => simp [dropInterest]
    | cons y ws ih =>
      obtain ⟨hy, hws⟩ := List.pairwise_cons.1 hdistinct
      rw [dropInterest]
      by_cases hsource : y.source = ⟨fd, none⟩
      · -- No other watch has the source.
        have hrest : x ∈ ws → x.source ≠ ⟨fd, none⟩ := fun hx heq =>
          hy x hx (hsource.trans heq.symm)
        rw [if_pos hsource, hread y (.head _) hsource, List.mem_cons]
        constructor
        · intro hx
          exact ⟨hrest hx, .inr hx⟩
        · rintro ⟨hne, rfl | hx⟩
          · exact absurd hsource hne
          · exact hx
      · rw [if_neg hsource, List.mem_cons, List.mem_cons,
          ih (fun x hx => hread x (.tail _ hx)) hws]
        constructor
        · rintro (rfl | ⟨hne, hx⟩)
          · exact ⟨hsource, .inl rfl⟩
          · exact ⟨hne, .inr hx⟩
        · rintro ⟨hne, rfl | hx⟩
          · exact .inl rfl
          · exact .inr ⟨hne, hx⟩
  exact hdrop t.toList hread t.distinct

end WatchTable

/-! ## The ledger -/

/-- Each number that some servers have is open and watched for reading for the one that has it, and
nothing else is watched. A number that is open otherwise belongs to one client or to a stranger. -/
structure Ledger (strange : Fd → Prop) (has : BlockId → Fd → Prop) (t : WatchTable) (h : Host) :
    Prop where
  mem_iff (w : Watch) : w ∈ t.toList ↔ ∃ id fd, has id fd ∧ w = .reading id fd
  isOpen {id : BlockId} {fd : Fd} (hfd : has id fd) : h.HasOpen fd
  client {name : String} {fd : Fd} (hget : h.clients.get? name = some fd) :
    h.HasOpen fd ∧ ∀ id, ¬ has id fd
  name_eq {name name' : String} {fd : Fd} (hget : h.clients.get? name = some fd)
    (hget' : h.clients.get? name' = some fd) : name = name'
  owned {fd : Fd} (hopen : h.HasOpen fd) :
    (∃ id, has id fd) ∨ (∃ name, h.clients.get? name = some fd) ∨ strange fd

namespace Ledger

variable {strange : Fd → Prop} {has has' : BlockId → Fd → Prop} {t t' : WatchTable} {h h' : Host}
  {id id' : BlockId} {fd : Fd} {fds : List Fd} {name path : String}

theorem congr (hl : Ledger strange has t h) (hhas : ∀ id fd, has' id fd ↔ has id fd) :
    Ledger strange has' t h := by
  obtain rfl : has' = has := funext fun id => funext fun fd => propext (hhas id fd)
  exact hl

theorem sameOpen (hl : Ledger strange has t h) (hh : h.SameOpen h') :
    Ledger strange has t h' where
  mem_iff := hl.mem_iff
  isOpen hfd := (hh.open_iff _).2 (hl.isOpen hfd)
  client hget := by
    rw [hh.clients] at hget
    exact ⟨(hh.open_iff _).2 (hl.client hget).1, (hl.client hget).2⟩
  name_eq hget hget' := by
    rw [hh.clients] at hget hget'
    exact hl.name_eq hget hget'
  owned hopen := by
    rw [hh.clients]
    exact hl.owned ((hh.open_iff _).1 hopen)

/-- No two servers have the same number. -/
theorem id_eq (hl : Ledger strange has t h) (hfd : has id fd) (hfd' : has id' fd) : id = id' := by
  have hw : t.watchOf? ⟨fd, none⟩ = some (.reading id fd) :=
    WatchTable.watchOf?_of_mem ((hl.mem_iff _).2 ⟨id, fd, hfd, rfl⟩)
  have hw' : t.watchOf? ⟨fd, none⟩ = some (.reading id' fd) :=
    WatchTable.watchOf?_of_mem ((hl.mem_iff _).2 ⟨id', fd, hfd', rfl⟩)
  exact congrArg Watch.owner (Option.some.inj (hw.symm.trans hw'))

/-- A server opens a number and has it watched. -/
theorem opens (hl : Ledger strange has t h) (ho : h.Opens h' fd)
    (hadd : t.add (.reading id fd) = .ok t') :
    Ledger strange (fun id' fd' => (id' = id ∧ fd' = fd) ∨ has id' fd') t' h' where
  mem_iff w := by
    have hnew : ∀ x ∈ t.toList, x.source ≠ (Watch.reading id fd).source := by
      intro x hx hsource
      obtain ⟨id', fd', hfd', rfl⟩ := (hl.mem_iff x).1 hx
      obtain rfl : fd' = fd := congrArg Source.fd hsource
      exact ho.fresh (hl.isOpen hfd')
    rw [WatchTable.mem_of_add hadd hnew, hl.mem_iff]
    constructor
    · rintro (rfl | ⟨id', fd', hfd', rfl⟩)
      · exact ⟨id, fd, .inl ⟨rfl, rfl⟩, rfl⟩
      · exact ⟨id', fd', .inr hfd', rfl⟩
    · rintro ⟨id', fd', ⟨rfl, rfl⟩ | hfd', rfl⟩
      · exact .inl rfl
      · exact .inr ⟨id', fd', hfd', rfl⟩
  isOpen := by
    rintro id' fd' (⟨-, rfl⟩ | hfd')
    · exact (ho.open_iff _).2 (.inl rfl)
    · exact (ho.open_iff _).2 (.inr (hl.isOpen hfd'))
  client {name fd'} hget := by
    rw [ho.clients] at hget
    obtain ⟨hopen, hnot⟩ := hl.client hget
    refine ⟨(ho.open_iff _).2 (.inr hopen), fun id' hhas => ?_⟩
    rcases hhas with ⟨-, rfl⟩ | hfd'
    · exact ho.fresh hopen
    · exact hnot id' hfd'
  name_eq hget hget' := by
    rw [ho.clients] at hget hget'
    exact hl.name_eq hget hget'
  owned {fd'} hopen := by
    rw [ho.clients]
    rcases (ho.open_iff _).1 hopen with rfl | hopen
    · exact .inl ⟨id, .inl ⟨rfl, rfl⟩⟩
    · exact (hl.owned hopen).imp_left fun ⟨id', hfd'⟩ => ⟨id', .inr hfd'⟩

/-- A server has a number watched no more and closes it. -/
theorem drop (hl : Ledger strange has t h) (hfd : has id fd) :
    Ledger strange (fun id' fd' => fd' ≠ fd ∧ has id' fd')
      (t.remove ⟨fd, none⟩ ⟨true, false⟩) (h.close fd) where
  mem_iff w := by
    have hread : ∀ x ∈ t.toList, x.source = ⟨fd, none⟩ → x.interest = ⟨true, false⟩ := by
      intro x hx _
      obtain ⟨id', fd', -, rfl⟩ := (hl.mem_iff x).1 hx
      rfl
    rw [WatchTable.mem_remove hread, hl.mem_iff]
    constructor
    · rintro ⟨hne, id', fd', hfd', rfl⟩
      exact ⟨id', fd', ⟨fun heq => hne (heq ▸ rfl), hfd'⟩, rfl⟩
    · rintro ⟨id', fd', ⟨hne, hfd'⟩, rfl⟩
      exact ⟨fun heq => hne (congrArg Source.fd heq), id', fd', hfd', rfl⟩
  isOpen hhas := Host.hasOpen_close.2 ⟨hhas.1, hl.isOpen hhas.2⟩
  client {name fd'} hget := by
    rw [h.clients_close] at hget
    obtain ⟨hopen, hnot⟩ := hl.client hget
    refine ⟨Host.hasOpen_close.2 ⟨fun heq => hnot id (heq ▸ hfd), hopen⟩, fun id' hhas => ?_⟩
    exact hnot id' hhas.2
  name_eq hget hget' := by
    rw [h.clients_close] at hget hget'
    exact hl.name_eq hget hget'
  owned {fd'} hopen := by
    obtain ⟨hne, hopen⟩ := Host.hasOpen_close.1 hopen
    rw [h.clients_close]
    exact (hl.owned hopen).imp_left fun ⟨id', hfd'⟩ => ⟨id', hne, hfd'⟩

/-- A server has its numbers watched no more and closes them. -/
theorem dropAll (hl : Ledger strange has t h) (hfds : ∀ fd ∈ fds, has id fd) (hnodup : fds.Nodup) :
    Ledger strange (fun id' fd' => fd' ∉ fds ∧ has id' fd') (t.withoutReading fds)
      (fds.foldl Host.close h) := by
  induction fds generalizing has t h with
  | nil => exact hl.congr fun _ _ => by simp
  | cons fd fds ih =>
    obtain ⟨hfd, hnodup⟩ := List.nodup_cons.1 hnodup
    have hrest : ∀ fd' ∈ fds, fd' ≠ fd ∧ has id fd' := fun fd' hfd' =>
      ⟨fun heq => hfd (heq ▸ hfd'), hfds fd' (.tail _ hfd')⟩
    refine (ih (hl.drop (hfds fd (.head _))) hrest hnodup).congr fun id' fd' => ?_
    rw [List.mem_cons, not_or, and_assoc, and_left_comm]

theorem hangUp (hl : Ledger strange has t h) (name : String) :
    Ledger strange has t (h.hangUp name).2 where
  mem_iff := hl.mem_iff
  isOpen {id fd} hfd := Host.hasOpen_hangUp.2 ⟨fun hget => (hl.client hget).2 id hfd, hl.isOpen hfd⟩
  client {name' fd} hget := by
    rw [Host.get?_hangUp] at hget
    split at hget
    · cases hget
    · next hne =>
      obtain ⟨hopen, hhas⟩ := hl.client hget
      exact ⟨Host.hasOpen_hangUp.2 ⟨fun hget' => hne (hl.name_eq hget' hget), hopen⟩, hhas⟩
  name_eq hget hget' := by
    rw [Host.get?_hangUp] at hget hget'
    split at hget
    · cases hget
    split at hget'
    · cases hget'
    exact hl.name_eq hget hget'
  owned {fd} hopen := by
    obtain ⟨hnot, hopen⟩ := Host.hasOpen_hangUp.1 hopen
    rcases hl.owned hopen with hserver | ⟨name', hget⟩ | hstrange
    · exact .inl hserver
    · refine .inr (.inl ⟨name', ?_⟩)
      have hne : name ≠ name' := fun heq => hnot (heq ▸ hget)
      rw [Host.get?_hangUp, if_neg hne]
      exact hget
    · exact .inr (.inr hstrange)

/-- A number that was opened is a stranger's as long as it is not known whose it is. -/
theorem stray (hl : Ledger strange has t h) (ho : h.Opens h' fd) :
    Ledger (fun fd' => fd' = fd ∨ strange fd') has t h' where
  mem_iff := hl.mem_iff
  isOpen hfd := (ho.open_iff _).2 (.inr (hl.isOpen hfd))
  client hget := by
    rw [ho.clients] at hget
    exact ⟨(ho.open_iff _).2 (.inr (hl.client hget).1), (hl.client hget).2⟩
  name_eq hget hget' := by
    rw [ho.clients] at hget hget'
    exact hl.name_eq hget hget'
  owned hopen := by
    rw [ho.clients]
    rcases (ho.open_iff _).1 hopen with rfl | hopen
    · exact .inr (.inr (.inl rfl))
    · exact (hl.owned hopen).imp_right (Or.imp_right .inr)

/-- A stranger's number becomes that of a client. -/
theorem enrolled (hl : Ledger (fun fd' => fd' = fd ∨ strange fd') has t h) (hopen : h.HasOpen fd)
    (hhas : ∀ id, ¬ has id fd) (hother : ∀ name', h.clients.get? name' ≠ some fd)
    (name : String) : Ledger strange has t (h.enrolled name fd) where
  mem_iff := hl.mem_iff
  isOpen {id fd'} hfd' :=
    Host.hasOpen_enrolled.2 ⟨fun hget => (hl.client hget).2 id hfd', hl.isOpen hfd'⟩
  client {name' fd'} hget := by
    rw [Host.get?_enrolled] at hget
    split at hget
    · cases hget
      exact ⟨Host.hasOpen_enrolled.2 ⟨hother name, hopen⟩, hhas⟩
    · next hne =>
      obtain ⟨hopen, hhas⟩ := hl.client hget
      exact ⟨Host.hasOpen_enrolled.2 ⟨fun hget' => hne (hl.name_eq hget' hget), hopen⟩, hhas⟩
  name_eq hget hget' := by
    rw [Host.get?_enrolled] at hget hget'
    split at hget
    · next heq =>
      cases hget
      split at hget'
      · next heq' => exact heq.symm.trans heq'
      · exact absurd hget' (hother _)
    split at hget'
    · cases hget'
      exact absurd hget (hother _)
    · exact hl.name_eq hget hget'
  owned {fd'} hopen := by
    obtain ⟨hnot, hopen⟩ := Host.hasOpen_enrolled.1 hopen
    rcases hl.owned hopen with hserver | ⟨name', hget⟩ | rfl | hstrange
    · exact .inl hserver
    · refine .inr (.inl ⟨name', ?_⟩)
      have hne : name ≠ name' := fun heq => hnot (heq ▸ hget)
      rw [Host.get?_enrolled, if_neg hne]
      exact hget
    · refine .inr (.inl ⟨name, ?_⟩)
      rw [Host.get?_enrolled, if_pos rfl]
    · exact .inr (.inr hstrange)

/-- A client connects. If there was one of its name, that one hangs up. -/
theorem connect (hl : Ledger strange has t h) (hroom : h.HasRoom) (name path : String) :
    Ledger strange has t (h.connect name path).2 := by
  rcases Host.connect_cases hroom name path with heq | ⟨h', fd, ho, heq⟩
  · rw [heq]
    exact hl
  · rw [heq]
    refine (hl.stray ho).enrolled ((ho.open_iff fd).2 (.inl rfl))
      (fun id hfd => ho.fresh (hl.isOpen hfd)) (fun name' hget => ?_) name
    rw [ho.clients] at hget
    exact ho.fresh (hl.client hget).1

/-- Whatever happens around the engine. -/
theorem act (hl : Ledger strange has t h) (hroom : h.HasRoom) {a : Host.Action}
    (ha : a.IsOfClients) : Ledger strange has t (h.act a).2 := by
  rcases h.act_cases ha with ⟨name, path, rfl⟩ | ⟨name, rfl⟩ | hsame
  · show Ledger strange has t (Host.plain (h.connect name path)).2
    rw [Host.snd_plain]
    exact hl.connect hroom name path
  · exact hl.hangUp name
  · exact hl.sameOpen hsame

end Ledger

end BlockFlow
