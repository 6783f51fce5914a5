import BlockFlow.Proofs.Untouched

/-!
# Commands on two machines

What commands do depends on the manager, the files and the open descriptors. It does not depend on
what waits on streams, on the clock or on what happened before, so on two machines that differ in
these alone the same commands come to the same results.

1. `Host.Matches`, `Machine.Paired`: such hosts, and such machines inside of a hook of a block;
   `Machine.doings`: what commands did.
2. `Run.Pairs`: a run that comes to the same on both machines, and leaves them like that; a rule for
   each thing that a run is made of.
3. `Script.IsLocal`, `pairs_callHook`: the hooks that operations call.
4. `pairs_line`, `pairs_loadBytes`: commands, which also leave streams untouched.
-/

namespace BlockFlow

/-! ## Hosts -/

/-- Two hosts with the same files, open descriptors and listeners. -/
structure Host.Matches (h h' : Host) : Prop where
  files : h'.files = h.files
  descriptors : h'.descriptors = h.descriptors
  listeners : h'.listeners = h.listeners

namespace Host.Matches

variable {h h' h'' : Host}

theorem refl (h : Host) : h.Matches h := ⟨rfl, rfl, rfl⟩

theorem symm (hh : h.Matches h') : h'.Matches h :=
  ⟨hh.files.symm, hh.descriptors.symm, hh.listeners.symm⟩

theorem trans (hh : h.Matches h') (hh' : h'.Matches h'') : h.Matches h'' :=
  ⟨hh'.files.trans hh.files, hh'.descriptors.trans hh.descriptors,
    hh'.listeners.trans hh.listeners⟩

theorem close (hh : h.Matches h') (fd : Fd) : (h.close fd).Matches (h'.close fd) := by
  have hparts (h : Host) : (h.close fd).files = h.files ∧ (h.close fd).listeners = h.listeners := by
    unfold Host.close
    split <;> exact ⟨rfl, rfl⟩
  refine ⟨?_, ?_, ?_⟩
  · rw [(hparts h').1, (hparts h).1, hh.files]
  · rw [descriptors_close, descriptors_close, hh.descriptors]
  · rw [(hparts h').2, (hparts h).2, hh.listeners]

theorem foldl_close (hh : h.Matches h') (fds : List Fd) :
    (fds.foldl Host.close h).Matches (fds.foldl Host.close h') := by
  induction fds generalizing h h' with
  | nil => exact hh
  | cons fd fds ih => exact ih (hh.close fd)

theorem nextFd_eq (hh : h.Matches h') : h'.nextFd = h.nextFd := by
  have hlowest (n : Nat) (fd : Fd) : h'.lowestFree n fd = h.lowestFree n fd := by
    induction n generalizing fd with
    | zero => rfl
    | succ n ih => rw [lowestFree, lowestFree, hh.descriptors, ih]
  unfold nextFd
  rw [hlowest, hh.descriptors]

theorem listen (hh : h.Matches h') (path : String) :
    (h'.listen path).1 = (h.listen path).1 ∧ (h.listen path).2.Matches (h'.listen path).2 := by
  unfold Host.listen
  rw [hh.files, hh.listeners]
  cases h.files.makeSocket path h.listeners with
  | error f => exact ⟨rfl, hh⟩
  | ok files =>
    have hopened : { h with files, listeners := h.listeners + 1 }.Matches
        { h' with files, listeners := h.listeners + 1 } := ⟨rfl, hh.descriptors, rfl⟩
    refine ⟨congrArg Except.ok hopened.nextFd_eq, rfl, ?_, rfl⟩
    show h'.descriptors.insert _ _ = h.descriptors.insert _ _
    rw [hopened.nextFd_eq, hh.descriptors]

theorem removeFile (hh : h.Matches h') (path : String) :
    (h'.removeFile path).1 = (h.removeFile path).1 ∧
      (h.removeFile path).2.Matches (h'.removeFile path).2 := by
  unfold Host.removeFile
  rw [hh.files]
  cases h.files.remove path with
  | error f => exact ⟨rfl, hh⟩
  | ok files => exact ⟨rfl, rfl, hh.descriptors, hh.listeners⟩

end Host.Matches

/-! ## Runs on two machines -/

variable {K : Kit} {α β : Type} {id : BlockId} {e : Entry K}

/-- Whether an event comes from commands: it is neither the beginning nor the end of a hook, nor a
notice of a poll or of a server. -/
def Event.isOfCommands : Event K → Bool
  | .entered .. => false
  | .left _ => false
  | .notice (.socketSilent _) => false
  | .notice (.polled ..) => false
  | .notice (.clientCommandFailed ..) => false
  | _ => true

/-- What commands did, the latest first. -/
def Machine.doings (s : Machine K) : List (Event K) := s.events.filter (·.isOfCommands)

/-- Two machines with the same manager, on hosts that match, on which commands did the same; both
have a given entry of a block. -/
structure Machine.Paired (id : BlockId) (e : Entry K) (s s' : Machine K) : Prop where
  manager : s'.manager = s.manager
  host : s.host.Matches s'.host
  doings : s'.doings = s.doings
  entry : s.manager.blocks.get? id = some e

/-- From one machine to another some events were recorded that do not come from commands. -/
structure Machine.Noted (s t : Machine K) : Prop where
  manager : t.manager = s.manager
  host : t.host = s.host
  events : s.events <:+ t.events
  doings : t.doings = s.doings

namespace Machine

variable {s s' t u : Machine K}

theorem Noted.refl (s : Machine K) : s.Noted s := ⟨rfl, rfl, List.suffix_rfl, rfl⟩

theorem Noted.cons (h : s.Noted t) {ev : Event K} (hev : ev.isOfCommands = false) :
    s.Noted { t with events := ev :: t.events } where
  manager := h.manager
  host := h.host
  events := h.events.trans (List.suffix_cons _ _)
  doings := by
    rw [← h.doings]
    exact List.filter_cons_of_neg (by simp [hev])

theorem Noted.untouched (h : s.Noted t) (fd : Fd) : s.Untouched fd t :=
  .of_watches h.events (h.host ▸ .refl fd _) (by rw [h.manager])

theorem Noted.paired (h : s.Noted t) (hp : s.Paired id e s') : t.Paired id e s' where
  manager := by rw [h.manager, hp.manager]
  host := h.host ▸ hp.host
  doings := by rw [h.doings, hp.doings]
  entry := by rw [h.manager, hp.entry]

/-- One event more came of commands on both sides, or on none. -/
theorem Paired.doings_cons (hp : s.Paired id e s') (ev : Event K) :
    (ev :: s'.events).filter (·.isOfCommands) = (ev :: s.events).filter (·.isOfCommands) := by
  rw [List.filter_cons, List.filter_cons]
  exact congrArg (fun es => if ev.isOfCommands then ev :: es else es) hp.doings

theorem Paired.onHost (hp : s.Paired id e s') {h : Host} (hh : s.host.Matches h) :
    Machine.Paired id e { s with host := h } s' :=
  ⟨hp.manager, hh.symm.trans hp.host, hp.doings, hp.entry⟩

end Machine

namespace Run

/-- A run comes to the same result on two machines, which are paired afterwards, and `P` holds of
the first one. -/
def Pairs (id : BlockId) (e : Entry K) (P : Machine K → Prop) (r : Run K α) (s s' : Machine K) :
    Prop :=
  ∃ a t t', s.run? r = some (.ok a, t) ∧ s'.run? r = some (.ok a, t') ∧ t.Paired id e t' ∧ P t

variable {P : Machine K → Prop} {s s' : Machine K}

theorem Pairs.bind {r : Run K α} {f : α → Run K β} (hr : r.Pairs id e P s s')
    (hf : ∀ a t t', t.Paired id e t' → P t → (f a).Pairs id e P t t') :
    (r >>= f).Pairs id e P s s' := by
  obtain ⟨a, t, t', ht, ht', hp, hP⟩ := hr
  obtain ⟨b, u, u', hu, hu', hpu, hPu⟩ := hf a t t' hp hP
  refine ⟨b, u, u', ?_, ?_, hpu, hPu⟩
  · rw [run?_bind, ht]
    exact hu
  · rw [run?_bind, ht']
    exact hu'

theorem Pairs.discard {r : Run K α} (hr : r.Pairs id e P s s') :
    (discard r).Pairs id e P s s' := by
  show (_ <$> r).Pairs id e P s s'
  rw [map_eq_pure_bind]
  exact hr.bind fun a t t' hp hP => ⟨_, t, t', rfl, rfl, hp, hP⟩

theorem Pairs.onBreak {r : Run K α} (hr : r.Pairs id e P s s') (last : Run K Unit) :
    (r.onBreak last).Pairs id e P s s' := by
  obtain ⟨a, t, t', ht, ht', hp, hP⟩ := hr
  refine ⟨a, t, t', ?_, ?_, hp, hP⟩
  · rw [run?_onBreak, ht]
  · rw [run?_onBreak, ht']

/-- Only what the run says of the first machine is needed if the run pairs anyway. -/
theorem Pairs.of_ends {r : Run K α} (hr : r.Pairs id e (fun _ => True) s s')
    (h : r.Abides .total (fun _ t => P t) s) : r.Pairs id e P s s' := by
  obtain ⟨a, t, t', ht, ht', hp, -⟩ := hr
  obtain ⟨b, u, hu, hP⟩ := abides_total_iff.1 h
  rw [ht] at hu
  cases hu
  exact ⟨a, t, t', ht, ht', hp, hP⟩

section Steps

variable (hp : s.Paired id e s')

include hp

theorem pairs_pure (a : α) (hP : P s) : (pure a : Run K α).Pairs id e P s s' :=
  ⟨a, s, s', rfl, rfl, hp, hP⟩

/-- Both machines have the same manager to look at. -/
theorem pairs_manager {f : Manager K → Run K α} (hf : (f s.manager).Pairs id e P s s') :
    (manager >>= f).Pairs id e P s s' := by
  obtain ⟨a, t, t', ht, ht', hpt, hP⟩ := hf
  refine ⟨a, t, t', ht, ?_, hpt, hP⟩
  rw [← hp.manager] at ht'
  exact ht'

theorem pairs_record (ev : Event K) (hP : P { s with events := ev :: s.events }) :
    (record ev).Pairs id e P s s' := by
  exact ⟨(), _, _, rfl, rfl, ⟨hp.manager, hp.host, hp.doings_cons ev, hp.entry⟩, hP⟩

theorem pairs_refuse {ε : Type} (n : Notice) (err : ε)
    (hP : P { s with events := .notice n :: s.events }) :
    (refuse n err : Run K (Except ε α)).Pairs id e P s s' :=
  (pairs_record hp (.notice n) hP).bind fun _ _ _ hp hP => pairs_pure hp _ hP

theorem pairs_onHost {f : Host → α × Host}
    (hf : (f s'.host).1 = (f s.host).1 ∧ (f s.host).2.Matches (f s'.host).2)
    (hP : P { s with host := (f s.host).2 }) : (onHost f).Pairs id e P s s' := by
  refine ⟨(f s.host).1, _, { s' with host := (f s'.host).2 }, rfl, ?_,
    ⟨hp.manager, hf.2, hp.doings, hp.entry⟩, hP⟩
  rw [← hf.1]
  rfl

theorem pairs_modifyManager {f : Manager K → Manager K}
    (hf : (f s.manager).blocks.get? id = some e) (hP : P { s with manager := f s.manager }) :
    (modifyManager f).Pairs id e P s s' :=
  ⟨(), _, _, rfl, rfl, ⟨congrArg f hp.manager, hp.host, hp.doings, hf⟩, hP⟩

theorem pairs_commit (ev : Event K) {f : Manager K → Manager K}
    (hf : (f s.manager).blocks.get? id = some e)
    (hP : P { s with manager := f s.manager, events := ev :: s.events }) :
    (commit ev f).Pairs id e P s s' :=
  ⟨(), _, _, rfl, rfl, ⟨congrArg f hp.manager, hp.host, hp.doings_cons ev, hf⟩, hP⟩

end Steps

/-! ## Scripts -/

end Run

/-- Requests that concern the manager, the files and the open descriptors only. -/
def Request.IsLocal {F M : Type} : Request F M → Prop
  | .watch _ => True
  | .unwatch _ => True
  | r => r.IsGentle

def Script.IsLocal {F M S α : Type} : Script F M S α → Prop
  | .done _ => True
  | .keep _ next => next.IsLocal
  | .call r next => r.IsLocal ∧ ∀ x, (next x).IsLocal

namespace Run

variable {call : Call K} {n : Nat} {s s' : Machine K}

theorem pairs_watch (hp : s.Paired id e s') (w : Watch) :
    (watch w).Pairs id e (fun _ => True) s s' := by
  refine pairs_manager hp ?_
  split
  · split
    · exact pairs_refuse hp _ _ trivial
    · refine (pairs_commit hp _ hp.entry trivial).bind fun _ t t' hp _ => ?_
      exact (pairs_record hp _ trivial).bind fun _ _ _ hp _ => pairs_pure hp _ trivial
  · exact pairs_refuse hp _ _ trivial

theorem pairs_perform {r : Request K.Factory K.Remark} (hr : r.IsLocal)
    (hp : s.Paired id e s') : (perform call n r).Pairs id e (fun _ => True) s s' := by
  cases r with
  | watch w => exact pairs_watch hp w
  | unwatch w =>
    refine (pairs_record hp _ trivial).bind fun _ t t' hp _ => ?_
    exact pairs_modifyManager hp hp.entry trivial
  | listen path => exact pairs_onHost hp (f := (·.listen path)) (hp.host.listen path) trivial
  | removeFile path =>
    exact pairs_onHost hp (f := (·.removeFile path)) (hp.host.removeFile path) trivial
  | close fd =>
    exact pairs_onHost hp (f := fun h => ((), h.close fd)) ⟨rfl, hp.host.close fd⟩ trivial
  | notice note => exact pairs_record hp (.notice note) trivial
  | _ => exact hr.elim

theorem pairs_runScript {S : Type} {leave : S → Run K Unit}
    {script : Script K.Factory K.Remark S α} (hscript : script.IsLocal) (c : S)
    (hp : s.Paired id e s') :
    (runScript call n leave c script).Pairs id e (fun _ => True) s s' := by
  induction script generalizing c s s' with
  | done a => exact pairs_pure hp _ trivial
  | keep c' next ih => exact ih hscript c' hp
  | call r next ih =>
    refine ((pairs_perform hscript.1 hp).onBreak _).bind fun x t t' hp _ => ?_
    exact ih x (hscript.2 x) c hp

end Run

/-! ## Hooks of built-in blocks -/

section Scripts

variable {F M S T : Type}

theorem Script.IsGentle.isLocal {script : Script F M S α} (h : script.IsGentle) :
    script.IsLocal := by
  induction script with
  | done => trivial
  | keep _ _ ih => exact ih h
  | call r next ih =>
    refine ⟨?_, fun x => ih x (h.2 x)⟩
    cases r with
    | watch | unwatch => trivial
    | _ => exact h.1

theorem Script.IsLocal.bind {script : Script F M S α} {f : α → Script F M S β}
    (h : script.IsLocal) (hf : ∀ a, (f a).IsLocal) : (script >>= f).IsLocal := by
  show (script.andThen f).IsLocal
  induction script with
  | done a => exact hf a
  | keep _ _ ih => exact ih h
  | call r next ih => exact ⟨h.1, fun x => ih x (h.2 x)⟩

theorem Script.IsLocal.mapState {script : Script F M S α} (h : script.IsLocal) (f : S → T) :
    (script.mapState f).IsLocal := by
  induction script with
  | done => trivial
  | keep _ _ ih => exact ih h
  | call r next ih => exact ⟨h.1, fun x => ih x (h.2 x)⟩

namespace Server

theorem isLocal_unwatchAll (id : BlockId) (fds : List Fd) :
    (unwatchAll id fds : Script F M S Unit).IsLocal := by
  induction fds with
  | nil => trivial
  | cons fd fds ih => exact ⟨trivial, fun _ => ih⟩

theorem isLocal_start (sv : Server) (id : BlockId) :
    (sv.start id : Script F M S Server).IsLocal := by
  unfold start
  cases sv.path with
  | none => exact ⟨trivial, fun _ => trivial⟩
  | some path =>
    refine ⟨trivial, fun _ => ⟨trivial, fun x => ?_⟩⟩
    cases x with
    | error f => exact ⟨trivial, fun _ => trivial⟩
    | ok fd =>
      refine ⟨trivial, fun y => ?_⟩
      cases y with
      | error _ => exact ⟨trivial, fun _ => trivial⟩
      | ok _ => exact ⟨trivial, fun _ => trivial⟩

theorem isLocal_stop (sv : Server) (id : BlockId) :
    (sv.stop id : Script F M S Server).IsLocal := by
  have hhangUp (fds : List Fd) {script : Script F M S Server} (h : script.IsLocal) :
      (do unwatchAll id fds; closeAll fds; script : Script F M S Server).IsLocal :=
    (isLocal_unwatchAll id fds).bind fun _ => (isGentle_closeAll fds).isLocal.bind fun _ => h
  refine hhangUp _ (hhangUp _ ?_)
  refine (isGentle_removeAddress sv).isLocal.bind fun _ => ⟨trivial, fun _ => trivial⟩

end Server

theorem Builtin.isLocal_hook (c : Builtin) (id : BlockId) {hook : Hook}
    (hhook : hook.IsLifecycle) : (c.hook id hook : Script F M Builtin Reply).IsLocal := by
  cases c with
  | hello h => exact (h.isGentle_hook id hhook).isLocal.mapState Builtin.hello
  | server sv =>
    refine Script.IsLocal.mapState ?_ Builtin.server
    have hleaving {script : Script F M Server Server} (h : script.IsLocal) :
        (Server.leaving script).IsLocal := h.bind fun _ => trivial
    cases hook with
    | bind => trivial
    | start => exact hleaving (Server.isLocal_start sv id)
    | stop => exact hleaving (Server.isLocal_stop sv id)
    | configure conf => exact hleaving (Server.isGentle_applyEntries id sv _).isLocal
    | _ => exact hhook.elim

end Scripts

/-! ## Commands of built-in blocks -/

theorem Builtin.untouched_release (fd : Fd) (h : Host) (c : Builtin) :
    h.Untouched fd (c.release h) := by
  cases c with
  | hello _ => exact .refl fd h
  | server sv => exact h.untouched_foldl_close fd sv.descriptors

theorem Host.Matches.release {h h' : Host} (hh : h.Matches h') (c : Builtin) :
    (c.release h).Matches (c.release h') := by
  cases c with
  | hello _ => exact hh
  | server sv => exact hh.foldl_close sv.descriptors

namespace Run

section Commands

variable {id : BlockId} {e : Entry Builtin.kit} {fd : Fd} {s₀ s s' : Machine Builtin.kit}
  (he : e.contents = none) (hp : s.Paired id e s') (hu : s₀.Untouched fd s)

include hp hu

theorem pairs_notify (note : Notice) :
    (notify note : Run Builtin.kit Unit).Pairs id e (s₀.Untouched fd) s s' :=
  pairs_record hp _ (hu.record _)

theorem pairs_refusal {ε : Type} (note : Notice) (err : ε) :
    (refuse note err : Run Builtin.kit (Except ε α)).Pairs id e (s₀.Untouched fd) s s' :=
  pairs_refuse hp note err (hu.record _)

/-- The entry of another block is changed. -/
theorem pairs_modifyEntry {id' : BlockId} (hid : id' ≠ id)
    (f : Entry Builtin.kit → Entry Builtin.kit) :
    (modifyEntry id' f).Pairs id e (s₀.Untouched fd) s s' := by
  refine pairs_modifyManager hp ?_ (hu.onManager rfl)
  show (s.manager.blocks.modify id' f).get? id = some e
  rw [Keyed.get?_modify, if_neg hid]
  exact hp.entry

theorem pairs_release (serial : Nat) (c : Builtin) :
    (release serial c : Run Builtin.kit Unit).Pairs id e (s₀.Untouched fd) s s' := by
  refine (pairs_record hp (.released serial) (hu.record _)).bind fun _ t t' hp hu => ?_
  exact pairs_onHost hp (f := fun h => ((), c.release h)) ⟨rfl, hp.host.release c⟩
    (hu.onHost (c.untouched_release fd t.host))

theorem pairs_leave {id' : BlockId} (hid : id' ≠ id) (serial : Nat) (c : Builtin) :
    (leave id' serial c : Run Builtin.kit Unit).Pairs id e (s₀.Untouched fd) s s' := by
  refine (pairs_record hp (.left serial) (hu.record _)).bind fun _ t t' hp hu => ?_
  refine pairs_manager hp ?_
  split
  · split
    · exact pairs_modifyEntry hp hu hid _
    · exact pairs_release hp hu serial c
  · exact pairs_release hp hu serial c

omit hp hu in
/-- A block that is not inside of a hook is another one than a block that is. -/
theorem ne_of_idle {m : Manager Builtin.kit} {id' : BlockId} {e' : Entry Builtin.kit}
    {c : Builtin} (he : e.contents = none) (hget : m.blocks.get? id = some e)
    (hget' : m.blocks.get? id' = some e') (hc : e'.contents = some c) : id' ≠ id := by
  rintro rfl
  rw [hget] at hget'
  cases hget'
  rw [he] at hc
  cases hc

include he

theorem pairs_callHook (n : Nat) (id' : BlockId) (hook : Hook) (hhook : hook.IsLifecycle) :
    (callHook (n + 1) id' hook).Pairs id e (s₀.Untouched fd) s s' := by
  unfold callHook enter
  refine pairs_manager hp ?_
  cases hget : s.manager.blocks.get? id' with
  | none => exact pairs_pure hp none hu
  | some e' =>
    dsimp only
    cases hc : e'.contents with
    | none => exact (pairs_notify hp hu _).bind fun _ _ _ hp hu => pairs_pure hp none hu
    | some c =>
      have hid : id' ≠ id := ne_of_idle he hp.entry hget hc
      refine (pairs_modifyEntry hp hu hid _).bind fun _ _ _ hp hu => ?_
      refine (pairs_record hp _ (hu.record _)).bind fun _ t t' hp hu => ?_
      refine Pairs.bind (r := pause) ⟨(), t, t', rfl, rfl, hp, hu⟩ fun _ t t' hp hu => ?_
      have hscript : (runScript (callHook n) n (leave id' e'.serial) c
          (Builtin.kit.hook c id' hook)).Pairs id e (fun _ => True) t t' :=
        pairs_runScript (Builtin.isLocal_hook c id' hhook) c hp
      refine (hscript.of_ends (Abides.mono (leaves_builtin c id' hhook t) fun _ _ h =>
        hu.trans h)).bind fun r _ _ hp hu => ?_
      exact (pairs_leave hp hu hid e'.serial r.2).bind fun _ _ _ hp hu => pairs_pure hp _ hu

/-- An operation on a block that is idle, and so is another one. -/
theorem pairs_withIdle {id' : BlockId}
    {f : Entry Builtin.kit → Builtin → Run Builtin.kit (Except EngineError α)}
    (h : ∀ e' c, id' ≠ id → (f e' c).Pairs id e (s₀.Untouched fd) s s') :
    (withIdle id' f).Pairs id e (s₀.Untouched fd) s s' := by
  refine pairs_manager hp ?_
  cases hget : s.manager.blocks.get? id' with
  | none => exact pairs_refusal hp hu _ _
  | some e' =>
    dsimp only
    cases hc : e'.contents with
    | none => exact pairs_refusal hp hu _ _
    | some c => exact h e' c (ne_of_idle he hp.entry hget hc)

omit he in
theorem pairs_add (id' : BlockId) (type : String) :
    (add id' type : Run Builtin.kit _).Pairs id e (s₀.Untouched fd) s s' := by
  refine pairs_manager hp ?_
  split
  · exact pairs_refusal hp hu _ _
  split
  · exact pairs_refusal hp hu _ _
  next hnew =>
  split
  · exact pairs_refusal hp hu _ _
  next kind _ =>
  have hid : id' ≠ id := by
    rintro rfl
    rw [Keyed.contains, hp.entry] at hnew
    exact hnew rfl
  refine (pairs_onHost hp (f := Builtin.kit.build kind) ⟨rfl, hp.host⟩ hu).bind
    fun made _ _ hp hu => ?_
  cases made with
  | none => exact pairs_refusal hp hu _ _
  | some c =>
    refine (pairs_record hp _ (hu.record _)).bind fun _ _ _ hp hu => ?_
    refine (pairs_notify hp hu _).bind fun _ t _ hp hu => ?_
    refine (pairs_modifyManager hp ?_ (hu.onManager rfl)).bind fun _ _ _ hp hu => pairs_pure hp _ hu
    show (t.manager.blocks.insert id' _).get? id = some e
    rw [Keyed.get?_insert, if_neg hid]
    exact hp.entry

/-- Something is noted about an idle block and told, then its hook is called. -/
theorem pairs_mark (n : Nat) {id' : BlockId} (hid : id' ≠ id)
    (f : Entry Builtin.kit → Entry Builtin.kit) (note : Notice) (hook : Hook)
    (hhook : hook.IsLifecycle) (a : α) :
    (do
      modifyEntry id' f
      notify note
      discard (callHook (n + 1) id' hook)
      return a : Run Builtin.kit α).Pairs id e (s₀.Untouched fd) s s' := by
  refine (pairs_modifyEntry hp hu hid f).bind fun _ _ _ hp hu => ?_
  refine (pairs_notify hp hu note).bind fun _ _ _ hp hu => ?_
  have hcalled := pairs_callHook he hp hu n id' hook hhook
  exact hcalled.discard.bind fun _ _ _ hp hu => pairs_pure hp _ hu

theorem pairs_start (n : Nat) (id' : BlockId) :
    (start (callHook (n + 1)) id').Pairs id e (s₀.Untouched fd) s s' := by
  refine pairs_withIdle he hp hu fun e' c hid => ?_
  dsimp only
  cases e'.state with
  | started => exact (pairs_notify hp hu _).bind fun _ _ _ hp hu => pairs_pure hp _ hu
  | stopped => exact pairs_mark he hp hu n hid _ _ .start trivial _

theorem pairs_stop (n : Nat) (id' : BlockId) :
    (stop (callHook (n + 1)) id').Pairs id e (s₀.Untouched fd) s s' := by
  refine pairs_withIdle he hp hu fun e' c hid => ?_
  dsimp only
  cases e'.state with
  | stopped => exact (pairs_notify hp hu _).bind fun _ _ _ hp hu => pairs_pure hp _ hu
  | started => exact pairs_mark he hp hu n hid _ _ .stop trivial _

theorem pairs_bind (n : Nat) (id' : BlockId) (port : Port) (dest : BlockId) :
    (bind (callHook (n + 1)) id' port dest).Pairs id e (s₀.Untouched fd) s s' := by
  refine pairs_manager hp ?_
  split
  · refine pairs_withIdle he hp hu fun e' c hid => ?_
    exact pairs_mark he hp hu n hid _ _ (.bind port dest) trivial _
  · exact pairs_refusal hp hu _ _

theorem pairs_conf (n : Nat) (id' : BlockId) (entry : String) :
    (conf (callHook (n + 1)) id' entry).Pairs id e (s₀.Untouched fd) s s' := by
  refine pairs_withIdle he hp hu fun e' c hid => ?_
  refine (pairs_notify hp hu _).bind fun _ _ _ hp hu => ?_
  have hcalled := pairs_callHook he hp hu n id' (.configure entry) trivial
  exact hcalled.discard.bind fun _ _ _ hp hu => pairs_pure hp _ hu

theorem pairs_del (id' : BlockId) :
    (del id' : Run Builtin.kit _).Pairs id e (s₀.Untouched fd) s s' := by
  refine pairs_withIdle he hp hu fun e' c hid => ?_
  cases e'.state with
  | started => exact pairs_refusal hp hu _ _
  | stopped =>
    refine pairs_manager hp ?_
    split
    · exact pairs_refusal hp hu _ _
    · refine (pairs_notify hp hu _).bind fun _ t _ hp hu => ?_
      refine Pairs.bind (r := erase id') (pairs_modifyManager hp ?_ (hu.onManager rfl))
        fun _ _ _ hp hu => ?_
      · show (t.manager.blocks.erase id').get? id = some e
        rw [Keyed.get?_erase, if_neg hid]
        exact hp.entry
      refine (pairs_record hp _ (hu.record _)).bind fun _ _ _ hp hu => ?_
      exact (pairs_release hp hu _ _).bind fun _ _ _ hp hu => pairs_pure hp _ hu

theorem pairs_obey (n : Nat) (id' : BlockId) (order : Order) :
    (obey (callHook (n + 1)) id' order).Pairs id e (s₀.Untouched fd) s s' := by
  cases order with
  | add type => exact pairs_add hp hu id' type
  | init =>
    refine pairs_manager hp ?_
    split
    · exact (pairs_notify hp hu _).bind fun _ _ _ hp hu => pairs_pure hp _ hu
    · exact pairs_refusal hp hu _ _
  | conf entry => exact pairs_conf he hp hu n id' entry
  | bind port dest => exact pairs_bind he hp hu n id' port dest
  | start => exact pairs_start he hp hu n id'
  | stop => exact pairs_stop he hp hu n id'
  | del => exact pairs_del he hp hu id'

theorem pairs_exec (n : Nat) (kind : CommandKind) (id' : BlockId) (arg : Option String) :
    (exec (callHook (n + 1)) kind id' arg).Pairs id e (s₀.Untouched fd) s s' := by
  refine (pairs_notify hp hu _).bind fun _ _ _ hp hu => ?_
  split
  · exact pairs_refusal hp hu _ _
  split
  · exact pairs_refusal hp hu _ _
  · exact pairs_refusal hp hu _ _
  · exact (pairs_obey he hp hu n id' _).bind fun _ _ _ hp hu => pairs_pure hp _ hu

theorem pairs_line (n : Nat) (cs : List Char) :
    (line (callHook (n + 1)) cs).Pairs id e (s₀.Untouched fd) s s' := by
  unfold line
  split
  · exact pairs_refusal hp hu _ _
  · exact pairs_refusal hp hu _ _
  · exact pairs_exec he hp hu n _ _ _

theorem pairs_applyCommands (n : Nat) (tally : Tally) (cs : List Command) :
    (applyCommands (callHook (n + 1)) tally cs).Pairs id e (s₀.Untouched fd) s s' := by
  induction cs generalizing tally s s' with
  | nil => exact pairs_pure hp _ hu
  | cons c cs ih =>
    exact (pairs_exec he hp hu n c.kind c.id c.arg?).bind fun _ _ _ hp hu => ih hp hu _

theorem pairs_loadBytes (n : Nat) (bytes : List UInt8) :
    (loadBytes (callHook (n + 1)) bytes).Pairs id e (s₀.Untouched fd) s s' := by
  unfold loadBytes
  split
  · exact pairs_refusal hp hu _ _
  · exact pairs_exec he hp hu n _ _ _
  · exact (pairs_applyCommands he hp hu n _ _).bind fun _ _ _ hp hu => pairs_pure hp _ hu

end Commands

end Run

end BlockFlow
