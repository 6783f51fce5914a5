import BlockFlow.Proofs.Balance
import BlockFlow.Proofs.Operations

/-!
# Runs that keep the books

Whatever the engine does with built-in blocks, it keeps the books of their servers: what holds of
their descriptors before holds afterwards, and blocks that are inside of hooks are left alone. Only
the requests that reach for single descriptors from outside may do otherwise.

1. `Call.Balances`, `Balances.bind`: calls of hooks that keep the books, and runs put together.
2. `balanced_withIdle`, `balanced_halt`, `balanced_del`: the operations on blocks;
   `balanced_clear`: the end of all blocks; `Operates.balances`: whatever is made of operations.
3. `balanced_server`, `balanced_builtin`, `balanced_enter`: a hook, from its script to its end;
   `balances_callHook`: hence every call of a hook, however deep the calls are.
-/

namespace BlockFlow

open Run

variable {strange : Fd → Prop} {α β : Type}

/-! ## Runs that keep the books -/

/-- Calls of hooks keep the books, and leave the block of the hook live. For a hook about which the
engine has noted something, the machine before the note counts. -/
structure Call.Balances (strange : Fd → Prop) (call : Call Builtin.kit) : Prop where
  plain {id : BlockId} {hook : Hook} (h : hook.IsPlain) : (call id hook).Balances strange
  marked {away : BlockId → List Fd} {s : Machine Builtin.kit} {id : BlockId}
    {e : Entry Builtin.kit} {hook : Hook} (hb : s.Balanced strange away)
    (hget : s.manager.blocks.get? id = some e) (hc : e.contents ≠ none)
    (hadm : e.Admits s.manager hook) :
    (call id hook).Abides .withRoom (fun _ t => t.Balanced strange away ∧ s.KeepsBusy t ∧
      ∃ c, t.manager.blocks.get? id = some { hook.mark e with contents := some c })
      (s.marked id hook)

namespace Run

variable {call : Call Builtin.kit} {away : BlockId → List Fd} {s t : Machine Builtin.kit}
  {id : BlockId} {e : Entry Builtin.kit} {c : Builtin} {m : Nat}

theorem Balances.bind {r : Run Builtin.kit α} {f : α → Run Builtin.kit β} (hr : r.Balances strange)
    (hf : ∀ a, (f a).Balances strange) : (r >>= f).Balances strange := by
  intro away s hb
  rw [abides_bind]
  refine (hr away s hb).mono fun a t ht => ?_
  exact (hf a away t ht.1).mono fun _ u hu => ⟨hu.1, ht.2.trans hu.2⟩

theorem Balances.discard {r : Run Builtin.kit α} (h : r.Balances strange) :
    (discard r).Balances strange := by
  intro away s hb
  rw [abides_discard]
  exact h away s hb

theorem balances_of_sameBooks {r : Run Builtin.kit α}
    (h : ∀ s, r.Abides .total (fun _ t => s.SameBooks t) s) : r.Balances strange := fun _ s hb =>
  Abides.given ((h s).mono fun _ _ ht => ⟨hb.sameBooks ht, ht.keepsBusy⟩)

theorem balances_pure (a : α) : (pure a : Run Builtin.kit α).Balances strange :=
  balances_of_sameBooks .refl

theorem balances_outOfFuel : (outOfFuel : Run Builtin.kit α).Balances strange :=
  fun _ _ _ => trivial

theorem balances_manager : (manager : Run Builtin.kit _).Balances strange :=
  balances_of_sameBooks .refl

theorem balances_record (ev : Event Builtin.kit) : (record ev).Balances strange :=
  balances_of_sameBooks fun _ => ⟨rfl, rfl, .refl _⟩

theorem balances_refuse {ε : Type} (n : Notice) (err : ε) :
    (refuse n err : Run Builtin.kit (Except ε α)).Balances strange :=
  (balances_record _).bind fun _ => balances_pure _

theorem balances_onHost {f : Host → α × Host} (hf : ∀ h : Host, h.SameOpen (f h).2) :
    (onHost f : Run Builtin.kit α).Balances strange :=
  balances_of_sameBooks fun s => ⟨rfl, rfl, hf s.host⟩

theorem balances_aside {f : Manager Builtin.kit → Manager Builtin.kit}
    (hblocks : ∀ m, (f m).blocks = m.blocks) (hwatches : ∀ m, (f m).watches = m.watches) :
    (modifyManager f).Balances strange :=
  balances_of_sameBooks fun s => ⟨hblocks s.manager, hwatches s.manager, .refl _⟩

theorem balances_commit (ev : Event Builtin.kit) {f : Manager Builtin.kit → Manager Builtin.kit}
    (hblocks : ∀ m, (f m).blocks = m.blocks) (hwatches : ∀ m, (f m).watches = m.watches) :
    (commit ev f).Balances strange :=
  balances_of_sameBooks fun s => ⟨hblocks s.manager, hwatches s.manager, .refl _⟩

/-! ## Timers -/

theorem balances_arm (owner : BlockId) (tid : TimerId) (delay : Duration) (arg : Payload) :
    (arm owner tid delay arg : Run Builtin.kit _).Balances strange := by
  refine balances_manager.bind fun m => ?_
  split
  · refine (balances_onHost fun h => Host.sameOpen_of_descriptors rfl rfl).bind fun now => ?_
    cases now.later? delay with
    | none => exact balances_refuse _ _
    | some expiration =>
      refine (balances_record _).bind fun _ => Balances.bind ?_ fun _ => balances_pure _
      exact balances_commit _ (fun _ => rfl) fun _ => rfl
  · exact balances_refuse _ _

theorem balances_disarm (owner : BlockId) (tid : TimerId) :
    (disarm owner tid : Run Builtin.kit _).Balances strange := by
  refine balances_manager.bind fun m => ?_
  have hlast : (modifyManager fun m' : Manager Builtin.kit =>
      { m' with timers := (m.timers.remove owner tid).2 }).Balances strange :=
    balances_aside (fun _ => rfl) fun _ => rfl
  show Balances strange (if (m.timers.remove owner tid).1 then _ else _)
  split
  · exact (balances_record _).bind fun _ => hlast
  · exact hlast

theorem balances_popThen {now : Instant} {r : Run Builtin.kit α} {f : Timer → Run Builtin.kit α}
    (hr : r.Balances strange) (hf : ∀ t, (f t).Balances strange) :
    (popThen now r f).Balances strange := by
  refine balances_manager.bind fun m => ?_
  dsimp only
  cases (m.timers.popExpired now).1 with
  | none => exact hr
  | some t =>
    refine Balances.bind ?_ fun _ => hf t
    exact balances_aside (fun _ => rfl) fun _ => rfl

/-! ## Operations on blocks -/

/-- An operation on a block is refused, or something is done with an idle block. -/
theorem balanced_withIdle {f : Entry Builtin.kit → Builtin → Run Builtin.kit (Except EngineError α)}
    {Q : Machine Builtin.kit → Prop}
    (hrefuse : ∀ es, (∀ e, s.manager.blocks.get? id = some e → e.contents = none) →
      Q { s with events := es })
    (h : ∀ e c, s.manager.blocks.get? id = some e → e.contents = some c →
      (f e c).Abides .withRoom (fun _ t => Q t) s) :
    (withIdle id f).Abides .withRoom (fun _ t => Q t) s := by
  unfold withIdle
  rw [abides_bind, abides_manager]
  cases hget : s.manager.blocks.get? id with
  | none => exact hrefuse _ fun e he => by rw [hget] at he; cases he
  | some e =>
    cases hc : e.contents with
    | none =>
      simp only [hc]
      refine hrefuse _ fun e' he' => ?_
      rw [hget] at he'
      cases he'
      exact hc
    | some c =>
      simp only [hc]
      exact h e c hget hc

theorem balances_withIdle {f : Entry Builtin.kit → Builtin → Run Builtin.kit (Except EngineError α)}
    (h : ∀ away s e c, Machine.Balanced s strange away → s.manager.blocks.get? id = some e →
      e.contents = some c →
      (f e c).Abides .withRoom (fun _ t => t.Balanced strange away ∧ s.KeepsBusy t) s) :
    (withIdle id f).Balances strange := fun away s hb =>
  balanced_withIdle (fun es _ => hb.told es)
    fun e c hget hc => h away s e c hb hget hc

/-- Something is noted about an idle block and told, then its hook is called. -/
theorem balanced_mark (hcall : Call.Balances strange call) (hook : Hook)
    (hb : s.Balanced strange away) (hget : s.manager.blocks.get? id = some e)
    (hc : e.contents = some c) (hadm : e.Admits s.manager hook) (n : Notice) (a : α) :
    (do
      modifyEntry id hook.mark
      notify n
      discard (call id hook)
      return a : Run Builtin.kit α).Abides .withRoom (fun _ t =>
        t.Balanced strange away ∧ s.KeepsBusy t ∧
          ∃ c, t.manager.blocks.get? id = some { hook.mark e with contents := some c }) s := by
  have hne : e.contents ≠ none := by rw [hc]; exact Option.some_ne_none c
  obtain ⟨htold, -⟩ := hb.told (.notice n :: s.events)
  rw [abides_bind, abides_modifyEntry, abides_bind, abides_notify, abides_bind,
    abides_discard]
  exact (hcall.marked htold hget hne hadm).mono fun _ t ht => ht

theorem balances_start (hcall : Call.Balances strange call) (id : BlockId) :
    (start call id).Balances strange := by
  refine balances_withIdle fun away s e c hb hget hc => ?_
  cases hst : e.state with
  | started => exact ((balances_record _).bind fun _ => balances_pure _) away s hb
  | stopped =>
    exact (balanced_mark hcall .start hb hget hc hst _ _).mono fun _ _ ht => ⟨ht.1, ht.2.1⟩

/-- A block is stopped afterwards unless it is inside of one of its hooks. -/
theorem balanced_halt (hcall : Call.Balances strange call) (hb : s.Balanced strange away)
    (id : BlockId) : (stop call id).Abides .withRoom (fun _ t =>
      (t.Balanced strange away ∧ s.KeepsBusy t) ∧ ∀ e, t.manager.blocks.get? id = some e →
        e.contents ≠ none → e.state = .stopped) s := by
  refine balanced_withIdle (Q := fun t => (t.Balanced strange away ∧ s.KeepsBusy t) ∧
    ∀ e, t.manager.blocks.get? id = some e → e.contents ≠ none → e.state = .stopped)
    (fun _ hbusy => ?_) fun e c hget hc => ?_
  · exact ⟨hb.told _, fun e hget hne =>
      absurd (hbusy e hget) hne⟩
  cases hst : e.state with
  | stopped =>
    refine Abides.given ⟨hb.told _, fun e' hget' _ => ?_⟩
    cases hget.symm.trans hget'
    exact hst
  | started =>
    refine (balanced_mark hcall .stop hb hget hc hst _ _).mono fun _ t ht => ?_
    obtain ⟨hb', hkeeps, c', hget'⟩ := ht
    refine ⟨⟨hb', hkeeps⟩, fun e' hget'' _ => ?_⟩
    cases hget'.symm.trans hget''
    rfl

theorem balances_stop (hcall : Call.Balances strange call) (id : BlockId) :
    (stop call id).Balances strange := fun _ _ hb =>
  (balanced_halt hcall hb id).mono fun _ _ ht => ht.1

theorem balances_connect (hcall : Call.Balances strange call) (id : BlockId) (port : Port)
    (dest : BlockId) : (Run.bind call id port dest).Balances strange := by
  intro away s hb
  unfold Run.bind
  rw [abides_bind, abides_manager]
  split
  · next hdest =>
    refine balanced_withIdle (fun es _ => hb.told es) fun e c hget hc => ?_
    exact (balanced_mark hcall (.bind port dest) hb hget hc hdest _ _).mono
      fun _ _ ht => ⟨ht.1, ht.2.1⟩
  · exact balances_refuse _ _ away s hb

theorem balances_conf (hcall : Call.Balances strange call) (id : BlockId) (entry : String) :
    (conf call id entry).Balances strange := by
  refine balances_withIdle fun away s _ _ hb _ _ => ?_
  have hplain : (call id (.configure entry)).Balances strange := hcall.plain trivial
  exact ((balances_record _).bind fun _ => hplain.discard.bind fun _ => balances_pure _) away s hb

theorem balances_add (id : BlockId) (type : String) : (add id type).Balances strange := by
  intro away s hb
  unfold add
  rw [abides_bind, abides_manager]
  split
  · exact balances_refuse _ _ away s hb
  split
  · exact balances_refuse _ _ away s hb
  next hnew =>
  split
  · exact balances_refuse _ _ away s hb
  next kind _ =>
  have hnew' : s.manager.blocks.get? id = none := by simpa [Keyed.contains] using hnew
  let e : Entry Builtin.kit :=
    { serial := s.manager.built, type, contents := some (Builtin.build kind) }
  have hc : e.contents = some (Builtin.build kind) := rfl
  exact Abides.given ⟨hb.added hnew' kind hc rfl rfl rfl, Machine.keepsBusy_added hnew' hc rfl⟩

/-- A deletion leaves the blocks as they are that are live afterwards. -/
theorem balanced_del (hb : s.Balanced strange away) (id : BlockId) :
    (del id : Run Builtin.kit _).Abides .withRoom (fun _ t =>
      (t.Balanced strange away ∧ s.KeepsBusy t) ∧
        ∀ id' e, t.manager.blocks.get? id' = some e → s.manager.blocks.get? id' = some e) s := by
  have hrefused (es : List (Event Builtin.kit)) :
      ({ s with events := es }.Balanced strange away ∧ s.KeepsBusy { s with events := es }) ∧
        ∀ id' e, s.manager.blocks.get? id' = some e → s.manager.blocks.get? id' = some e :=
    ⟨hb.told es, fun _ _ h => h⟩
  refine balanced_withIdle (Q := fun t => (t.Balanced strange away ∧ s.KeepsBusy t) ∧
    ∀ id' e, t.manager.blocks.get? id' = some e → s.manager.blocks.get? id' = some e)
    (fun es _ => hrefused es) fun e c hget hc => ?_
  cases hst : e.state with
  | started => exact Abides.given (hrefused _)
  | stopped =>
    rw [abides_bind, abides_manager]
    split
    · exact Abides.given (hrefused _)
    · exact Abides.given ⟨⟨hb.erased hget hc hst rfl rfl rfl,
        Machine.keepsBusy_erased hget hc rfl⟩, fun id' e' hget' => (Keyed.of_get?_erase hget').2⟩

theorem balances_del (id : BlockId) : (del id : Run Builtin.kit _).Balances strange := fun _ _ hb =>
  (balanced_del hb id).mono fun _ _ ht => ht.1

/-! ## All blocks -/

/-- A block is dropped that is stopped. -/
theorem ends_force (hb : s.Balanced strange away) {id : BlockId}
    (hidle : ∀ e, s.manager.blocks.get? id = some e → e.contents ≠ none)
    (hstopped : ∀ e, s.manager.blocks.get? id = some e → e.state = .stopped) :
    (force id).Abides .total (fun _ t => t.Balanced strange away ∧ s.KeepsBusy t) s := by
  unfold force
  simp only [abides_bind, abides_notify, abides_manager, abides_erase]
  cases hget : s.manager.blocks.get? id with
  | none =>
    have hsame : s.manager.blocks.erase id = s.manager.blocks := Keyed.erase_of_get?_eq_none hget
    exact ⟨hb.sameBooks ⟨hsame, rfl, .refl _⟩, Machine.keepsBusy_of_blocks hsame⟩
  | some e =>
    obtain ⟨c, hc⟩ := Option.ne_none_iff_exists'.1 (hidle e hget)
    simp only [hc]
    exact ⟨hb.erased hget hc (hstopped e hget) rfl rfl rfl, Machine.keepsBusy_erased hget hc rfl⟩

/-- The end of all blocks. None of them may be inside of a hook: it would be dropped, and its hook
would go on with numbers that belong to no block. -/
theorem balanced_clear (hcall : Call.Balances strange call) (n : Nat) (hb : s.Balanced strange away)
    (hidle : s.Idle) : (clear call n).Abides .withRoom
      (fun _ t => t.Balanced strange away ∧ s.KeepsBusy t) s := by
  induction n generalizing s with
  | zero => trivial
  | succ n ih =>
    unfold clear
    rw [abides_bind, abides_manager]
    cases s.manager.blocks.leastKey? with
    | none => exact ⟨hb, .refl s⟩
    | some id =>
      dsimp only
      rw [abides_bind, abides_discard]
      refine (balanced_halt hcall hb id).mono fun _ t ht => ?_
      obtain ⟨⟨hbt, hst⟩, hstopped⟩ := ht
      rw [abides_bind]
      refine (balanced_del hbt id).mono fun x u hu => ?_
      obtain ⟨⟨hbu, htu⟩, hsame⟩ := hu
      have hsu := hst.trans htu
      have hrest {v : Machine Builtin.kit} (hbv : v.Balanced strange away) (hsv : s.KeepsBusy v) :
          (clear call n).Abides .withRoom
            (fun _ t => t.Balanced strange away ∧ s.KeepsBusy t) v :=
        (ih hbv (hidle.keepsBusy hsv)).mono fun _ _ ht => ⟨ht.1, hsv.trans ht.2⟩
      cases x with
      | ok _ => exact hrest hbu hsu
      | error err =>
        dsimp only
        rw [abides_bind]
        have hidle' := hidle.keepsBusy hsu
        refine Abides.given ((ends_force hbu (hidle' id) fun e hget => ?_).mono fun _ v hv => ?_)
        · exact hstopped e (hsame id e hget) (hidle' id e hget)
        · exact hrest hv.1 (hsu.trans hv.2)

end Run

open Run in
/-- Whatever is made of operations keeps the books. -/
theorem Run.Operates.balances {call : Call Builtin.kit} {r : Run Builtin.kit α}
    (h : Operates call (fun _ => False) r) (hcall : Call.Balances strange call) :
    r.Balances strange := by
  induction h with
  | pure a => exact balances_pure a
  | outOfFuel => exact balances_outOfFuel
  | bind _ _ hr hf => exact hr.bind hf
  | manager => exact balances_manager
  | host => exact balances_of_sameBooks .refl
  | notify n => exact balances_record _
  | remark m => exact balances_record _
  | readClock => exact balances_onHost fun _ => Host.sameOpen_of_descriptors rfl rfl
  | wait => exact balances_onHost fun _ => Host.sameOpen_of_descriptors rfl rfl
  | aside hf => exact balances_aside (fun m => (hf m).blocks) fun m => (hf m).watches
  | arm owner tid delay arg => exact balances_arm owner tid delay arg
  | disarm owner tid => exact balances_disarm owner tid
  | disarmAll => exact balances_aside (fun _ => rfl) fun _ => rfl
  | popThen _ _ hr hf => exact balances_popThen hr hf
  | add id type => exact balances_add id type
  | start id => exact balances_start hcall id
  | stop id => exact balances_stop hcall id
  | connect id port dest => exact balances_connect hcall id port dest
  | conf id entry => exact balances_conf hcall id entry
  | del id => exact balances_del id
  | plain id hook => exact hcall.plain hook
  | direct n hr => exact hr.elim

/-! ## Hooks -/

/-- From one machine to another the hook of a server ends: the block has the numbers of the server,
which has none after it was stopped. -/
structure Machine.LeavesServer (s t : Machine Builtin.kit) (strange : Fd → Prop)
    (away : BlockId → List Fd) (id : BlockId) (e : Entry Builtin.kit) (st : State) (hook : Hook)
    (sv : Server) : Prop where
  serves : t.Serves strange away id e st sv
  keepsBusy : s.KeepsBusy t
  stopped (h : hook = .stop) : sv.descriptors = []

namespace Run

/-- What a server may have before its hook, and what is asked of it after its hook. -/
theorem exists_fits {sv : Server} {e : Entry Builtin.kit} {m : Manager Builtin.kit} {hook : Hook}
    (hfits : sv.Fits e.state) (hadm : e.Admits m hook) : ∃ st, sv.Fits st ∧
      (hook = .start → sv.descriptors = [] ∧ st = .started) ∧
      (hook ≠ .stop → st = (hook.mark e).state) := by
  cases hook with
  | start =>
    have hnil : sv.descriptors = [] := hfits.stopped hadm
    exact ⟨.started, Server.fits_of_descriptors hnil _, fun _ => ⟨hnil, rfl⟩, fun _ => rfl⟩
  -- The engine has noted the stop already, but the server has its numbers until its script ends.
  | stop => exact ⟨e.state, hfits, Hook.noConfusion, fun h => absurd rfl h⟩
  | bind | data | control | timer | event | configure =>
    exact ⟨e.state, hfits, Hook.noConfusion, fun _ => rfl⟩

section Hooks

variable {call : Call Builtin.kit} {away : BlockId → List Fd} {s t u : Machine Builtin.kit}
  {id : BlockId} {e : Entry Builtin.kit} {c : Builtin} {st : State} {sv : Server} {m : Nat}
  (hnested : ∀ r : Request BuiltinKind Empty, ¬ r.IsDirect → (perform call m r).Balances strange)

include hnested

/-- A hook of a hello block has nothing to do with descriptors. -/
theorem balanced_hello {leave : Hello → Run Builtin.kit Unit} (h : Hello) (id : BlockId)
    (hook : Hook) (hb : u.Balanced strange away) :
    (runScript call m leave h (h.hook id hook)).Abides .withRoom
      (fun _ t => t.Balanced strange away ∧ u.KeepsBusy t) u := by
  cases hook with
  | bind | start | stop | configure | data => exact abides_runScript_notify fun _ => hb.told _
  | control payload =>
    exact abides_runScript_call (r := .flow id h.nextPort payload .tx)
      ((hnested (.flow id h.nextPort payload .tx) not_false away u hb).mono fun _ _ ht _ => ht)
  | timer | event => exact ⟨hb, .refl u⟩

/-- A hook of a server ends with a server whose numbers are those of the block. -/
theorem balanced_server {leave : Server → Run Builtin.kit Unit} {hook : Hook}
    (hs : u.Serves strange away id e st sv) (hroom : u.host.HasRoom)
    (hstart : hook = .start → sv.descriptors = [] ∧ st = .started) :
    (runScript call m leave sv (sv.hook id hook)).Abides .withRoom
      (fun p t => u.LeavesServer t strange away id e st hook p.2) u := by
  have hleaving {hook' : Hook} {script : Script BuiltinKind Empty Server Server}
      (h : (runScript call m leave sv script).Abides .withRoom
        (fun p t => u.LeavesServer t strange away id e st hook' p.1) u) :
      (runScript call m leave sv (Server.leaving script)).Abides .withRoom
        (fun p t => u.LeavesServer t strange away id e st hook' p.2) u := by
    refine abides_runScript_bind (h.mono fun p t ht => ?_)
    exact ht
  have hother {hook' : Hook} (hne : hook' ≠ .stop) {sv' : Server} {t : Machine Builtin.kit}
      (ht : t.Serves strange away id e st sv' ∧ u.KeepsBusy t) :
      u.LeavesServer t strange away id e st hook' sv' :=
    ⟨ht.1, ht.2, fun heq => absurd heq hne⟩
  cases hook with
  | start =>
    exact hleaving ((serves_start hs hroom (hstart rfl).1 (hstart rfl).2).mono fun _ _ =>
      hother Hook.noConfusion)
  | stop => exact hleaving ((serves_stop hs).mono fun _ _ ht => ⟨ht.1, ht.2.1, fun _ => ht.2.2⟩)
  | configure conf =>
    exact hleaving ((serves_configure hs conf).mono fun _ _ => hother Hook.noConfusion)
  | event w =>
    exact hleaving ((serves_onEvent hnested hs w).mono fun _ _ => hother Hook.noConfusion)
  | bind | data | control | timer => exact hother Hook.noConfusion ⟨hs, .refl u⟩

/-- A hook of an idle block ends with contents that have the numbers of the block. -/
theorem balanced_builtin {leave : Builtin → Run Builtin.kit Unit} {hook : Hook}
    (hb : s.Balanced strange away) (hget : s.manager.blocks.get? id = some e)
    (hc : e.contents = some c) (hadm : e.Admits s.manager hook)
    (hroom : s.host.HasRoom) :
    (runScript call m leave c (c.hook id hook)).Abides .withRoom
      (fun p t => t.Balanced strange (Function.update away id p.2.descriptors) ∧
        ((s.marked id hook).entered e.serial id hook).KeepsBusy t ∧
        p.2.Fits (hook.mark e).state) ((s.marked id hook).entered e.serial id hook) := by
  have hentered := hb.entered hget hc hook
  have hfits := hb.fits hget hc
  cases c with
  | hello h =>
    show (runScript call m leave (.hello h) ((h.hook id hook).mapState .hello)).Abides .withRoom _ _
    rw [runScript_mapState, abides_bind]
    exact (balanced_hello hnested h id hook hentered).mono fun _ _ ht => ⟨ht.1, ht.2, trivial⟩
  | server sv =>
    show Abides .withRoom _
      (runScript call m leave (.server sv) ((sv.hook id hook).mapState .server)) _
    rw [runScript_mapState, abides_bind]
    obtain ⟨st, hst, hstart, hother⟩ := exists_fits hfits hadm
    have hentry : ((s.marked id hook).entered e.serial id hook).manager.blocks.get? id =
        some { hook.mark e with contents := none } := Machine.get?_entered hget
    have hs : ((s.marked id hook).entered e.serial id hook).Serves strange away id
        { hook.mark e with contents := none } st sv := ⟨hentered, hentry, rfl, hst⟩
    refine (balanced_server hnested hs hroom hstart).mono fun p t ht => ⟨ht.serves.balanced,
      ht.keepsBusy, ?_⟩
    by_cases hstop : hook = .stop
    · exact Server.fits_of_descriptors (ht.stopped hstop) _
    · exact hother hstop ▸ ht.serves.fits

end Hooks

section Calls

variable {call : Call Builtin.kit} {away : BlockId → List Fd} {s : Machine Builtin.kit}
  {id : BlockId} {e : Entry Builtin.kit} {hook : Hook}

/-- A hook of a block that is not inside of one begins, runs and ends. -/
theorem balanced_enter (hcall : Call.Balances strange call) (n : Nat) (hb : s.Balanced strange away)
    (hget : s.manager.blocks.get? id = some e) (hne : e.contents ≠ none)
    (hadm : e.Admits s.manager hook) :
    (enter call n id hook).Abides .withRoom (fun _ t => t.Balanced strange away ∧
      s.KeepsBusy t ∧ ∃ c, t.manager.blocks.get? id = some { hook.mark e with contents := some c })
      (s.marked id hook) := by
  obtain ⟨c, hc⟩ := Option.ne_none_iff_exists'.1 hne
  have hmarked : (s.marked id hook).manager.blocks.get? id = some (hook.mark e) := by
    simp [Machine.marked, Keyed.get?_modify, hget]
  have hidle : (hook.mark e).contents = some c := (hook.contents_mark e).trans hc
  have hnested : ∀ r : Request BuiltinKind Empty, ¬ r.IsDirect →
      (perform call n r).Balances strange := fun r hr =>
    (operates_perform n r fun h => hr h).balances hcall
  unfold enter
  rw [abides_bind, abides_manager]
  simp only [hmarked, hidle]
  rw [abides_bind, abides_modifyEntry, abides_bind, abides_record, abides_bind, abides_pause,
    Hook.serial_mark]
  intro hroom
  rw [abides_bind]
  refine (balanced_builtin hnested hb hget hc hadm hroom).mono fun p t ht => ?_
  obtain ⟨hb', hkeeps, hfits⟩ := ht
  -- Nothing that the hook called can have changed the entry of its block.
  have hentry : t.manager.blocks.get? id = some { hook.mark e with contents := none } :=
    (hkeeps id _ rfl).2 (Machine.get?_entered hget)
  have hserial : ({ hook.mark e with contents := none } : Entry Builtin.kit).serial = e.serial :=
    hook.serial_mark e
  rw [abides_bind, ← hserial]
  refine Abides.given ((ends_leave_of_live hentry).2 ⟨?_, ?_, p.2, ?_⟩)
  · exact hb'.regained hentry rfl hfits (hook.mark e).serial
  · exact hkeeps.regained hget hc (hook.mark e).serial p.2
  · show (t.manager.blocks.modify id _).get? id = _
    rw [Keyed.get?_modify, if_pos rfl, hentry]
    rfl

theorem balances_enter (hcall : Call.Balances strange call) (n : Nat) :
    Call.Balances strange (enter call n) where
  marked hb hget hc hadm := balanced_enter hcall n hb hget hc hadm
  plain {id hook} hplain away s hb := by
    cases hget : s.manager.blocks.get? id with
    | none =>
      unfold enter
      rw [abides_bind, abides_manager, hget]
      exact ⟨hb, .refl s⟩
    | some e =>
      by_cases hc : e.contents = none
      · unfold enter
        rw [abides_bind, abides_manager, hget]
        simp only [hc]
        exact ((balances_record _).bind fun _ => balances_pure _) away s hb
      · have hsame : s.marked id hook = s := by
          simp [Machine.marked, Hook.mark_of_isPlain hplain]
        have henter := balanced_enter hcall n hb hget hc (Entry.admits_of_isPlain hplain)
        rw [hsame] at henter
        exact henter.mono fun _ _ ht => ⟨ht.1, ht.2.1⟩

/-- Every call of a hook keeps the books, however deep the calls are. -/
theorem balances_callHook (n : Nat) : Call.Balances strange (callHook n) := by
  induction n with
  | zero => exact ⟨fun _ => balances_outOfFuel, fun _ _ _ _ => trivial⟩
  | succ n ih => exact balances_enter ih n

end Calls

end Run

end BlockFlow
