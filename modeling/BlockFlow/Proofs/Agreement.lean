import BlockFlow.Block.Hello
import BlockFlow.Proofs.CalmHook
import BlockFlow.Proofs.PlainMap
import BlockFlow.Proofs.Seen

/-!
# The engine agrees with a plain map

As long as hooks leave the engine alone, operations that are asked for from outside of every hook do
to the blocks of an engine what they do to a plain map of blocks: they have the same answers, leave
the same blocks, and the same happens to instances.

1. `Manager.Mirrors`: a manager and a plain map are in the same state; it is kept when a block
   changes.
2. `Machine.Follows`: an operation goes as the plain map says; `follows_add` and its companions:
   each operation does.
3. `follows_clear`: so does the end of all blocks.
4. `Agrees`, `agrees_fresh`: so does every sequence of operations, step by step.
-/

namespace BlockFlow

variable {K : Kit}

/-! ## The same state -/

def Entry.row (e : Entry K) : Row := ⟨e.serial, e.type, e.state = .started, e.bindings⟩

theorem Entry.started_row_iff {e : Entry K} : e.row.started = true ↔ e.state = .started :=
  decide_eq_true_iff

/-- A manager is in the state of a plain map. -/
structure Manager.Mirrors (m : Manager K) (p : PlainMap K) : Prop where
  strict : m.settings.strictBind = p.strict
  factories (type : String) : m.factories.get? type = p.factories type
  live (id : BlockId) : (m.blocks.get? id).map Entry.row = p.live id
  built : m.built = p.built
  /-- No block is inside of a hook. -/
  idle {id : BlockId} {e : Entry K} (he : m.blocks.get? id = some e) : e.contents ≠ none
  /-- The sink is no block. -/
  sink : p.live .sink = none
  /-- Each live block is seen once, under its number. -/
  ids : (m.views.map (·.id)).Pairwise (· < ·)

namespace Manager

variable {m : Manager K} {p : PlainMap K}

theorem ids_ascending (m : Manager K) : (m.views.map (·.id)).Pairwise (· < ·) := by
  have hkeys : m.views.map (·.id) = m.blocks.toList.map (·.1) := by simp [views, Entry.view]
  rw [hkeys]
  exact List.pairwise_map.2 m.blocks.ascending

namespace Mirrors

theorem fresh (settings : Settings) :
    (Manager.fresh settings : Manager K).Mirrors (.fresh settings.strictBind) where
  strict := rfl
  factories _ := rfl
  live _ := rfl
  built := rfl
  idle he := by cases he
  sink := rfl
  ids := ids_ascending _

/-- A number is that of no live block, or that of one which is idle. -/
theorem cases (h : m.Mirrors p) (id : BlockId) :
    (m.blocks.get? id = none ∧ p.live id = none) ∨
      ∃ e c, m.blocks.get? id = some e ∧ e.contents = some c ∧ p.live id = some e.row := by
  rw [← h.live id]
  cases he : m.blocks.get? id with
  | none => exact .inl ⟨rfl, rfl⟩
  | some e =>
    obtain ⟨c, hc⟩ := Option.ne_none_iff_exists'.1 (h.idle he)
    exact .inr ⟨e, c, rfl, hc, rfl⟩

theorem get?_eq_none_iff (h : m.Mirrors p) {id : BlockId} :
    m.blocks.get? id = none ↔ p.live id = none := by
  rw [← h.live id, Option.map_eq_none_iff]

theorem setFactory (h : m.Mirrors p) {type : String} {factory : Option K.Factory}
    {factories : Keyed String K.Factory}
    (hget : ∀ type', factories.get? type' =
      if type = type' then factory else m.factories.get? type') :
    { m with factories }.Mirrors (p.setFactory type factory) where
  strict := h.strict
  factories type' := by
    show factories.get? type' = if type = type' then factory else p.factories type'
    rw [hget, h.factories]
  live := h.live
  built := h.built
  idle := h.idle
  sink := h.sink
  ids := ids_ascending _

/-- The block of one number changes, comes or goes. -/
theorem put (h : m.Mirrors p) {id : BlockId} {o : Option (Entry K)}
    {blocks : Keyed BlockId (Entry K)}
    (hget : ∀ id', blocks.get? id' = if id = id' then o else m.blocks.get? id')
    (hidle : ∀ e, o = some e → e.contents ≠ none) (hsink : o ≠ none → id ≠ .sink) :
    { m with blocks }.Mirrors (p.put id (o.map Entry.row)) where
  strict := h.strict
  factories := h.factories
  live id' := by
    show (blocks.get? id').map Entry.row = if id = id' then o.map Entry.row else p.live id'
    rw [hget, ← h.live]
    split <;> rfl
  built := h.built
  idle {id' e} he := by
    have he' : (if id = id' then o else m.blocks.get? id') = some e := (hget id').symm.trans he
    split at he'
    · exact hidle e he'
    · exact h.idle he'
  sink := by
    show (if id = .sink then o.map Entry.row else p.live .sink) = none
    split
    · next hid =>
      cases o with
      | none => rfl
      | some e => exact absurd hid (hsink (Option.some_ne_none e))
    · exact h.sink
  ids := ids_ascending _

theorem modify (h : m.Mirrors p) {id : BlockId} {e : Entry K} (he : m.blocks.get? id = some e)
    {f : Entry K → Entry K} (hidle : (f e).contents ≠ none) :
    { m with blocks := m.blocks.modify id f }.Mirrors (p.put id (some (f e).row)) := by
  refine h.put (o := some (f e)) (fun id' => ?_) (fun e' he' => ?_) fun _ hid => ?_
  · rw [Keyed.get?_modify]
    split
    · next hid => rw [← hid, he, Option.map_some]
    · rfl
  · cases he'
    exact hidle
  · have hnone : m.blocks.get? id = none := by rw [h.get?_eq_none_iff, hid, h.sink]
    rw [hnone] at he
    cases he

theorem insert (h : m.Mirrors p) {id : BlockId} (hid : id ≠ .sink) {e : Entry K}
    (hidle : e.contents ≠ none) :
    { m with blocks := m.blocks.insert id e, built := m.built + 1 }.Mirrors
      { p.put id (some e.row) with built := m.built + 1 } := by
  have hput : { m with blocks := m.blocks.insert id e }.Mirrors (p.put id (some e.row)) := by
    refine h.put (o := some e) (fun id' => Keyed.get?_insert m.blocks id id' e) (fun e' he' => ?_)
      fun _ => hid
    cases he'
    exact hidle
  exact ⟨hput.strict, hput.factories, hput.live, rfl, hput.idle, hput.sink, ids_ascending _⟩

theorem erase (h : m.Mirrors p) (id : BlockId) :
    { m with blocks := m.blocks.erase id }.Mirrors (p.put id none) :=
  h.put (o := none) (fun _ => Keyed.get?_erase ..) (fun _ he => by cases he)
    fun hne => absurd rfl hne

end Mirrors

end Manager

/-! ## Single operations -/

/-- What comes of an operation is what the plain map says. -/
structure Machine.Follows {α : Type} (s : Machine K) (x : Effect K α) (a : α) (t : Machine K) :
    Prop where
  answer : a = x.answer
  mirrors : t.manager.Mirrors x.after
  deeds : t.deeds = s.deeds ++ x.deeds

/-- An operation that does nothing to instances. -/
theorem Machine.Follows.of_deeds_eq {α : Type} {s t : Machine K} {p : PlainMap K} (a : α)
    (h : t.manager.Mirrors p) (ht : t.deeds = s.deeds) : s.Follows ⟨a, p, []⟩ a t :=
  ⟨rfl, h, by rw [ht, List.append_nil]⟩

namespace Run

variable {n : Nat} {s : Machine K} {p : PlainMap K} {id : BlockId}

/-- An operation is refused. -/
theorem follows_fail (h : s.manager.Mirrors p) (note : Notice) (e : EngineError) :
    (refuse note e).Abides .total (s.Follows (p.fail e)) s :=
  .of_deeds_eq _ h rfl

theorem follows_register (h : s.manager.Mirrors p) (type : String) (factory : K.Factory) :
    (register type factory).Abides .total
      (s.Follows ⟨(), p.setFactory type (some factory), []⟩) s := by
  have hset : { s.manager with factories := s.manager.factories.insert type factory }.Mirrors
      (p.setFactory type (some factory)) :=
    h.setFactory fun type' => Keyed.get?_insert s.manager.factories type type' factory
  unfold register
  rw [abides_bind, abides_manager]
  split
  · exact .of_deeds_eq () hset rfl
  · exact .of_deeds_eq () hset rfl

theorem follows_unregister (h : s.manager.Mirrors p) (type : String) :
    (unregister type).Abides .total
      (s.Follows ⟨(p.factories type).isSome, p.setFactory type none, []⟩) s := by
  refine ⟨?_, h.setFactory fun type' => Keyed.get?_erase s.manager.factories type type',
    (List.append_nil _).symm⟩
  rw [← h.factories]
  rfl

theorem follows_add (h : s.manager.Mirrors p) (id : BlockId) (type : String) :
    (add id type).Abides .total
      (s.Follows (p.add (fun f => (K.build f s.host).1.isSome) id type)) s := by
  unfold add PlainMap.add
  rw [abides_bind, abides_manager]
  by_cases hid : id = .sink
  · have hsink : id.isSink = true := decide_eq_true hid
    rw [if_pos hid, if_pos hsink]
    exact follows_fail h _ _
  have hsink : ¬ id.isSink = true := by simpa [BlockId.isSink] using hid
  rw [if_neg hid, if_neg hsink]
  rcases h.cases id with ⟨hget, hrow⟩ | ⟨e, c, hget, hc, hrow⟩
  · have hnew : ¬ s.manager.blocks.contains id = true := by simp [Keyed.contains, hget]
    have hnew' : ¬ (p.live id).isSome = true := by simp [hrow]
    rw [if_neg hnew, if_neg hnew', h.factories]
    cases p.factories type with
    | none => exact follows_fail h _ _
    | some factory =>
      simp only [abides_bind, abides_onHost]
      cases (K.build factory s.host).1 with
      | none => exact .of_deeds_eq _ h rfl
      | some c =>
        simp only [abides_bind, abides_record, abides_notify, abides_modifyManager, abides_pure,
          Option.isSome_some, if_true]
        rw [← h.built]
        exact ⟨rfl, h.insert hid (Option.some_ne_none c),
          Machine.deeds_append [.notice (.added id type), .built s.manager.built type factory] rfl⟩
  · have hold : s.manager.blocks.contains id = true := by simp [Keyed.contains, hget]
    have hold' : (p.live id).isSome = true := by simp [hrow]
    rw [if_pos hold, if_pos hold']
    exact follows_fail h _ _

/-- The hook of an idle block is called, after something was noted about the block. -/
theorem follows_called (hK : K.IsCalm) (h : s.manager.Mirrors p) {e : Entry K} {c : K.Contents}
    (he : s.manager.blocks.get? id = some e) (hc : e.contents = some c) (hook : Hook)
    (hhook : hook.IsLifecycle) {u : Machine K} (hmarked : u.manager = (s.marked id hook).manager)
    (hu : u.deeds = s.deeds) :
    (do discard (callHook (n + 1) id hook); return .ok () : Run K _).Abides .total
      (s.Follows (p.called id hook (hook.mark e).row)) u := by
  have hget : u.manager.blocks.get? id = some (hook.mark e) := by
    rw [hmarked]
    simp [Machine.marked, Keyed.get?_modify, he]
  have hc' : (hook.mark e).contents = some c := by rw [hook.contents_mark, hc]
  rw [abides_bind, abides_discard]
  refine (ends_callHook hget hc' (hK c id hook hhook)).mono fun _ t ht => ?_
  obtain ⟨c', hmanager, hdeeds⟩ := ht
  rw [hook.serial_mark, hu] at hdeeds
  have hserial : (hook.mark e).row.serial = e.serial := hook.serial_mark e
  refine ⟨rfl, ?_, by rw [hdeeds, PlainMap.called, hserial]⟩
  have hblocks : u.manager.blocks.modify id ({ · with contents := some c' }) =
      s.manager.blocks.modify id fun e => { hook.mark e with contents := some c' } := by
    rw [hmarked]
    exact Keyed.modify_modify ..
  rw [hmanager, hblocks, hmarked]
  exact h.modify he (f := fun e => { hook.mark e with contents := some c' })
    (Option.some_ne_none c')

theorem follows_withIdle (h : s.manager.Mirrors p)
    {f : Entry K → K.Contents → Run K (Except EngineError Unit)}
    {g : Row → Effect K (Except EngineError Unit)}
    (hf : ∀ e c, s.manager.blocks.get? id = some e → e.contents = some c →
      (f e c).Abides .total (s.Follows (g e.row)) s) :
    (withIdle id f).Abides .total (s.Follows (p.withLive id g)) s := by
  unfold withIdle PlainMap.withLive
  rw [abides_bind, abides_manager]
  rcases h.cases id with ⟨hget, hrow⟩ | ⟨e, c, hget, hc, hrow⟩
  · rw [hget, hrow]
    exact follows_fail h _ _
  · simp only [hget, hrow, hc]
    exact hf e c hget hc

theorem follows_start (hK : K.IsCalm) (h : s.manager.Mirrors p) (id : BlockId) :
    (start (callHook (n + 1)) id).Abides .total (s.Follows (p.start id)) s := by
  refine follows_withIdle h fun e c he hc => ?_
  dsimp only
  cases hst : e.state with
  | started =>
    rw [if_pos (Entry.started_row_iff.2 hst)]
    exact .of_deeds_eq _ h rfl
  | stopped =>
    rw [if_neg (Entry.started_row_iff.not.2 (by simp [hst]))]
    exact follows_called hK h he hc .start trivial rfl rfl

theorem follows_stop (hK : K.IsCalm) (h : s.manager.Mirrors p) (id : BlockId) :
    (stop (callHook (n + 1)) id).Abides .total (s.Follows (p.stop id)) s := by
  refine follows_withIdle h fun e c he hc => ?_
  dsimp only
  cases hst : e.state with
  | stopped =>
    rw [if_neg (Entry.started_row_iff.not.2 (by simp [hst]))]
    exact .of_deeds_eq _ h rfl
  | started =>
    rw [if_pos (Entry.started_row_iff.2 hst)]
    exact follows_called hK h he hc .stop trivial rfl rfl

theorem mayLeadTo_iff {m : Manager K} {dest : BlockId} :
    mayLeadTo m dest ↔
      ¬ (m.settings.strictBind ∧ dest ≠ .sink ∧ m.blocks.get? dest = none) := by
  unfold mayLeadTo BlockId.isSink Keyed.contains
  cases m.settings.strictBind with
  | false => simp
  | true =>
    by_cases hdest : dest = .sink
    · simp [hdest]
    · cases m.blocks.get? dest <;> simp [hdest]

theorem follows_bind (hK : K.IsCalm) (h : s.manager.Mirrors p) (id : BlockId) (port : Port)
    (dest : BlockId) :
    (bind (callHook (n + 1)) id port dest).Abides .total (s.Follows (p.bind id port dest)) s := by
  have hmay : mayLeadTo s.manager dest ↔ ¬ (p.strict ∧ dest ≠ .sink ∧ p.live dest = none) := by
    rw [mayLeadTo_iff, h.get?_eq_none_iff, h.strict]
  unfold bind PlainMap.bind
  rw [abides_bind, abides_manager]
  by_cases hdest : mayLeadTo s.manager dest
  · rw [if_pos hdest, if_neg (hmay.1 hdest)]
    exact follows_withIdle h fun e c he hc =>
      follows_called hK h he hc (.bind port dest) trivial rfl rfl
  · rw [if_neg hdest, if_pos (not_not.1 fun hn => hdest (hmay.2 hn))]
    exact follows_fail h _ _

theorem follows_conf (hK : K.IsCalm) (h : s.manager.Mirrors p) (id : BlockId) (entry : String) :
    (conf (callHook (n + 1)) id entry).Abides .total (s.Follows (p.conf id entry)) s := by
  refine follows_withIdle h fun e c he hc => ?_
  have hsame : s.marked id (.configure entry) = s := by
    simp [Machine.marked, Hook.mark_of_isPlain (show Hook.IsPlain (.configure entry) from trivial)]
  exact follows_called hK h he hc (.configure entry) trivial (by rw [hsame]) rfl

theorem follows_del (h : s.manager.Mirrors p) (id : BlockId) :
    (del id).Abides .total (s.Follows (p.del id)) s := by
  refine follows_withIdle h fun e c he hc => ?_
  cases hst : e.state with
  | started =>
    rw [if_pos (Entry.started_row_iff.2 hst)]
    exact follows_fail h _ _
  | stopped =>
    have htype : e.row.type = e.type := rfl
    rw [if_neg (Entry.started_row_iff.not.2 (by simp [hst])), abides_bind, abides_manager,
      h.factories,
      htype]
    cases p.factories e.type with
    | none => exact follows_fail h _ _
    | some factory =>
      exact ⟨rfl, h.erase id, Machine.deeds_append
        [.released e.serial, .returned e.serial e.type factory, .notice (.deleted id)] rfl⟩

/-! ## All blocks -/

theorem lists_keys (h : s.manager.Mirrors p) : p.Lists s.manager.blocks.keys where
  ascending := List.pairwise_map.2 s.manager.blocks.ascending
  mem_iff id := by rw [Keyed.mem_keys_iff, ne_eq, h.get?_eq_none_iff]

/-- A block is dropped that cannot be deleted. -/
theorem follows_force (h : s.manager.Mirrors p) {e : Entry K} {c : K.Contents}
    (he : s.manager.blocks.get? id = some e) (hc : e.contents = some c) :
    (force id).Abides .total (s.Follows ⟨(), p.put id none, [.released e.serial]⟩) s := by
  unfold force
  simp only [abides_bind, abides_notify, abides_manager, abides_erase, he, hc, abides_release]
  exact ⟨rfl, h.erase id, Machine.deeds_append [.released e.serial, .notice (.forced id)] rfl⟩

/-- A stopped block ends: it is deleted, or dropped if there is no factory for it. -/
theorem follows_farewell (h : s.manager.Mirrors p) {row : Row} (hrow : p.live id = some row)
    (hst : row.started = false) {r : Run K Unit} {Q : Unit → Machine K → Prop}
    (hr : ∀ t, s.Follows ⟨(), p.put id none, p.farewell id⟩ () t → r.Abides .total Q t) :
    (do
      match ← del id with
      | .ok () => pure ()
      | .error _ => force id
      r : Run K Unit).Abides .total Q s := by
  rw [abides_bind]
  refine (follows_del h id).mono fun x t ht => ?_
  cases hfac : p.factories row.type with
  | some factory =>
    rw [PlainMap.del_of_factory hrow hst hfac] at ht
    obtain ⟨rfl, hmirrors, hdeeds⟩ := ht
    exact hr t ⟨rfl, hmirrors, hdeeds⟩
  | none =>
    rw [PlainMap.del_of_no_factory hrow hst hfac] at ht
    obtain ⟨rfl, hmirrors, hdeeds⟩ := ht
    show Abides .total Q (force id >>= fun _ => r) t
    rw [abides_bind]
    rcases hmirrors.cases id with ⟨-, hnone⟩ | ⟨e, c, he, hc, hlive⟩
    · exact absurd (hrow.symm.trans hnone) (Option.some_ne_none row)
    · have hserial : e.serial = row.serial := by
        cases hrow.symm.trans hlive
        rfl
      refine (follows_force hmirrors he hc).mono fun _ u hu => hr u ⟨rfl, hu.mirrors, ?_⟩
      rw [hu.deeds, hdeeds, hserial, PlainMap.farewell_of_no_factory hrow hst hfac]
      simp [PlainMap.fail]

theorem follows_clear (hK : K.IsCalm) {order : List BlockId} (h : s.manager.Mirrors p)
    (hl : p.Lists order) {k : Nat} (hk : order.length < k) :
    (clear (callHook (n + 1)) k).Abides .total (s.Follows (p.clear order)) s := by
  induction order generalizing s p k with
  | nil =>
    obtain ⟨k, rfl⟩ := Nat.exists_eq_add_one_of_ne_zero (Nat.ne_of_gt hk)
    have hleast : s.manager.blocks.leastKey? = none := by
      unfold Keyed.leastKey?
      rw [(lists_keys h).unique hl, List.head?_nil]
    have hempty : p.live = fun _ => none := by
      funext id
      exact not_not.1 fun hne => List.not_mem_nil ((hl.mem_iff id).2 hne)
    unfold clear
    rw [abides_bind, abides_manager, hleast]
    refine ⟨rfl, ?_, (List.append_nil _).symm⟩
    show s.manager.Mirrors { p with live := fun _ => none }
    rw [← hempty]
    exact h
  | cons id rest ih =>
    obtain ⟨k, rfl⟩ := Nat.exists_eq_add_one_of_ne_zero (Nat.ne_of_gt (Nat.zero_lt_of_lt hk))
    have hleast : s.manager.blocks.leastKey? = some id := by
      unfold Keyed.leastKey?
      rw [(lists_keys h).unique hl, List.head?_cons]
    obtain ⟨row, hrow⟩ := Option.ne_none_iff_exists'.1 ((hl.mem_iff id).1 (.head _))
    have hstopped : (p.put id (some { row with started := false })).live id =
        some { row with started := false } := if_pos rfl
    unfold clear
    rw [abides_bind, abides_manager, hleast]
    simp only
    rw [abides_bind, abides_discard]
    refine (follows_stop hK h id).mono fun _ t ht => ?_
    -- Stopped, the block is deleted, or dropped if its factory is gone; it ends either way.
    have hmirrors := ht.mirrors
    rw [PlainMap.after_stop hrow] at hmirrors
    refine follows_farewell hmirrors hstopped rfl fun u hu => ?_
    have hmirrors' := hu.mirrors
    rw [PlainMap.put_put] at hmirrors'
    refine (ih hmirrors' hl.put_none (Nat.lt_of_succ_lt_succ hk)).mono fun _ v hv => ?_
    refine ⟨rfl, hv.mirrors, ?_⟩
    rw [hv.deeds, hu.deeds, ht.deeds, PlainMap.deeds_clear_cons hl, PlainMap.farewell_eq hrow]
    simp only [List.append_assoc]

/-! ## Sequences of operations -/

theorem ends_play_ask {r : Request K.Factory K.Remark} {Q : r.Answer → Machine K → Prop}
    (h : (perform (callHook n) n r).Abides .total Q s) :
    (play n (Script.ask r)).Abides .total Q s := by
  unfold play Script.ask runScript
  simp only [abides_bind]
  refine (h.onBreak _).mono fun a t ht => ?_
  rw [abides_pause]
  exact ht

/-- Each operation goes as the plain map says. -/
theorem follows_op (hK : K.IsCalm) (h : s.manager.Mirrors p) {order : List BlockId}
    (hl : p.Lists order) (hn : order.length < n) (op : Op K) :
    (play n (Script.ask op.request)).Abides .total
      (s.Follows (p.effect (fun f => (K.build f s.host).1.isSome) order op)) s := by
  obtain ⟨n, rfl⟩ := Nat.exists_eq_add_one_of_ne_zero (Nat.ne_of_gt (Nat.zero_lt_of_lt hn))
  apply ends_play_ask
  cases op with
  | register type factory => exact follows_register h type factory
  | unregister type => exact follows_unregister h type
  | add id type => exact follows_add h id type
  | start id => exact follows_start hK h id
  | stop id => exact follows_stop hK h id
  | del id => exact follows_del h id
  | bind id port dest => exact follows_bind hK h id port dest
  | conf id entry => exact follows_conf hK h id entry
  | clear => exact follows_clear hK h hl hn

end Run

/-- A machine on which operations are asked for one after the other, from outside of every hook,
goes with a plain map step by step. -/
def Agrees (n : Nat) : List (Op K) → Machine K → PlainMap K → Prop
  | [], s, p => s.manager.Mirrors p
  | op :: ops, s, p =>
    s.manager.Mirrors p ∧ ∃ order, p.Lists order ∧
      let x := p.effect (fun f => (K.build f s.host).1.isSome) order op
      (Run.play n (Script.ask op.request)).Abides .total
        (fun a t => a = x.answer ∧ t.deeds = s.deeds ++ x.deeds ∧ Agrees n ops t x.after) s

theorem agrees_of_mirrors (hK : K.IsCalm) {n : Nat} {ops : List (Op K)} {s : Machine K}
    {p : PlainMap K} (h : s.manager.Mirrors p) {order : List BlockId} (hl : p.Lists order)
    (hn : order.length + ops.length < n) : Agrees n ops s p := by
  induction ops generalizing s p order with
  | nil => exact h
  | cons op ops ih =>
    rw [List.length_cons] at hn
    refine ⟨h, order, hl, (Run.follows_op hK h hl (by omega) op).mono fun a t ht => ?_⟩
    have hkeys := Run.lists_keys ht.mirrors
    have hlength := hl.length_le hkeys (p.adds_effect _ order op)
    exact ⟨ht.answer, ht.deeds, ih ht.mirrors hkeys (by omega)⟩

/-- **The engine as a plain map.** Where the lifecycle hooks of blocks leave the engine alone, every
sequence of operations that is asked for from outside of every hook has the answers that a plain map
says, leaves the blocks that it says, and does to instances what it says. -/
theorem agrees_fresh (hK : K.IsCalm) (settings : Settings) (host : Host) {ops : List (Op K)}
    {n : Nat} (hn : ops.length < n) : Agrees n ops (.fresh settings host) (.fresh settings.strictBind) := by
  have hlists : (PlainMap.fresh settings.strictBind : PlainMap K).Lists [] :=
    ⟨.nil, fun id => iff_of_false List.not_mem_nil fun hne => hne rfl⟩
  refine agrees_of_mirrors hK (.fresh settings) hlists ?_
  rwa [List.length_nil, Nat.zero_add]

/-! ## Hello blocks -/

/-- An engine of hello blocks. A factory may fail to build them. -/
@[reducible] def hellos : Kit where
  Factory := Bool
  Contents := Hello
  Remark := Empty
  build := fun builds h => (if builds then some {} else none, h)
  hook := Hello.hook
  report := Hello.report
  release := fun _ => id

theorem isCalm_hellos : hellos.IsCalm := by
  intro c id hook hhook
  cases hook with
  | bind | start | stop | configure => exact ⟨trivial, fun _ => trivial⟩
  | _ => exact hhook.elim

/-- A hello block is added, bound, started and not deleted before all blocks end. -/
theorem agrees_hellos :
    Agrees 8
      [.register "hello" true, .register "broken" false, .add ⟨2⟩ "broken", .add ⟨1⟩ "hello",
        .bind ⟨1⟩ 0 ⟨2⟩, .start ⟨1⟩, .clear]
      (.fresh {} .manual : Machine hellos) (.fresh false) :=
  agrees_fresh isCalm_hellos {} .manual (by decide)

end BlockFlow
