import BlockFlow.Block.Builtin
import BlockFlow.Proofs.Orderly

/-!
# Start and stop

The state of a block is noted before its hook is called, and the hook may ask for anything, also for
its own block to be started, stopped or deleted. Nevertheless the start and stop hooks of an
instance take turns, beginning with start, and its state is the one of the turn taken last.

1. `turns`: the start and stop hooks of an instance that have begun, as states; `Alternates`,
   `stateAfter`: how they follow each other, and the state after them.
2. `ReturnsIdle`: each instance that was handed back was stopped and not inside of a hook.
3. `Machine.Turned`: the invariant; `Turned.step`: every step keeps it.
4. `alternation`: the life of every instance, at all that is seen of an engine.
-/

namespace BlockFlow

variable {K : Kit}

/-! ## Turns -/

/-- The state that a hook stands for, if it is for starting or stopping. -/
def Hook.turn? : Hook → Option State
  | .start => some .started
  | .stop => some .stopped
  | _ => none

/-- The state that a start or stop hook of an instance stands for when it begins. -/
def turnOf? (serial : Nat) : Event K → Option State
  | .entered n _ hook => if n = serial then hook.turn? else none
  | _ => none

/-- The start and stop hooks of an instance that have begun, in order. -/
def turns (serial : Nat) (es : List (Event K)) : List State :=
  (es.filterMap (turnOf? serial)).reverse

/-- Turns change between start and stop, and the first one is a start. -/
def Alternates (ts : List State) : Prop :=
  ∀ i (h : i < ts.length), ts[i] = if i % 2 = 0 then .started else .stopped

/-- The state of an instance after its turns. -/
def stateAfter (ts : List State) : State := ts.getLast?.getD .stopped

theorem turns_entered (serial n : Nat) (id : BlockId) (hook : Hook) (es : List (Event K)) :
    turns serial (.entered n id hook :: es) =
      turns serial es ++ if n = serial then hook.turn?.toList else [] := by
  unfold turns
  rw [List.filterMap_cons]
  by_cases h : n = serial
  · simp only [turnOf?, if_pos h]
    cases hook.turn? with
    | none => simp
    | some x => simp
  · simp [turnOf?, if_neg h]

theorem stateAfter_append (ts : List State) (x? : Option State) :
    stateAfter (ts ++ x?.toList) = x?.getD (stateAfter ts) := by
  cases x? with
  | none => simp
  | some x => simp [stateAfter]

/-- The state after alternating turns is known from their number. -/
theorem Alternates.stateAfter_eq {ts : List State} (h : Alternates ts) :
    stateAfter ts = if ts.length % 2 = 0 then .stopped else .started := by
  unfold stateAfter
  rw [List.getLast?_eq_getElem?]
  cases hn : ts.length with
  | zero => simp [List.length_eq_zero_iff.1 hn]
  | succ n =>
    have hlt : n < ts.length := by omega
    rw [Nat.add_sub_cancel, List.getElem?_eq_getElem hlt, Option.getD_some, h n hlt]
    by_cases heven : n % 2 = 0
    · rw [if_pos heven, if_neg (by omega)]
    · rw [if_neg heven, if_pos (by omega)]

theorem State.eq_of_ne_of_ne {x y z : State} (hx : x ≠ z) (hy : y ≠ z) : x = y := by
  cases x <;> cases y <;> cases z <;> first | rfl | contradiction

/-- Turns alternate on if the next one changes the state. -/
theorem Alternates.append {ts : List State} (h : Alternates ts) {x : State}
    (hx : x ≠ stateAfter ts) : Alternates (ts ++ [x]) := by
  intro i hi
  rw [List.length_append, List.length_singleton] at hi
  rcases Nat.lt_succ_iff_lt_or_eq.1 hi with hlt | rfl
  · rw [List.getElem_append_left hlt]
    exact h i hlt
  · rw [List.getElem_concat_length rfl]
    rw [h.stateAfter_eq] at hx
    refine State.eq_of_ne_of_ne hx ?_
    by_cases heven : ts.length % 2 = 0
    · simp [heven]
    · simp [heven]

/-! ## What is noted for a hook -/

theorem Hook.state_mark (hook : Hook) (e : Entry K) :
    (hook.mark e).state = hook.turn?.getD e.state := by
  cases hook <;> rfl

/-- A start or stop hook is called only when it changes the state. -/
theorem Entry.Admits.turn_ne {m : Manager K} {e : Entry K} {hook : Hook} (h : e.Admits m hook)
    {x : State} (hx : hook.turn? = some x) : x ≠ e.state := by
  cases hook with
  | start =>
    cases hx
    rw [show e.state = .stopped from h]
    exact State.noConfusion
  | stop =>
    cases hx
    rw [show e.state = .started from h]
    exact State.noConfusion
  | _ => cases hx

/-! ## The invariant -/

/-- Each instance that was handed back to a factory was stopped then, and inside of none of its
hooks. -/
def ReturnsIdle : List (Event K) → Prop
  | [] => True
  | .returned serial _ _ :: es =>
    (stateAfter (turns serial es) = .stopped ∧ serial ∉ (openHooks es).map (·.serial)) ∧
      ReturnsIdle es
  | _ :: es => ReturnsIdle es

namespace Machine

/-- The turns of instances fit the states of blocks. -/
structure Turned (s : Machine K) : Prop where
  alternates (serial : Nat) : Alternates (turns serial s.events)
  state {id : BlockId} {e : Entry K} (he : s.manager.blocks.get? id = some e) :
    e.state = stateAfter (turns e.serial s.events)
  /-- What is not built yet has had no turn. -/
  unborn {serial : Nat} (h : s.manager.built ≤ serial) : turns serial s.events = []
  returns : ReturnsIdle s.events

namespace Turned

variable {s t : Machine K}

theorem fresh (settings : Settings) (host : Host) :
    (Machine.fresh settings host : Machine K).Turned where
  alternates serial i hi := by cases hi
  state he := by cases he
  unborn _ := rfl
  returns := trivial

/-- A step without a turn, after which the live blocks have the states that they had. -/
theorem of_same (h : s.Turned) (hturns : ∀ serial, turns serial t.events = turns serial s.events)
    (hreturns : ReturnsIdle t.events) (hbuilt : s.manager.built ≤ t.manager.built)
    (hlive : ∀ {id e}, t.manager.blocks.get? id = some e →
      ∃ e', s.manager.blocks.get? id = some e' ∧ e.serial = e'.serial ∧ e.state = e'.state) :
    t.Turned where
  alternates serial := by rw [hturns]; exact h.alternates serial
  state he := by
    obtain ⟨e', he', hserial, hstate⟩ := hlive he
    rw [hstate, hserial, hturns]
    exact h.state he'
  unborn hle := by rw [hturns]; exact h.unborn (Nat.le_trans hbuilt hle)
  returns := hreturns

theorem build (h : s.Turned) {id : BlockId} {type : String} {factory : K.Factory} (c : K.Contents) :
    Turned { s with
      manager.blocks :=
        s.manager.blocks.insert id { serial := s.manager.built, type, contents := some c }
      manager.built := s.manager.built + 1
      events := .built s.manager.built type factory :: s.events } where
  alternates := h.alternates
  state {id' e'} he' := by
    rcases Keyed.of_get?_insert he' with ⟨-, rfl⟩ | ⟨-, he'⟩
    · show State.stopped = stateAfter (turns s.manager.built s.events)
      rw [h.unborn (Nat.le_refl _)]
      rfl
    · exact h.state he'
  unborn hle := h.unborn (Nat.le_of_succ_le hle)
  returns := h.returns

theorem enter (h : s.Turned) (ho : s.Orderly) {id : BlockId} {e : Entry K} {hook : Hook}
    (he : s.manager.blocks.get? id = some e) (hadm : e.Admits s.manager hook) :
    ((s.marked id hook).entered e.serial id hook).Turned where
  alternates serial := by
    show Alternates (turns serial (.entered e.serial id hook :: s.events))
    rw [turns_entered]
    by_cases hserial : e.serial = serial
    · subst hserial
      rw [if_pos rfl]
      cases hturn : hook.turn? with
      | none => simpa using h.alternates e.serial
      | some x =>
        refine (h.alternates e.serial).append ?_
        rw [← h.state he]
        exact hadm.turn_ne hturn
    · rw [if_neg hserial, List.append_nil]
      exact h.alternates serial
  state {id' e'} he' := by
    show _ = stateAfter (turns e'.serial (.entered e.serial id hook :: s.events))
    rw [turns_entered]
    rcases of_get?_entered he he' with ⟨-, rfl⟩ | ⟨hne, he'⟩
    · show (hook.mark e).state = stateAfter (turns (hook.mark e).serial s.events ++ _)
      rw [hook.serial_mark, if_pos rfl, stateAfter_append, hook.state_mark, h.state he]
    · -- No two live blocks are one instance, so the turn is not one of the other block.
      have hserial : e.serial ≠ e'.serial := fun heq => hne (ho.apart he' he heq.symm)
      rw [if_neg hserial, List.append_nil]
      exact h.state he'
  unborn {serial} hle := by
    show turns serial (.entered e.serial id hook :: s.events) = []
    have hserial : e.serial ≠ serial := Nat.ne_of_lt (Nat.lt_of_lt_of_le (ho.live_lt he) hle)
    rw [turns_entered, if_neg hserial, List.append_nil]
    exact h.unborn hle
  returns := h.returns

theorem delete (h : s.Turned) (ho : s.Orderly) {id : BlockId} {e : Entry K} {c : K.Contents}
    {factory : K.Factory} (he : s.manager.blocks.get? id = some e) (hc : e.contents = some c)
    (hst : e.state = .stopped) :
    (s.deleted id e c factory).Turned := by
  have hstate : stateAfter (turns e.serial s.events) = .stopped := by rw [← h.state he, hst]
  have hidle : e.serial ∉ s.inside := by
    rw [← ho.busy_iff he, hc]
    exact Option.some_ne_none c
  exact h.of_same (fun _ => rfl) ⟨⟨hstate, hidle⟩, h.returns⟩ (Nat.le_refl _) fun he' =>
    ⟨_, (Keyed.of_get?_erase he').2, rfl, rfl⟩

theorem step (h : s.Turned) (ho : s.Orderly) (hstep : Step s t) : t.Turned := by
  cases hstep with
  | notice | remark | armed | enlisted | host =>
    exact h.of_same (fun _ => rfl) h.returns (Nat.le_refl _) fun he => ⟨_, he, rfl, rfl⟩
  | aside hsame =>
    refine h.of_same (fun _ => rfl) h.returns (Nat.le_of_eq hsame.built.symm) fun he => ?_
    rw [← hsame.blocks]
    exact ⟨_, he, rfl, rfl⟩
  | build c => exact h.build c
  | enter he _ hadm => exact h.enter ho he hadm
  | regain c hs he hserial =>
    refine h.of_same (fun _ => rfl) h.returns (Nat.le_refl _) fun he' => ?_
    rcases of_get?_regained he he' with ⟨rfl, rfl⟩ | ⟨-, he'⟩
    · exact ⟨_, he, rfl, rfl⟩
    · exact ⟨_, he', rfl, rfl⟩
  | part c hs hgone =>
    exact h.of_same (fun _ => rfl) h.returns (Nat.le_refl _) fun he => ⟨_, he, rfl, rfl⟩
  | delete he hc hst _ => exact h.delete ho he hc hst
  | dropIdle | dropBusy =>
    exact h.of_same (fun _ => rfl) h.returns (Nat.le_refl _) fun he =>
      ⟨_, (Keyed.of_get?_erase he).2, rfl, rfl⟩

end Turned

theorem Seen.turned {s : Machine K} (h : s.Seen) : s.Turned := by
  have hboth : s.Orderly ∧ s.Turned := by
    refine h.induct (P := fun s => s.Orderly ∧ s.Turned) ?_ ?_
    · intro settings host
      exact ⟨.fresh settings host, .fresh settings host⟩
    · intro u v hu hstep
      exact ⟨hu.1.step hstep, hu.2.step hu.1 hstep⟩
  exact hboth.2

end Machine

open Run in
/-- A block that is deleted is stopped and has its contents, and its type has a factory. -/
theorem abides_del_free {s : Machine K} {id : BlockId} :
    (del id).Abides .free (fun x t => x = .ok () → ∃ e c factory,
      s.manager.blocks.get? id = some e ∧ e.contents = some c ∧ e.state = .stopped ∧
        s.manager.factories.get? e.type = some factory ∧
        t = Machine.deleted { s with events := .notice (.deleted id) :: s.events } id e c factory)
      s := by
  unfold del withIdle
  rw [abides_bind, abides_manager]
  split
  · exact abides_refuse_of_ok
  next e he =>
  split
  · exact abides_refuse_of_ok
  next c hc =>
  dsimp only
  split
  · exact abides_refuse_of_ok
  next hst =>
  rw [abides_bind, abides_manager]
  split
  · exact abides_refuse_of_ok
  next factory hfac => exact fun _ => ⟨e, c, factory, he, hc, hst, hfac, rfl⟩

/-- **Start and stop take turns.** At every moment of every run, whatever the hooks do: the start
and stop hooks of each instance alternate, beginning with start; a live block is started just when
the last of them was start; and a block that is deleted is stopped and not inside of a hook. -/
theorem alternation {s : Machine K} (h : s.Seen) :
    (∀ serial, Alternates (turns serial s.events)) ∧
    (∀ id e, s.manager.blocks.get? id = some e →
      (e.state = .started ↔ (turns e.serial s.events).getLast? = some .started)) ∧
    ReturnsIdle s.events ∧
    (∀ id t, s.run? (Run.del id) = some (.ok (.ok ()), t) →
      ∃ e factory, s.manager.blocks.get? id = some e ∧ e.state = .stopped ∧ e.serial ∉ s.inside ∧
        t.manager.blocks.get? id = none ∧ .returned e.serial e.type factory ∈ t.events) := by
  refine ⟨h.turned.alternates, fun id e he => ?_, h.turned.returns, fun id t hdel => ?_⟩
  · rw [h.turned.state he]
    unfold stateAfter
    cases (turns e.serial s.events).getLast? with
    | none => simp
    | some x => simp
  · obtain ⟨e, c, factory, he, hc, hst, -, rfl⟩ := (abides_del_free.result hdel : _) rfl
    have hidle : e.serial ∉ s.inside := by
      rw [← h.orderly.busy_iff he, hc]
      exact Option.some_ne_none c
    refine ⟨e, factory, he, hst, hidle, ?_, .tail _ (.head _)⟩
    simp [Machine.deleted, Machine.without, Machine.released, Keyed.get?_erase]

/-- A hello block is started, stopped and started again. -/
def restartHello : Errand Builtin.kit :=
  .play 2 do
    Script.ask (.register "hello" .hello)
    discard (Script.ask (.add ⟨1⟩ "hello"))
    discard (Script.ask (.start ⟨1⟩))
    discard (Script.ask (.stop ⟨1⟩))
    discard (Script.ask (.start ⟨1⟩))

/-- While the hello block is inside of its stop hook, it has had two turns and is not started. -/
theorem alternation_restartHello : ∃ t : Machine Builtin.kit, t.Seen ∧ t.inside = [0] ∧
    turns 0 t.events = [.started, .stopped] ∧ Alternates (turns 0 t.events) ∧
    ∃ e, t.manager.blocks.get? ⟨1⟩ = some e ∧ e.state ≠ .started := by
  obtain ⟨t, ht, hin, hturns, hlive⟩ : ∃ t,
      (restartHello.run.moments (.fresh {} .manual))[5]? = some t ∧
      t.inside = [0] ∧ turns 0 t.events = [.started, .stopped] ∧
      (t.manager.blocks.get? ⟨1⟩).map (·.serial) = some 0 := ⟨_, rfl, rfl, rfl, rfl⟩
  obtain ⟨e, he, hserial⟩ := Option.map_eq_some_iff.1 hlive
  have hseen : t.Seen := .during (.fresh {} .manual) restartHello (List.mem_of_getElem? ht)
  obtain ⟨halternates, hstate, -⟩ := alternation hseen
  refine ⟨t, hseen, hin, hturns, halternates 0, e, he, fun hst => ?_⟩
  have hlast := (hstate ⟨1⟩ e he).1 hst
  rw [hserial, hturns] at hlast
  cases hlast

end BlockFlow
