import BlockFlow.Proofs.Seen

/-!
# Blocks and open hooks

A hook may call the engine that called it, and the engine may call further hooks, even when a hook
drops all blocks and adds a new one under the number of its own. So being busy belongs to instances
and not to numbers: an instance is busy just as long as one of its hooks is open.

1. `WellNested`: hooks end in the reverse order of their beginning.
2. `Machine.Orderly`: blocks and open hooks fit each other; one lemma for each kind of step.
3. `Orderly.step`, `Seen.orderly`: every step keeps it, so it holds of all that is seen.
-/

namespace BlockFlow

variable {K : Kit}

/-! ## The invariant -/

/-- Each hook that has ended was the innermost one. -/
def WellNested : List (Event K) → Prop
  | [] => True
  | .left serial :: es => ((openHooks es).head?.map (·.serial) = some serial) ∧ WellNested es
  | _ :: es => WellNested es

namespace Machine

/-- The instances that the machine is inside of a hook of, the innermost one first. -/
def inside (s : Machine K) : List Nat := s.stack.map (·.serial)

theorem inside_congr {s t : Machine K} (h : t.stack = s.stack) : t.inside = s.inside := by
  unfold inside
  rw [h]

/-- Blocks and open hooks fit each other. -/
structure Orderly (s : Machine K) : Prop where
  nested : WellNested s.events
  /-- No instance is inside of two of its hooks. -/
  nodup : s.inside.Nodup
  /-- A live block is busy just when its instance is inside of a hook. -/
  busy_iff {id : BlockId} {e : Entry K} (he : s.manager.blocks.get? id = some e) :
    e.contents = none ↔ e.serial ∈ s.inside
  /-- A live instance that is inside of a hook was called under its own number. -/
  home {id : BlockId} {e : Entry K} (he : s.manager.blocks.get? id = some e) {f : Frame}
    (hf : f ∈ s.stack) (hserial : f.serial = e.serial) : f.id = id
  /-- Live blocks are different instances. -/
  apart {id id' : BlockId} {e e' : Entry K} (he : s.manager.blocks.get? id = some e)
    (he' : s.manager.blocks.get? id' = some e') (hserial : e.serial = e'.serial) : id = id'
  live_lt {id : BlockId} {e : Entry K} (he : s.manager.blocks.get? id = some e) :
    e.serial < s.manager.built
  inside_lt {n : Nat} (hn : n ∈ s.inside) : n < s.manager.built

namespace Orderly

variable {s t : Machine K}

theorem fresh (settings : Settings) (host : Host) :
    (Machine.fresh settings host : Machine K).Orderly where
  nested := trivial
  nodup := List.nodup_nil
  busy_iff he := by cases he
  home he := by cases he
  apart he := by cases he
  live_lt he := by cases he
  inside_lt hn := by cases hn

/-- Blocks may go, and what is no hook may happen. -/
theorem of_less (h : s.Orderly) (hnested : WellNested t.events) (hstack : t.stack = s.stack)
    (hbuilt : t.manager.built = s.manager.built)
    (hless : ∀ {id e}, t.manager.blocks.get? id = some e → s.manager.blocks.get? id = some e) :
    t.Orderly where
  nested := hnested
  nodup := by rw [inside_congr hstack]; exact h.nodup
  busy_iff he := by rw [inside_congr hstack]; exact h.busy_iff (hless he)
  home he := by rw [hstack]; exact h.home (hless he)
  apart he he' := h.apart (hless he) (hless he')
  live_lt he := by rw [hbuilt]; exact h.live_lt (hless he)
  inside_lt hn := by
    rw [inside_congr hstack] at hn
    rw [hbuilt]
    exact h.inside_lt hn

theorem build (h : s.Orderly) {id : BlockId} {type : String} {factory : K.Factory}
    (c : K.Contents) :
    Orderly { s with
      manager.blocks :=
        s.manager.blocks.insert id { serial := s.manager.built, type, contents := some c }
      manager.built := s.manager.built + 1
      events := .built s.manager.built type factory :: s.events } where
  nested := h.nested
  nodup := h.nodup
  busy_iff {id' e'} he' := by
    rcases Keyed.of_get?_insert he' with ⟨-, rfl⟩ | ⟨-, he'⟩
    · refine iff_of_false (Option.some_ne_none c) fun hin => ?_
      exact Nat.lt_irrefl _ (h.inside_lt hin)
    · exact h.busy_iff he'
  home {id' e'} he' f hf hserial := by
    rcases Keyed.of_get?_insert he' with ⟨-, rfl⟩ | ⟨-, he'⟩
    · have hlt : f.serial < s.manager.built := h.inside_lt (List.mem_map_of_mem hf)
      exact absurd hserial (Nat.ne_of_lt hlt)
    · exact h.home he' hf hserial
  apart {id₁ id₂ e₁ e₂} he₁ he₂ hserial := by
    -- The new serial is beyond all others.
    rcases Keyed.of_get?_insert he₁ with ⟨hid₁, rfl⟩ | ⟨-, he₁⟩ <;>
      rcases Keyed.of_get?_insert he₂ with ⟨hid₂, rfl⟩ | ⟨-, he₂⟩
    · rw [hid₁, hid₂]
    · exact absurd hserial (Nat.ne_of_gt (h.live_lt he₂))
    · exact absurd hserial (Nat.ne_of_lt (h.live_lt he₁))
    · exact h.apart he₁ he₂ hserial
  live_lt {id' e'} he' := by
    rcases Keyed.of_get?_insert he' with ⟨-, rfl⟩ | ⟨-, he'⟩
    · exact Nat.lt_succ_self _
    · exact Nat.lt_succ_of_lt (h.live_lt he')
  inside_lt hn := Nat.lt_succ_of_lt (h.inside_lt hn)

theorem enter (h : s.Orderly) {id : BlockId} {e : Entry K} {hook : Hook}
    (he : s.manager.blocks.get? id = some e) (hc : e.contents ≠ none) :
    ((s.marked id hook).entered e.serial id hook).Orderly where
  nested := h.nested
  nodup := List.nodup_cons.2 ⟨fun hin => hc ((h.busy_iff he).2 hin), h.nodup⟩
  busy_iff {id' e'} he' := by
    show _ ↔ e'.serial ∈ e.serial :: s.inside
    rcases of_get?_entered he he' with ⟨-, rfl⟩ | ⟨hne, he'⟩
    · simp
    · have hserial : e'.serial ≠ e.serial := fun heq => hne (h.apart he' he heq)
      rw [h.busy_iff he', List.mem_cons, or_iff_right hserial]
  home {id' e'} he' f hf hserial := by
    rcases List.mem_cons.1 hf with rfl | hf
    · rcases of_get?_entered he he' with ⟨hid, -⟩ | ⟨-, he'⟩
      · exact hid.symm
      · exact h.apart he he' hserial
    · rcases of_get?_entered he he' with ⟨rfl, rfl⟩ | ⟨-, he'⟩
      · exact h.home he hf (hserial.trans (hook.serial_mark e))
      · exact h.home he' hf hserial
  apart {id₁ id₂ e₁ e₂} he₁ he₂ hserial := by
    have hback : ∀ {id' e'},
        ((s.marked id hook).entered e.serial id hook).manager.blocks.get? id' = some e' →
          ∃ e'', s.manager.blocks.get? id' = some e'' ∧ e''.serial = e'.serial := by
      intro id' e' he'
      rcases of_get?_entered he he' with ⟨rfl, rfl⟩ | ⟨-, he'⟩
      · exact ⟨e, he, (hook.serial_mark e).symm⟩
      · exact ⟨e', he', rfl⟩
    obtain ⟨e₁', he₁, hs₁⟩ := hback he₁
    obtain ⟨e₂', he₂, hs₂⟩ := hback he₂
    exact h.apart he₁ he₂ (hs₁.trans (hserial.trans hs₂.symm))
  live_lt {id' e'} he' := by
    rcases of_get?_entered he he' with ⟨-, rfl⟩ | ⟨-, he'⟩
    · show (hook.mark e).serial < s.manager.built
      rw [hook.serial_mark]
      exact h.live_lt he
    · exact h.live_lt he'
  inside_lt {n} hn := by
    rcases List.mem_cons.1 hn with rfl | hn
    · exact h.live_lt he
    · exact h.inside_lt hn

theorem inside_eq {f : Frame} {fs : List Frame} (hs : s.stack = f :: fs) :
    s.inside = f.serial :: fs.map (·.serial) := by
  unfold inside
  rw [hs, List.map_cons]

/-- The innermost hook is not open twice, and it is the last one of its instance. -/
theorem not_mem_of_stack (h : s.Orderly) {f : Frame} {fs : List Frame} (hs : s.stack = f :: fs) :
    f.serial ∉ fs.map (·.serial) := by
  have hnd := h.nodup
  rw [inside_eq hs] at hnd
  exact (List.nodup_cons.1 hnd).1

theorem nested_left (h : s.Orderly) {f : Frame} {fs : List Frame} (hs : s.stack = f :: fs) :
    WellNested (.left f.serial :: s.events : List (Event K)) := by
  have hhead : (openHooks s.events).head? = some f := by
    show s.stack.head? = some f
    rw [hs, List.head?_cons]
  exact ⟨by rw [hhead, Option.map_some], h.nested⟩

/-- The innermost hook ends. `hlive` says how the live blocks are related to those before, and which
of them are busy. -/
theorem leave (h : s.Orderly) {f : Frame} {fs : List Frame} (hs : s.stack = f :: fs)
    (hnested : WellNested t.events) (hstack : t.stack = s.stack.tail)
    (hbuilt : t.manager.built = s.manager.built)
    (hlive : ∀ {id e}, t.manager.blocks.get? id = some e →
      ∃ e', s.manager.blocks.get? id = some e' ∧ e'.serial = e.serial ∧
        (e.contents = none ↔ e'.contents = none ∧ e'.serial ≠ f.serial)) : t.Orderly := by
  have hstack' : t.stack = fs := by rw [hstack, hs, List.tail_cons]
  have hin : t.inside = fs.map (·.serial) := by unfold inside; rw [hstack']
  have hmem : ∀ {n}, n ∈ t.inside ↔ n ∈ s.inside ∧ n ≠ f.serial := by
    intro n
    rw [hin, inside_eq hs, List.mem_cons]
    constructor
    · intro hn
      exact ⟨.inr hn, fun heq => h.not_mem_of_stack hs (heq ▸ hn)⟩
    · rintro ⟨heq | hn, hne⟩
      · exact absurd heq hne
      · exact hn
  refine ⟨hnested, ?_, ?_, ?_, ?_, ?_, ?_⟩
  · have hnd := h.nodup
    rw [inside_eq hs] at hnd
    rw [hin]
    exact (List.nodup_cons.1 hnd).2
  · intro id e he
    obtain ⟨e', he', hserial, hbusy⟩ := hlive he
    rw [hbusy, h.busy_iff he', hmem, hserial]
  · intro id e he g hg hserial
    obtain ⟨e', he', hserial', -⟩ := hlive he
    rw [hstack'] at hg
    refine h.home he' ?_ (hserial.trans hserial'.symm)
    rw [hs]
    exact .tail _ hg
  · intro id₁ id₂ e₁ e₂ he₁ he₂ hserial
    obtain ⟨e₁', he₁', hs₁, -⟩ := hlive he₁
    obtain ⟨e₂', he₂', hs₂, -⟩ := hlive he₂
    exact h.apart he₁' he₂' (hs₁.trans (hserial.trans hs₂.symm))
  · intro id e he
    obtain ⟨e', he', hserial, -⟩ := hlive he
    rw [← hserial, hbuilt]
    exact h.live_lt he'
  · intro n hn
    rw [hbuilt]
    exact h.inside_lt (hmem.1 hn).1

theorem regain (h : s.Orderly) {f : Frame} {fs : List Frame} {e : Entry K} (c : K.Contents)
    (hs : s.stack = f :: fs) (he : s.manager.blocks.get? f.id = some e)
    (hserial : e.serial = f.serial) : (s.regained f c).Orderly := by
  refine h.leave hs (h.nested_left hs) rfl rfl fun {id' e'} he' => ?_
  rcases of_get?_regained he he' with ⟨rfl, rfl⟩ | ⟨hne, he'⟩
  · exact ⟨e, he, rfl, iff_of_false (Option.some_ne_none c) fun hb => hb.2 hserial⟩
  · have hne' : e'.serial ≠ f.serial := fun heq =>
      hne (h.apart he' he (heq.trans hserial.symm))
    exact ⟨e', he', rfl, (and_iff_left hne').symm⟩

theorem part (h : s.Orderly) {f : Frame} {fs : List Frame} (c : K.Contents) (hs : s.stack = f :: fs)
    (hgone : ∀ e, s.manager.blocks.get? f.id = some e → e.serial ≠ f.serial) :
    (s.parted f c).Orderly := by
  refine h.leave hs (h.nested_left hs) rfl rfl fun {id' e'} he' => ?_
  have hne : e'.serial ≠ f.serial := by
    intro heq
    have hid : f.id = id' := h.home he' (by rw [hs]; exact .head _) heq.symm
    subst hid
    exact hgone e' he' heq
  exact ⟨e', he', rfl, (and_iff_left hne).symm⟩

theorem step (h : s.Orderly) (hstep : Step s t) : t.Orderly := by
  cases hstep with
  | notice | remark | armed | enlisted | host => exact h.of_less h.nested rfl rfl fun he => he
  | aside hsame =>
    refine h.of_less h.nested rfl hsame.built fun he => ?_
    rw [← hsame.blocks]
    exact he
  | build c => exact h.build c
  | enter he hc _ => exact h.enter he hc
  | regain c hs he hserial => exact h.regain c hs he hserial
  | part c hs hgone => exact h.part c hs hgone
  | delete | dropIdle | dropBusy =>
    exact h.of_less h.nested rfl rfl fun he => (Keyed.of_get?_erase he).2

end Orderly

theorem Seen.orderly {s : Machine K} (h : s.Seen) : s.Orderly :=
  h.induct Orderly.fresh fun _ _ => Orderly.step

end Machine

end BlockFlow
