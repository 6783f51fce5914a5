import BlockFlow.Proofs.Alteration
import BlockFlow.Proofs.Refusal
import BlockFlow.Proofs.Routing

/-!
# Recorded routes

The bindings of an instance are kept as they were made: each operation that binds it puts one more
at the end, and nothing else touches them. So the first binding of a port stays the first one as
long as the instance is live, and a flow that leaves the block on that port goes where it went.

1. `Gains`: the bindings that an instance gets by some changes; `Path.gains`: they are all by which
   its bindings differ before and after.
2. `Machine.Numbered`: live blocks are different instances, after any change of a history.
3. `Machine.Prolongs`: the bindings before and after; `Errand.BindsOnRequest`: what binds.
4. `recorded_routes`: this, for all histories and errands.
-/

namespace BlockFlow

open Run

variable {K : Kit}

/-! ## Bindings that are added -/

/-- The bindings that an instance under a number gets by changes, in order. -/
inductive Gains (id : BlockId) (serial : Nat) : List (Change K) → List Binding → Prop
  | nil : Gains id serial [] []
  | bound {p : Change K} {ps : List (Change K)} {b : Binding} {bs : List Binding}
    (h : Binds id serial b p) (hrest : Gains id serial ps bs) : Gains id serial (p :: ps) (b :: bs)
  | other {p : Change K} {ps : List (Change K)} {bs : List Binding}
    (h : ∀ b, ¬ Binds id serial b p) (hrest : Gains id serial ps bs) : Gains id serial (p :: ps) bs

/-- An instance that was built before some changes and is live after them was live before them under
its number, and has gained its new bindings by them. -/
theorem Path.gains {s t : Machine K} {qs : List (Change K)} {id : BlockId} {e' : Entry K}
    (h : Path s qs t) (hqs : ∀ q ∈ qs, q.1.Alters q.2)
    (he' : t.manager.blocks.get? id = some e') (hbuilt : e'.serial < s.manager.built) :
    ∃ e bs, s.manager.blocks.get? id = some e ∧ e'.serial = e.serial ∧
      Gains id e.serial qs bs ∧ e'.bindings = e.bindings ++ bs := by
  induction h with
  | nil => exact ⟨e', [], he', rfl, .nil, (List.append_nil _).symm⟩
  | @cons s u t ps _ ih =>
    have hfirst : s.Alters u := hqs (s, u) (.head _)
    obtain ⟨e₁, bs, he₁, hserial, hgains, hbindings⟩ := ih (fun q hq => hqs q (.tail _ hq)) he'
      (Nat.lt_of_lt_of_le hbuilt hfirst.built_le)
    rcases hfirst.origin he₁ with ⟨e, he, hsame, hold⟩ | hnew
    · rw [hsame] at hserial hgains
      rcases hold with hold | ⟨b, hb, hold⟩
      · -- The bindings are the same, so the instance was not bound by the first change.
        refine ⟨e, bs, he, hserial, .other (fun b hb => ?_) hgains, by rw [hbindings, hold]⟩
        have hmore := Machine.bindings_of_binds hb he he₁
        rw [if_pos rfl, hold] at hmore
        simpa using congrArg List.length hmore
      · refine ⟨e, b :: bs, he, hserial, .bound hb hgains, ?_⟩
        rw [hbindings, hold, List.append_assoc, List.singleton_append]
    · -- What has come was not built before.
      have hserial' := hnew.serial
      omega

/-! ## Instances and their numbers -/

namespace Machine

/-- Live blocks are different instances, and all of them were built. -/
structure Numbered (s : Machine K) : Prop where
  apart {id id' : BlockId} {e e' : Entry K} (he : s.manager.blocks.get? id = some e)
    (he' : s.manager.blocks.get? id' = some e') (hserial : e.serial = e'.serial) : id = id'
  live_lt {id : BlockId} {e : Entry K} (he : s.manager.blocks.get? id = some e) :
    e.serial < s.manager.built

variable {s t u v : Machine K} {ps qs : List (Change K)}

theorem Numbered.fresh (settings : Settings) (host : Host) :
    (Machine.fresh settings host : Machine K).Numbered where
  apart he := by cases he
  live_lt he := by cases he

/-- What has come is no instance that was live. -/
theorem Numbered.eq_of_adds (h : u.Numbered) {id id' : BlockId} {e e' : Entry K}
    (hnew : u.Adds v id e) (he' : v.manager.blocks.get? id' = some e')
    (hserial : e.serial = e'.serial) : id = id' := by
  by_cases hid : id' = id
  · exact hid.symm
  · rw [hnew.others hid] at he'
    have hlt := h.live_lt he'
    have hbuilt := hnew.serial
    omega

theorem Numbered.alters (h : u.Numbered) (hv : u.Alters v) : v.Numbered where
  apart he he' hserial := by
    rcases hv.origin he with ⟨e₁, he₁, hserial₁, -⟩ | hnew
    · rcases hv.origin he' with ⟨e₂, he₂, hserial₂, -⟩ | hnew
      · exact h.apart he₁ he₂ (hserial₁.symm.trans (hserial.trans hserial₂))
      · exact (h.eq_of_adds hnew he hserial.symm).symm
    · exact h.eq_of_adds hnew he' hserial
  live_lt he := by
    have hbuilt := hv.built_le
    rcases hv.origin he with ⟨e₀, he₀, hserial, -⟩ | hnew
    · have hlt := h.live_lt he₀
      omega
    · rw [hnew.serial, hnew.built]
      exact Nat.lt_succ_self _

/-- The machine before some changes of a history. -/
theorem Lived.numbered (h : t.Lived (ps ++ qs)) (hqs : Path s qs t) : s.Numbered := by
  obtain ⟨settings, host, hpath⟩ := h.path
  obtain ⟨s', hps, hqs'⟩ := hpath.of_append
  have hs' : s'.Numbered := hps.keeps
    (fun p hp hs => hs.alters (h.alters p (List.mem_append_left _ hp))) (.fresh settings host)
  have hsame : s = s' := by
    cases hqs with
    | nil =>
      cases hqs'
      rfl
    | cons _ =>
      cases hqs' with
      | cons _ => rfl
  rwa [hsame]

end Machine

/-! ## Before and after -/

/-- A flow comes to a destination, or it is known why it does not. -/
inductive Hop.IsToward (dest : BlockId) : Hop → Prop
  | ended (h : dest.isSink) : IsToward dest .ended
  | limited (max : Nat) : IsToward dest (.limited max)
  | lost : IsToward dest (.lost dest)
  | routed : IsToward dest (.routed dest)

theorem Manager.isToward_hop {m : Manager K} {id : BlockId} {e : Entry K} {port : Port}
    {b : Binding} (he : m.blocks.get? id = some e) (h : Binding.route? e.bindings port = some b)
    (hops : Nat) : (m.hop hops id port).IsToward b.dest := by
  have honward : (if m.blocks.contains b.dest then Hop.routed b.dest else .lost b.dest).IsToward
      b.dest := by
    split
    · exact .routed
    · exact .lost
  simp only [Manager.hop, he, h]
  split
  · next hsink => exact .ended hsink
  split
  · exact honward
  split
  · exact .limited _
  · exact honward

/-- What becomes of bindings from one machine to a later one. -/
structure Machine.Prolongs (s t : Machine K) (qs : List (Change K)) : Prop where
  /-- An instance that is live at both has its number still, and its bindings, followed by those
  that it gained between. -/
  bindings {id id' : BlockId} {e e' : Entry K} (he : s.manager.blocks.get? id = some e)
    (he' : t.manager.blocks.get? id' = some e') (hserial : e'.serial = e.serial) :
    id' = id ∧ ∃ bs, Gains id e.serial qs bs ∧ e'.bindings = e.bindings ++ bs
  /-- The first binding of a port is still the first one, and a flow follows it. -/
  route {id id' : BlockId} {e e' : Entry K} (he : s.manager.blocks.get? id = some e)
    (he' : t.manager.blocks.get? id' = some e') (hserial : e'.serial = e.serial) {port : Port}
    {b : Binding} (h : Binding.route? e.bindings port = some b) :
    Binding.route? e'.bindings port = some b ∧
      ∀ hops, (t.manager.hop hops id port).IsToward b.dest

/-- By what instances are bound at an errand. -/
structure Errand.BindsOnRequest (x : Errand K) (s : Machine K) : Prop where
  /-- A change by which an instance is bound is one with which the operation for it begins. -/
  operation {qs : List (Change K)} {p : Change K} {id : BlockId} {serial : Nat} {b : Binding}
    (hp : x.run.Makes s qs p) (h : Binds id serial b p) :
    ∃ n, Part (Run.bind (callHook n) id b.port b.dest) x.run s qs p.1
  /-- That operation begins with such a change, if the block takes the binding. -/
  change {qs : List (Change K)} {u : Machine K} {id : BlockId} {e : Entry K} {b : Binding}
    {call : Call K} (h : Part (Run.bind call id b.port b.dest) x.run s qs u)
    (htakes : u.Takes id e b) :
    x.run.Makes s qs (u, u.bound id b) ∧ Binds id e.serial b (u, u.bound id b)
  /-- The operation succeeds just if the block takes the binding. -/
  success {u t : Machine K} {id : BlockId} {b : Binding} {call : Call K}
    {y : Except EngineError Unit} (h : u.run? (Run.bind call id b.port b.dest) = some (.ok y, t)) :
    y = .ok () ↔ ∃ e, u.Takes id e b

theorem Errand.bindsOnRequest (x : Errand K) (s : Machine K) : x.BindsOnRequest s where
  operation hp h := (x.accounted s _ _ hp).of_binds h
  change {qs u id e b call} h htakes := by
    have hmakes : (Run.bind call id b.port b.dest).Makes u [] (u, u.bound id b) :=
      (makes_connect htakes).2 (.inl ⟨rfl, rfl⟩)
    have hwhole := h.makes hmakes
    rw [List.append_nil] at hwhole
    exact ⟨hwhole, e, htakes, rfl, rfl⟩
  success {u t id b call y} h := by
    constructor
    · rintro rfl
      refine Classical.byContradiction fun hnone => ?_
      obtain ⟨err, note, hrun⟩ := run?_connect_of_not call hnone
      rw [hrun] at h
      cases h
    · rintro ⟨e, htakes⟩
      rw [run?_connect htakes] at h
      have hsucceeds : (tell call id b).Succeeds :=
        .after (fun _ => .after (fun _ => succeeds_ok _) _) _
      cases y with
      | ok _ => rfl
      | error err => exact absurd rfl ((hsucceeds _).result h err)

/-- **Recorded routes.** Whatever has happened and whatever the hooks do: the bindings of an
instance at a later moment are those at an earlier one, followed by one for each operation that has
bound it between and succeeded, in order; nothing else changes them. So a port of an instance that
leads to a destination leads there as long as the instance is live. -/
theorem recorded_routes {ps qs : List (Change K)} {s t : Machine K} (h : t.Lived (ps ++ qs))
    (hqs : Path s qs t) :
    s.Prolongs t qs ∧ ∀ (x : Errand K) (u : Machine K), x.BindsOnRequest u := by
  have hbindings : ∀ {id id' e e'}, s.manager.blocks.get? id = some e →
      t.manager.blocks.get? id' = some e' → e'.serial = e.serial →
        id' = id ∧ ∃ bs, Gains id e.serial qs bs ∧ e'.bindings = e.bindings ++ bs := by
    intro id id' e e' he he' hserial
    have hs := h.numbered hqs
    have hbuilt : e'.serial < s.manager.built := hserial ▸ hs.live_lt he
    obtain ⟨e₀, bs, he₀, hserial₀, hgains, hmore⟩ :=
      hqs.gains (fun q hq => h.alters q (List.mem_append_right _ hq)) he' hbuilt
    obtain rfl : id' = id := hs.apart he₀ he (hserial₀.symm.trans hserial)
    obtain rfl := Option.some.inj (he.symm.trans he₀)
    exact ⟨rfl, bs, hgains, hmore⟩
  refine ⟨⟨hbindings, ?_⟩, fun x u => x.bindsOnRequest u⟩
  intro id id' e e' he he' hserial port b hroute
  obtain ⟨rfl, bs, -, hmore⟩ := hbindings he he' hserial
  have hstill : Binding.route? e'.bindings port = some b := by
    rw [hmore]
    exact Binding.route?_append hroute bs
  exact ⟨hstill, Manager.isToward_hop he' hstill⟩

/-- Three blocks are put in a row, and the first one is started. -/
def layRow : Errand pavers :=
  .play 3 do
    Script.ask (.register "paver" ())
    discard (Script.ask (.add ⟨1⟩ "paver"))
    discard (Script.ask (.add ⟨2⟩ "paver"))
    discard (Script.ask (.add ⟨3⟩ "paver"))
    discard (Script.ask (.bind ⟨1⟩ 7 ⟨2⟩))
    discard (Script.ask (.bind ⟨2⟩ 7 ⟨3⟩))
    discard (Script.ask (.start ⟨1⟩))

/-- Data flows along the row, then the second block is bound once more on its port. -/
def walkRow : Errand pavers :=
  .play 5 do
    discard (Script.ask (.flow ⟨1⟩ 7 .empty .rx))
    discard (Script.ask (.bind ⟨2⟩ 7 ⟨1⟩))

/-- The third block is bound by the hook of the second one, in the middle of a flow. The second one
leads where it led. -/
theorem recorded_routes_row : ∃ (ps qs : List (Change pavers)) (s t : Machine pavers),
    t.Lived (ps ++ qs) ∧ Path s qs t ∧ Gains ⟨3⟩ 2 qs [⟨7, .sink⟩] ∧
      ∃ e, t.manager.blocks.get? ⟨2⟩ = some e ∧ e.bindings = [⟨7, ⟨3⟩⟩, ⟨7, ⟨1⟩⟩] ∧
        ∀ hops, (t.manager.hop hops ⟨2⟩ 7).IsToward ⟨3⟩ := by
  obtain ⟨s, t, hs, ht, e₂, e₃, e₂', e₃', he₂, he₃, he₂', he₃', hserial₂, hserial₃, hserial₃', hbs₂,
      hbs₃, hbs₂', hbs₃'⟩ : ∃ s t : Machine pavers,
        Machine.run? (.fresh {} .manual) layRow.run = some (.ok (), s) ∧
        s.run? walkRow.run = some (.ok (), t) ∧ ∃ e₂ e₃ e₂' e₃',
          s.manager.blocks.get? ⟨2⟩ = some e₂ ∧ s.manager.blocks.get? ⟨3⟩ = some e₃ ∧
          t.manager.blocks.get? ⟨2⟩ = some e₂' ∧ t.manager.blocks.get? ⟨3⟩ = some e₃' ∧
          e₂'.serial = e₂.serial ∧ e₃'.serial = e₃.serial ∧ e₃.serial = 2 ∧
          e₂.bindings = [⟨7, ⟨3⟩⟩] ∧ e₃.bindings = [] ∧
          e₂'.bindings = [⟨7, ⟨3⟩⟩, ⟨7, ⟨1⟩⟩] ∧ e₃'.bindings = [⟨7, .sink⟩] :=
    ⟨_, _, rfl, rfl, _, _, _, _, rfl, rfl, rfl, rfl, rfl, rfl, rfl, rfl, rfl, rfl, rfl⟩
  have hlived : t.Lived (layRow.run.changes (.fresh {} .manual) ++ walkRow.run.changes s) :=
    .between (.after (.after (.fresh {} .manual) layRow hs) walkRow ht)
  obtain ⟨hprolongs, -⟩ := recorded_routes hlived (path_changes ht)
  obtain ⟨-, bs, hgains, hmore⟩ := hprolongs.bindings he₃ he₃' hserial₃
  rw [hbs₃, hbs₃', List.nil_append] at hmore
  rw [hserial₃', ← hmore] at hgains
  have hroute : Binding.route? e₂.bindings 7 = some ⟨7, ⟨3⟩⟩ := by
    rw [hbs₂]
    rfl
  exact ⟨_, _, s, t, hlived, path_changes ht, hgains, e₂', he₂', hbs₂',
    (hprolongs.route he₂ he₂' hserial₂ hroute).2⟩

end BlockFlow
