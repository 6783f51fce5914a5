import BlockFlow.Proofs.Alteration
import BlockFlow.Proofs.Routing

/-!
# Strict binding

Under strict binding a block is bound to the sink or to a live block only. As long as no block is
deleted or dropped, all bindings therefore lead somewhere, whatever the hooks do, and no flow comes
to a block that is not there.

1. `Machine.Closed`: every binding leads to the sink or to a live block; `Closed.alters`: changes
   keep this under strict binding, if no block goes.
2. `Machine.Strayed`: the two ends that a flow has then never; `not_strayed_flow`: one flow.
3. `strict_binding`: all bindings and flows of a history in which no block goes, and who makes
   blocks go.
-/

namespace BlockFlow

open Run

variable {K : Kit}

/-! ## Bindings that lead somewhere -/

/-- By a change no live block goes. -/
def Stays (p : Change K) : Prop :=
  ∀ id, p.1.manager.blocks.contains id = true → p.2.manager.blocks.contains id = true

namespace Machine

/-- Every binding of a live block leads to the sink or to a live block. -/
def Closed (s : Machine K) : Prop :=
  ∀ id e, s.manager.blocks.get? id = some e → ∀ b ∈ e.bindings,
    b.dest.isSink = true ∨ s.manager.blocks.contains b.dest = true

variable {s t u v : Machine K} {id : BlockId} {e : Entry K}

theorem closed_fresh (settings : Settings) (host : Host) :
    (Machine.fresh settings host : Machine K).Closed := by
  intro id e he
  cases he

/-- What a block takes under strict binding leads to the sink or to a live block. -/
theorem Takes.leads {b : Binding} (h : u.Takes id e b)
    (hstrict : u.manager.settings.strictBind = true) :
    b.dest.isSink = true ∨ u.manager.blocks.contains b.dest = true := by
  have hadm := h.admitted
  rw [mayLeadTo, hstrict] at hadm
  simpa using hadm

theorem Closed.alters (h : u.Closed) (hstrict : u.manager.settings.strictBind = true)
    (hv : u.Alters v) (hstay : Stays (u, v)) : v.Closed := by
  intro id e' he' b hb
  rcases hv.origin he' with ⟨e, he, -, hsame | ⟨b', hbinds, hmore⟩⟩ | hnew
  · rw [hsame] at hb
    exact (h id e he b hb).imp_right (hstay b.dest)
  · rw [hmore] at hb
    rcases List.mem_append.1 hb with hb | hb
    · exact (h id e he b hb).imp_right (hstay b.dest)
    · obtain rfl := List.mem_singleton.1 hb
      obtain ⟨e₀, htakes, -, -⟩ := hbinds
      exact (htakes.leads hstrict).imp_right (hstay b.dest)
  · rw [hnew.bindings] at hb
    cases hb

/-- Strict binding is on, and every binding leads to the sink or to a live block. -/
structure Secured (s : Machine K) : Prop where
  strict : s.manager.settings.strictBind = true
  closed : s.Closed

theorem Secured.alters (h : u.Secured) (hv : u.Alters v) (hstay : Stays (u, v)) : v.Secured where
  strict := by rw [hv.settings_eq]; exact h.strict
  closed := h.closed.alters h.strict hv hstay

theorem Secured.path {qs : List (Change K)} (h : s.Secured) (hqs : Path s qs t)
    (halters : ∀ q ∈ qs, q.1.Alters q.2) (hstay : ∀ q ∈ qs, Stays q) : t.Secured :=
  hqs.keeps (fun q hq hs => hs.alters (halters q hq) (hstay q hq)) h

end Machine

/-! ## Flows -/

/-- What is told of a flow whose destination, or the block that it is at, is gone. -/
def strayMessages : List String := ["Destination block not found", "Block vanished during flow"]

/-- The last that was recorded is that a flow came to no live block. -/
def Machine.Strayed (t : Machine K) : Prop :=
  ∃ note, t.events.head? = some (.notice note) ∧ note.message ∈ strayMessages

theorem Machine.not_strayed_noticed {u : Machine K} {note : Notice}
    (h : note.message ∉ strayMessages) : ¬ (u.noticed [note]).Strayed := by
  rintro ⟨note', hhead, hmessage⟩
  cases hhead
  exact h hmessage

section Flows

variable {u t : Machine K} {n left hops : Nat} {kind : FlowKind} {id : BlockId} {port : Port}
  {payload : Payload} {y : Payload}

/-- At a live block whose bindings lead somewhere, a flow ends for a reason of its own or comes to a
live block. -/
theorem Machine.Closed.hop_cases (h : u.Closed) (hid : u.manager.blocks.contains id = true)
    (hops : Nat) (port : Port) :
    u.manager.hop hops id port = .unbound ∨ u.manager.hop hops id port = .ended ∨
      (∃ max, u.manager.hop hops id port = .limited max) ∨
      ∃ dest, u.manager.hop hops id port = .routed dest ∧
        u.manager.blocks.contains dest = true := by
  obtain ⟨e, he⟩ := Option.isSome_iff_exists.1 hid
  cases hroute : Binding.route? e.bindings port with
  | none => exact .inl (by simp [Manager.hop, he, hroute])
  | some b =>
    have hb : b ∈ e.bindings := List.mem_of_find?_eq_some hroute
    rcases h id e he b hb with hsink | hlive
    · exact .inr (.inl (by simp [Manager.hop, he, hroute, hsink]))
    · refine .inr ?_
      simp only [Manager.hop, he, hroute, hlive, if_true]
      split
      · exact .inl rfl
      split
      · exact .inr (.inr ⟨b.dest, rfl, hlive⟩)
      split
      · exact .inr (.inl ⟨_, rfl⟩)
      · exact .inr (.inr ⟨b.dest, rfl, hlive⟩)

/-- The call of a hook of a live block that brings no reply is one that the busy block drops. -/
theorem run?_callHook_of_none {hook : Hook} (hid : u.manager.blocks.contains id = true)
    (hrun : u.run? (callHook n id hook) = some (.ok none, t)) :
    t = u.noticed [.reentrantDropped id] := by
  cases n with
  | zero => cases hrun
  | succ n =>
    obtain ⟨e, he⟩ := Option.isSome_iff_exists.1 hid
    by_cases hc : e.contents = none
    · rw [run?_callHook_of_busy he hc] at hrun
      cases hrun
      rfl
    · obtain ⟨reply, hreply⟩ := exists_reply_of_idle he hc hrun
      cases hreply

/-- What a hook leaves is secured, and its block is live still, if no block goes meanwhile. -/
theorem Machine.Secured.called (hu : u.Secured) {hook : Hook} {v : Machine K}
    {x : Except Breakdown (Option Reply)} (hid : u.manager.blocks.contains id = true)
    (hstay : ∀ p ∈ (callHook n id hook).changes u, Stays p)
    (hrun : u.run? (callHook n id hook) = some (x, v)) :
    v.Secured ∧ v.manager.blocks.contains id = true := by
  have hpath := path_changes hrun
  refine ⟨hu.path hpath (fun p hp => (accounted_callHook n id hook u).alters hp) hstay, ?_⟩
  exact hpath.keeps (P := fun w => w.manager.blocks.contains id = true)
    (fun p hp => hstay p hp id) hid

theorem not_strayed_follow (hu : u.Secured) (hid : u.manager.blocks.contains id = true)
    (hstay : ∀ p ∈ (follow (callHook n) kind left hops id port payload).changes u, Stays p)
    (hrun : u.run? (follow (callHook n) kind left hops id port payload) = some (.ok y, t)) :
    ¬ t.Strayed := by
  induction left generalizing hops id port payload u with
  | zero => cases hrun
  | succ left ih =>
    have hfollow : follow (callHook n) kind (left + 1) hops id port payload = (do
        let hop := (← Run.manager).hop hops id port
        notify (hop.notice id port kind)
        atHop (callHook n) kind left hops payload hop : Run K Payload) := rfl
    rw [hfollow, run?_manager] at hrun
    rw [hfollow] at hstay
    -- What happens after the flow has told of its hop.
    have hrest : ∀ p ∈ (atHop (callHook n) kind left hops payload (u.manager.hop hops id port)).changes
        (u.noticed [(u.manager.hop hops id port).notice id port kind]), Stays p :=
      fun p hp => hstay p (.tail _ hp)
    change (u.noticed [_]).run? (atHop _ _ _ _ _ _) = _ at hrun
    rcases hu.closed.hop_cases hid hops port with hhop | hhop | ⟨max, hhop⟩ | ⟨dest, hhop, hdest⟩
    · rw [hhop] at hrun
      cases hrun
      exact Machine.not_strayed_noticed (show "No binding for port" ∉ strayMessages by decide)
    · rw [hhop] at hrun
      cases hrun
      exact Machine.not_strayed_noticed (show "End of flow" ∉ strayMessages by decide)
    · rw [hhop] at hrun
      cases hrun
      exact Machine.not_strayed_noticed (show "Flow hop limit reached" ∉ strayMessages by decide)
    · rw [hhop] at hrun hrest
      rw [atHop] at hrun hrest
      obtain ⟨answer, v, hcall, hon⟩ := exists_of_run?_bind hrun
      rw [changes_bind, hcall] at hrest
      have hu' : (u.noticed [Hop.notice id port kind (.routed dest)]).Secured :=
        ⟨hu.strict, hu.closed⟩
      obtain ⟨hv, hvdest⟩ :=
        hu'.called hdest (fun q hq => hrest q (List.mem_append_left _ hq)) hcall
      cases answer with
      | none =>
        obtain rfl := run?_callHook_of_none (u := u.noticed _) hdest hcall
        cases hon
        exact Machine.not_strayed_noticed
          (show "Block busy, reentrant call dropped" ∉ strayMessages by decide)
      | some reply =>
        by_cases hport : reply.port = stopPort
        · simp only [if_pos hport] at hon
          cases hon
          exact Machine.not_strayed_noticed
            (show "Flow dropped by block" ∉ strayMessages by decide)
        · simp only [if_neg hport] at hon hrest
          exact ih hv hvdest (fun p hp => hrest p (List.mem_append_right _ hp)) hon

/-- A flow under strict binding, during which no block goes, comes to no block that is not there. -/
theorem not_strayed_flow {m : Nat} (hu : u.Secured)
    (hstay : ∀ p ∈ (flow (callHook n) m id port payload kind).changes u, Stays p)
    (hrun : u.run? (flow (callHook n) m id port payload kind) = some (.ok y, t)) :
    ¬ t.Strayed := by
  unfold flow at hrun hstay
  rw [run?_manager] at hrun
  rw [changes_manager] at hstay
  cases he : u.manager.blocks.get? id with
  | none =>
    simp only [he] at hrun
    cases hrun
    exact Machine.not_strayed_noticed
      (show "Block not found, flow dropped" ∉ strayMessages by decide)
  | some e =>
    simp only [he] at hrun hstay
    cases hst : e.state with
    | stopped =>
      simp only [hst] at hrun
      cases hrun
      exact Machine.not_strayed_noticed
        (show "Block not started, flow dropped" ∉ strayMessages by decide)
    | started =>
      simp only [hst] at hrun hstay
      have hstarted : (u.noticed [.flowStarted id port kind]).Secured := ⟨hu.strict, hu.closed⟩
      have hid : u.manager.blocks.contains id = true := by simp [Keyed.contains, he]
      exact not_strayed_follow hstarted hid (fun p hp => hstay p (.tail _ hp)) hrun

end Flows

/-! ## Histories -/

theorem Machine.KeepsBindings.stays {u v : Machine K} (h : u.KeepsBindings v) :
    Stays (u, v) := by
  intro id hid
  show v.manager.blocks.contains id = true
  cases h with
  | same h => rwa [h.blocks]
  | noted id' f _ h =>
    rw [h]
    exact (Keyed.contains_modify ..).trans hid
  | added id' e _ _ _ h =>
    rw [h]
    exact Keyed.contains_insert_of_contains hid id' e

theorem Binds.stays {id : BlockId} {serial : Nat} {b : Binding} {p : Change K}
    (h : Binds id serial b p) : Stays p := by
  obtain ⟨e, -, -, hp⟩ := h
  intro id' hid
  rw [hp]
  exact (Keyed.contains_modify ..).trans hid

/-- A block goes only when the engine comes to delete a block or to clear all of them. -/
theorem Run.Accounted.removes {α : Type} {r : Run K α} {s : Machine K} (h : r.Accounted False s)
    {p : Change K} (hp : p ∈ r.changes s) (hgone : ¬ Stays p) : r.Removes s := by
  obtain ⟨k, hk⟩ := List.mem_iff_getElem?.1 hp
  cases h _ p (makes_of_getElem? hk) with
  | keeps hkeeps => exact absurd hkeeps.stays hgone
  | binds hbinds _ => exact absurd hbinds.stays hgone
  | drops _ hD => exact hD.resolve_left id

/-- The settings are those of the beginning, and no block is bound to nowhere. -/
theorem Machine.Past.secured {ps : List (Change K)} {s : Machine K} (h : s.Past ps)
    (hstrict : s.manager.settings.strictBind = true) (hstay : ∀ p ∈ ps, Stays p) :
    s.Secured := by
  have halters : ∀ p ∈ ps, p.1.Alters p.2 := (Machine.Lived.between h).alters
  obtain ⟨settings, host, hpath⟩ := h.path
  have hsettings : s.manager.settings = settings :=
    hpath.keeps (P := fun u => u.manager.settings = settings)
      (fun p hp hu => (halters p hp).settings_eq.trans hu) rfl
  have hfresh : (Machine.fresh settings host : Machine K).Secured :=
    ⟨hsettings ▸ hstrict, closed_fresh settings host⟩
  exact hfresh.path hpath halters hstay

/-- **Strict binding.** In every history of an engine with strict binding in which no block goes,
whatever the hooks do: at every moment each binding of each live block leads to the sink or to a
live block, and no flow ends because its destination, or the block that it is at, is gone. Blocks go
only at errands that come to delete a block or to clear all of them. -/
theorem strict_binding {ps : List (Change K)} {s : Machine K} (h : s.Past ps)
    (hstrict : s.manager.settings.strictBind = true) (x : Errand K)
    (hstay : ∀ p ∈ ps ++ x.run.changes s, Stays p) :
    (∀ qs u, Path s qs u → qs <+: x.run.changes s → u.Closed) ∧
    (∀ n m id port payload kind qs u y t,
      Part (flow (callHook n) m id port payload kind) x.run s qs u →
      u.run? (flow (callHook n) m id port payload kind) = some (.ok y, t) → ¬ t.Strayed) ∧
    ∀ (x : Errand K) (s : Machine K), ∀ p ∈ x.run.changes s, ¬ Stays p → x.run.Removes s := by
  have hs : s.Secured := h.secured hstrict fun p hp => hstay p (List.mem_append_left _ hp)
  have hthen : ∀ qs u, Path s qs u → qs <+: x.run.changes s → u.Secured := fun qs u hqs hle =>
    hs.path hqs (fun q hq => (x.accounted s).alters (hle.subset hq))
      fun q hq => hstay q (List.mem_append_right _ (hle.subset hq))
  refine ⟨fun qs u hqs hle => (hthen qs u hqs hle).closed, ?_, ?_⟩
  · intro n m id port payload kind qs u y t hpart hrun
    obtain ⟨hqs, hle⟩ := hpart.path
    exact not_strayed_flow (hthen qs u hqs hle)
      (fun p hp => hstay p (List.mem_append_right _ (hpart.mem_changes hp))) hrun
  · intro x s p hp hgone
    exact (x.accounted s).removes hp hgone

/-- Whether no live block goes by a change. -/
def keepsAll (p : Change K) : Bool :=
  p.1.manager.blocks.keys.all p.2.manager.blocks.contains

theorem stays_of_keepsAll {p : Change K} (h : keepsAll p = true) : Stays p := by
  intro id hid
  refine List.all_eq_true.1 h id (Keyed.mem_keys_iff.2 fun hnone => ?_)
  rw [Keyed.contains, hnone] at hid
  cases hid

/-- Two blocks are put in a row, the second one before the first one is bound to it. -/
def laySecured : Errand pavers :=
  .play 3 do
    Script.ask (.register "paver" ())
    discard (Script.ask (.add ⟨1⟩ "paver"))
    discard (Script.ask (.bind ⟨1⟩ 7 ⟨2⟩))
    discard (Script.ask (.add ⟨2⟩ "paver"))
    discard (Script.ask (.bind ⟨1⟩ 7 ⟨2⟩))
    discard (Script.ask (.start ⟨1⟩))

/-- Data flows along the row. -/
def walkSecured : Errand pavers := .play 5 (discard (Script.ask (.flow ⟨1⟩ 7 .empty .rx)))

/-- The first attempt to bind the first block is refused, and the data comes to the second one. -/
theorem strict_binding_secured : ∃ (ps : List (Change pavers)) (s t : Machine pavers),
    s.Past ps ∧ (∀ p ∈ ps ++ walkSecured.run.changes s, Stays p) ∧
      (s.manager.blocks.get? ⟨1⟩).map (·.bindings) = some [⟨7, ⟨2⟩⟩] ∧ s.Closed ∧
      s.run? (flow (callHook 5) 5 ⟨1⟩ 7 .empty .rx) = some (.ok .empty, t) ∧ ¬ t.Strayed := by
  obtain ⟨s, t, hs, hstrict, hall, hbindings, ht⟩ : ∃ s t : Machine pavers,
      Machine.run? (.fresh { strictBind := true } .manual) laySecured.run = some (.ok (), s) ∧
      s.manager.settings.strictBind = true ∧
      (laySecured.run.changes (.fresh { strictBind := true } .manual) ++
        walkSecured.run.changes s).all keepsAll = true ∧
      (s.manager.blocks.get? ⟨1⟩).map (·.bindings) = some [⟨7, ⟨2⟩⟩] ∧
      s.run? (flow (callHook 5) 5 ⟨1⟩ 7 .empty .rx) = some (.ok .empty, t) :=
    ⟨_, _, rfl, rfl, rfl, rfl, rfl⟩
  have hpast : s.Past _ := .after (.fresh { strictBind := true } .manual) laySecured hs
  have hstay : ∀ p ∈ laySecured.run.changes (.fresh { strictBind := true } .manual) ++
      walkSecured.run.changes s, Stays p :=
    fun p hp => stays_of_keepsAll (List.all_eq_true.1 hall p hp)
  have hpart : Part (flow (callHook 5) 5 ⟨1⟩ 7 .empty .rx) walkSecured.run s [] s :=
    .first (.first (.tried .whole))
  obtain ⟨hclosed, hflow, -⟩ := strict_binding hpast hstrict walkSecured hstay
  exact ⟨_, s, t, hpast, hstay, hbindings, hclosed [] s .nil List.nil_prefix, ht,
    hflow _ _ _ _ _ _ _ _ _ _ hpart ht⟩

end BlockFlow
