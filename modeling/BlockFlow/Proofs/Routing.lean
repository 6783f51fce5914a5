import BlockFlow.Proofs.Visits

/-!
# Routing

A flow follows the bindings of blocks, which the hooks on its way may change under it, so each hop
is told from the machine as it is then.

1. `Stage`: where a flow is; `Stage.Stops`, `Stage.Calls`: what it does there, which is either to
   end without a further call or to call one hook.
2. `Course`: a flow from its first hop to its end; `exists_course`, `Course.comes`: every flow has a
   course, and does what its course says.
3. `routing`: this, for flows from all blocks.
-/

namespace BlockFlow

variable {K : Kit}

/-! ## Bindings -/

/-- The first binding of a port leads to a destination. -/
def Entry.LeadsOn (e : Entry K) (port : Port) (dest : BlockId) : Prop :=
  ∃ before after, e.bindings = before ++ ⟨port, dest⟩ :: after ∧ ∀ b ∈ before, b.port ≠ port

theorem Entry.leadsOn_iff {e : Entry K} {port : Port} {dest : BlockId} :
    e.LeadsOn port dest ↔ Binding.route? e.bindings port = some ⟨port, dest⟩ := by
  simp [LeadsOn, Binding.route?, List.find?_eq_some_iff_append]

theorem Binding.port_of_route? {bs : List Binding} {port : Port} {b : Binding}
    (h : route? bs port = some b) : b.port = port := by
  simpa using List.find?_some h

/-! ## Stages -/

/-- Where a flow is: it leaves a block on a port with a payload. -/
structure Stage (K : Kit) where
  machine : Machine K
  id : BlockId
  port : Port
  payload : Payload

def Machine.noticed (s : Machine K) (ns : List Notice) : Machine K :=
  { s with events := (ns.map .notice).reverse ++ s.events }

namespace Stage

/-- The block of a stage is live, and the first binding of its port leads to a destination. -/
def LeadsTo (σ : Stage K) (dest : BlockId) : Prop :=
  ∃ e, σ.machine.manager.blocks.get? σ.id = some e ∧ e.LeadsOn σ.port dest

def MayGoOn (σ : Stage K) (hops : Nat) : Prop :=
  ∀ max, σ.machine.manager.settings.maxHops = some max → hops < max.toNat

/-- Why a flow ends after some hops without a further call, and what is told of it. -/
inductive Stops (σ : Stage K) (kind : FlowKind) (hops : Nat) : List Notice → Prop
  | vanished (h : σ.machine.manager.blocks.get? σ.id = none) :
    σ.Stops kind hops [.flowVanished σ.id kind]
  | unbound {e : Entry K} (he : σ.machine.manager.blocks.get? σ.id = some e)
    (h : ∀ b ∈ e.bindings, b.port ≠ σ.port) : σ.Stops kind hops [.flowUnbound σ.id σ.port kind]
  | sink {dest : BlockId} (hdest : σ.LeadsTo dest) (hsink : dest = .sink) :
    σ.Stops kind hops [.flowEnded σ.id σ.port kind]
  | limit {dest : BlockId} {max : UInt64} (hdest : σ.LeadsTo dest) (hsink : dest ≠ .sink)
    (hmax : σ.machine.manager.settings.maxHops = some max) (hle : max.toNat ≤ hops) :
    σ.Stops kind hops [.flowLimit σ.id kind max.toNat]
  | lost {dest : BlockId} (hdest : σ.LeadsTo dest) (hsink : dest ≠ .sink) (hgo : σ.MayGoOn hops)
    (h : σ.machine.manager.blocks.get? dest = none) :
    σ.Stops kind hops [.flowLost σ.id σ.port dest kind]
  | busy {dest : BlockId} {e : Entry K} (hdest : σ.LeadsTo dest) (hsink : dest ≠ .sink)
    (hgo : σ.MayGoOn hops) (he : σ.machine.manager.blocks.get? dest = some e)
    (hc : e.contents = none) :
    σ.Stops kind hops [.flowRouted σ.id σ.port dest kind, .reentrantDropped dest]

/-- After some hops the flow calls a hook of the instance that is live under a number. -/
structure Calls (σ : Stage K) (hops : Nat) (dest : BlockId) (serial : Nat) : Prop where
  leadsTo : σ.LeadsTo dest
  not_sink : dest ≠ .sink
  mayGoOn : σ.MayGoOn hops
  live : ∃ e, σ.machine.manager.blocks.get? dest = some e ∧ e.serial = serial ∧ e.contents ≠ none

/-- The machine when the flow calls a destination. -/
def routed (σ : Stage K) (dest : BlockId) (kind : FlowKind) : Machine K :=
  σ.machine.noticed [.flowRouted σ.id σ.port dest kind]

variable {σ : Stage K} {kind : FlowKind} {hops : Nat} {dest : BlockId} {serial : Nat}

/-- A flow ends or calls a hook. -/
theorem stops_or_calls (σ : Stage K) (kind : FlowKind) (hops : Nat) :
    (∃ ns, σ.Stops kind hops ns) ∨ ∃ dest serial, σ.Calls hops dest serial := by
  cases he : σ.machine.manager.blocks.get? σ.id with
  | none => exact .inl ⟨_, .vanished he⟩
  | some e =>
    cases hroute : Binding.route? e.bindings σ.port with
    | none => exact .inl ⟨_, .unbound he (by simpa [Binding.route?] using hroute)⟩
    | some b =>
      obtain ⟨port, dest⟩ := b
      obtain rfl : port = σ.port := Binding.port_of_route? hroute
      have hdest : σ.LeadsTo dest := ⟨e, he, Entry.leadsOn_iff.2 hroute⟩
      by_cases hsink : dest = .sink
      · exact .inl ⟨_, .sink hdest hsink⟩
      by_cases hgo : σ.MayGoOn hops
      · cases hd : σ.machine.manager.blocks.get? dest with
        | none => exact .inl ⟨_, .lost hdest hsink hgo hd⟩
        | some e' =>
          by_cases hc : e'.contents = none
          · exact .inl ⟨_, .busy hdest hsink hgo hd hc⟩
          · exact .inr ⟨dest, e'.serial, hdest, hsink, hgo, e', hd, rfl, hc⟩
      · simp only [MayGoOn, Classical.not_forall, Nat.not_lt] at hgo
        obtain ⟨max, hmax, hle⟩ := hgo
        exact .inl ⟨_, .limit hdest hsink hmax hle⟩

/-! ## What the engine does at a stage -/

theorem LeadsTo.hop_sink (h : σ.LeadsTo dest) (hsink : dest = .sink) :
    σ.machine.manager.hop hops σ.id σ.port = .ended := by
  obtain ⟨e, he, hroute⟩ := h
  simp [Manager.hop, he, Entry.leadsOn_iff.1 hroute, BlockId.isSink, hsink]

theorem LeadsTo.hop_limit (h : σ.LeadsTo dest) (hsink : dest ≠ .sink) {max : UInt64}
    (hmax : σ.machine.manager.settings.maxHops = some max) (hle : max.toNat ≤ hops) :
    σ.machine.manager.hop hops σ.id σ.port = .limited max.toNat := by
  obtain ⟨e, he, hroute⟩ := h
  simp [Manager.hop, he, Entry.leadsOn_iff.1 hroute, BlockId.isSink, hsink, hmax, hle]

theorem LeadsTo.hop_onward (h : σ.LeadsTo dest) (hsink : dest ≠ .sink) (hgo : σ.MayGoOn hops) :
    σ.machine.manager.hop hops σ.id σ.port =
      if σ.machine.manager.blocks.contains dest then .routed dest else .lost dest := by
  obtain ⟨e, he, hroute⟩ := h
  cases hmax : σ.machine.manager.settings.maxHops with
  | none => simp [Manager.hop, he, Entry.leadsOn_iff.1 hroute, BlockId.isSink, hsink, hmax]
  | some max =>
    have hlt : ¬ max.toNat ≤ hops := Nat.not_le.2 (hgo max hmax)
    simp [Manager.hop, he, Entry.leadsOn_iff.1 hroute, BlockId.isSink, hsink, hmax, hlt]

theorem LeadsTo.hop_routed (h : σ.LeadsTo dest) (hsink : dest ≠ .sink) (hgo : σ.MayGoOn hops)
    {e : Entry K} (he : σ.machine.manager.blocks.get? dest = some e) :
    σ.machine.manager.hop hops σ.id σ.port = .routed dest := by
  rw [h.hop_onward hsink hgo, if_pos (by simp [Keyed.contains, he])]

end Stage

/-! ## Courses -/

/-- The course of a flow with at most `left` more hops: the hooks that it calls directly, in order,
and what it comes to, which is nothing if it lacks fuel. -/
inductive Course (call : Call K) (kind : FlowKind) : (left hops : Nat) → Stage K → List Visit →
    Option (Except Breakdown Payload × Machine K) → Prop
  /-- No fuel is left. -/
  | spent {hops : Nat} {σ : Stage K} : Course call kind 0 hops σ [] none
  /-- The flow ends without a further call. -/
  | stops {left hops : Nat} {σ : Stage K} {ns : List Notice} (h : σ.Stops kind hops ns) :
    Course call kind (left + 1) hops σ [] (some (.ok σ.payload, σ.machine.noticed ns))
  /-- The hook that is called lacks fuel. -/
  | lacks {left hops : Nat} {σ : Stage K} {dest : BlockId} {serial : Nat}
    (h : σ.Calls hops dest serial)
    (hrun : (σ.routed dest kind).run? (call dest (kind.hook σ.payload)) = none) :
    Course call kind (left + 1) hops σ [⟨serial, dest, kind.hook σ.payload⟩] none
  /-- The hook that is called breaks off. -/
  | breaks {left hops : Nat} {σ : Stage K} {dest : BlockId} {serial : Nat} {b : Breakdown}
    {t : Machine K} (h : σ.Calls hops dest serial)
    (hrun : (σ.routed dest kind).run? (call dest (kind.hook σ.payload)) = some (.error b, t)) :
    Course call kind (left + 1) hops σ [⟨serial, dest, kind.hook σ.payload⟩] (some (.error b, t))
  /-- The hook that is called ends the flow. -/
  | drops {left hops : Nat} {σ : Stage K} {dest : BlockId} {serial : Nat} {reply : Reply}
    {t : Machine K} (h : σ.Calls hops dest serial)
    (hrun : (σ.routed dest kind).run? (call dest (kind.hook σ.payload)) =
      some (.ok (some reply), t))
    (hport : reply.port = 0) :
    Course call kind (left + 1) hops σ [⟨serial, dest, kind.hook σ.payload⟩]
      (some (.ok reply.payload, t.noticed [.flowDropped dest kind]))
  /-- The flow goes on from the block that was called, on the port that its hook names. -/
  | goes {left hops : Nat} {σ : Stage K} {dest : BlockId} {serial : Nat} {reply : Reply}
    {t : Machine K} {vs : List Visit} {x : Option (Except Breakdown Payload × Machine K)}
    (h : σ.Calls hops dest serial)
    (hrun : (σ.routed dest kind).run? (call dest (kind.hook σ.payload)) =
      some (.ok (some reply), t))
    (hport : reply.port ≠ 0)
    (hrest : Course call kind left (hops + 1) ⟨t, dest, reply.port, reply.payload⟩ vs x) :
    Course call kind (left + 1) hops σ (⟨serial, dest, kind.hook σ.payload⟩ :: vs) x

namespace Run

/-- A run comes to something, and calls just some hooks directly. -/
structure Comes {α : Type} (r : Run K α) (s : Machine K) (vs : List Visit)
    (x : Option (Except Breakdown α × Machine K)) : Prop where
  run?_eq : s.run? r = x
  visits : r.Visits s vs

variable {α : Type} {n left hops : Nat} {kind : FlowKind} {σ : Stage K} {dest : BlockId}
  {serial : Nat} {s t : Machine K} {vs : List Visit}
  {x : Option (Except Breakdown Payload × Machine K)}

theorem Comes.manager {f : Manager K → Run K α} {x : Option (Except Breakdown α × Machine K)}
    (h : (f s.manager).Comes s vs x) : (Run.manager >>= f).Comes s vs x :=
  ⟨h.run?_eq, h.visits⟩

/-- What a flow does at a hop, and how it goes on from there. -/
def atHop (call : Call K) (kind : FlowKind) (n hops : Nat) (payload : Payload) :
    Hop → Run K Payload
  | .routed dest => do
    match ← call dest (kind.hook payload) with
    | none => return payload
    | some reply =>
      if reply.port = stopPort then
        notify (.flowDropped dest kind)
        return reply.payload
      else follow call kind n (hops + 1) dest reply.port reply.payload
  | _ => return payload

/-- A flow tells of its hop and goes on from there. -/
theorem Comes.follow {call : Call K} {hop : Hop}
    (hhop : σ.machine.manager.hop hops σ.id σ.port = hop)
    (h : (atHop call kind n hops σ.payload hop).Comes
      (σ.machine.noticed [hop.notice σ.id σ.port kind]) vs x) :
    (Run.follow call kind (n + 1) hops σ.id σ.port σ.payload).Comes σ.machine vs x := by
  have hfollow : Run.follow call kind (n + 1) hops σ.id σ.port σ.payload = (do
      let hop := (← Run.manager).hop hops σ.id σ.port
      notify (hop.notice σ.id σ.port kind)
      atHop call kind n hops σ.payload hop) := rfl
  rw [hfollow]
  refine .manager ?_
  rw [hhop]
  exact ⟨h.run?_eq, (visits_notify _ _).bind rfl h.visits⟩

theorem run?_callHook_of_busy {id : BlockId} {e : Entry K}
    (he : s.manager.blocks.get? id = some e) (hc : e.contents = none) (n : Nat) (hook : Hook) :
    s.run? (callHook (n + 1) id hook) = some (.ok none, s.noticed [.reentrantDropped id]) := by
  show s.run? (enter (callHook n) n id hook) = _
  unfold enter
  rw [run?_manager]
  simp only [he, hc]
  rfl

/-- The hook of a block that is not busy comes back with a reply, if it comes back. -/
theorem exists_reply_of_idle {id : BlockId} {e : Entry K}
    (he : s.manager.blocks.get? id = some e) (hc : e.contents ≠ none) {n : Nat} {hook : Hook}
    {answer : Option Reply} (hrun : s.run? (callHook (n + 1) id hook) = some (.ok answer, t)) :
    ∃ reply, answer = some reply := by
  obtain ⟨c, hc'⟩ := Option.ne_none_iff_exists'.1 hc
  have hreplies : (callHook (n + 1) id hook).Abides .free
      (fun a _ => ∃ reply, a = some reply) s := by
    show (enter (callHook n) n id hook).Abides _ _ s
    unfold enter
    rw [abides_bind, abides_manager]
    simp only [he, hc']
    rw [abides_bind, abides_modifyEntry, abides_bind, abides_record, abides_bind, abides_pause,
      abides_bind]
    refine abides_free fun result t => ?_
    rw [abides_bind]
    exact abides_free fun _ _ => ⟨_, rfl⟩
  exact hreplies.result hrun

/-- A flow that stops does so without a call. -/
theorem comes_follow_of_stops {ns : List Notice} (h : σ.Stops kind hops ns) :
    (Run.follow (callHook (n + 1)) kind (left + 1) hops σ.id σ.port σ.payload).Comes σ.machine []
      (some (.ok σ.payload, σ.machine.noticed ns)) := by
  cases h with
  | vanished h =>
    have hhop : σ.machine.manager.hop hops σ.id σ.port = .vanished := by simp [Manager.hop, h]
    exact .follow hhop ⟨rfl, visits_pure _ _⟩
  | unbound he h =>
    have hroute : Binding.route? _ σ.port = none := List.find?_eq_none.2 (by simpa using h)
    have hhop : σ.machine.manager.hop hops σ.id σ.port = .unbound := by
      simp [Manager.hop, he, hroute]
    exact .follow hhop ⟨rfl, visits_pure _ _⟩
  | sink hdest hsink => exact .follow (hdest.hop_sink hsink) ⟨rfl, visits_pure _ _⟩
  | limit hdest hsink hmax hle =>
    exact .follow (hdest.hop_limit hsink hmax hle) ⟨rfl, visits_pure _ _⟩
  | lost hdest hsink hgo h =>
    refine .follow (hdest.hop_onward hsink hgo) ?_
    rw [if_neg (by simp [Keyed.contains, h])]
    exact ⟨rfl, visits_pure _ _⟩
  | @busy dest e hdest hsink hgo he hc =>
    refine .follow (hdest.hop_routed hsink hgo he) ?_
    have hrun := run?_callHook_of_busy (s := σ.routed dest kind) he hc n (kind.hook σ.payload)
    have hvisits := visits_callHook (n + 1) dest (kind.hook σ.payload) (σ.routed dest kind)
    rw [Machine.visitOf_of_busy (s := σ.routed dest kind) he hc] at hvisits
    refine ⟨?_, hvisits.bind hrun (visits_pure _ _)⟩
    show (σ.routed dest kind).run? (atHop _ _ _ _ _ _) = _
    rw [atHop, run?_bind, hrun]
    rfl

/-- What a flow does at a hop that calls a hook. -/
theorem Comes.of_calls {call : Call K} (h : σ.Calls hops dest serial)
    (hcomes : (atHop call kind n hops σ.payload (.routed dest)).Comes (σ.routed dest kind) vs x) :
    (Run.follow call kind (n + 1) hops σ.id σ.port σ.payload).Comes σ.machine vs x := by
  obtain ⟨e, he, -⟩ := h.live
  exact .follow (h.leadsTo.hop_routed h.not_sink h.mayGoOn he) hcomes

theorem visits_callHook_of_calls (h : σ.Calls hops dest serial) (n : Nat) :
    (callHook n dest (kind.hook σ.payload)).Visits (σ.routed dest kind)
      [⟨serial, dest, kind.hook σ.payload⟩] := by
  obtain ⟨e, he, rfl, hc⟩ := h.live
  rw [← Machine.visitOf_of_idle (s := σ.routed dest kind) he hc]
  exact visits_callHook _ _ _ _

end Run

open Run

/-! ## Every flow has a course, and does what it says -/

section Courses

variable {n left hops : Nat} {kind : FlowKind} {σ : Stage K} {vs : List Visit}
  {x : Option (Except Breakdown Payload × Machine K)}

/-- A flow does what its course says. -/
theorem Course.comes (h : Course (callHook (n + 1)) kind left hops σ vs x) :
    (follow (callHook (n + 1)) kind left hops σ.id σ.port σ.payload).Comes σ.machine vs x := by
  induction h with
  | spent => exact ⟨rfl, trivial⟩
  | stops h => exact comes_follow_of_stops h
  | lacks h hrun =>
    refine .of_calls h ⟨by rw [atHop, run?_bind, hrun], ?_⟩
    exact (visits_callHook_of_calls h _).bind_of_no_result fun a t ht => by simp [hrun] at ht
  | breaks h hrun =>
    refine .of_calls h ⟨by rw [atHop, run?_bind, hrun], ?_⟩
    exact (visits_callHook_of_calls h _).bind_of_no_result fun a t ht => by simp [hrun] at ht
  | @drops _ _ _ _ _ reply _ h hrun hport =>
    have hstop : reply.port = stopPort := hport
    refine .of_calls h ⟨?_, (visits_callHook_of_calls h _).bind hrun ?_⟩
    · rw [atHop, run?_bind, hrun]
      simp only [if_pos hstop]
      rfl
    · simp only [if_pos hstop]
      exact (visits_notify _ _).bind rfl (visits_pure _ _)
  | @goes _ _ _ _ _ reply _ _ _ h hrun hport _ ih =>
    have hgo : ¬ reply.port = stopPort := hport
    refine .of_calls h ⟨?_, (visits_callHook_of_calls h _).bind hrun ?_⟩
    · rw [atHop, run?_bind, hrun]
      simp only [if_neg hgo]
      exact ih.run?_eq
    · simp only [if_neg hgo]
      exact ih.visits

/-- Every flow has a course. -/
theorem exists_course (n : Nat) (kind : FlowKind) (left hops : Nat) (σ : Stage K) :
    ∃ vs x, Course (callHook (n + 1)) kind left hops σ vs x := by
  induction left generalizing hops σ with
  | zero => exact ⟨_, _, .spent⟩
  | succ left ih =>
    rcases σ.stops_or_calls kind hops with ⟨ns, h⟩ | ⟨dest, serial, h⟩
    · exact ⟨_, _, .stops h⟩
    cases hrun : (σ.routed dest kind).run? (callHook (n + 1) dest (kind.hook σ.payload)) with
    | none => exact ⟨_, _, .lacks h hrun⟩
    | some result =>
      obtain ⟨y, t⟩ := result
      cases y with
      | error b => exact ⟨_, _, .breaks h hrun⟩
      | ok answer =>
        obtain ⟨e, he, -, hc⟩ := h.live
        obtain ⟨reply, rfl⟩ := exists_reply_of_idle (s := σ.routed dest kind) he hc hrun
        by_cases hport : reply.port = 0
        · exact ⟨_, _, .drops h hrun hport⟩
        · obtain ⟨vs, x, hrest⟩ := ih (hops + 1) ⟨t, dest, reply.port, reply.payload⟩
          exact ⟨_, _, .goes h hrun hport hrest⟩

end Courses

/-! ## Flows -/

/-- How a flow is routed that is asked of a machine, with calls of hooks that are bounded by `n` and
hops that are bounded by `m`. -/
structure Machine.Routes (s : Machine K) (n m : Nat) (id : BlockId) (port : Port)
    (payload : Payload) (kind : FlowKind) : Prop where
  /-- A flow from no live block calls no hook. -/
  unknown (h : s.manager.blocks.get? id = none) :
    (flow (callHook (n + 1)) m id port payload kind).Comes s []
      (some (.ok payload, s.noticed [.flowNotFound id kind]))
  /-- A flow from a block that is not started calls no hook. -/
  stopped {e : Entry K} (he : s.manager.blocks.get? id = some e) (hst : e.state ≠ .started) :
    (flow (callHook (n + 1)) m id port payload kind).Comes s []
      (some (.ok payload, s.noticed [.flowNotStarted id kind]))
  /-- A flow from a started block has a course. -/
  started {e : Entry K} (he : s.manager.blocks.get? id = some e) (hst : e.state = .started) :
    ∃ vs x, Course (callHook (n + 1)) kind m 0
      ⟨s.noticed [.flowStarted id port kind], id, port, payload⟩ vs x
  /-- A flow from a started block does what its course says. -/
  course {e : Entry K} (he : s.manager.blocks.get? id = some e) (hst : e.state = .started)
    {vs : List Visit} {x : Option (Except Breakdown Payload × Machine K)}
    (h : Course (callHook (n + 1)) kind m 0
      ⟨s.noticed [.flowStarted id port kind], id, port, payload⟩ vs x) :
    (flow (callHook (n + 1)) m id port payload kind).Comes s vs x

/-- **Routing.** For every manager and whatever the hooks do: a flow from a block that is not live
or not started calls no hook. Any other flow calls just the hooks of its course: at each hop, the
first binding of the port in the list as it is then leads to the block whose live instance is
called, with the payload that the hook before left; and the flow ends, and tells why, just where no
binding, no live block, a busy block, the sink, the limit or a reply ends it. -/
theorem routing (s : Machine K) (n m : Nat) (id : BlockId) (port : Port) (payload : Payload)
    (kind : FlowKind) : s.Routes n m id port payload kind where
  unknown h := by
    refine .manager ?_
    simp only [h]
    exact ⟨rfl, (visits_notify _ _).bind rfl (visits_pure _ _)⟩
  stopped he hst := by
    refine .manager ?_
    simp only [he]
    split
    · exact ⟨rfl, (visits_notify _ _).bind rfl (visits_pure _ _)⟩
    · next h => exact absurd h hst
  started _ _ := exists_course n kind m 0 _
  course he hst vs x h := by
    refine .manager ?_
    simp only [he]
    split
    · next hst' =>
      rw [hst] at hst'
      cases hst'
    · exact ⟨h.comes.run?_eq, (visits_notify _ _).bind rfl h.comes.visits⟩

/-! ## A flow whose bindings change under it -/

/-- Blocks that bind the block of the next number to the sink when data comes, and hand the data to
it. -/
@[reducible] def pavers : Kit where
  Factory := Unit
  Contents := Unit
  Remark := Empty
  build := fun _ h => (some (), h)
  hook := fun _ id hook =>
    match hook with
    | .data payload => do
      discard (Script.ask (.bind ⟨id.value + 1⟩ 7 .sink))
      return { port := 7, payload }
    | _ => return {}
  report := fun _ buffer => (0, buffer)
  release := fun _ => id

/-- Three blocks, the first two of which lead on; the first one is started. -/
def unpaved : Machine pavers :=
  let row : Keyed BlockId (Entry pavers) := .empty
  { manager := { (.fresh {} : Manager pavers) with
      blocks := ((row.insert ⟨1⟩
        { serial := 0, type := "paver", state := .started, bindings := [⟨7, ⟨2⟩⟩],
          contents := some () }).insert ⟨2⟩
        { serial := 1, type := "paver", bindings := [⟨7, ⟨3⟩⟩], contents := some () }).insert ⟨3⟩
        { serial := 2, type := "paver", contents := some () } }
    host := .manual }

/-- The third block is bound by the second one when the flow is there. -/
theorem routing_unpaved : ∃ vs x,
    Course (callHook 3) .rx 5 0 ⟨unpaved.noticed [.flowStarted ⟨1⟩ 7 .rx], ⟨1⟩, 7, .empty⟩ vs x ∧
      vs = [⟨1, ⟨2⟩, .data .empty⟩, ⟨2, ⟨3⟩, .data .empty⟩] := by
  obtain ⟨vs, x, hcourse⟩ := (routing unpaved 2 5 ⟨1⟩ 7 .empty .rx).started rfl rfl
  obtain ⟨hrun, hvisits⟩ := (routing unpaved 2 5 ⟨1⟩ 7 .empty .rx).course rfl rfl hcourse
  obtain ⟨t, ht, htv⟩ : ∃ t, unpaved.run? (flow (callHook 3) 5 ⟨1⟩ 7 .empty .rx) =
      some (.ok .empty, t) ∧
      t.visits [] = [⟨1, ⟨2⟩, .data .empty⟩, ⟨2, ⟨3⟩, .data .empty⟩] := ⟨_, rfl, rfl⟩
  refine ⟨vs, x, hcourse, ?_⟩
  have h := (hvisits.result ht).2
  rw [show unpaved.stack = [] from rfl, htv] at h
  exact h.symm

end BlockFlow
