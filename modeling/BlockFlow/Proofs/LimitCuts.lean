import BlockFlow.Proofs.Dispatch
import BlockFlow.Proofs.HopLimit

/-!
# The limit of hops only cuts

The limit of hops is looked at between one hook and the next. So where the hooks of messages leave
the engine alone, a flow does the same under any limit up to the hop at which it is cut.

1. `Machine.withMaxHops`: a machine with another limit.
2. `Run.Heedless`: a run that has a result, and the same one under each limit; `heedless_callHook`:
   hooks that leave the engine alone are such runs.
3. `exists_course_of_limit`: a flow under a limit ends; `Course.cut`: what becomes of it under a
   lower one; `Machine.Agrees`: where both come to the same.
4. `limit_cuts`: this, for flows from all blocks.
-/

namespace BlockFlow

variable {K : Kit} {α β : Type}

def Machine.withMaxHops (s : Machine K) (max : Option UInt64) : Machine K :=
  { s with manager.settings.maxHops := max }

/-- The hooks of messages leave the engine alone. -/
def Kit.IsMute (K : Kit) : Prop :=
  ∀ (c : K.Contents) (id : BlockId) (hook : Hook), hook.IsMessage → (K.hook c id hook).IsMute

namespace Run

/-! ## Runs that do not depend on the limit -/

/-- A run has a result from a machine, and the same one whatever the limit of hops is. -/
def Heedless (r : Run K α) (s : Machine K) : Prop :=
  ∃ (x : Except Breakdown α) (t : Machine K),
    ∀ max, (s.withMaxHops max).run? r = some (x, t.withMaxHops max)

variable {s : Machine K} {call : Call K}

/-- A run comes under each limit to what it comes to under one. -/
theorem Heedless.exists_eq {r : Run K α} (h : r.Heedless s) {max : Option UInt64}
    {x : Except Breakdown α} {t : Machine K} (hrun : (s.withMaxHops max).run? r = some (x, t)) :
    ∃ u : Machine K, t = u.withMaxHops max ∧
      ∀ max', (s.withMaxHops max').run? r = some (x, u.withMaxHops max') := by
  obtain ⟨y, u, hboth⟩ := h
  cases (hboth max).symm.trans hrun
  exact ⟨u, rfl, hboth⟩

theorem heedless_pure (a : α) : (pure a : Run K α).Heedless s := ⟨.ok a, s, fun _ => rfl⟩

theorem heedless_throw (b : Breakdown) : (throw b : Run K α).Heedless s :=
  ⟨.error b, s, fun _ => rfl⟩

theorem Heedless.bind {r : Run K α} {f : α → Run K β} (hr : r.Heedless s)
    (hf : ∀ a t, (f a).Heedless t) : (r >>= f).Heedless s := by
  obtain ⟨x, t, hrun⟩ := hr
  cases x with
  | error b => exact ⟨.error b, t, fun max => by rw [run?_bind, hrun]⟩
  | ok a =>
    obtain ⟨y, u, hrest⟩ := hf a t
    exact ⟨y, u, fun max => by rw [run?_bind, hrun]; exact hrest max⟩

theorem Heedless.onBreak {r : Run K α} {last : Run K Unit} (hr : r.Heedless s)
    (hlast : ∀ t, last.Heedless t) : (r.onBreak last).Heedless s := by
  obtain ⟨x, t, hrun⟩ := hr
  cases x with
  | ok a => exact ⟨.ok a, t, fun max => by rw [run?_onBreak, hrun]⟩
  | error b =>
    obtain ⟨y, u, hrest⟩ := Heedless.bind (hlast t) fun _ _ => heedless_throw (α := α) b
    exact ⟨y, u, fun max => by rw [run?_onBreak, hrun]; exact hrest max⟩

theorem heedless_onHost (f : Host → α × Host) : (onHost f : Run K α).Heedless s :=
  ⟨.ok (f s.host).1, { s with host := (f s.host).2 }, fun _ => rfl⟩

theorem heedless_record (e : Event K) : (record e).Heedless s :=
  ⟨.ok (), { s with events := e :: s.events }, fun _ => rfl⟩

theorem heedless_pause : (pause : Run K Unit).Heedless s := ⟨.ok (), s, fun _ => rfl⟩

theorem heedless_modifyEntry (id : BlockId) (f : Entry K → Entry K) :
    (modifyEntry id f).Heedless s :=
  ⟨.ok (), { s with manager.blocks := s.manager.blocks.modify id f }, fun _ => rfl⟩

theorem heedless_perform {n : Nat} {r : Request K.Factory K.Remark} (hr : r.IsMute) :
    (perform call n r).Heedless s := by
  cases r with
  | act a =>
    refine (heedless_onHost (·.act a)).bind fun o t => ?_
    split
    · exact heedless_throw _
    · exact heedless_pure _
  | listen path => exact heedless_onHost (·.listen path)
  | accept fd => exact heedless_onHost (·.accept fd)
  | receive fd => exact heedless_onHost (·.receive fd)
  | transmit fd bytes => exact heedless_onHost (·.transmit fd bytes)
  | close fd => exact heedless_onHost fun h => ((), h.close fd)
  | removeFile path => exact heedless_onHost (·.removeFile path)
  | waiting fd => exact ⟨.ok (s.host.waiting fd), s, fun _ => rfl⟩
  | notice | remark => exact heedless_record _
  | _ => exact hr.elim

/-- What is done depends on the manager, but not on its limit. -/
theorem heedless_manager {f : Manager K → Run K α} (hf : (f s.manager).Heedless s)
    (hmax : ∀ max, f (s.withMaxHops max).manager = f s.manager) : (manager >>= f).Heedless s := by
  obtain ⟨x, t, hrun⟩ := hf
  exact ⟨x, t, fun max => by rw [run?_manager, hmax]; exact hrun max⟩

theorem heedless_release (serial : Nat) (c : K.Contents) : (release serial c).Heedless s :=
  (heedless_record _).bind fun _ _ => heedless_onHost _

theorem heedless_giveBack (id : BlockId) (serial : Nat) (c : K.Contents) :
    (giveBack id serial c).Heedless s := by
  refine heedless_manager ?_ fun _ => rfl
  split
  · split
    · exact heedless_modifyEntry _ _
    · exact heedless_release serial c
  · exact heedless_release serial c

theorem heedless_leave (id : BlockId) (serial : Nat) (c : K.Contents) :
    (leave id serial c).Heedless s :=
  (heedless_record _).bind fun _ _ => heedless_giveBack id serial c

theorem heedless_runScript {n : Nat} {S : Type} {leave : S → Run K Unit}
    (hleave : ∀ c t, (leave c).Heedless t) {script : Script K.Factory K.Remark S α}
    (hscript : script.IsMute) (c : S) : (runScript call n leave c script).Heedless s := by
  induction script generalizing c s with
  | done a => exact heedless_pure _
  | keep kept next ih => exact ih hscript kept
  | call r next ih =>
    refine ((heedless_perform hscript.1).onBreak (hleave c)).bind fun a t => ?_
    exact heedless_pause.bind fun _ _ => ih a (hscript.2 a) c

/-- A hook that leaves the engine alone does the same whatever the limit of hops is. -/
theorem heedless_callHook {id : BlockId} {hook : Hook} (hmute : ∀ c, (K.hook c id hook).IsMute)
    (n : Nat) : (callHook (n + 1) id hook).Heedless s := by
  show (enter (callHook n) n id hook).Heedless s
  refine heedless_manager ?_ fun _ => rfl
  split
  · exact heedless_pure _
  · next e _ =>
    cases e.contents with
    | none => exact (heedless_record _).bind fun _ _ => heedless_pure _
    | some c =>
      refine (heedless_modifyEntry _ _).bind fun _ _ => (heedless_record _).bind fun _ _ =>
        heedless_pause.bind fun _ _ => ?_
      refine (heedless_runScript (fun c _ => heedless_leave id e.serial c) (hmute c) c).bind
        fun result _ => ?_
      exact (heedless_leave id e.serial result.2).bind fun _ _ => heedless_pure _

end Run

open Run

/-! ## A stage under two limits -/

/-- What is told when a flow is bound for one more block, but does not call it. -/
def Notice.IsOnward : Notice → Prop
  | .flowLost .. | .reentrantDropped _ | .flowLimit .. => True
  | _ => False

namespace Stage

def withMaxHops (σ : Stage K) (max : Option UInt64) : Stage K :=
  { σ with machine := σ.machine.withMaxHops max }

variable {σ : Stage K} {kind : FlowKind} {hops : Nat} {dest : BlockId} {serial : Nat}
  {max max' : Option UInt64} {n : UInt64} {ns : List Notice}

theorem mayGoOn_of_lt (h : hops < n.toNat) : (σ.withMaxHops (some n)).MayGoOn hops := by
  intro n' hn'
  cases hn'
  exact h

/-- A flow calls a hook under another limit that lets it go on. -/
theorem Calls.withMaxHops (h : (σ.withMaxHops max).Calls hops dest serial)
    (hgo : (σ.withMaxHops max').MayGoOn hops) : (σ.withMaxHops max').Calls hops dest serial :=
  ⟨h.leadsTo, h.not_sink, hgo, h.live⟩

/-- A flow that would call a hook is cut at the limit. -/
theorem Calls.stops (h : (σ.withMaxHops max).Calls hops dest serial) (hn : n.toNat ≤ hops) :
    (σ.withMaxHops (some n)).Stops kind hops [.flowLimit σ.id kind n.toNat] :=
  .limit h.leadsTo h.not_sink rfl hn

/-- A flow that ends without a further call does so under each lower limit, and in the same way if
it is not bound for one more block. -/
theorem Stops.withMaxHops (h : (σ.withMaxHops max).Stops kind hops ns)
    (hle : ∀ m, max = some m → n.toNat ≤ m.toNat) :
    ∃ ns', (σ.withMaxHops (some n)).Stops kind hops ns' ∧
      (ns' = ns ∨ ∃ ns₀ note, ns = ns₀ ++ [note] ∧ note.IsOnward) := by
  cases h with
  | vanished h => exact ⟨_, .vanished h, .inl rfl⟩
  | unbound he h => exact ⟨_, .unbound he h, .inl rfl⟩
  | sink hdest hsink => exact ⟨_, .sink hdest hsink, .inl rfl⟩
  | limit hdest hsink hmax hhops =>
    exact ⟨_, .limit hdest hsink rfl (Nat.le_trans (hle _ hmax) hhops), .inr ⟨[], _, rfl, trivial⟩⟩
  | lost hdest hsink _ h =>
    by_cases hlt : hops < n.toNat
    · exact ⟨_, .lost hdest hsink (mayGoOn_of_lt hlt) h, .inl rfl⟩
    · exact ⟨_, .limit hdest hsink rfl (Nat.not_lt.1 hlt), .inr ⟨[], _, rfl, trivial⟩⟩
  | busy hdest hsink _ he hc =>
    by_cases hlt : hops < n.toNat
    · exact ⟨_, .busy hdest hsink (mayGoOn_of_lt hlt) he hc, .inl rfl⟩
    · exact ⟨_, .limit hdest hsink rfl (Nat.not_lt.1 hlt), .inr ⟨[_], _, rfl, trivial⟩⟩

end Stage

/-! ## A course under two limits -/

/-- A flow has come to a machine, and under a limit it has come to another one. All is the same but
the limit, and what is told at the end of a flow that is bound for one more block. -/
structure Machine.Agrees (t : Machine K) (n : UInt64) (t' : Machine K) : Prop where
  manager : t'.manager = (t.withMaxHops (some n)).manager
  host : t'.host = t.host
  told : (∀ note es, t.events = .notice note :: es → ¬ note.IsOnward) →
    t' = t.withMaxHops (some n)

theorem Machine.agrees_withMaxHops (t : Machine K) (max : Option UInt64) (n : UInt64) :
    (t.withMaxHops max).Agrees n (t.withMaxHops (some n)) := ⟨rfl, rfl, fun _ => rfl⟩

theorem Machine.agrees_noticed {s : Machine K} {max : Option UInt64} {n : UInt64}
    {ns ns' : List Notice}
    (h : ns' = ns ∨ ∃ ns₀ note, ns = ns₀ ++ [note] ∧ note.IsOnward) :
    ((s.withMaxHops max).noticed ns).Agrees n ((s.withMaxHops (some n)).noticed ns') where
  manager := rfl
  host := rfl
  told htold := by
    rcases h with rfl | ⟨ns₀, note, rfl, honward⟩
    · rfl
    · refine absurd honward (htold note ((ns₀.map .notice).reverse ++ s.events) ?_)
      simp [Machine.noticed, Machine.withMaxHops]

section Courses

variable {d left hops : Nat} {kind : FlowKind} {σ : Stage K} {dest : BlockId} {vs : List Visit}
  {max : Option UInt64} {n : UInt64} {y : Except Breakdown Payload} {t : Machine K}

/-- What a hook of a message comes to, whatever the limit is. -/
theorem heedless_routed (hmute : K.IsMute) (d : Nat) (kind : FlowKind) (σ : Stage K)
    (dest : BlockId) :
    (callHook (d + 1) dest (kind.hook σ.payload)).Heedless (σ.routed dest kind) :=
  heedless_callHook (fun c => hmute c dest _ (kind.hook_isMessage σ.payload)) d

theorem exists_course_of_limit (hmute : K.IsMute) (d : Nat) (kind : FlowKind) (n : UInt64)
    (left hops : Nat) (σ : Stage K) (hleft : n.toNat < left + hops) (hhops : hops ≤ n.toNat) :
    ∃ vs x, Course (callHook (d + 1)) kind left hops (σ.withMaxHops (some n)) vs (some x) := by
  induction left generalizing hops σ with
  | zero => omega
  | succ left ih =>
    rcases (σ.withMaxHops (some n)).stops_or_calls kind hops with ⟨ns, h⟩ | ⟨dest, serial, h⟩
    · exact ⟨_, _, .stops h⟩
    obtain ⟨y, t, hrun⟩ := heedless_routed hmute d kind σ dest
    cases y with
    | error b => exact ⟨_, _, .breaks h (hrun (some n))⟩
    | ok answer =>
      obtain ⟨e, he, -, hc⟩ := h.live
      obtain ⟨reply, rfl⟩ := exists_reply_of_idle
        (s := (σ.withMaxHops (some n)).routed dest kind) he hc (hrun (some n))
      by_cases hport : reply.port = 0
      · exact ⟨_, _, .drops h (hrun (some n)) hport⟩
      · have hlt : hops < n.toNat := h.mayGoOn n rfl
        obtain ⟨vs, x, hrest⟩ := ih (hops + 1) ⟨t, dest, reply.port, reply.payload⟩ (by omega) hlt
        exact ⟨_, _, .goes h (hrun (some n)) hport hrest⟩

/-- A flow that would call a hook has no more calls at the limit. -/
theorem Stage.Calls.exists_cut {serial : Nat} (h : (σ.withMaxHops max).Calls hops dest serial)
    (hn : n.toNat ≤ hops) (v : Visit) (vs : List Visit) :
    ∃ y' t', Course (callHook (d + 1)) kind (left + 1) hops (σ.withMaxHops (some n))
        ((v :: vs).take (n.toNat - hops)) (some (y', t')) ∧
      (hops + (v :: vs).length ≤ n.toNat → y' = y ∧ t.Agrees n t') := by
  have hstops : Course (callHook (d + 1)) kind (left + 1) hops (σ.withMaxHops (some n)) [] _ :=
    .stops (h.stops hn)
  rw [Nat.sub_eq_zero_of_le hn, List.take_zero]
  refine ⟨_, _, hstops, fun hlen => ?_⟩
  rw [List.length_cons] at hlen
  omega

/-- The course of a flow under a lower limit: the same hooks are called, up to the limit. If there
are no more, the flow comes to the same. -/
theorem Course.cut (hmute : K.IsMute) (hle : ∀ m, max = some m → n.toNat ≤ m.toNat)
    (h : Course (callHook (d + 1)) kind left hops (σ.withMaxHops max) vs (some (y, t))) :
    ∃ y' t', Course (callHook (d + 1)) kind left hops (σ.withMaxHops (some n))
        (vs.take (n.toNat - hops)) (some (y', t')) ∧
      (hops + vs.length ≤ n.toNat → y' = y ∧ t.Agrees n t') := by
  induction left generalizing hops σ vs with
  | zero => cases h
  | succ left ih =>
    have hrouted := fun dest => heedless_routed hmute d kind σ dest
    cases h with
    | stops hstops =>
      obtain ⟨ns', hstops', hns⟩ := hstops.withMaxHops hle
      rw [List.take_nil]
      exact ⟨_, _, .stops hstops', fun _ => ⟨rfl, Machine.agrees_noticed hns⟩⟩
    | @breaks _ _ _ dest _ b _ hcalls hrun =>
      by_cases hlt : hops < n.toNat
      · obtain ⟨u, rfl, hboth⟩ := (hrouted dest).exists_eq hrun
        rw [List.take_of_length_le (by rw [List.length_singleton]; omega)]
        exact ⟨_, _, .breaks (hcalls.withMaxHops (Stage.mayGoOn_of_lt hlt)) (hboth (some n)),
          fun _ => ⟨rfl, u.agrees_withMaxHops max n⟩⟩
      · exact hcalls.exists_cut (Nat.not_lt.1 hlt) _ _
    | @drops _ _ _ dest _ reply _ hcalls hrun hport =>
      by_cases hlt : hops < n.toNat
      · obtain ⟨u, rfl, hboth⟩ := (hrouted dest).exists_eq hrun
        rw [List.take_of_length_le (by rw [List.length_singleton]; omega)]
        exact ⟨_, _, .drops (hcalls.withMaxHops (Stage.mayGoOn_of_lt hlt)) (hboth (some n)) hport,
          fun _ => ⟨rfl, Machine.agrees_noticed (.inl rfl)⟩⟩
      · exact hcalls.exists_cut (Nat.not_lt.1 hlt) _ _
    | @goes _ _ _ dest _ reply _ vs _ hcalls hrun hport hrest =>
      by_cases hlt : hops < n.toNat
      · obtain ⟨u, rfl, hboth⟩ := (hrouted dest).exists_eq hrun
        obtain ⟨y', t', hrest', hagrees⟩ :=
          ih (σ := ⟨u, dest, reply.port, reply.payload⟩) hrest
        have htake : n.toNat - hops = n.toNat - (hops + 1) + 1 := by omega
        rw [htake, List.take_succ_cons]
        refine ⟨y', t', .goes (hcalls.withMaxHops (Stage.mayGoOn_of_lt hlt)) (hboth (some n)) hport
          hrest', fun hlen => hagrees ?_⟩
        rw [List.length_cons] at hlen
        omega
      · exact hcalls.exists_cut (Nat.not_lt.1 hlt) _ _

end Courses

/-! ## Flows -/

namespace Run

variable {s t : Machine K} {vs vs' : List Visit}

/-- A run that has a result calls the same hooks however they are told. -/
theorem Comes.unique {r : Run K α} {x x' : Except Breakdown α × Machine K}
    (h : r.Comes s vs (some x)) (h' : r.Comes s vs' (some x')) : vs = vs' ∧ x = x' := by
  have hx : x = x' := Option.some.inj (h.run?_eq.symm.trans h'.run?_eq)
  subst hx
  have hvisits := (Abides.after h.visits h.run?_eq).2.symm.trans
    (Abides.after h'.visits h'.run?_eq).2
  exact ⟨List.append_cancel_left hvisits, rfl⟩

variable {id : BlockId} {e : Entry K} {port : Port} {payload : Payload} {kind : FlowKind}

/-- A flow from a started block follows its course. -/
theorem comes_flow_of_started {d left : Nat} (he : s.manager.blocks.get? id = some e)
    (hst : e.state = .started) {x : Option (Except Breakdown Payload × Machine K)}
    (h : Course (callHook (d + 1)) kind left 0
      ⟨s.noticed [.flowStarted id port kind], id, port, payload⟩ vs x) :
    (flow (callHook (d + 1)) left id port payload kind).Comes s vs x := by
  refine .manager ?_
  simp only [he, hst]
  exact ⟨h.comes.run?_eq, (visits_notify _ _).bind rfl h.comes.visits⟩

/-- A flow from any other block calls no hook. -/
theorem exists_notices_of_not_started (id : BlockId) (port : Port) (payload : Payload)
    (kind : FlowKind)
    (h : ∀ e, s.manager.blocks.get? id = some e → e.state ≠ .started) : ∃ ns, ∀ call m max,
    (flow call m id port payload kind).Comes (s.withMaxHops max) []
      (some (.ok payload, (s.noticed ns).withMaxHops max)) := by
  cases he : s.manager.blocks.get? id with
  | none =>
    refine ⟨[.flowNotFound id kind], fun call m max => .manager ?_⟩
    have hmax : (s.withMaxHops max).manager.blocks.get? id = none := he
    simp only [hmax]
    exact ⟨rfl, (visits_notify _ _).bind rfl (visits_pure _ _)⟩
  | some e =>
    refine ⟨[.flowNotStarted id kind], fun call m max => .manager ?_⟩
    have hmax : (s.withMaxHops max).manager.blocks.get? id = some e := he
    have hst : e.state = .stopped := by
      cases hst : e.state with
      | stopped => rfl
      | started => exact absurd hst (h e he)
    simp only [hmax, hst]
    exact ⟨rfl, (visits_notify _ _).bind rfl (visits_pure _ _)⟩

variable {d left : Nat} {max : Option UInt64} {n : UInt64} {y : Except Breakdown Payload}

/-- A flow with a limit comes to an end. -/
theorem exists_comes_of_limit (hmute : K.IsMute) (s : Machine K) (d : Nat) (id : BlockId)
    (port : Port) (payload : Payload) (kind : FlowKind) (hleft : n.toNat < left) : ∃ vs x,
    (flow (callHook (d + 1)) left id port payload kind).Comes (s.withMaxHops (some n)) vs
      (some x) := by
  by_cases hstarted : ∃ e, s.manager.blocks.get? id = some e ∧ e.state = .started
  · obtain ⟨e, he, hst⟩ := hstarted
    obtain ⟨vs, x, hcourse⟩ := exists_course_of_limit hmute d kind n left 0
      ⟨s.noticed [.flowStarted id port kind], id, port, payload⟩ hleft (Nat.zero_le _)
    exact ⟨vs, x, comes_flow_of_started (s := s.withMaxHops (some n)) he hst hcourse⟩
  · obtain ⟨ns, hcomes⟩ := exists_notices_of_not_started id port payload kind
      fun e he hst => hstarted ⟨e, he, hst⟩
    exact ⟨_, _, hcomes _ _ _⟩

/-- A flow under a lower limit. -/
theorem Comes.cut (hmute : K.IsMute) (hle : ∀ m, max = some m → n.toNat ≤ m.toNat)
    (h : (flow (callHook (d + 1)) left id port payload kind).Comes (s.withMaxHops max) vs
      (some (y, t))) :
    ∃ y' t', (flow (callHook (d + 1)) left id port payload kind).Comes (s.withMaxHops (some n))
        (vs.take n.toNat) (some (y', t')) ∧
      (vs.length ≤ n.toNat → y' = y ∧ t.Agrees n t') := by
  by_cases hstarted : ∃ e, s.manager.blocks.get? id = some e ∧ e.state = .started
  · obtain ⟨e, he, hst⟩ := hstarted
    obtain ⟨vs', x, hcourse⟩ := exists_course d kind left 0
      ⟨(s.withMaxHops max).noticed [.flowStarted id port kind], id, port, payload⟩
    have hcomes := comes_flow_of_started (s := s.withMaxHops max) he hst hcourse
    obtain rfl : x = some (y, t) := hcomes.run?_eq.symm.trans h.run?_eq
    obtain ⟨rfl, -⟩ := h.unique hcomes
    obtain ⟨y', t', hcut, hagrees⟩ := Course.cut
      (σ := ⟨s.noticed [.flowStarted id port kind], id, port, payload⟩) hmute hle hcourse
    rw [Nat.zero_add] at hagrees
    exact ⟨y', t', comes_flow_of_started (s := s.withMaxHops (some n)) he hst hcut, hagrees⟩
  · obtain ⟨ns, hcomes⟩ := exists_notices_of_not_started id port payload kind
      fun e he hst => hstarted ⟨e, he, hst⟩
    obtain ⟨rfl, hx⟩ := h.unique (hcomes _ _ _)
    cases hx
    rw [List.take_nil]
    exact ⟨_, _, hcomes _ _ _, fun _ => ⟨rfl, Machine.agrees_withMaxHops _ _ _⟩⟩

end Run

/-- What a limit does to a flow that is asked of a machine. -/
structure Machine.LimitCuts (s : Machine K) (d left : Nat) (id : BlockId) (port : Port)
    (payload : Payload) (kind : FlowKind) (n m : UInt64) : Prop where
  /-- Under the lower limit the same hooks are called as under the higher one, with the same
  payloads, but not more than the limit lets the flow call. -/
  cuts : ∃ vs x x',
    (flow (callHook (d + 1)) left id port payload kind).Comes (s.withMaxHops (some m)) vs (some x) ∧
    (flow (callHook (d + 1)) left id port payload kind).Comes (s.withMaxHops (some n))
      (vs.take n.toNat) (some x')
  /-- A flow that ends without a limit after so many calls does the same under the limit. -/
  spares : ∀ vs y t,
    (flow (callHook (d + 1)) left id port payload kind).Comes (s.withMaxHops none) vs
      (some (y, t)) → vs.length ≤ n.toNat →
    ∃ t', (flow (callHook (d + 1)) left id port payload kind).Comes (s.withMaxHops (some n)) vs
      (some (y, t')) ∧ t.Agrees n t'
  /-- If it ends at the sink, nothing at all is told of the limit. -/
  ends : ∀ vs y t id' port' es,
    (flow (callHook (d + 1)) left id port payload kind).Comes (s.withMaxHops none) vs
      (some (y, t)) → vs.length ≤ n.toNat → t.events = .notice (.flowEnded id' port' kind) :: es →
    (flow (callHook (d + 1)) left id port payload kind).Comes (s.withMaxHops (some n)) vs
      (some (y, t.withMaxHops (some n)))

/-- **The limit only cuts.** For every manager whose hooks of messages leave the engine alone, and a
bound of hops above the limits: under a limit a flow calls the hooks that it calls under any higher
one, with the same payloads, until it has called as many as the limit lets it. A flow that ends
without a limit after so many calls comes to the same payload and the same manager under the limit;
if it ends at the sink, it does so in just the same way. -/
theorem limit_cuts (hmute : K.IsMute) (s : Machine K) (d left : Nat) (id : BlockId) (port : Port)
    (payload : Payload) (kind : FlowKind) {n m : UInt64} (hle : n ≤ m) (hleft : m.toNat < left) :
    s.LimitCuts d left id port payload kind n m := by
  refine ⟨?_, fun vs y t h hlen => ?_, fun vs y t id' port' es h hlen hended => ?_⟩
  · obtain ⟨vs, ⟨y, t⟩, h⟩ := exists_comes_of_limit hmute s d id port payload kind hleft
    obtain ⟨y', t', h', -⟩ := h.cut hmute fun m' hm' => by
      cases hm'
      exact UInt64.le_iff_toNat_le.1 hle
    exact ⟨vs, (y, t), (y', t'), h, h'⟩
  all_goals
    obtain ⟨y', t', h', hsame⟩ := h.cut (n := n) hmute fun m' hm' => by cases hm'
    obtain ⟨rfl, hagrees⟩ := hsame hlen
    rw [List.take_of_length_le hlen] at h'
  · exact ⟨t', h', hagrees⟩
  · rwa [hagrees.told fun note es' hes honward => ?_] at h'
    rw [hended, List.cons.injEq, Event.notice.injEq] at hes
    rw [← hes.1] at honward
    exact honward

/-! ## A path as long as the limit -/

/-- Blocks that hand data on. -/
@[reducible] def handers : Kit where
  Factory := Unit
  Contents := Unit
  Remark := Empty
  build := fun _ h => (some (), h)
  hook := fun _ _ hook =>
    match hook with
    | .data payload => return { port := 7, payload }
    | _ => return {}
  report := fun _ buffer => (0, buffer)
  release := fun _ => id

theorem isMute_handers : handers.IsMute := fun _ _ hook _ => by cases hook <;> trivial

/-- Three blocks in a row, the last of which leads to the sink; the first one is started. -/
def row : Machine handers :=
  let blocks : Keyed BlockId (Entry handers) := .empty
  { manager := { (.fresh {} : Manager handers) with
      blocks := ((blocks.insert ⟨1⟩
        { serial := 0, type := "hander", state := .started, bindings := [⟨7, ⟨2⟩⟩],
          contents := some () }).insert ⟨2⟩
        { serial := 1, type := "hander", bindings := [⟨7, ⟨3⟩⟩], contents := some () }).insert ⟨3⟩
        { serial := 2, type := "hander", bindings := [⟨7, .sink⟩], contents := some () } }
    host := .manual }

/-- Two calls and the sink: the flow ends there under a limit of two hops as it does without one. -/
theorem limit_cuts_row : ∃ vs y t, vs = [⟨1, ⟨2⟩, .data .empty⟩, ⟨2, ⟨3⟩, .data .empty⟩] ∧
    (flow (callHook 2) 6 ⟨1⟩ 7 .empty .rx).Comes (row.withMaxHops none) vs (some (y, t)) ∧
    (flow (callHook 2) 6 ⟨1⟩ 7 .empty .rx).Comes (row.withMaxHops (some 2)) vs
      (some (y, t.withMaxHops (some 2))) := by
  obtain ⟨vs, x, hcourse⟩ := exists_course 1 .rx 6 0
    ⟨(row.withMaxHops none).noticed [.flowStarted ⟨1⟩ 7 .rx], ⟨1⟩, 7, .empty⟩
  have hcomes := comes_flow_of_started (s := row.withMaxHops none) rfl rfl hcourse
  obtain ⟨t, ht, hvisits, hended⟩ : ∃ t,
      (row.withMaxHops none).run? (flow (callHook 2) 6 ⟨1⟩ 7 .empty .rx) = some (.ok .empty, t) ∧
      t.visits [] = [⟨1, ⟨2⟩, .data .empty⟩, ⟨2, ⟨3⟩, .data .empty⟩] ∧
      t.events = .notice (.flowEnded ⟨3⟩ 7 .rx) :: t.events.tail := ⟨_, rfl, rfl, rfl⟩
  obtain rfl := hcomes.run?_eq.symm.trans ht
  have hvs : vs = [⟨1, ⟨2⟩, .data .empty⟩, ⟨2, ⟨3⟩, .data .empty⟩] :=
    ((hcomes.visits.result ht).2.symm.trans hvisits)
  have hcuts := limit_cuts isMute_handers row 1 6 ⟨1⟩ 7 .empty .rx (n := 2) (m := 5) (by decide)
    (by decide)
  refine ⟨vs, _, t, hvs, hcomes, hcuts.ends vs _ t _ _ _ hcomes ?_ hended⟩
  rw [hvs]
  decide

end BlockFlow
