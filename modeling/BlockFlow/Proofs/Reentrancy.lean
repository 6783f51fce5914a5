import BlockFlow.Proofs.Orderly
import BlockFlow.Proofs.Refusal

/-!
# Re-entrancy

Whether a block is busy shows in all that can be asked of it: its operations are refused, messages,
timers and descriptors do not reach its hooks, and it reports nothing of itself. All of these agree,
and they say whether the instance of the block is inside of one of its hooks.

1. `Machine.PassesOver`, `Machine.Enters`: a run that calls no hook, and one that begins with one.
2. `Machine.Tells`, `Machine.Reaches`: how an operation and how a delivery depend on the block being
   busy.
3. `Machine.BusyAs`: everything that is asked of a block tells the same; `busyAs_contents`: it tells
   whether the contents of the block are away.
4. `reentrancy`: the whole discipline, for everything that is seen of an engine;
   `reentrancy_startPhoenix`: a block that is born again while its hook is open.
-/

namespace BlockFlow

open Run

variable {K : Kit} {α β : Type}

namespace Machine

/-! ## Runs with and without a hook -/

/-- A run comes to a result without a call of a hook, and nothing but notices comes of it. -/
structure PassesOver (s : Machine K) (r : Run K α) (a : α) : Prop where
  moments : r.moments s = []
  result : ∃ t, s.run? r = some (.ok a, t) ∧ s.OnlyTold t

/-- The first thing that a run lets happen is that a hook of an instance begins. -/
def Enters (s : Machine K) (r : Run K α) (serial : Nat) (id : BlockId) (hook : Hook) : Prop :=
  ∃ t ts, r.moments s = t :: ts ∧ t.events.head? = some (.entered serial id hook)

/-- An operation says that a block is busy just when `P` holds. -/
structure Tells (s : Machine K) (id : BlockId) (P : Prop)
    (r : Run K (Except EngineError Unit)) : Prop where
  refused : P → s.PassesOver r (.error (.blockBusy id))
  other : ¬ P → ∀ t, s.run? r ≠ some (.ok (.error (.blockBusy id)), t)

/-- A delivery reaches the hook of an instance just when `P` does not hold; it has a given result if
`P` does. -/
structure Reaches (s : Machine K) (serial : Nat) (id : BlockId) (hook : Hook) (P : Prop)
    (r : Run K α) (a : α) : Prop where
  dropped : P → s.PassesOver r a
  called : ¬ P → s.Enters r serial id hook

/-- All that can be asked of a live block tells that it is busy just when `P` holds. -/
structure BusyAs (s : Machine K) (id : BlockId) (e : Entry K) (P : Prop) : Prop where
  start (call : Call K) : s.Tells id P (Run.start call id)
  stop (call : Call K) : s.Tells id P (Run.stop call id)
  del : s.Tells id P (Run.del id)
  conf (call : Call K) (entry : String) : s.Tells id P (Run.conf call id entry)
  /-- The destination of a binding is looked at first. -/
  bind (call : Call K) (port : Port) {dest : BlockId} (hdest : mayLeadTo s.manager dest) :
    s.Tells id P (Run.bind call id port dest)
  bind_unknown (call : Call K) (port : Port) {dest : BlockId} (hdest : ¬ mayLeadTo s.manager dest) :
    s.PassesOver (Run.bind call id port dest) (.error (.blockNotFound dest))
  stats : (e.view id).stats = none ↔ P
  hook (n : Nat) (hook : Hook) : s.Reaches e.serial id hook P (callHook (n + 1) id hook) none
  /-- A flow that comes to the block ends there with its payload. -/
  flow (n : Nat) (kind : FlowKind) (m hops : Nat) {source : BlockId} {port : Port}
    (payload : Payload) (hhop : s.manager.hop hops source port = .routed id) :
    s.Reaches e.serial id (kind.hook payload) P
      (follow (callHook (n + 1)) kind (m + 1) hops source port payload) payload
  control (n : Nat) (payload : Payload) :
    s.Reaches e.serial id (.control payload) P (Run.control (callHook (n + 1)) id payload)
      (none, payload)
  timer (n : Nat) {t : Timer} (ht : t.owner = id) :
    s.Reaches e.serial id (.timer t) P (deliverTimer (callHook (n + 1)) t) ()
  event (n : Nat) {w : Watch} (hw : w.owner = id) (hsource : s.manager.watches.contains w.source) :
    s.Reaches e.serial id (.event w) P (deliverEvent (callHook (n + 1)) w) ()

variable {s t u : Machine K} {id : BlockId} {e : Entry K}

/-! ## The beginning of a run -/

/-- A run from a machine is, after its first steps, another run from a machine. -/
structure Leads (s : Machine K) (r : Run K α) (t : Machine K) (r' : Run K α) : Prop where
  moments : r.moments s = r'.moments t
  result : s.run? r = t.run? r'

theorem Leads.trans {r r' r'' : Run K α} (h : s.Leads r t r') (h' : t.Leads r' u r'') :
    s.Leads r u r'' :=
  ⟨h.moments.trans h'.moments, h.result.trans h'.result⟩

theorem Leads.bind {r r' : Run K α} (h : s.Leads r t r') (f : α → Run K β) :
    s.Leads (r >>= f) t (r' >>= f) where
  moments := by rw [moments_bind, moments_bind, h.moments, h.result]
  result := by rw [run?_bind, run?_bind, h.result]

theorem leads_manager {f : Manager K → Run K α} :
    s.Leads (do f (← Run.manager)) s (f s.manager) := ⟨rfl, rfl⟩

theorem Leads.passesOver {r r' : Run K α} {a : α} (h : s.Leads r t r') (hst : s.OnlyTold t)
    (ht : t.PassesOver r' a) : s.PassesOver r a := by
  obtain ⟨u, hu, htu⟩ := ht.result
  exact ⟨h.moments.trans ht.moments, u, h.result.trans hu, hst.trans htu⟩

/-! ## Operations -/

theorem passesOver_refuse {ε : Type} (n : Notice) (err : ε) :
    s.PassesOver (refuse n err : Run K (Except ε α)) (.error err) :=
  ⟨rfl, _, rfl, (OnlyTold.refl s).notice n s.host⟩

/-- An operation on an idle block says that the block is busy just when it is, unless it says so of
an idle block. -/
theorem tells_withIdle (he : s.manager.blocks.get? id = some e)
    {f : Entry K → K.Contents → Run K (Except EngineError Unit)}
    (hf : ∀ c, (f e c).Abides .free (fun x _ => x ≠ .error (.blockBusy id)) s) :
    s.Tells id (e.contents = none) (withIdle id f) := by
  cases hc : e.contents with
  | none =>
    have hlead : s.Leads (withIdle id f) s (refuse (.busy id) (.blockBusy id)) := by
      refine leads_manager.trans ?_
      simp only [he, hc]
      exact ⟨rfl, rfl⟩
    exact ⟨fun _ => hlead.passesOver (.refl s) (passesOver_refuse _ _), fun h => absurd rfl h⟩
  | some c =>
    have hlead : s.Leads (withIdle id f) s (f e c) := by
      refine leads_manager.trans ?_
      simp only [he, hc]
      exact ⟨rfl, rfl⟩
    refine ⟨fun h => (by cases h), fun _ t ht => ?_⟩
    rw [hlead.result] at ht
    have hne : (.error (.blockBusy id) : Except EngineError Unit) ≠ .error (.blockBusy id) :=
      (hf c).result ht
    exact hne rfl

theorem tells_of_onIdle {r : Run K (Except EngineError Unit)} (h : r.OnIdle id)
    (he : s.manager.blocks.get? id = some e) : s.Tells id (e.contents = none) r := by
  obtain ⟨f, rfl, hf⟩ := h
  exact tells_withIdle he fun c => (hf e c s).mono fun _ _ hx => hx _

theorem tells_del (he : s.manager.blocks.get? id = some e) :
    s.Tells id (e.contents = none) (Run.del id) := by
  refine tells_withIdle he fun c => ?_
  cases e.state with
  | started =>
    rw [abides_refuse]
    intro h
    cases h
  | stopped =>
    rw [abides_bind, abides_manager]
    split
    · rw [abides_refuse]
      intro h
      cases h
    · simp only [abides_bind, abides_notify, abides_erase, abides_record, abides_release,
        abides_pure]
      intro h
      cases h

/-! ## Deliveries -/

/-- A block that is busy drops the call of its hook. -/
theorem passesOver_callHook (he : s.manager.blocks.get? id = some e) (hc : e.contents = none)
    (n : Nat) (hook : Hook) {f : Option Reply → Run K α} {a : α} (hf : f none = pure a) :
    s.PassesOver (callHook (n + 1) id hook >>= f) a := by
  have htold : s.OnlyTold { s with events := .notice (.reentrantDropped id) :: s.events } :=
    (OnlyTold.refl s).notice _ s.host
  have hlead : s.Leads (callHook (n + 1) id hook)
      { s with events := .notice (.reentrantDropped id) :: s.events } (return none) := by
    refine leads_manager.trans ?_
    simp only [he, hc]
    exact ⟨rfl, rfl⟩
  refine (hlead.bind f).passesOver htold ?_
  rw [pure_bind, hf]
  exact ⟨rfl, _, rfl, .refl _⟩

theorem enters_callHook (he : s.manager.blocks.get? id = some e) (hc : e.contents ≠ none)
    (n : Nat) (hook : Hook) (f : Option Reply → Run K α) :
    s.Enters (callHook (n + 1) id hook >>= f) e.serial id hook := by
  obtain ⟨c, hc'⟩ := Option.ne_none_iff_exists'.1 hc
  have hlead : s.Leads (callHook (n + 1) id hook) (s.entered e.serial id hook) (do
      pause
      let result ← runScript (callHook n) n (leave id e.serial) c (K.hook c id hook)
      leave id e.serial result.2
      return some result.1) := by
    refine leads_manager.trans ?_
    simp only [he, hc']
    exact ⟨rfl, rfl⟩
  exact ⟨s.entered e.serial id hook, _, (hlead.bind f).moments, rfl⟩

/-- A run that comes to the call of a hook, and has a given result if it is dropped. -/
theorem reaches_of_leads {r : Run K α} {a : α} {n : Nat} {hook : Hook} {f : Option Reply → Run K α}
    (he : s.manager.blocks.get? id = some e) (hst : s.OnlyTold t)
    (hlead : s.Leads r t (callHook (n + 1) id hook >>= f)) (hf : f none = pure a) :
    s.Reaches e.serial id hook (e.contents = none) r a := by
  have he' : t.manager.blocks.get? id = some e := by rwa [hst.manager]
  refine ⟨fun hc => hlead.passesOver hst (passesOver_callHook he' hc n hook hf), fun hc => ?_⟩
  obtain ⟨u, us, hu, hhead⟩ := enters_callHook he' hc n hook f
  exact ⟨u, us, hlead.moments.trans hu, hhead⟩

/-! ## All that is asked of a block -/

theorem reaches_follow (he : s.manager.blocks.get? id = some e) (n : Nat) (kind : FlowKind)
    (m hops : Nat) {source : BlockId} {port : Port} (payload : Payload)
    (hhop : s.manager.hop hops source port = .routed id) :
    s.Reaches e.serial id (kind.hook payload) (e.contents = none)
      (follow (callHook (n + 1)) kind (m + 1) hops source port payload) payload := by
  have htold :
      s.OnlyTold { s with events := .notice (.flowRouted source port id kind) :: s.events } :=
    (OnlyTold.refl s).notice _ s.host
  apply reaches_of_leads he htold
  · refine leads_manager.trans ?_
    rw [hhop]
    exact ⟨rfl, rfl⟩
  · rfl

theorem reaches_control (he : s.manager.blocks.get? id = some e) (n : Nat) (payload : Payload) :
    s.Reaches e.serial id (.control payload) (e.contents = none)
      (Run.control (callHook (n + 1)) id payload) (none, payload) := by
  apply reaches_of_leads he (.refl s)
  · refine leads_manager.trans ?_
    rw [if_pos (by simp [Keyed.contains, he])]
    exact ⟨rfl, rfl⟩
  · rfl

theorem reaches_deliverTimer {t : Timer} (he : s.manager.blocks.get? t.owner = some e) (n : Nat) :
    s.Reaches e.serial t.owner (.timer t) (e.contents = none) (deliverTimer (callHook (n + 1)) t)
      () := by
  have htold : s.OnlyTold { s with events := .notice (.timerExpired t.owner t.tid) :: s.events } :=
    (OnlyTold.refl s).notice _ s.host
  apply reaches_of_leads he htold
  · refine leads_manager.trans ?_
    rw [if_pos (by simp [Keyed.contains, he])]
    exact ⟨rfl, rfl⟩
  · rfl

theorem reaches_deliverEvent {w : Watch} (he : s.manager.blocks.get? w.owner = some e)
    (hsource : s.manager.watches.contains w.source) (n : Nat) :
    s.Reaches e.serial w.owner (.event w) (e.contents = none) (deliverEvent (callHook (n + 1)) w)
      () := by
  apply reaches_of_leads he (.refl s)
  · refine leads_manager.trans ?_
    rw [if_neg (by simp [hsource]), if_neg (by simp [Keyed.contains, he])]
    exact ⟨rfl, rfl⟩
  · rfl

/-- Whatever is asked of a live block tells whether its contents are away. -/
theorem busyAs_contents (he : s.manager.blocks.get? id = some e) :
    s.BusyAs id e (e.contents = none) where
  start call := tells_of_onIdle (onIdle_start call id) he
  stop call := tells_of_onIdle (onIdle_stop call id) he
  del := tells_del he
  conf call entry := tells_of_onIdle (onIdle_conf call id entry) he
  bind call port dest hdest := by
    obtain ⟨r, hr, heq⟩ := bind_eq call id port dest
    have hlead : s.Leads (Run.bind call id port dest) s r := by
      rw [heq]
      refine leads_manager.trans ?_
      rw [if_pos hdest]
      exact ⟨rfl, rfl⟩
    have htells := tells_of_onIdle hr he
    exact ⟨fun hc => hlead.passesOver (.refl s) (htells.refused hc), fun hc t => by
      rw [hlead.result]
      exact htells.other hc t⟩
  bind_unknown call port dest hdest := by
    have hlead : s.Leads (Run.bind call id port dest) s
        (refuse (.bindUnknown id dest) (.blockNotFound dest)) := by
      refine leads_manager.trans ?_
      rw [if_neg hdest]
      exact ⟨rfl, rfl⟩
    exact hlead.passesOver (.refl s) (passesOver_refuse _ _)
  stats := Option.map_eq_none_iff
  hook n hook := by
    apply reaches_of_leads he (.refl s)
    · rw [bind_pure]
      exact ⟨rfl, rfl⟩
    · rfl
  flow n kind m hops _ _ payload hhop := reaches_follow he n kind m hops payload hhop
  control n payload := reaches_control he n payload
  timer n t ht := by
    subst ht
    exact reaches_deliverTimer he n
  event n w hw hsource := by
    subst hw
    exact reaches_deliverEvent he hsource n

/-! ## The discipline -/

/-- A block that has just been added is not busy. -/
theorem abides_add_free {type : String} :
    (add id type).Abides .free (fun x t => x = .ok () →
      ∃ e, t.manager.blocks.get? id = some e ∧ e.contents ≠ none) s := by
  unfold add
  rw [abides_bind, abides_manager]
  split
  · exact abides_refuse_of_ok
  split
  · exact abides_refuse_of_ok
  split
  · exact abides_refuse_of_ok
  simp only [abides_bind, abides_onHost]
  split
  · exact abides_refuse_of_ok
  simp only [abides_bind, abides_record, abides_notify, abides_modifyManager, abides_pure,
    Keyed.get?_insert, if_true]
  exact fun _ => ⟨_, rfl, Option.some_ne_none _⟩

/-- The discipline of calls that come back to the engine. -/
structure Disciplined (s : Machine K) : Prop where
  nested : WellNested s.events
  /-- No instance is inside of two of its hooks. -/
  once : s.inside.Nodup
  /-- A live block is busy just when its very instance is inside of a hook. -/
  busy {id : BlockId} {e : Entry K} (he : s.manager.blocks.get? id = some e) :
    s.BusyAs id e (e.serial ∈ s.inside)
  apart {id id' : BlockId} {e e' : Entry K} (he : s.manager.blocks.get? id = some e)
    (he' : s.manager.blocks.get? id' = some e') (hserial : e.serial = e'.serial) : id = id'
  /-- A block that is added is not busy, whatever hooks are open under its number. -/
  added {id : BlockId} {type : String} {t : Machine K}
    (hadd : s.run? (add id type) = some (.ok (.ok ()), t)) :
    t.inside = s.inside ∧ ∃ e, t.manager.blocks.get? id = some e ∧ e.serial ∉ t.inside ∧
      t.BusyAs id e False
  /-- Whenever something asked for outside of every hook comes back, no block is busy. -/
  outside (hs : s.inside = []) {n m : Nat} {r : Request K.Factory K.Remark}
    {x : Except Breakdown r.Answer} {t : Machine K}
    (hrun : s.run? (perform (callHook n) m r) = some (x, t)) :
    t.inside = [] ∧ ∀ {id e}, t.manager.blocks.get? id = some e → t.BusyAs id e False

theorem Orderly.busyAs (h : s.Orderly) (he : s.manager.blocks.get? id = some e) :
    s.BusyAs id e (e.serial ∈ s.inside) := by
  rw [← propext (h.busy_iff he)]
  exact busyAs_contents he

theorem Orderly.busyAs_false (h : s.Orderly) (he : s.manager.blocks.get? id = some e)
    (hserial : e.serial ∉ s.inside) : s.BusyAs id e False := by
  rw [← eq_false hserial]
  exact h.busyAs he

theorem Orderly.disciplined (h : s.Orderly) : s.Disciplined where
  nested := h.nested
  once := h.nodup
  busy := h.busyAs
  apart := h.apart
  added {id type t} hadd := by
    obtain ⟨hsteps, hstack⟩ := Abides.after (conducts_add id type s) hadd
    have ht : t.Orderly := hsteps.preserve (fun _ _ => Orderly.step) h
    obtain ⟨e, he, hc⟩ := (abides_add_free.result hadd : _) rfl
    have hserial : e.serial ∉ t.inside := fun hin => hc ((ht.busy_iff he).2 hin)
    exact ⟨inside_congr hstack, e, he, hserial, ht.busyAs_false he hserial⟩
  outside hs n m r x t hrun := by
    obtain ⟨hsteps, hstack⟩ := Abides.after (conducts_perform (conducts_callHook n) m r s) hrun
    have ht : t.Orderly := hsteps.preserve (fun _ _ => Orderly.step) h
    have hin : t.inside = [] := (inside_congr hstack).trans hs
    exact ⟨hin, fun he => ht.busyAs_false he (by rw [hin]; exact List.not_mem_nil)⟩

end Machine

/-- **Re-entrancy.** At every moment of every run, whatever the hooks do: hooks are well nested, no
instance is inside of two of its hooks, a live block is busy just when its very instance is inside
of a hook, and when the engine is outside of every hook no block is busy. -/
theorem reentrancy {s : Machine K} (h : s.Seen) : s.Disciplined ∧ (s.Rests → s.inside = []) := by
  refine ⟨h.orderly.disciplined, fun hrests => ?_⟩
  obtain ⟨_, _, -, hstack⟩ := hrests.steps
  unfold Machine.inside
  rw [hstack, List.map_nil]

/-! ## A block that is born again -/

/-- Blocks that drop all blocks when they are started, and add a new one under their own number. -/
@[reducible] def phoenixes : Kit where
  Factory := Unit
  Contents := Unit
  Remark := Empty
  build := fun _ h => (some (), h)
  hook := fun _ id hook =>
    match hook with
    | .start => do
      Script.ask .clear
      discard (Script.ask (.add id "phoenix"))
      return {}
    | _ => return {}
  report := fun _ buffer => (0, buffer)
  release := fun _ => id

/-- A block is added and started. -/
def startPhoenix : Errand phoenixes :=
  .play 5 do
    Script.ask (.register "phoenix" ())
    discard (Script.ask (.add ⟨1⟩ "phoenix"))
    discard (Script.ask (.start ⟨1⟩))

/-- While the hook of the first instance is open, the second one has its number and is not busy. -/
theorem reentrancy_startPhoenix : ∃ t : Machine phoenixes, t.Seen ∧ t.inside = [0] ∧
    ∃ e, t.manager.blocks.get? ⟨1⟩ = some e ∧ e.serial = 1 ∧ t.BusyAs ⟨1⟩ e False := by
  obtain ⟨t, ht, hin, hlive⟩ : ∃ t, (startPhoenix.run.moments (.fresh {} .manual))[4]? = some t ∧
      t.inside = [0] ∧ (t.manager.blocks.get? ⟨1⟩).map (·.serial) = some 1 := ⟨_, rfl, rfl, rfl⟩
  obtain ⟨e, he, hserial⟩ := Option.map_eq_some_iff.1 hlive
  have hseen : t.Seen := .during (.fresh {} .manual) startPhoenix (List.mem_of_getElem? ht)
  have hbusy := (reentrancy hseen).1.busy he
  have hfalse : (e.serial ∈ t.inside) = False := by
    rw [hin, hserial]
    decide
  rw [hfalse] at hbusy
  exact ⟨t, hseen, hin, e, he, hserial, hbusy⟩

end BlockFlow
