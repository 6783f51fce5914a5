import BlockFlow.Block.Builtin
import BlockFlow.Proofs.Moments

/-!
# Refusals

A request that is refused changes nothing. Every operation looks first whether it can be done; its
last test comes before its first change and before its first call of a hook. So whatever the state
of the engine, inside or outside of a hook, an error leaves the manager as it was, with its blocks
and their contents, its factories, timers and watches, and only notices are recorded.

1. `OnlyTold`: nothing but notices came of it.
2. `RefusesInertly`: when a run has an error for its result, nothing but notices came of it; a lemma
   for each operation. `OnIdle`: the operations that succeed on every idle block.
3. `Request.Refused`: which answers are refusals. Batches are left out: they go on after a failure.
-/

namespace BlockFlow

variable {K : Kit} {ε α β : Type}

/-- From one machine to another nothing but notices came: the manager is the same. -/
structure Machine.OnlyTold (s t : Machine K) : Prop where
  manager : t.manager = s.manager
  events : ∃ ns : List Notice, t.events = ns.map .notice ++ s.events

namespace Machine.OnlyTold

variable {s t u : Machine K}

theorem refl (s : Machine K) : s.OnlyTold s := ⟨rfl, [], rfl⟩

theorem trans (h : s.OnlyTold t) (h' : t.OnlyTold u) : s.OnlyTold u := by
  obtain ⟨hm, ns, hns⟩ := h
  obtain ⟨hm', ns', hns'⟩ := h'
  refine ⟨hm'.trans hm, ns' ++ ns, ?_⟩
  rw [hns', hns, List.map_append, List.append_assoc]

/-- A notice more, whatever happens on the host. -/
theorem notice (h : s.OnlyTold t) (n : Notice) (host : Host) :
    s.OnlyTold ⟨t.manager, host, .notice n :: t.events⟩ := by
  obtain ⟨hm, ns, hns⟩ := h
  refine ⟨hm, n :: ns, ?_⟩
  simp only [hns, List.map_cons, List.cons_append]

end Machine.OnlyTold

namespace Run

/-- Where a run of the engine has an error for its result, nothing but notices came of it. -/
def RefusesInertly (r : Run K (Except ε α)) : Prop :=
  ∀ s : Machine K, r.Abides .free (fun x t => ∀ e, x = .error e → s.OnlyTold t) s

/-! ## Parts of an operation -/

theorem refusesInertly_refuse (n : Notice) (e : ε) :
    (refuse n e : Run K (Except ε α)).RefusesInertly :=
  fun s _ _ => (Machine.OnlyTold.refl s).notice n s.host

/-- A run that does not have an error for its result. -/
def Succeeds (r : Run K (Except ε α)) : Prop :=
  ∀ s : Machine K, r.Abides .free (fun x _ => ∀ e, x ≠ .error e) s

theorem succeeds_ok (a : α) : (return .ok a : Run K (Except ε α)).Succeeds := by
  intro s e h
  cases h

/-- What succeeds may do anything first. -/
theorem Succeeds.after {f : β → Run K (Except ε α)} (h : ∀ b, (f b).Succeeds) (r : Run K β) :
    (r >>= f).Succeeds := by
  intro s
  rw [abides_bind]
  exact abides_free h

theorem Succeeds.refusesInertly {r : Run K (Except ε α)} (h : r.Succeeds) : r.RefusesInertly :=
  fun s => (h s).mono fun _ _ hx e he => absurd he (hx e)

theorem RefusesInertly.after_notice {r : Run K (Except ε α)} (h : r.RefusesInertly) (n : Notice) :
    (do notify n; r : Run K (Except ε α)).RefusesInertly := by
  intro s
  rw [abides_bind, abides_notify]
  refine (h _).mono fun x t ht e hx => ?_
  exact ((Machine.OnlyTold.refl s).notice n s.host).trans (ht e hx)

theorem RefusesInertly.after_manager {f : Manager K → Run K (Except ε α)}
    (h : ∀ m, (f m).RefusesInertly) : (do f (← manager) : Run K (Except ε α)).RefusesInertly := by
  intro s
  rw [abides_bind, abides_manager]
  exact h _ s

theorem RefusesInertly.after_host {f : Host → Run K (Except ε α)}
    (h : ∀ m, (f m).RefusesInertly) : (do f (← host) : Run K (Except ε α)).RefusesInertly := by
  intro s
  rw [abides_bind, abides_host]
  exact h _ s

/-- Something done on the host comes before the tests, as reading the clock and building do. -/
theorem RefusesInertly.after_onHost {γ : Type} {f : γ → Run K (Except ε α)}
    (h : ∀ c, (f c).RefusesInertly) (g : Host → γ × Host) :
    (do f (← onHost g) : Run K (Except ε α)).RefusesInertly := by
  intro s
  rw [abides_bind, abides_onHost]
  refine (h _ _).mono fun x t ht e hx => ?_
  obtain ⟨hm, hns⟩ := ht e hx
  exact ⟨hm, hns⟩

theorem RefusesInertly.mapError {r : Run K (Except ε α)} (h : r.RefusesInertly) {ε' : Type}
    (f : ε → ε') : (do return (← r).mapError f : Run K (Except ε' α)).RefusesInertly := by
  intro s
  rw [abides_bind]
  refine (h s).mono fun x t ht => ?_
  cases x with
  | ok a => intro e hx; cases hx
  | error e => intro e' _; exact ht e rfl

theorem refusesInertly_withIdle {id : BlockId}
    {f : Entry K → K.Contents → Run K (Except EngineError α)}
    (h : ∀ entry contents, (f entry contents).RefusesInertly) : (withIdle id f).RefusesInertly := by
  unfold withIdle
  refine .after_manager fun m => ?_
  cases m.blocks.get? id with
  | none => exact refusesInertly_refuse _ _
  | some entry =>
    dsimp only
    cases entry.contents with
    | none => exact refusesInertly_refuse _ _
    | some contents => exact h entry contents

/-! ## Operations on blocks -/

theorem refusesInertly_add (id : BlockId) (type : String) :
    (add id type : Run K _).RefusesInertly := by
  unfold add
  refine .after_manager fun m => ?_
  split
  · exact refusesInertly_refuse _ _
  split
  · exact refusesInertly_refuse _ _
  split
  · exact refusesInertly_refuse _ _
  refine .after_onHost (fun made => ?_) _
  cases made with
  | none => exact refusesInertly_refuse _ _
  | some contents =>
    refine Succeeds.refusesInertly ?_
    exact .after (fun _ => .after (fun _ => .after (fun _ => succeeds_ok _) _) _) _

/-- An operation on idle blocks, which succeeds on every one of them. -/
def OnIdle (id : BlockId) (r : Run K (Except EngineError α)) : Prop :=
  ∃ f : Entry K → K.Contents → Run K (Except EngineError α),
    r = withIdle id f ∧ ∀ entry contents, (f entry contents).Succeeds

theorem OnIdle.refusesInertly {id : BlockId} {r : Run K (Except EngineError α)} (h : r.OnIdle id) :
    r.RefusesInertly := by
  obtain ⟨f, rfl, hf⟩ := h
  exact refusesInertly_withIdle fun entry contents => (hf entry contents).refusesInertly

theorem onIdle_start (call : Call K) (id : BlockId) : (start call id).OnIdle id := by
  refine ⟨_, rfl, fun entry contents => ?_⟩
  dsimp only
  cases entry.state with
  | started => exact .after (fun _ => succeeds_ok _) _
  | stopped => exact .after (fun _ => .after (fun _ => .after (fun _ => succeeds_ok _) _) _) _

theorem onIdle_stop (call : Call K) (id : BlockId) : (stop call id).OnIdle id := by
  refine ⟨_, rfl, fun entry contents => ?_⟩
  dsimp only
  cases entry.state with
  | stopped => exact .after (fun _ => succeeds_ok _) _
  | started => exact .after (fun _ => .after (fun _ => .after (fun _ => succeeds_ok _) _) _) _

theorem onIdle_conf (call : Call K) (id : BlockId) (entry : String) :
    (conf call id entry).OnIdle id :=
  ⟨_, rfl, fun _ _ => .after (fun _ => .after (fun _ => succeeds_ok _) _) _⟩

/-- A binding is made on an idle block once its destination is found to be one. -/
theorem bind_eq (call : Call K) (id : BlockId) (port : Port) (dest : BlockId) :
    ∃ r : Run K (Except EngineError Unit), r.OnIdle id ∧ bind call id port dest =
      (do if mayLeadTo (← manager) dest then r
          else refuse (.bindUnknown id dest) (.blockNotFound dest) : Run K _) :=
  ⟨_, ⟨_, rfl, fun _ _ =>
    .after (fun _ => .after (fun _ => .after (fun _ => succeeds_ok _) _) _) _⟩, rfl⟩

theorem refusesInertly_bind (call : Call K) (id : BlockId) (port : Port) (dest : BlockId) :
    (bind call id port dest).RefusesInertly := by
  obtain ⟨r, hr, heq⟩ := bind_eq call id port dest
  rw [heq]
  refine .after_manager fun m => ?_
  split
  · exact hr.refusesInertly
  · exact refusesInertly_refuse _ _

theorem refusesInertly_del (id : BlockId) : (del id : Run K _).RefusesInertly := by
  refine refusesInertly_withIdle fun entry contents => ?_
  cases entry.state with
  | started => exact refusesInertly_refuse _ _
  | stopped =>
    refine .after_manager fun m => ?_
    split
    · exact refusesInertly_refuse _ _
    · refine Succeeds.refusesInertly ?_
      exact .after (fun _ =>
        .after (fun _ => .after (fun _ => .after (fun _ => succeeds_ok _) _) _) _) _

/-! ## Timers and descriptors -/

theorem refusesInertly_arm (owner : BlockId) (tid : TimerId) (delay : Duration) (arg : Payload) :
    (arm owner tid delay arg : Run K _).RefusesInertly := by
  unfold arm
  refine .after_manager fun m => ?_
  split
  · refine .after_onHost (fun now => ?_) _
    cases now.later? delay with
    | none => exact refusesInertly_refuse _ _
    | some expiration =>
      exact (Succeeds.after (fun _ => .after (fun _ => succeeds_ok _) _) _).refusesInertly
  · exact refusesInertly_refuse _ _

theorem refusesInertly_watch (w : Watch) : (watch w : Run K _).RefusesInertly := by
  unfold watch
  refine .after_manager fun m => ?_
  split
  · split
    · exact refusesInertly_refuse _ _
    · exact (Succeeds.after (fun _ => .after (fun _ => succeeds_ok _) _) _).refusesInertly
  · exact refusesInertly_refuse _ _

theorem RefusesInertly.after_notices {r : Run K (Except ε α)} (h : r.RefusesInertly)
    (ns : List Notice) : (do notifyAll ns; r : Run K (Except ε α)).RefusesInertly := by
  induction ns with
  | nil => exact h
  | cons n ns ih =>
    rw [notifyAll, bind_assoc]
    exact ih.after_notice n

theorem refusesInertly_poll (call : Call K) : (poll call).RefusesInertly := by
  unfold poll
  refine .after_manager fun m => .after_host fun h => .after_notices ?_ _
  split
  · exact refusesInertly_refuse _ _
  · exact (Succeeds.after (fun _ => succeeds_ok _) _).refusesInertly
  · exact (Succeeds.after (fun _ => .after (fun _ => succeeds_ok _) _) _).refusesInertly

/-! ## Commands -/

theorem refusesInertly_obey (call : Call K) (id : BlockId) (order : Order) :
    (obey call id order).RefusesInertly := by
  cases order with
  | add type => exact refusesInertly_add id type
  | init =>
    refine .after_manager fun m => ?_
    split
    · exact (Succeeds.after (fun _ => succeeds_ok _) _).refusesInertly
    · exact refusesInertly_refuse _ _
  | conf entry => exact (onIdle_conf call id entry).refusesInertly
  | bind port dest => exact refusesInertly_bind call id port dest
  | start => exact (onIdle_start call id).refusesInertly
  | stop => exact (onIdle_stop call id).refusesInertly
  | del => exact refusesInertly_del id

theorem refusesInertly_exec (call : Call K) (kind : CommandKind) (id : BlockId)
    (arg : Option String) : (exec call kind id arg).RefusesInertly := by
  unfold exec
  refine RefusesInertly.after_notice ?_ _
  split
  · exact refusesInertly_refuse _ _
  split
  · exact refusesInertly_refuse _ _
  · exact refusesInertly_refuse _ _
  · exact (refusesInertly_obey call id _).mapError _

theorem refusesInertly_line (call : Call K) (cs : List Char) : (line call cs).RefusesInertly := by
  unfold line
  split
  · exact refusesInertly_refuse _ _
  · exact refusesInertly_refuse _ _
  · exact refusesInertly_exec call _ _ _

/-- Bytes that spell no batch of commands. -/
theorem refusesInertly_loadBytes (call : Call K) {bytes : List UInt8}
    (h : ∀ cs, Command.Batch.ofBytes bytes ≠ .ok (.many cs)) :
    (loadBytes call bytes).RefusesInertly := by
  unfold loadBytes
  split
  · exact refusesInertly_refuse _ _
  · exact refusesInertly_exec call _ _ _
  · next cs heq => exact absurd heq (h cs)

end Run

/-! ## Requests -/

def Failed : Except ε α → Prop
  | .ok _ => False
  | .error _ => True

/-- Whether an answer says that a request was refused. Batches are no such requests, as they go on
after a failure: texts, files and lists of structured commands. -/
def Request.Refused {F M : Type} : (r : Request F M) → r.Answer → Prop
  | .add .., x => Failed x
  | .start _, x => Failed x
  | .stop _, x => Failed x
  | .del _, x => Failed x
  | .bind .., x => Failed x
  | .conf .., x => Failed x
  | .arm .., x => Failed x
  | .watch _, x => Failed x
  | .poll, x => Failed x
  | .exec .., x => Failed x
  | .command _, x => Failed x
  | .line _, x => Failed x
  | .loadBytes bytes, x => Failed x ∧ ∀ cs, Command.Batch.ofBytes bytes ≠ .ok (.many cs)
  | _, _ => False

theorem Run.RefusesInertly.onlyTold {r : Run K (Except ε α)} (h : r.RefusesInertly)
    {s t : Machine K} {x : Except ε α} (hrun : s.run? r = some (.ok x, t)) (hx : Failed x) :
    s.OnlyTold t := by
  cases x with
  | ok a => exact hx.elim
  | error e => exact (h s).result hrun e rfl

open Run in
/-- **A refused request changes nothing.** Whatever the state of the engine is, and whatever its
hooks do, the manager is as it was when an answer is a refusal, and no hook was called. -/
theorem onlyTold_of_refused {call : Call K} {n : Nat} {r : Request K.Factory K.Remark}
    {a : r.Answer} {s t : Machine K} (hrun : s.run? (Run.perform call n r) = some (.ok a, t))
    (ha : r.Refused a) : s.OnlyTold t := by
  cases r with
  | add id type => exact (refusesInertly_add id type).onlyTold hrun ha
  | start id => exact (onIdle_start call id).refusesInertly.onlyTold hrun ha
  | stop id => exact (onIdle_stop call id).refusesInertly.onlyTold hrun ha
  | del id => exact (refusesInertly_del id).onlyTold hrun ha
  | bind id port dest => exact (refusesInertly_bind call id port dest).onlyTold hrun ha
  | conf id entry => exact (onIdle_conf call id entry).refusesInertly.onlyTold hrun ha
  | arm owner tid delay arg => exact (refusesInertly_arm owner tid delay arg).onlyTold hrun ha
  | watch w => exact (refusesInertly_watch w).onlyTold hrun ha
  | poll => exact (refusesInertly_poll call).onlyTold hrun ha
  | exec kind id arg => exact (refusesInertly_exec call kind id arg).onlyTold hrun ha
  | command c => exact (refusesInertly_exec call c.kind c.id c.arg?).onlyTold hrun ha
  | line text => exact (refusesInertly_line call text.toList).onlyTold hrun ha
  | loadBytes bytes => exact (refusesInertly_loadBytes call ha.2).onlyTold hrun ha.1
  | _ => exact ha.elim

/-- A machine with a live block that has a timer armed. -/
def Machine.armed : Machine Builtin.kit where
  manager :=
    { settings := {}
      blocks :=
        Keyed.empty.insert ⟨1⟩ { serial := 0, type := "hello", contents := some (.hello {}) }
      timers := TimerList.empty.add ⟨⟨1⟩, 7, Host.start, .empty⟩
      watches := .empty 1024
      built := 1 }
  host := .manual

/-- The timer stays armed when it is to be armed again beyond the last instant. -/
theorem onlyTold_armed : ∃ t,
    Machine.armed.run? (Run.perform (Run.callHook 1) 1 (.arm ⟨1⟩ 7 ⟨Instant.bound⟩ .empty)) =
        some (.ok (.error (.delayOutOfRange ⟨Instant.bound⟩)), t) ∧
      Machine.armed.OnlyTold t := by
  have hrun : ∃ t,
      Machine.armed.run? (Run.perform (Run.callHook 1) 1 (.arm ⟨1⟩ 7 ⟨Instant.bound⟩ .empty)) =
        some (.ok (.error (.delayOutOfRange ⟨Instant.bound⟩)), t) := ⟨_, rfl⟩
  obtain ⟨t, hrun⟩ := hrun
  exact ⟨t, hrun, onlyTold_of_refused hrun trivial⟩

end BlockFlow
