import BlockFlow.Proofs.Expiry
import BlockFlow.Proofs.Origin

/-!
# Checks of timers come to an end

A check fires timers until none is due, while the hooks that it calls arm timers again, the very
ones that fire among them, replace others and check timers themselves. It ends if the hooks do: what
is armed with a delay is not due at the time that the check has read, so the timers that are due
then become fewer and fewer.

1. `TimerList.due`: the timers that are due at a time, and what becomes of them.
2. `Run.Part.trans`; `Run.ArmsLater`, `Run.CallsReturn`: what is supposed of the hooks.
3. `Machine.Ebbs`, `Run.Drains`: no timer becomes due at a time that has passed; a rule for each
   thing that a run is made of.
4. `drains_callHook`: so it is while a hook is called.
5. `Machine.Drained`, `draining`: a check comes to an end; `draining_rearm`: one whose hook arms the
   timer that fires and another one, disarms a third and checks timers.
-/

namespace BlockFlow

variable {K : Kit} {α β γ : Type}

/-! ## Timers that are due -/

theorem Instant.lt_of_later? {t u : Instant} {d : Duration} (h : t.later? d = some u)
    (hd : 0 < d.nanos) : t < u := by
  simp only [later?, Option.ite_none_right_eq_some, Option.some.injEq] at h
  rw [← h.2, lt_def]
  exact Nat.lt_add_of_pos_right hd

namespace TimerList

variable {l rest : TimerList} {now : Instant} {t : Timer} {ts : List Timer}

/-- The timers that are due at a time, in firing order. -/
def due (l : TimerList) (now : Instant) : List Timer := l.toList.filter (·.expiration ≤ now)

theorem filter_place_of_lt (h : now < t.expiration) :
    (place t ts).filter (·.expiration ≤ now) = ts.filter (·.expiration ≤ now) := by
  have hlater : ¬ decide (t.expiration ≤ now) = true := by
    rw [decide_eq_true_iff]
    exact Nat.not_le.2 h
  induction ts with
  | nil => exact List.filter_cons_of_neg hlater
  | cons x xs ih =>
    rw [place]
    split
    · rw [List.filter_cons, List.filter_cons, ih]
    · exact List.filter_cons_of_neg hlater

theorem due_without (key : BlockId × TimerId) : ((l.without key).due now).Sublist (l.due now) :=
  List.filter_sublist.filter _

/-- A timer that is armed for later may take the place of one that is due. -/
theorem due_add (h : now < t.expiration) : ((l.add t).due now).Sublist (l.due now) := by
  rw [due, toList_add, filter_place_of_lt h]
  exact due_without t.key

theorem due_eq_cons (hfirst : l.toList = t :: rest.toList) (hdue : t.expiration ≤ now) :
    l.due now = t :: rest.due now := by
  rw [due, hfirst]
  exact List.filter_cons_of_pos (by simpa using hdue)

theorem due_rest (hfirst : l.toList = t :: rest.toList) :
    (rest.due now).Sublist (l.due now) := by
  rw [due, due, hfirst]
  exact (List.sublist_cons_self t _).filter _

end TimerList

/-- It is not before a time, and at most the given timers are due then. -/
structure Machine.Ebbs (now : Instant) (l : List Timer) (s : Machine K) : Prop where
  clock : now ≤ s.host.now
  due : (s.manager.timers.due now).Sublist l

namespace Run

variable {now : Instant} {s t u : Machine K} {call : Call K} {n : Nat}

/-! ## What a run comes to do -/

/-- What a part of a run comes to do, the run comes to do. -/
theorem Part.trans {op : Run K γ} {r' : Run K β} {r : Run K α} {qs rs : List (Change K)}
    (h : Part r' r s qs t) (h' : Part op r' t rs u) : Part op r s (qs ++ rs) u := by
  induction h with
  | whole => exact h'
  | first _ ih => exact .first (ih h')
  | next hrun _ ih =>
    rw [List.append_assoc]
    exact .next hrun (ih h')
  | tried _ ih => exact .tried (ih h')
  | atBreak hrun _ ih =>
    rw [List.append_assoc]
    exact .atBreak hrun (ih h')

/-- Each timer that is armed while something runs has a positive delay. -/
def ArmsLater (r : Run K α) (s : Machine K) : Prop :=
  ∀ owner tid delay arg qs u v, Part (arm owner tid delay arg) r s qs u →
    u.run? (arm owner tid delay arg) = some (.ok (.ok ()), v) → 0 < delay.nanos

/-- Each hook that something calls as it runs returns. -/
def CallsReturn (n : Nat) (r : Run K α) (s : Machine K) : Prop :=
  ∀ id hook qs u, Part (callHook n id hook) r s qs u →
    ∃ reply v, u.run? (callHook n id hook) = some (.ok reply, v)

theorem ArmsLater.part {r : Run K α} {r' : Run K β} {qs : List (Change K)} (h : r.ArmsLater s)
    (hpart : Part r' r s qs t) : r'.ArmsLater t :=
  fun owner tid delay arg _ u v harm => h owner tid delay arg _ u v (hpart.trans harm)

theorem CallsReturn.part {r : Run K α} {r' : Run K β} {qs : List (Change K)}
    (h : r.CallsReturn n s) (hpart : Part r' r s qs t) : r'.CallsReturn n t :=
  fun id hook _ u hcall => h id hook _ u (hpart.trans hcall)

section PopThen

variable {r : Run K α} {f : Timer → Run K α} {x : Timer} {rest : TimerList}

theorem part_popThen_of_none (h : s.manager.timers.popExpired now = (none, rest)) :
    Part r (popThen now r f) s [] s := by
  rw [popThen_eq]
  refine .manager ?_
  rw [h]
  exact .whole

theorem part_popThen_of_some (h : s.manager.timers.popExpired now = (some x, rest)) :
    Part (f x) (popThen now r f) s [(s, s.withTimers rest)] (s.withTimers rest) := by
  rw [popThen_eq]
  refine .manager ?_
  rw [h]
  exact .next rfl .whole

end PopThen

/-! ## The timers that are due become fewer -/

/-- A run during which no timer becomes due at a time that has passed, if what is armed meanwhile
has a delay. -/
def Drains (now : Instant) (r : Run K α) : Prop :=
  ∀ (l : List Timer) (s : Machine K), s.Ebbs now l → r.ArmsLater s →
    ∀ x t, s.run? r = some (x, t) → t.Ebbs now l

theorem Drains.of_abides {r : Run K α}
    (h : ∀ (l : List Timer) (s : Machine K), s.Ebbs now l →
      r.Abides (.ending fun t => t.Ebbs now l) (fun _ t => t.Ebbs now l) s) : r.Drains now :=
  fun l s hs _ _ _ hrun => (h l s hs).after hrun

theorem Drains.bind {r : Run K α} {f : α → Run K β} (hr : r.Drains now)
    (hf : ∀ a, (f a).Drains now) : (r >>= f).Drains now := by
  intro l s hs harms x t hrun
  rw [run?_bind] at hrun
  cases hfirst : s.run? r with
  | none => simp [hfirst] at hrun
  | some result =>
    obtain ⟨y, u⟩ := result
    have hu : u.Ebbs now l := hr l s hs (harms.part (.first .whole)) y u hfirst
    cases y with
    | error b =>
      simp only [hfirst, Option.some.injEq, Prod.mk.injEq] at hrun
      exact hrun.2 ▸ hu
    | ok a =>
      simp only [hfirst] at hrun
      exact hf a l u hu (harms.part (.next hfirst .whole)) x t hrun

theorem drains_pure (a : α) : (pure a : Run K α).Drains now := .of_abides fun _ _ hs => hs

theorem drains_throw (b : Breakdown) : (throw b : Run K α).Drains now := .of_abides fun _ _ hs => hs

/-- What is done at a break leaves the machine on which the breakdown goes on. -/
theorem exists_run?_of_thrown {last : Run K Unit} {b : Breakdown} {x : Except Breakdown α}
    (h : u.run? (last >>= fun _ => (throw b : Run K α)) = some (x, t)) :
    ∃ y, u.run? last = some (y, t) := by
  rw [run?_bind] at h
  cases hend : u.run? last with
  | none => simp [hend] at h
  | some result =>
    obtain ⟨y, v⟩ := result
    simp only [hend] at h
    cases y with
    | ok a =>
      cases h
      exact ⟨_, rfl⟩
    | error b =>
      cases h
      exact ⟨_, rfl⟩

theorem Drains.onBreak {r : Run K α} {last : Run K Unit} (hr : r.Drains now)
    (hlast : last.Drains now) : (r.onBreak last).Drains now := by
  intro l s hs harms x t hrun
  rw [run?_onBreak] at hrun
  cases hfirst : s.run? r with
  | none => simp [hfirst] at hrun
  | some result =>
    obtain ⟨y, u⟩ := result
    have hu : u.Ebbs now l := hr l s hs (harms.part (.tried .whole)) y u hfirst
    cases y with
    | ok a =>
      simp only [hfirst, Option.some.injEq, Prod.mk.injEq] at hrun
      exact hrun.2 ▸ hu
    | error b =>
      simp only [hfirst] at hrun
      obtain ⟨z, hend⟩ := exists_run?_of_thrown hrun
      exact hlast l u hu (harms.part (.atBreak hfirst .whole)) z t hend

theorem drains_manager : (manager : Run K (Manager K)).Drains now := .of_abides fun _ _ hs => hs

theorem drains_pause : (pause : Run K Unit).Drains now := .of_abides fun _ _ hs => hs

theorem drains_record (e : Event K) : (record e).Drains now :=
  .of_abides fun _ _ hs => ⟨hs.clock, hs.due⟩

theorem drains_refuse {ε : Type} (note : Notice) (e : ε) :
    (refuse note e : Run K (Except ε α)).Drains now :=
  (drains_record (.notice note)).bind fun _ => drains_pure _

theorem drains_onHost {f : Host → α × Host} (hf : Host.Forward f) :
    (onHost f : Run K α).Drains now :=
  .of_abides fun _ s hs => ⟨Instant.le_trans hs.clock (hf s.host), hs.due⟩

/-- Timers may be taken away. -/
theorem drains_modifyManager {f : Manager K → Manager K}
    (hf : ∀ m, ((f m).timers.due now).Sublist (m.timers.due now)) :
    (modifyManager f).Drains now :=
  .of_abides fun _ s hs => ⟨hs.clock, (hf s.manager).trans hs.due⟩

theorem drains_commit (e : Event K) {f : Manager K → Manager K}
    (hf : ∀ m, (f m).timers = m.timers) : (commit e f).Drains now :=
  .of_abides fun _ s hs => ⟨hs.clock, hf s.manager ▸ hs.due⟩

theorem drains_modifyEntry (id : BlockId) (f : Entry K → Entry K) :
    (modifyEntry id f).Drains now :=
  drains_modifyManager fun _ => .refl _

/-- What is armed with a delay is due after the time on the clock. -/
theorem drains_arm (owner : BlockId) (tid : TimerId) (delay : Duration) (arg : Payload) :
    (arm owner tid delay arg : Run K _).Drains now := by
  intro l s hs harms
  have hpositive : ∀ v, s.run? (arm owner tid delay arg) = some (.ok (.ok ()), v) →
      0 < delay.nanos := fun v => harms owner tid delay arg [] s v .whole
  have harm : (arm owner tid delay arg).Abides .total
      (fun x t => (x = .ok () → 0 < delay.nanos) → t.Ebbs now l) s := by
    unfold arm
    rw [abides_bind, abides_manager]
    split
    · rw [abides_bind, abides_onHost]
      have hclock : now ≤ s.host.readClock.2.now :=
        Instant.le_trans hs.clock (Host.forward_readClock s.host)
      cases hlater : s.host.readClock.1.later? delay with
      | none => exact fun _ => ⟨hclock, hs.due⟩
      | some expiration =>
        intro hdelay
        have hlt : s.host.now < expiration := Instant.lt_of_later? hlater (hdelay rfl)
        have hexp : now < expiration := Nat.lt_of_le_of_lt hs.clock hlt
        exact ⟨hclock, (TimerList.due_add hexp).trans hs.due⟩
    · exact fun _ => ⟨hs.clock, hs.due⟩
  intro x t hrun
  obtain ⟨a, rfl, ht⟩ := harm.of_run? hrun
  exact ht fun ha => hpositive t (ha ▸ hrun)

theorem drains_disarm (owner : BlockId) (tid : TimerId) :
    (disarm owner tid : Run K Unit).Drains now := by
  refine .of_abides fun l s hs => ?_
  have hleft : ((s.manager.timers.without (owner, tid)).due now).Sublist l :=
    (TimerList.due_without _).trans hs.due
  unfold disarm
  rw [abides_bind, abides_manager]
  dsimp only [TimerList.remove]
  split
  · rw [abides_bind, abides_notify]
    exact ⟨hs.clock, hleft⟩
  · exact ⟨hs.clock, hleft⟩

theorem drains_watch (w : Watch) : (watch w : Run K _).Drains now := by
  refine drains_manager.bind fun m => ?_
  split
  · split
    · exact drains_refuse _ _
    · refine Drains.bind (drains_commit _ fun _ => rfl) fun _ => ?_
      exact (drains_record _).bind fun _ => drains_pure _
  · exact drains_refuse _ _

theorem drains_popThen {at' : Instant} {r : Run K α} {f : Timer → Run K α} (hr : r.Drains now)
    (hf : ∀ x, (f x).Drains now) : (popThen at' r f).Drains now := by
  intro l s hs harms x t hrun
  rcases s.manager.timers.popExpired_cases at' with
    ⟨hpop, -⟩ | ⟨y, rest, hpop, hfirst, -⟩
  · rw [run?_popThen_of_none hpop] at hrun
    exact hr l s hs (harms.part (part_popThen_of_none hpop)) x t hrun
  · rw [run?_popThen_of_some hpop] at hrun
    have hrest : (s.withTimers rest).Ebbs now l :=
      ⟨hs.clock, (TimerList.due_rest hfirst).trans hs.due⟩
    exact hf y l _ hrest (harms.part (part_popThen_of_some hpop)) x t hrun

/-- What is made of the parts of the engine makes no timer due, if hooks make none. -/
theorem Made.drains (hK : K.KeepsTime) {r : Run K α} (h : Made call r)
    (hcall : ∀ id hook, (call id hook).Drains now) : r.Drains now := by
  induction h with
  | pure a => exact drains_pure a
  | throw b => exact drains_throw b
  | outOfFuel => exact .of_abides fun _ _ _ => trivial
  | bind _ _ ihr ihf => exact ihr.bind ihf
  | manager => exact drains_manager
  | host => exact .of_abides fun _ _ hs => hs
  | record => exact drains_record _
  | onHost hf => exact drains_onHost hf
  | build factory => exact drains_onHost (hK.build factory)
  | release c => exact drains_onHost (hK.release c)
  | modifyManager hf => exact drains_modifyManager fun m => (hf m).1 ▸ .refl _
  | arm owner tid delay arg => exact drains_arm owner tid delay arg
  | disarm owner tid => exact drains_disarm owner tid
  | disarmAll => exact drains_modifyManager fun _ => List.nil_sublist _
  | watch w => exact drains_watch w
  | unwatch w => exact (drains_record _).bind fun _ => drains_modifyManager fun _ => .refl _
  | popThen _ _ ihr ihf => exact drains_popThen ihr ihf
  | call id hook => exact hcall id hook

/-! ## Hooks -/

theorem drains_leave (hK : K.KeepsTime) (id : BlockId) (serial : Nat) (c : K.Contents) :
    (leave id serial c).Drains now := by
  have hrelease : (release serial c).Drains now :=
    (drains_record _).bind fun _ => drains_onHost (hK.release c)
  refine (drains_record _).bind fun _ => ?_
  unfold giveBack
  refine drains_manager.bind fun m => ?_
  split
  · split
    · exact drains_modifyEntry id _
    · exact hrelease
  · exact hrelease

theorem drains_runScript (hK : K.KeepsTime) (hcall : ∀ id hook, (call id hook).Drains now)
    (m : Nat) (id : BlockId) (serial : Nat) (c : K.Contents)
    (script : Script K.Factory K.Remark K.Contents α) :
    (runScript call m (leave id serial) c script).Drains now := by
  induction script generalizing c with
  | done a => exact drains_pure _
  | keep kept next ih => exact ih kept
  | call r next ih =>
    refine Drains.bind ?_ fun x => drains_pause.bind fun _ => ih x c
    exact ((made_perform m r).drains hK hcall).onBreak (drains_leave hK id serial c)

theorem drains_callHook (hK : K.KeepsTime) (n : Nat) (id : BlockId) (hook : Hook) :
    (callHook (K := K) n id hook).Drains now := by
  induction n generalizing id hook with
  | zero => exact .of_abides fun _ _ _ => trivial
  | succ n ih =>
    show (enter (callHook n) n id hook).Drains now
    unfold enter
    refine drains_manager.bind fun m => ?_
    cases m.blocks.get? id with
    | none => exact drains_pure _
    | some e =>
      dsimp only
      cases e.contents with
      | none => exact (drains_record _).bind fun _ => drains_pure _
      | some c =>
        refine (drains_modifyEntry id _).bind fun _ => ?_
        refine (drains_record _).bind fun _ => drains_pause.bind fun _ => ?_
        refine (drains_runScript hK ih n id e.serial c _).bind fun result => ?_
        exact (drains_leave hK id e.serial result.2).bind fun _ => drains_pure _

/-! ## A check -/

/-- A timer whose owner is live is told of, then its owner is called. -/
theorem part_deliverTimer {x : Timer} (hlive : s.manager.blocks.contains x.owner = true) :
    Part (call x.owner (.timer x)) (deliverTimer call x) s
      [(s, { s with events := .notice (.timerExpired x.owner x.tid) :: s.events })]
      { s with events := .notice (.timerExpired x.owner x.tid) :: s.events } := by
  unfold deliverTimer
  refine .manager ?_
  rw [if_pos hlive]
  refine .next rfl ?_
  show Part _ (_ <$> _) _ _ _
  rw [map_eq_pure_bind]
  exact .first .whole

/-- The delivery of a timer ends if the hook that it calls returns. -/
theorem exists_run?_deliverTimer {x : Timer}
    (h : (deliverTimer (callHook n) x).CallsReturn n s) :
    ∃ u, s.run? (deliverTimer (callHook n) x) = some (.ok (), u) := by
  cases hlive : s.manager.blocks.contains x.owner with
  | false =>
    unfold deliverTimer
    rw [run?_manager, hlive, if_neg Bool.false_ne_true]
    exact ⟨_, rfl⟩
  | true =>
    obtain ⟨reply, u, hcall⟩ := h x.owner (.timer x) _ _ (part_deliverTimer hlive)
    refine ⟨u, ?_⟩
    unfold deliverTimer
    rw [run?_manager, if_pos hlive]
    show Machine.run? _ (_ <$> _) = _
    rw [map_eq_pure_bind, run?_bind, hcall]
    rfl

/-- Timers fire until none is due, and no more fire than were due. -/
theorem exists_drain (hK : K.KeepsTime) {m fired : Nat} (hclock : now ≤ s.host.now)
    (harms : (fireUntil (callHook n) now m fired).ArmsLater s)
    (hcalls : (fireUntil (callHook n) now m fired).CallsReturn n s)
    (hm : (s.manager.timers.due now).length < m) :
    ∃ t fs, s.run? (fireUntil (callHook n) now m fired) = some (.ok (fired + fs.length), t) ∧
      Fires (callHook n) now s fs t ∧
      (fs.map (·.timer)).Sublist (s.manager.timers.due now) := by
  induction m generalizing s fired with
  | zero => exact absurd hm (Nat.not_lt_zero _)
  | succ m ih =>
    rw [fireUntil_succ] at harms hcalls ⊢
    rcases s.manager.timers.popExpired_cases now with
      ⟨hpop, hnone⟩ | ⟨x, rest, hpop, hfirst, hdue⟩
    · refine ⟨s, [], ?_, .none hnone, List.nil_sublist _⟩
      rw [run?_popThen_of_none hpop]
      rfl
    · rw [TimerList.due_eq_cons hfirst hdue] at hm ⊢
      have harms' := harms.part (part_popThen_of_some hpop)
      have hcalls' := hcalls.part (part_popThen_of_some hpop)
      obtain ⟨u, hx⟩ := exists_run?_deliverTimer (hcalls'.part (.first .whole))
      have hu : u.Ebbs now (rest.due now) :=
        (operates_deliverTimer x).made.drains hK (drains_callHook hK n) _ (s.withTimers rest)
          ⟨hclock, .refl _⟩ (harms'.part (.first .whole)) _ u hx
      have hlen : (u.manager.timers.due now).length < m :=
        Nat.lt_of_le_of_lt hu.due.length_le (Nat.lt_of_succ_lt_succ hm)
      obtain ⟨t, fs, hrun, hfires, hsub⟩ :=
        ih hu.clock (harms'.part (.next hx .whole)) (hcalls'.part (.next hx .whole)) hlen
      refine ⟨t, ⟨x, s.withTimers rest⟩ :: fs, ?_, .next hfirst hdue hx hfires,
        (hsub.trans hu.due).cons_cons x⟩
      rw [run?_popThen_of_some hpop, run?_bind, hx, List.length_cons]
      exact hrun.trans (by rw [Nat.add_assoc, Nat.add_comm 1])

end Run

open Run

/-- What a check of timers does that began with one machine and has ended with another one: timers
have fired one after the other at the time that the clock showed, and how many. -/
structure Machine.Drained (s t : Machine K) (n m k : Nat) (fs : List (Firing K)) : Prop where
  returned : s.run? (fire (callHook n) m) = some (.ok k, t)
  fires : Fires (callHook n) s.host.now { s with host := s.host.readClock.2 } fs t
  count : k = fs.length
  /-- They are some of those that were due when the check began, as they were then. -/
  due : (fs.map (·.timer)).Sublist (s.manager.timers.due s.host.now)
  /-- No more timers have fired than were due. -/
  le_due : k ≤ (s.manager.timers.due s.host.now).length

/-- **Draining.** Whatever the hooks do, as long as they return, arm timers with a delay only and do
not turn the clock back: a check of timers that may go on for longer than the number of timers that
are due comes to an end, and fires none but timers that were due when it began, each of them at most
once. -/
theorem draining (hK : K.KeepsTime) {s : Machine K} {n m : Nat}
    (harms : (fire (callHook n) m).ArmsLater s) (hcalls : (fire (callHook n) m).CallsReturn n s)
    (hm : (s.manager.timers.due s.host.now).length < m) : ∃ t k fs, s.Drained t n m k fs := by
  have hpart : Part (fireUntil (callHook n) s.host.now m 0) (fire (callHook n) m) s _
      { s with host := s.host.readClock.2 } := .next rfl .whole
  obtain ⟨t, fs, hrun, hfires, hdue⟩ := exists_drain hK (Host.forward_readClock s.host)
    (harms.part hpart) (hcalls.part hpart) hm
  refine ⟨t, fs.length, fs, ?_, hfires, rfl, hdue, ?_⟩
  · rw [Nat.zero_add] at hrun
    exact hrun
  · rw [← List.length_map (·.timer)]
    exact hdue.length_le

/-! ## A check whose timers come back -/

namespace Run

variable {s t u : Machine K}

/-- What comes to a result has come to one in each of its parts. -/
theorem Part.exists_run?_of_ok {op : Run K γ} {r : Run K α} {qs : List (Change K)}
    (h : Part op r s qs u) {a : α} (hrun : s.run? r = some (.ok a, t)) :
    ∃ b v, u.run? op = some (.ok b, v) := by
  induction h generalizing t with
  | whole => exact ⟨a, t, hrun⟩
  | first _ ih =>
    obtain ⟨b, v, hfirst, -⟩ := exists_of_run?_bind hrun
    exact ih hfirst
  | next hfirst _ ih =>
    rw [run?_bind, hfirst] at hrun
    exact ih hrun
  | tried _ ih => exact ih (run?_of_onBreak hrun)
  | atBreak hfirst _ _ =>
    have hok := run?_of_onBreak hrun
    rw [hfirst] at hok
    cases hok

/-- The hooks return that are called by what comes to a result. -/
theorem callsReturn_of_ok {r : Run K α} {a : α} (hrun : s.run? r = some (.ok a, t)) (n : Nat) :
    r.CallsReturn n s :=
  fun _ _ _ _ hpart => hpart.exists_run?_of_ok hrun

end Run

/-- The delay of a timer, if the last that has happened is that it was armed. -/
def Machine.newDelay? (s : Machine K) : Option Duration :=
  match s.events with
  | .notice (.timerArmed _ _ delay) :: _ => some delay
  | _ => none

theorem exists_newDelay?_of_arm {owner : BlockId} {tid : TimerId} {delay : Duration}
    {arg : Payload} {u v : Machine K}
    (hrun : u.run? (arm owner tid delay arg) = some (.ok (.ok ()), v)) :
    ∃ p ∈ (arm owner tid delay arg).changes u, p.2.newDelay? = some delay := by
  unfold arm at hrun
  rw [run?_manager] at hrun
  split at hrun
  · next hlive =>
    cases hlater : u.host.readClock.1.later? delay with
    | none =>
      obtain ⟨now, w, hnow, hrest⟩ := exists_of_run?_bind hrun
      cases hnow
      dsimp only at hrest
      rw [hlater] at hrest
      cases hrest
    | some expiration =>
      let w : Machine K := { u with host := u.host.readClock.2 }
      have hpart : Part (notify (.timerArmed owner tid delay)) (arm owner tid delay arg) u
          [(u, w)] w := by
        unfold arm
        refine .manager ?_
        rw [if_pos hlive]
        refine .next rfl ?_
        simp only [hlater]
        exact .first .whole
      exact ⟨_, hpart.mem_changes (.head _), rfl⟩
  · cases hrun

/-- Each timer has a positive delay of which a change of the run tells that it is armed. -/
theorem armsLater_of_newDelay? {r : Run K α} {s : Machine K}
    (h : ∀ delay ∈ (r.changes s).filterMap (·.2.newDelay?), 0 < delay.nanos) : r.ArmsLater s := by
  intro owner tid delay arg qs u v hpart hrun
  obtain ⟨p, hp, hdelay⟩ := exists_newDelay?_of_arm hrun
  exact h delay (List.mem_filterMap.2 ⟨p, hpart.mem_changes hp, hdelay⟩)

/-- Blocks that, when their first timer fires, arm it again, and the third one, and disarm the
fourth one. When their second timer fires, they check timers. -/
@[reducible] def revenants : Kit where
  Factory := Unit
  Contents := Unit
  Remark := Empty
  build := fun _ h => (some (), h)
  hook := fun _ id hook =>
    match hook with
    | .timer t => do
      if t.tid = 1 then
        discard (Script.ask (.arm id 1 ⟨10⟩ t.arg))
        discard (Script.ask (.arm id 3 ⟨10⟩ t.arg))
        Script.ask (.disarm id 4)
      if t.tid = 2 then discard (Script.ask .fire)
      return {}
    | _ => return {}
  report := fun _ buffer => (0, buffer)
  release := fun _ => id

/-- A block whose first five timers are due. -/
def haunted : Machine revenants :=
  { manager := { (.fresh {} : Manager revenants) with
      blocks := Keyed.empty.insert ⟨1⟩
        { serial := 0, type := "revenant", state := .started, contents := some () }
      timers := [1, 2, 3, 4, 5].foldl (fun l tid => l.add (dueTimer tid)) .empty }
    host := .manual }

/-- The first two timers fire; the check leaves out the three others that were due, since one was
armed again, one was disarmed and one was fired by the hook of the second timer. -/
theorem draining_rearm : ∃ t fs, haunted.Drained t 3 6 2 fs ∧
    (haunted.manager.timers.due haunted.host.now).length = 5 ∧
    t.manager.timers.toList.map (·.tid) = [1, 3] := by
  have hK : revenants.KeepsTime :=
    ⟨fun _ _ => Instant.le_refl _, fun _ _ => Instant.le_refl _⟩
  obtain ⟨t, ht, hleft⟩ : ∃ t, haunted.run? (fire (callHook 3) 6) = some (.ok 2, t) ∧
      t.manager.timers.toList.map (·.tid) = [1, 3] := ⟨_, rfl, rfl⟩
  have harms : (fire (callHook 3) 6).ArmsLater haunted := armsLater_of_newDelay? (by decide)
  obtain ⟨u, k, fs, h⟩ := draining hK harms (callsReturn_of_ok ht 3) (by decide)
  obtain ⟨rfl, rfl⟩ : k = 2 ∧ u = t := by simpa [ht] using h.returned.symm
  exact ⟨u, fs, h, rfl, hleft⟩

end BlockFlow
