import BlockFlow.Proofs.Visits

/-!
# Expiry of timers

A check of timers fires all that have expired, one after the other, while the hooks that it calls
arm, disarm and fire timers too. On a clock that never goes back nothing is armed for a time before
the one at which the check began, so the timers still fire in their order and none of them is left.

1. `TimerList.Loses`: the ways in which a timer is not armed any more.
2. `Machine.Late`, `Made.keepsLate`: no timer is armed for a time before a given one.
3. `Firing`, `Fires`: a check, timer by timer.
4. `expiry`: what a check does to all timers; `expiry_snooze`: a check during which a hook arms one
   timer and disarms another.
-/

namespace BlockFlow

variable {K : Kit} {α β : Type}

/-! ## Lists of timers -/

namespace TimerList

variable {l l' : TimerList} {now : Instant} {x : Timer}

/-- The ways in which an armed timer is not armed any more. -/
inductive Loses (l : TimerList) (x : Timer) : TimerList → Prop
  | disarmed : Loses l x (l.without x.key)
  | rearmed (t : Timer) (ht : t.key = x.key) : Loses l x (l.add t)
  | cleared : Loses l x .empty
  | popped (now : Instant) (rest : TimerList) (h : l.popExpired now = (some x, rest)) :
    Loses l x rest

/-- A change after which a timer is not armed any more is one of those ways. -/
theorem Changes.loses (h : l.Changes l') (hx : x ∈ l.toList) (hx' : x ∉ l'.toList) :
    l.Loses x l' := by
  cases h with
  | same => exact absurd hx hx'
  | armed t =>
    by_cases hkey : t.key = x.key
    · exact .rearmed t hkey
    · exact absurd (mem_add.2 (.inr ⟨hx, Ne.symm hkey⟩)) hx'
  | disarmed key =>
    by_cases hkey : x.key = key
    · subst hkey
      exact .disarmed
    · exact absurd (mem_without.2 ⟨hx, hkey⟩) hx'
  | cleared => exact .cleared
  | popped now =>
    rcases l.popExpired_cases now with ⟨hpop, -⟩ | ⟨t, rest, hpop, hlist, -⟩
    · rw [hpop] at hx'
      exact absurd hx hx'
    · rw [hpop] at hx' ⊢
      rw [hlist] at hx
      rcases List.mem_cons.1 hx with rfl | hx
      · exact .popped now rest hpop
      · exact absurd hx hx'

end TimerList

/-! ## Timers on a clock that never goes back -/

/-- It is not before a time, and no timer is armed for a time before another one. -/
structure Machine.Late (first now : Instant) (s : Machine K) : Prop where
  clock : now ≤ s.host.now
  timers : ∀ x ∈ s.manager.timers.toList, first ≤ x.expiration

namespace Run

variable {first now : Instant} {s : Machine K} {call : Call K}

/-- A run after which no timer is armed for a time before the given one, if none was. -/
def KeepsLate (first now : Instant) (r : Run K α) : Prop :=
  ∀ s : Machine K, s.Late first now →
    r.Abides (.ending fun t => t.Late first now) (fun _ t => t.Late first now) s

theorem KeepsLate.bind {r : Run K α} {f : α → Run K β} (hr : r.KeepsLate first now)
    (hf : ∀ a, (f a).KeepsLate first now) : (r >>= f).KeepsLate first now := by
  intro s hs
  rw [abides_bind]
  exact (hr s hs).mono hf

theorem keepsLate_pure (a : α) : (pure a : Run K α).KeepsLate first now := fun _ hs => hs

theorem keepsLate_record (e : Event K) : (record e).KeepsLate first now := fun _ hs =>
  ⟨hs.clock, hs.timers⟩

theorem keepsLate_manager : (manager : Run K (Manager K)).KeepsLate first now := fun _ hs => hs

theorem keepsLate_refuse {ε : Type} (n : Notice) (e : ε) :
    (refuse n e : Run K (Except ε α)).KeepsLate first now :=
  (keepsLate_record (.notice n)).bind fun _ => keepsLate_pure _

theorem keepsLate_onHost {f : Host → α × Host} (hf : Host.Forward f) :
    (onHost f : Run K α).KeepsLate first now := fun s hs =>
  ⟨Instant.le_trans hs.clock (hf s.host), hs.timers⟩

/-- Timers may be taken away. -/
theorem keepsLate_modifyManager {f : Manager K → Manager K}
    (hf : ∀ m x, x ∈ (f m).timers.toList → x ∈ m.timers.toList) :
    (modifyManager f).KeepsLate first now := fun s hs =>
  ⟨hs.clock, fun x hx => hs.timers x (hf s.manager x hx)⟩

theorem keepsLate_commit (e : Event K) {f : Manager K → Manager K}
    (hf : ∀ m, (f m).timers = m.timers) : (commit e f).KeepsLate first now := fun s hs =>
  ⟨hs.clock, fun x hx => hs.timers x (hf s.manager ▸ hx)⟩

theorem keepsLate_modifyEntry (id : BlockId) (f : Entry K → Entry K) :
    (modifyEntry id f).KeepsLate first now := keepsLate_modifyManager fun _ _ hx => hx

theorem keepsLate_pause : (pause : Run K Unit).KeepsLate first now := fun _ hs => hs

/-- What is armed is armed for a time that is not before the one on the clock. -/
theorem keepsLate_arm (hle : first ≤ now) (owner : BlockId) (tid : TimerId) (delay : Duration)
    (arg : Payload) : (arm owner tid delay arg : Run K _).KeepsLate first now := by
  intro s hs
  unfold arm
  rw [abides_bind, abides_manager]
  split
  · simp only [abides_bind, abides_onHost]
    have hs' : Machine.Late first now { s with host := s.host.readClock.2 } :=
      ⟨Instant.le_trans hs.clock (Host.forward_readClock s.host), hs.timers⟩
    cases hlater : s.host.readClock.1.later? delay with
    | none => exact keepsLate_refuse _ _ _ hs'
    | some expiration =>
      have hexp : first ≤ expiration := Instant.le_trans hle
        (Instant.le_trans hs.clock (Instant.le_of_later? hlater))
      refine ⟨hs'.clock, fun x hx => ?_⟩
      rcases TimerList.mem_add.1 hx with rfl | ⟨hx, -⟩
      · exact hexp
      · exact hs.timers x hx
  · exact keepsLate_refuse _ _ s hs

theorem keepsLate_disarm (owner : BlockId) (tid : TimerId) :
    (disarm owner tid : Run K Unit).KeepsLate first now := by
  intro s hs
  have hleft : ∀ x ∈ (s.manager.timers.without (owner, tid)).toList, first ≤ x.expiration :=
    fun x hx => hs.timers x (TimerList.mem_without.1 hx).1
  unfold disarm
  rw [abides_bind, abides_manager]
  dsimp only [TimerList.remove]
  split
  · rw [abides_bind, abides_notify]
    exact ⟨hs.clock, hleft⟩
  · exact ⟨hs.clock, hleft⟩

theorem keepsLate_watch (w : Watch) : (watch w : Run K _).KeepsLate first now := by
  refine keepsLate_manager.bind fun m => ?_
  split
  · split
    · exact keepsLate_refuse _ _
    · refine KeepsLate.bind (keepsLate_commit _ fun _ => rfl) fun _ => ?_
      exact (keepsLate_record _).bind fun _ => keepsLate_pure _
  · exact keepsLate_refuse _ _

theorem keepsLate_popThen {at' : Instant} {r : Run K α} {f : Timer → Run K α}
    (hr : r.KeepsLate first now) (hf : ∀ t, (f t).KeepsLate first now) :
    (popThen at' r f).KeepsLate first now := by
  intro s hs
  unfold popThen
  rw [abides_bind, abides_manager]
  rcases s.manager.timers.popExpired_cases at' with ⟨hpop, -⟩ | ⟨t, rest, hpop, hlist, -⟩
  · simp only [hpop]
    exact hr s hs
  · simp only [hpop]
    rw [abides_bind, abides_modifyManager]
    exact hf t _ ⟨hs.clock, fun x hx => hs.timers x (hlist ▸ .tail _ hx)⟩

/-- What is made of the parts of the engine arms no timer for a time before, if hooks do not. -/
theorem Made.keepsLate (hK : K.KeepsTime) (hle : first ≤ now) {r : Run K α} (h : Made call r)
    (hcall : ∀ id hook, (call id hook).KeepsLate first now) : r.KeepsLate first now := by
  induction h with
  | pure a => exact keepsLate_pure a
  | throw => exact fun _ hs => hs
  | outOfFuel => exact fun _ _ => trivial
  | bind _ _ ihr ihf => exact ihr.bind ihf
  | manager => exact keepsLate_manager
  | host => exact fun _ hs => hs
  | record => exact keepsLate_record _
  | onHost hf => exact keepsLate_onHost hf
  | build factory => exact keepsLate_onHost (hK.build factory)
  | release c => exact keepsLate_onHost (hK.release c)
  | modifyManager hf => exact keepsLate_modifyManager fun m x hx => (hf m).1 ▸ hx
  | arm owner tid delay arg => exact keepsLate_arm hle owner tid delay arg
  | disarm owner tid => exact keepsLate_disarm owner tid
  | disarmAll => exact keepsLate_modifyManager fun m x hx => by cases hx
  | watch w => exact keepsLate_watch w
  | unwatch w => exact (keepsLate_record _).bind fun _ => keepsLate_modifyManager fun _ _ hx => hx
  | popThen _ _ ihr ihf => exact keepsLate_popThen ihr ihf
  | call id hook => exact hcall id hook

/-! ## Hooks -/

theorem keepsLate_leave (hK : K.KeepsTime) (id : BlockId) (serial : Nat) (c : K.Contents) :
    (leave id serial c).KeepsLate first now := by
  have hrelease : (release serial c).KeepsLate first now :=
    (keepsLate_record _).bind fun _ => keepsLate_onHost (hK.release c)
  refine (keepsLate_record _).bind fun _ => ?_
  unfold giveBack
  refine keepsLate_manager.bind fun m => ?_
  split
  · split
    · exact keepsLate_modifyEntry id _
    · exact hrelease
  · exact hrelease

theorem keepsLate_runScript (hK : K.KeepsTime) (hle : first ≤ now)
    (hcall : ∀ id hook, (call id hook).KeepsLate first now) (n : Nat) (id : BlockId)
    (serial : Nat) (c : K.Contents) (script : Script K.Factory K.Remark K.Contents α) :
    (runScript call n (leave id serial) c script).KeepsLate first now := by
  induction script generalizing c with
  | done a => exact keepsLate_pure _
  | keep kept next ih => exact ih kept
  | call r next ih =>
    intro s hs
    unfold runScript
    rw [abides_bind]
    have hr := (made_perform n r).keepsLate hK hle hcall s hs
    refine Abides.mono (Abides.onBreakThen hr fun _ t ht => ?_) fun a t ht => ih a c t ht
    exact keepsLate_leave hK id serial c t ht

theorem keepsLate_callHook (hK : K.KeepsTime) (hle : first ≤ now) (n : Nat) (id : BlockId)
    (hook : Hook) : (callHook (K := K) n id hook).KeepsLate first now := by
  induction n generalizing id hook with
  | zero => exact fun _ _ => trivial
  | succ n ih =>
    show (enter (callHook n) n id hook).KeepsLate first now
    unfold enter
    refine keepsLate_manager.bind fun m => ?_
    cases m.blocks.get? id with
    | none => exact keepsLate_pure _
    | some e =>
      dsimp only
      cases e.contents with
      | none => exact (keepsLate_record _).bind fun _ => keepsLate_pure _
      | some c =>
        refine (keepsLate_modifyEntry id _).bind fun _ => ?_
        refine (keepsLate_record _).bind fun _ => keepsLate_pause.bind fun _ => ?_
        refine (keepsLate_runScript hK hle ih n id e.serial c _).bind fun result => ?_
        exact (keepsLate_leave hK id e.serial result.2).bind fun _ => keepsLate_pure _

end Run

/-! ## A check, timer by timer -/

/-- A timer that fires, and the machine when its owner is about to be called. -/
structure Firing (K : Kit) where
  timer : Timer
  before : Machine K

namespace Firing

/-- The call that a timer leads to: none if its owner is not live or busy. -/
def calls (f : Firing K) : List Visit := f.before.visitOf f.timer.owner (.timer f.timer)

def changes (call : Call K) (f : Firing K) : List (Machine K × Machine K) :=
  (Run.deliverTimer call f.timer).changes f.before

end Firing

/-- The timers that fire one after the other at a time, from one machine to another: each is the
first one that is armed then, and has left the list when its owner is called. -/
inductive Fires (call : Call K) (now : Instant) : Machine K → List (Firing K) → Machine K → Prop
  | none {s : Machine K} (h : ∀ x ∈ s.manager.timers.toList, now < x.expiration) :
    Fires call now s [] s
  | next {s u v : Machine K} {t : Timer} {rest : TimerList} {fs : List (Firing K)}
    (hfirst : s.manager.timers.toList = t :: rest.toList) (hdue : t.expiration ≤ now)
    (hrun : (s.withTimers rest).run? (Run.deliverTimer call t) = some (.ok (), u))
    (hrest : Fires call now u fs v) : Fires call now s (⟨t, s.withTimers rest⟩ :: fs) v

open Run

section Delivery

variable {s t : Machine K} {n : Nat}

/-- A timer leads to one direct call if its owner is live and not busy, and to none otherwise. -/
theorem visits_deliverTimer (n : Nat) (x : Timer) (s : Machine K) :
    (deliverTimer (callHook n) x).Visits s (s.visitOf x.owner (.timer x)) := by
  show (if s.manager.blocks.contains x.owner then _ else _ : Run K Unit).Visits s _
  split
  · exact (visits_notify _ s).bind rfl (visits_callHook n x.owner (.timer x) _).discard
  · next hlive =>
    rw [Machine.visitOf_of_unknown (by simpa [Keyed.contains] using hlive)]
    exact visits_notify _ s

/-- While a timer is delivered, timers change in hooks only. -/
theorem above_deliverTimer (n : Nat) (x : Timer) (s : Machine K) :
    (deliverTimer (callHook n) x).Abides
      (.changing (Machine.Above s.stack) fun t => t.stack = s.stack) (fun _ t => t.stack = s.stack)
      s := by
  have htell : ∀ note : Notice, Machine.Above s.stack s
      { s with events := .notice note :: s.events } := fun note =>
    (Machine.Inside.notice s note).toAbove
  show (if s.manager.blocks.contains x.owner then _ else _ : Run K Unit).Abides _ _ s
  split
  · rw [abides_bind, abides_notify]
    refine ⟨htell _, ?_⟩
    rw [abides_discard]
    exact (above_callHook n x.owner (.timer x) _).monoChanging (fun _ _ h => h.1) (fun _ h => h.1)
      fun _ _ h => h.1
  · rw [abides_notify]
    exact ⟨htell _, rfl⟩

/-- A check that comes to a result fires timers one after the other. -/
theorem exists_fires {m fired k : Nat} {now : Instant}
    (hrun : s.run? (fireUntil (callHook n) now m fired) = some (.ok k, t)) :
    ∃ fs, Fires (callHook n) now s fs t ∧ k = fired + fs.length ∧
      (fireUntil (callHook n) now m fired).Visits s (fs.flatMap (·.calls)) := by
  induction m generalizing s fired with
  | zero => cases hrun
  | succ m ih =>
    rw [fireUntil_succ] at hrun ⊢
    rcases s.manager.timers.popExpired_cases now with
      ⟨hpop, hnone⟩ | ⟨x, rest, hpop, hfirst, hdue⟩
    · rw [run?_popThen_of_none hpop] at hrun
      cases hrun
      exact ⟨[], .none hnone, rfl, (abides_popThen_of_none hpop).2 (visits_pure _ _)⟩
    · rw [run?_popThen_of_some hpop, run?_bind] at hrun
      cases hx : (s.withTimers rest).run? (deliverTimer (callHook n) x) with
      | none => simp [hx] at hrun
      | some result =>
        obtain ⟨y, u⟩ := result
        cases y with
        | error b => simp [hx] at hrun
        | ok a =>
          simp only [hx] at hrun
          obtain ⟨fs, hfires, hk, hvisits⟩ := ih hrun
          refine ⟨⟨x, s.withTimers rest⟩ :: fs, .next hfirst hdue hx hfires, ?_, ?_⟩
          · rw [hk, List.length_cons]
            omega
          · have hrest := (visits_deliverTimer n x (s.withTimers rest)).bind
              (f := fun _ => fireUntil (callHook n) now m (fired + 1)) hx hvisits
            exact (abides_popThen_of_some hpop).2
              ⟨⟨[], List.nil_prefix, (List.append_nil _).symm⟩, hrest⟩

end Delivery

/-! ## What holds of all that fires -/

section Fires

variable {s t : Machine K} {n : Nat} {now first : Instant} {fs : List (Firing K)}

/-- No timer fires that is armed for a time before. -/
theorem Fires.le_expiration (hK : K.KeepsTime) (h : Fires (callHook n) now s fs t)
    (hle : first ≤ now) (hs : s.Late first now) : ∀ f ∈ fs, first ≤ f.timer.expiration := by
  induction h with
  | none => exact fun f hf => by cases hf
  | @next s u v x rest fs hfirst hdue hrun _ ih =>
    have hrest : (s.withTimers rest).Late first now :=
      ⟨hs.clock, fun y hy => hs.timers y (hfirst ▸ .tail _ hy)⟩
    have hu : u.Late first now :=
      Abides.after ((operates_deliverTimer x).made.keepsLate hK hle (keepsLate_callHook hK hle n) _
        hrest) hrun
    intro f hf
    rcases List.mem_cons.1 hf with rfl | hf
    · exact hs.timers x (hfirst ▸ .head _)
    · exact ih hu f hf

/-- Timers fire in the order of their times. -/
theorem Fires.sorted (hK : K.KeepsTime) (h : Fires (callHook n) now s fs t)
    (hclock : now ≤ s.host.now) :
    fs.Pairwise fun f g => f.timer.expiration ≤ g.timer.expiration := by
  induction h with
  | none => exact .nil
  | @next s u v x rest fs hfirst hdue hrun hfires ih =>
    have hsorted : ∀ y ∈ rest.toList, x.expiration ≤ y.expiration := by
      have h := s.manager.timers.sorted
      rw [hfirst] at h
      exact (List.pairwise_cons.1 h).1
    have hu : u.Late x.expiration now :=
      Abides.after ((operates_deliverTimer x).made.keepsLate hK hdue (keepsLate_callHook hK hdue n)
        (s.withTimers rest) ⟨hclock, hsorted⟩) hrun
    exact .cons (fun f hf => hfires.le_expiration hK hdue hu f hf) (ih hu.clock)

/-- A timer that has expired fires, unless it is taken away while a hook is open. -/
theorem Fires.fired_or_lost (h : Fires (callHook n) now s fs t) {x : Timer}
    (hx : x ∈ s.manager.timers.toList) (hdue : x.expiration ≤ now) :
    (∃ f ∈ fs, f.timer = x) ∨ ∃ f ∈ fs, ∃ p ∈ f.changes (callHook n),
      s.stack <:+ p.1.stack ∧ p.1.stack ≠ s.stack ∧ x ∈ p.1.manager.timers.toList ∧
        p.1.manager.timers.Loses x p.2.manager.timers := by
  induction h with
  | none h => exact absurd hdue (Nat.not_le.2 (h x hx))
  | @next s u v y rest fs hfirst hy hrun _ ih =>
    rw [hfirst] at hx
    rcases List.mem_cons.1 hx with rfl | hx
    · exact .inl ⟨_, .head _, rfl⟩
    have hmoves := above_deliverTimer n y (s.withTimers rest)
    by_cases hu : x ∈ u.manager.timers.toList
    · have hstack : u.stack = s.stack := hmoves.after hrun
      rw [← hstack]
      refine (ih hu).imp ?_ ?_
      · exact fun ⟨f, hf, h⟩ => ⟨f, .tail _ hf, h⟩
      · exact fun ⟨f, hf, h⟩ => ⟨f, .tail _ hf, h⟩
    · obtain ⟨p, hp, hbefore, hafter⟩ :=
        exists_change_of_lost (P := fun u => x ∈ u.manager.timers.toList) hrun hx hu
      have habove := hmoves.change hp
      refine .inr ⟨_, .head _, p, hp, habove.before, fun hst => ?_, hbefore,
        habove.timers.loses hbefore hafter⟩
      rw [habove.timers_eq hst] at hafter
      exact hafter hbefore

theorem Fires.drained (h : Fires (callHook n) now s fs t) :
    ∀ x ∈ t.manager.timers.toList, now < x.expiration := by
  induction h with
  | none h => exact h
  | next _ _ _ _ ih => exact ih

theorem Fires.due (h : Fires (callHook n) now s fs t) : ∀ f ∈ fs, f.timer.expiration ≤ now := by
  induction h with
  | none => exact fun f hf => by cases hf
  | next _ hdue _ _ ih => exact List.forall_mem_cons.2 ⟨hdue, ih⟩

/-- A timer has left the list when its owner is called. -/
theorem Fires.left (h : Fires (callHook n) now s fs t) :
    ∀ f ∈ fs, ∀ x ∈ f.before.manager.timers.toList, x.key ≠ f.timer.key := by
  induction h with
  | none => exact fun f hf => by cases hf
  | @next s _ _ y rest _ hfirst _ _ _ ih =>
    refine List.forall_mem_cons.2 ⟨fun x hx => ?_, ih⟩
    have h := s.manager.timers.distinct
    rw [hfirst] at h
    exact ((List.pairwise_cons.1 h).1 x hx).symm

end Fires

/-! ## Checks -/

/-- What a check of timers does that comes to a result `k` from one machine to another: timers fire
one after the other at the time that the clock showed. -/
structure Machine.Expires (s t : Machine K) (n m k : Nat) (fs : List (Firing K)) : Prop where
  fires : Fires (callHook n) s.host.now { s with host := s.host.readClock.2 } fs t
  sorted : fs.Pairwise fun f g => f.timer.expiration ≤ g.timer.expiration
  due : ∀ f ∈ fs, f.timer.expiration ≤ s.host.now
  /-- No timer is left that has expired. -/
  drained : ∀ x ∈ t.manager.timers.toList, s.host.now < x.expiration
  /-- A timer that had expired fired, unless it was disarmed, armed again, cleared or fired by
  another check while a hook was open that the check had called. -/
  fired_or_lost : ∀ x ∈ s.manager.timers.toList, x.expiration ≤ s.host.now →
    (∃ f ∈ fs, f.timer = x) ∨ ∃ f ∈ fs, ∃ p ∈ f.changes (callHook n),
      s.stack <:+ p.1.stack ∧ p.1.stack ≠ s.stack ∧ x ∈ p.1.manager.timers.toList ∧
        p.1.manager.timers.Loses x p.2.manager.timers
  /-- A timer had left the list when its owner was called. -/
  left : ∀ f ∈ fs, ∀ x ∈ f.before.manager.timers.toList, x.key ≠ f.timer.key
  /-- Each timer led to the call of its owner, if that was live and not busy, and to no other. -/
  calls : ∀ f ∈ fs, (deliverTimer (callHook n) f.timer).Visits f.before f.calls
  /-- Nothing else was called by the check itself. -/
  visits : (fire (callHook n) m).Visits s (fs.flatMap (·.calls))
  count : k = fs.length

/-- **Expiry.** Whatever the hooks do, as long as blocks do not turn the clock back: a check of
timers fires timers in the order of their times, all of them due, until none is due; it leaves out
no timer but one that a hook took away; each timer leaves the list before its owner is called, once
and only if that is live and not busy; and the result is the number of timers that fired. -/
theorem expiry (hK : K.KeepsTime) {s t : Machine K} {n m k : Nat}
    (hrun : s.run? (fire (callHook n) m) = some (.ok k, t)) : ∃ fs, s.Expires t n m k fs := by
  obtain ⟨fs, hfires, hk, hvisits⟩ :=
    exists_fires (s := { s with host := s.host.readClock.2 }) hrun
  refine ⟨fs, hfires, hfires.sorted hK (Host.forward_readClock s.host), hfires.due,
    hfires.drained, fun x hx hdue => hfires.fired_or_lost hx hdue, hfires.left,
    fun f _ => visits_deliverTimer n f.timer f.before, ?_, ?_⟩
  · exact ⟨⟨[], List.nil_prefix, (List.append_nil _).symm⟩, hvisits⟩
  · rw [hk, Nat.zero_add]

/-! ## A check that is interfered with -/

/-- Blocks that, when their first timer fires, disarm the third one and arm the second one without
delay. -/
@[reducible] def snoozers : Kit where
  Factory := Unit
  Contents := Unit
  Remark := Empty
  build := fun _ h => (some (), h)
  hook := fun _ id hook =>
    match hook with
    | .timer t => do
      if t.tid = 1 then
        Script.ask (.disarm id 3)
        discard (Script.ask (.arm id 2 ⟨0⟩ t.arg))
      return {}
    | _ => return {}
  report := fun _ buffer => (0, buffer)
  release := fun _ => id

/-- A timer of the first block that fires at once. -/
def dueTimer (tid : TimerId) : Timer := ⟨⟨1⟩, tid, Host.manual.now, .text "wake up"⟩

/-- A block whose first and third timer are due. -/
def drowsy : Machine snoozers :=
  { manager := { (.fresh {} : Manager snoozers) with
      blocks := Keyed.empty.insert ⟨1⟩
        { serial := 0, type := "snoozer", state := .started, contents := some () }
      timers := (TimerList.empty.add (dueTimer 1)).add (dueTimer 3) }
    host := .manual }

/-- The first timer fires, then the second one, which was armed meanwhile; the third one does
not. -/
theorem expiry_snooze : ∃ t fs, drowsy.Expires t 2 5 2 fs ∧
    fs.flatMap (·.calls) = [⟨0, ⟨1⟩, .timer (dueTimer 1)⟩, ⟨0, ⟨1⟩, .timer (dueTimer 2)⟩] := by
  obtain ⟨t, ht, htv⟩ : ∃ t, drowsy.run? (fire (callHook 2) 5) = some (.ok 2, t) ∧
      t.visits [] = [⟨0, ⟨1⟩, .timer (dueTimer 1)⟩, ⟨0, ⟨1⟩, .timer (dueTimer 2)⟩] :=
    ⟨_, rfl, rfl⟩
  have hK : snoozers.KeepsTime :=
    ⟨fun _ h => Instant.le_refl _, fun _ h => Instant.le_refl _⟩
  obtain ⟨fs, h⟩ := expiry hK ht
  have hcalls := (h.visits.result ht).2
  rw [show drowsy.stack = [] from rfl, htv] at hcalls
  exact ⟨t, fs, h, hcalls.symm⟩

end BlockFlow
