import BlockFlow.Proofs.Made
import BlockFlow.Proofs.Step
import BlockFlow.Proofs.Trail

/-!
# Hooks that are called directly

While a hook is open, all that happens happens above it: hooks begin and end, but the ones that were
open stay open. So the record tells which hooks were called by a run itself, and which ones were
called by other hooks meanwhile.

1. `visits`: the hooks that were called while just the given ones were open; `Machine.visitOf`: the
   call that a hook of a block comes to.
2. `TimerList.Changes`: what one change does to the timers.
3. `Machine.Within`, `Made.staysWithin`: what the engine does leaves all open hooks open.
4. `Machine.Above`, `above_callHook`: a call of a hook is one direct call, if the block is there and
   not busy, and none otherwise.
5. `Run.Visits`: the direct calls of a run, with rules for the parts of a run.
-/

namespace BlockFlow

variable {K : Kit} {α β : Type}

/-! ## The record of calls -/

/-- A hook that was called: the instance, the number under which it was called, and what for. -/
structure Visit where
  serial : Nat
  id : BlockId
  hook : Hook

/-- The hooks that were called while just the given hooks were open, in order. -/
def visits (stack : List Frame) : List (Event K) → List Visit
  | [] => []
  | .entered serial id hook :: es =>
    if openHooks es = stack then visits stack es ++ [⟨serial, id, hook⟩] else visits stack es
  | _ :: es => visits stack es

theorem openHooks_aside {e : Event K} (he : e.IsAside) (es : List (Event K)) :
    openHooks (e :: es) = openHooks es := by
  cases e with
  | entered | left => exact he.elim
  | _ => rfl

/-- Only the beginning of a hook is a call, and only if just the given hooks are open. -/
theorem visits_cons_of_ne {e : Event K} {es : List (Event K)} {stack : List Frame}
    (h : openHooks es ≠ stack) : visits stack (e :: es) = visits stack es := by
  cases e with
  | entered => exact if_neg h
  | _ => rfl

theorem visits_aside {e : Event K} (he : e.IsAside) (es : List (Event K)) (stack : List Frame) :
    visits stack (e :: es) = visits stack es := by
  cases e with
  | entered | left => exact he.elim
  | _ => rfl

namespace Machine

/-- The hooks that were called while just the given hooks were open, in order. -/
def visits (s : Machine K) (stack : List Frame) : List Visit := BlockFlow.visits stack s.events

/-- The call that a hook of a block comes to: none if the block is not live or busy. -/
def visitOf (s : Machine K) (id : BlockId) (hook : Hook) : List Visit :=
  match s.manager.blocks.get? id with
  | none => []
  | some e => if e.isBusy then [] else [⟨e.serial, id, hook⟩]

variable {s : Machine K} {id : BlockId} {e : Entry K}

theorem visitOf_of_unknown (h : s.manager.blocks.get? id = none) (hook : Hook) :
    s.visitOf id hook = [] := by
  rw [visitOf, h]

theorem visitOf_of_busy (h : s.manager.blocks.get? id = some e) (hc : e.contents = none)
    (hook : Hook) : s.visitOf id hook = [] := by
  rw [visitOf, h]
  exact if_pos (by simp [Entry.isBusy, hc])

theorem visitOf_of_idle (h : s.manager.blocks.get? id = some e) (hc : e.contents ≠ none)
    (hook : Hook) : s.visitOf id hook = [⟨e.serial, id, hook⟩] := by
  rw [visitOf, h]
  exact if_neg (by simpa [Entry.isBusy] using hc)

end Machine

/-! ## Timers -/

inductive TimerList.Changes (l : TimerList) : TimerList → Prop
  | same : Changes l l
  | armed (t : Timer) : Changes l (l.add t)
  | disarmed (key : BlockId × TimerId) : Changes l (l.without key)
  | cleared : Changes l .empty
  | popped (now : Instant) : Changes l (l.popExpired now).2

theorem TimerList.Changes.of_eq {l l' : TimerList} (h : l' = l) : l.Changes l' := h ▸ .same

/-! ## Changes above open hooks -/

namespace Machine

/-- A change that leaves the given hooks open. -/
structure Within (stack : List Frame) (u v : Machine K) : Prop where
  before : stack <:+ u.stack
  after : stack <:+ v.stack
  events : v.events = u.events ∨ ∃ e, v.events = e :: u.events
  timers : u.manager.timers.Changes v.manager.timers

/-- A change during a call while the given hooks are open: timers, watches and factories change in
hooks only. -/
structure Above (stack : List Frame) (u v : Machine K) : Prop extends Within stack u v where
  timers_eq : u.stack = stack → v.manager.timers = u.manager.timers
  watches_eq : u.stack = stack → v.manager.watches = u.manager.watches
  factories_eq : u.stack = stack → v.manager.factories = u.manager.factories

/-- A change above the given hooks that calls none directly. -/
structure Inside (stack : List Frame) (u v : Machine K) : Prop extends Above stack u v where
  visits_eq : v.visits stack = u.visits stack

variable {stack : List Frame} {f : Frame} {u v : Machine K}

/-- A change that records nothing, or something aside. -/
theorem Within.of_aside (hs : stack <:+ u.stack)
    (hev : v.events = u.events ∨ ∃ e : Event K, e.IsAside ∧ v.events = e :: u.events)
    (ht : u.manager.timers.Changes v.manager.timers) : Within stack u v ∧ v.stack = u.stack := by
  have hstack : v.stack = u.stack := by
    rcases hev with h | ⟨e, he, h⟩
    · rw [Machine.stack, Machine.stack, h]
    · rw [Machine.stack, Machine.stack, h, openHooks_aside he]
  exact ⟨⟨hs, hstack ▸ hs, hev.imp_right fun ⟨e, _, h⟩ => ⟨e, h⟩, ht⟩, hstack⟩

/-- What happens while one more hook is open is no direct call. -/
theorem Within.inside (h : Within (f :: stack) u v) : Inside stack u v := by
  have hne : u.stack ≠ stack := by
    intro heq
    have hlen := h.before.length_le
    rw [heq, List.length_cons] at hlen
    omega
  refine ⟨⟨⟨(List.suffix_cons f stack).trans h.before, (List.suffix_cons f stack).trans h.after,
    h.events, h.timers⟩, fun heq => absurd heq hne, fun heq => absurd heq hne,
    fun heq => absurd heq hne⟩, ?_⟩
  rcases h.events with hev | ⟨e, hev⟩
  · rw [visits, visits, hev]
  · rw [visits, visits, hev]
    exact visits_cons_of_ne hne

/-- A change outside of the hooks called meanwhile that records nothing, or something aside. -/
theorem Inside.of_aside (hs : u.stack = stack)
    (hev : v.events = u.events ∨ ∃ e : Event K, e.IsAside ∧ v.events = e :: u.events)
    (ht : v.manager.timers = u.manager.timers) (hw : v.manager.watches = u.manager.watches)
    (hf : v.manager.factories = u.manager.factories) : Inside stack u v ∧ v.stack = stack := by
  have hsuffix : stack <:+ u.stack := hs ▸ List.suffix_rfl
  obtain ⟨hwithin, hstack⟩ := Within.of_aside hsuffix hev (.of_eq ht)
  refine ⟨⟨⟨hwithin, fun _ => ht, fun _ => hw, fun _ => hf⟩, ?_⟩, hstack.trans hs⟩
  rcases hev with h | ⟨e, he, h⟩
  · rw [visits, visits, h]
  · rw [visits, visits, h, visits_aside he]

theorem Inside.notice (s : Machine K) (n : Notice) :
    Inside s.stack s { s with events := .notice n :: s.events } :=
  (Inside.of_aside (v := { s with events := .notice n :: s.events }) rfl
    (.inr ⟨.notice n, trivial, rfl⟩) rfl rfl rfl).1

def withTimers (s : Machine K) (timers : TimerList) : Machine K :=
  { s with manager.timers := timers }

end Machine

open Machine (Within Above Inside)

/-- A run calls no hook directly above those of `stack`. If it breaks off, then inside of them. -/
@[reducible]
def Terms.inside (stack : List Frame) : Terms K := .changing (Inside stack) fun t => t.stack = stack

namespace Run

/-- A run leaves all open hooks open, and none besides. -/
def StaysWithin (r : Run K α) : Prop :=
  ∀ s : Machine K, r.Abides (.changing (Within s.stack) fun t => t.stack = s.stack)
    (fun _ t => t.stack = s.stack) s

/-! ## Parts of the engine -/

section Parts

variable {s : Machine K} {call : Call K}

theorem StaysWithin.bind {r : Run K α} {f : α → Run K β} (hr : r.StaysWithin)
    (hf : ∀ a, (f a).StaysWithin) : (r >>= f).StaysWithin := by
  intro s
  rw [abides_bind]
  exact (hr s).mono fun a t ht => ht ▸ hf a t

theorem staysWithin_record {e : Event K} (he : e.IsAside) : (record e).StaysWithin := fun _ =>
  Within.of_aside List.suffix_rfl (.inr ⟨e, he, rfl⟩) .same

theorem staysWithin_onHost (f : Host → α × Host) : (onHost f : Run K α).StaysWithin := fun _ =>
  Within.of_aside List.suffix_rfl (.inl rfl) .same

theorem staysWithin_modifyManager {f : Manager K → Manager K}
    (hf : ∀ m : Manager K, m.timers.Changes (f m).timers) : (modifyManager f).StaysWithin :=
  fun _ => Within.of_aside List.suffix_rfl (.inl rfl) (hf _)

theorem staysWithin_commit {e : Event K} (he : e.IsAside) {f : Manager K → Manager K}
    (hf : ∀ m : Manager K, m.timers.Changes (f m).timers) : (commit e f).StaysWithin :=
  fun _ => Within.of_aside List.suffix_rfl (.inr ⟨e, he, rfl⟩) (hf _)

theorem staysWithin_manager : (manager : Run K (Manager K)).StaysWithin := fun _ => rfl

theorem staysWithin_pure (a : α) : (pure a : Run K α).StaysWithin := fun _ => rfl

theorem staysWithin_refuse {ε : Type} (n : Notice) (e : ε) :
    (refuse n e : Run K (Except ε α)).StaysWithin :=
  (staysWithin_record (e := .notice n) trivial).bind fun _ => staysWithin_pure _

theorem staysWithin_arm (owner : BlockId) (tid : TimerId) (delay : Duration) (arg : Payload) :
    (arm owner tid delay arg : Run K _).StaysWithin := by
  refine staysWithin_manager.bind fun m => ?_
  split
  · refine (staysWithin_onHost _).bind fun now => ?_
    cases now.later? delay with
    | none => exact staysWithin_refuse _ _
    | some expiration =>
      refine (staysWithin_record (e := .notice _) trivial).bind fun _ => ?_
      exact (staysWithin_commit (e := .armed _) trivial fun m => .armed _).bind fun _ =>
        staysWithin_pure _
  · exact staysWithin_refuse _ _

theorem staysWithin_disarm (owner : BlockId) (tid : TimerId) :
    (disarm owner tid : Run K Unit).StaysWithin := by
  -- What is left is put in place of the timers as they are, so it is followed from one machine.
  intro s
  have hput : ∀ t : Machine K, t.stack = s.stack → t.manager = s.manager →
      (modifyManager fun m : Manager K =>
        { m with timers := (s.manager.timers.remove owner tid).2 }).Abides
        (.changing (Within s.stack) fun u => u.stack = s.stack) (fun _ u => u.stack = s.stack)
        t := by
    intro t hstack hmanager
    have hsuffix : s.stack <:+ t.stack := hstack ▸ List.suffix_rfl
    have hdisarmed : t.manager.timers.Changes (s.manager.timers.remove owner tid).2 := by
      rw [hmanager]
      exact .disarmed _
    obtain ⟨hwithin, hst⟩ := Within.of_aside hsuffix
      (v := { t with manager :=
        { t.manager with timers := (s.manager.timers.remove owner tid).2 } }) (.inl rfl) hdisarmed
    exact ⟨hwithin, hst.trans hstack⟩
  unfold disarm
  rw [abides_bind, abides_manager]
  dsimp only [TimerList.remove] at hput ⊢
  split
  · rw [abides_bind, abides_notify]
    obtain ⟨hwithin, hst⟩ := Within.of_aside (u := s)
      (v := { s with events := .notice (.timerDisarmed owner tid) :: s.events })
      (List.suffix_refl s.stack) (.inr ⟨.notice _, trivial, rfl⟩) .same
    exact ⟨hwithin, hput _ hst rfl⟩
  · exact hput s rfl rfl

theorem staysWithin_watch (w : Watch) : (watch w : Run K _).StaysWithin := by
  refine staysWithin_manager.bind fun m => ?_
  split
  · split
    · exact staysWithin_refuse _ _
    · refine StaysWithin.bind (staysWithin_commit (e := .enlisted w) trivial fun _ => .same)
        fun _ => ?_
      exact (staysWithin_record (e := .notice _) trivial).bind fun _ => staysWithin_pure _
  · exact staysWithin_refuse _ _

theorem staysWithin_unwatch (w : Watch) : (unwatch w : Run K Unit).StaysWithin :=
  (staysWithin_record (e := .notice _) trivial).bind fun _ =>
    staysWithin_modifyManager fun _ => .same

section PopThen

variable {T : Terms K} {Q : α → Machine K → Prop}
  {now : Instant} {r : Run K α} {f : Timer → Run K α} {t : Timer} {rest : TimerList}

theorem popThen_eq (now : Instant) (r : Run K α) (f : Timer → Run K α) :
    popThen now r f = manager >>= fun m =>
      match m.timers.popExpired now with
      | (none, _) => r
      | (some t, timers) => modifyManager (fun m => { m with timers }) >>= fun _ => f t := by
  refine congrArg (manager >>= ·) (funext fun m => ?_)
  cases m.timers.popExpired now with
  | mk timer timers => cases timer <;> rfl

theorem abides_popThen_of_none (h : s.manager.timers.popExpired now = (none, rest)) :
    (popThen now r f).Abides T Q s ↔ r.Abides T Q s := by
  rw [popThen_eq, abides_bind, abides_manager, h]

theorem abides_popThen_of_some (h : s.manager.timers.popExpired now = (some t, rest)) :
    (popThen now r f).Abides T Q s ↔
      T.atChange s (s.withTimers rest) ((f t).Abides T Q (s.withTimers rest)) := by
  rw [popThen_eq, abides_bind, abides_manager, h]
  exact abides_bind

theorem run?_popThen_of_none (h : s.manager.timers.popExpired now = (none, rest)) :
    s.run? (popThen now r f) = s.run? r := by
  rw [popThen_eq, run?_manager, h]

theorem run?_popThen_of_some (h : s.manager.timers.popExpired now = (some t, rest)) :
    s.run? (popThen now r f) = (s.withTimers rest).run? (f t) := by
  rw [popThen_eq, run?_manager, h]
  rfl

theorem staysWithin_popThen (hr : r.StaysWithin) (hf : ∀ t, (f t).StaysWithin) :
    (popThen now r f).StaysWithin := by
  intro s
  have hpop := TimerList.Changes.popped (l := s.manager.timers) now
  cases h : s.manager.timers.popExpired now with
  | mk timer rest =>
    rw [h] at hpop
    cases timer with
    | none => exact (abides_popThen_of_none h).2 (hr s)
    | some t =>
      obtain ⟨hwithin, hst⟩ := Within.of_aside (u := s) (v := s.withTimers rest)
        (List.suffix_refl s.stack) (.inl rfl) hpop
      exact (abides_popThen_of_some h).2 ⟨hwithin, hst ▸ hf t (s.withTimers rest)⟩

end PopThen

/-- What is made of the parts of the engine leaves all open hooks open, if calls of hooks do. -/
theorem Made.staysWithin {r : Run K α} (h : Made call r)
    (hcall : ∀ id hook, (call id hook).StaysWithin) : r.StaysWithin := by
  induction h with
  | pure a => exact staysWithin_pure a
  | throw => exact fun _ => rfl
  | outOfFuel => exact fun _ => trivial
  | bind _ _ ihr ihf => exact ihr.bind ihf
  | manager => exact staysWithin_manager
  | host => exact fun _ => rfl
  | record he => exact staysWithin_record he.isAside
  | onHost | build | release => exact staysWithin_onHost _
  | modifyManager hf => exact staysWithin_modifyManager fun m => .of_eq (hf m).1
  | arm owner tid delay arg => exact staysWithin_arm owner tid delay arg
  | disarm owner tid => exact staysWithin_disarm owner tid
  | disarmAll => exact staysWithin_modifyManager fun _ => .cleared
  | watch w => exact staysWithin_watch w
  | unwatch w => exact staysWithin_unwatch w
  | popThen _ _ ihr ihf => exact staysWithin_popThen ihr ihf
  | call id hook => exact hcall id hook

end Parts

/-! ## A call of a hook -/

section Calls

variable {s : Machine K} {call : Call K} {f : Frame} {stack : List Frame}

/-- The end of a hook leaves the hooks open that were open before it began. -/
theorem inside_leave (hs : s.stack = f :: stack) (id : BlockId) (serial : Nat) (c : K.Contents) :
    (leave id serial c).Abides (.inside stack) (fun _ t => t.stack = stack) s := by
  have hstack : openHooks (.left serial :: s.events) = stack := by
    show s.stack.tail = stack
    rw [hs, List.tail_cons]
  unfold leave
  rw [abides_bind, abides_record]
  have hsuffix : stack <:+ openHooks (.left serial :: s.events) := hstack ▸ List.suffix_rfl
  refine ⟨⟨⟨⟨hs ▸ List.suffix_cons f stack, hsuffix, .inr ⟨_, rfl⟩, .same⟩, fun _ => rfl,
    fun _ => rfl, fun _ => rfl⟩, rfl⟩, ?_⟩
  have hmodify : ∀ g : Entry K → Entry K, (modifyEntry id g).Abides (.inside stack)
      (fun _ t => t.stack = stack) { s with events := .left serial :: s.events } := fun g =>
    Inside.of_aside hstack (.inl rfl) rfl rfl rfl
  have hrelease : (release serial c).Abides (.inside stack) (fun _ t => t.stack = stack)
      { s with events := .left serial :: s.events } := by
    show _ ∧ _ ∧ _
    obtain ⟨hinside, hst⟩ := Inside.of_aside
      (u := { s with events := .left serial :: s.events })
      (v := { s with events := .released serial :: .left serial :: s.events }) hstack
      (.inr ⟨.released serial, trivial, rfl⟩) rfl rfl rfl
    exact ⟨hinside, Inside.of_aside hst (.inl rfl) rfl rfl rfl⟩
  unfold giveBack
  rw [abides_bind, abides_manager]
  split
  · split
    · exact hmodify _
    · exact hrelease
  · exact hrelease

/-- The script of a hook leaves the hook open, unless it breaks off and ends it. -/
theorem inside_runScript (hcall : ∀ id hook, (call id hook).StaysWithin)
    (hs : s.stack = f :: stack) (n : Nat) (id : BlockId) (serial : Nat) (c : K.Contents)
    (script : Script K.Factory K.Remark K.Contents α) :
    (runScript call n (leave id serial) c script).Abides (.inside stack)
      (fun _ t => t.stack = f :: stack) s := by
  induction script generalizing s c with
  | done a => exact hs
  | keep kept next ih => exact ih hs kept
  | call r next ih =>
    have hr : (perform call n r).Abides (.changing (Inside stack) fun t => t.stack = f :: stack)
        (fun _ t => t.stack = f :: stack) s :=
      ((made_perform n r).staysWithin hcall s).monoChanging
        (fun u v h => (hs ▸ h : Within (f :: stack) u v).inside) (fun _ h => h.trans hs)
        fun _ _ h => h.trans hs
    unfold runScript
    rw [abides_bind]
    refine Abides.mono (Abides.onBreakThen hr fun _ t ht => ?_) fun a t ht => ih a ht c
    exact inside_leave ht id serial c

/-- The script of a hook and the end of the hook leave the hooks open that were open before. -/
theorem inside_runScript_leave (hcall : ∀ id hook, (call id hook).StaysWithin)
    (hs : s.stack = f :: stack) (n : Nat) (id : BlockId) (serial : Nat) (c : K.Contents)
    (script : Script K.Factory K.Remark K.Contents α) :
    (do
      let result ← runScript call n (leave id serial) c script
      leave id serial result.2
      return some result.1 : Run K (Option α)).Abides (.inside stack) (fun _ t => t.stack = stack)
      s := by
  rw [abides_bind]
  refine (inside_runScript hcall hs n id serial c script).mono fun result t ht => ?_
  rw [abides_bind]
  exact inside_leave ht id serial result.2

/-- The beginning of a hook is a direct call. -/
theorem visits_entered (s : Machine K) (serial : Nat) (id : BlockId) (hook : Hook) :
    (s.entered serial id hook).visits s.stack = s.visits s.stack ++ [⟨serial, id, hook⟩] :=
  if_pos rfl

/-- A call of a hook is one direct call if the block is live and not busy, and none otherwise. All
hooks that were open stay open, and no timers change but in hooks. -/
theorem above_callHook (n : Nat) (id : BlockId) (hook : Hook) (s : Machine K) :
    (callHook n id hook).Abides
      (.changing (fun u v => Above s.stack u v ∧
          ∃ ws, ws <+: s.visitOf id hook ∧ v.visits s.stack = s.visits s.stack ++ ws)
        fun t => t.stack = s.stack ∧
          t.visits s.stack = s.visits s.stack ++ s.visitOf id hook)
      (fun _ t => t.stack = s.stack ∧
        t.visits s.stack = s.visits s.stack ++ s.visitOf id hook) s := by
  induction n generalizing id hook s with
  | zero => trivial
  | succ n ih =>
    have hcall : ∀ id hook, (callHook (K := K) n id hook).StaysWithin := fun id hook s =>
      (ih id hook s).monoChanging (fun _ _ h => h.1.toWithin) (fun _ h => h.1) fun _ _ h => h.1
    show (enter (callHook n) n id hook).Abides _ _ s
    unfold enter
    rw [abides_bind, abides_manager]
    cases he : s.manager.blocks.get? id with
    | none =>
      rw [s.visitOf_of_unknown he]
      exact ⟨rfl, (List.append_nil _).symm⟩
    | some e =>
      cases hc : e.contents with
      | none =>
        rw [s.visitOf_of_busy he hc]
        simp only [hc]
        rw [abides_bind, abides_notify]
        have hinside := Inside.notice s (.reentrantDropped id)
        have hvisits := hinside.visits_eq.trans (List.append_nil _).symm
        exact ⟨⟨hinside.toAbove, [], List.prefix_rfl, hvisits⟩, rfl, hvisits⟩
      | some c =>
        rw [s.visitOf_of_idle he (by simp [hc])]
        simp only [hc]
        -- The block is noted as busy.
        obtain ⟨haway, -⟩ := Inside.of_aside (u := s) (v := { s with
          manager.blocks := s.manager.blocks.modify id ({ · with contents := none }) })
          rfl (.inl rfl) rfl rfl rfl
        -- The hook begins: this is the direct call.
        have hvisits := visits_entered s e.serial id hook
        have hstack : (s.entered e.serial id hook).stack = ⟨e.serial, id⟩ :: s.stack := rfl
        have hbegin : Above s.stack
            { s with
              manager.blocks := s.manager.blocks.modify id ({ · with contents := none }) }
            (s.entered e.serial id hook) :=
          ⟨⟨List.suffix_rfl, hstack ▸ List.suffix_cons _ _, .inr ⟨_, rfl⟩, .same⟩, fun _ => rfl,
            fun _ => rfl, fun _ => rfl⟩
        refine ⟨⟨haway.toAbove, [], List.nil_prefix, haway.visits_eq.trans
          (List.append_nil _).symm⟩, ⟨hbegin, _, List.prefix_rfl, hvisits⟩, ?_⟩
        -- Its script and its end call nothing directly.
        have hrest := inside_runScript_leave hcall hstack n id e.serial c (K.hook c id hook)
        refine (hrest.keeps (P := fun u => u.visits s.stack = _)
          (fun u v h hu => h.visits_eq.trans hu) hvisits).monoChanging ?_ (fun _ h => h)
          fun _ _ h => h
        exact fun u v h => ⟨h.1.toAbove, _, List.prefix_rfl, h.2.2⟩

end Calls

/-! ## The direct calls of a run -/

/-- The hooks that a run calls directly are the given ones: some of the first of them after each of
its changes, and all of them at its end. -/
def Visits (r : Run K α) (s : Machine K) (vs : List Visit) : Prop :=
  r.Abides
    (.changing (fun _ v => ∃ ws, ws <+: vs ∧ v.visits s.stack = s.visits s.stack ++ ws)
      fun t => t.stack = s.stack ∧ t.visits s.stack = s.visits s.stack ++ vs)
    (fun _ t => t.stack = s.stack ∧ t.visits s.stack = s.visits s.stack ++ vs) s

section Visits

variable {s t : Machine K} {vs ws : List Visit}

theorem visits_callHook (n : Nat) (id : BlockId) (hook : Hook) (s : Machine K) :
    (callHook n id hook).Visits s (s.visitOf id hook) :=
  (above_callHook n id hook s).monoChanging (fun _ _ h => h.2) (fun _ h => h) fun _ _ h => h

theorem visits_pure (a : α) (s : Machine K) : (pure a : Run K α).Visits s [] :=
  ⟨rfl, (List.append_nil _).symm⟩

theorem visits_notify (n : Notice) (s : Machine K) : (notify n : Run K Unit).Visits s [] := by
  have hvisits : Machine.visits { s with events := .notice n :: s.events } s.stack =
    s.visits s.stack ++ [] := (List.append_nil _).symm
  exact ⟨⟨[], List.prefix_rfl, hvisits⟩, rfl, hvisits⟩

/-- The direct calls of two runs one after the other. -/
theorem Visits.bind {r : Run K α} {f : α → Run K β} {a : α} (h : r.Visits s vs)
    (hrun : s.run? r = some (.ok a, t)) (hf : (f a).Visits t ws) :
    (r >>= f).Visits s (vs ++ ws) := by
  unfold Visits
  rw [abides_bind, abides_changing_iff]
  refine ⟨fun p hp => ?_, fun x u hu => ?_⟩
  · obtain ⟨us, hus, hvisits⟩ := h.change hp
    exact ⟨us, hus.trans (List.prefix_append vs ws), hvisits⟩
  · rw [hrun] at hu
    cases hu
    obtain ⟨hstack, hvisits⟩ := Abides.after h hrun
    unfold Visits at hf
    rw [hstack, hvisits, List.append_assoc] at hf
    refine hf.monoChanging ?_ (fun _ h => h) fun _ _ h => h
    rintro u v ⟨us, hus, hv⟩
    exact ⟨vs ++ us, (List.prefix_append_right_inj vs).2 hus, by rw [hv, List.append_assoc]⟩

theorem Visits.discard {r : Run K α} (h : r.Visits s vs) : (discard r).Visits s vs := by
  unfold Visits
  rw [abides_discard]
  exact h

/-- Nothing is called after a run that comes to no result. -/
theorem Visits.bind_of_no_result {r : Run K α} {f : α → Run K β} (h : r.Visits s vs)
    (hrun : ∀ a t, s.run? r ≠ some (.ok a, t)) : (r >>= f).Visits s vs := by
  unfold Visits
  rw [abides_bind, abides_changing_iff]
  refine ⟨fun p hp => h.change hp, fun x u hu => ?_⟩
  cases x with
  | ok a => exact absurd hu (hrun a u)
  | error b => exact Abides.after h hu

end Visits

end Run

end BlockFlow
