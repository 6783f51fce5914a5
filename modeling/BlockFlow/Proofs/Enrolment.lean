import BlockFlow.Proofs.Expiry
import BlockFlow.Proofs.Seen
import Mathlib.Data.List.Pairwise
import Mathlib.Tactic.ByContra

/-!
# What is armed and watched is so for live blocks

Timers and watches keep nothing of their owners but a number, and stay when the block of that number
goes. But when a timer is armed, and when a source is watched or handed over, a block of that number
is live; and hooks are called of live instances only.

1. `WatchTable.watchOf?`, `WatchTable.owner?`: the watch of a source, and its owner.
2. `WatchTable.Changes`: what one change does to the watches; `WatchTable.Takes`: the ways in which
   a source does not belong to a block any more.
3. `Machine.ForLive`: a change that has to do with live blocks only.
4. `Made.isForLive`, `isForLive_callHook`, `Errand.isForLive`: all that the engine does is made of
   such changes.
-/

namespace BlockFlow

variable {K : Kit} {α β : Type}

/-! ## Watches -/

namespace WatchTable

variable {t t' : WatchTable} {s : Source} {w x y : Watch} {o : BlockId} {ws : List Watch}

def watchOf? (t : WatchTable) (s : Source) : Option Watch := t.toList.find? (·.source = s)

/-- The block to which a source belongs that is watched. -/
def owner? (t : WatchTable) (s : Source) : Option BlockId := (t.watchOf? s).map (·.owner)

theorem source_of_find? (h : ws.find? (·.source = s) = some x) : x.source = s := by
  simpa using List.find?_some h

theorem find?_cons_of_source (h : x.source = s) (ws : List Watch) :
    (x :: ws).find? (·.source = s) = some x := by simp [h]

theorem find?_cons_of_source_ne (h : x.source ≠ s) (ws : List Watch) :
    (x :: ws).find? (·.source = s) = ws.find? (·.source = s) := by simp [h]

theorem watchOf?_of_mem (h : w ∈ t.toList) : t.watchOf? w.source = some w := by
  obtain ⟨x, hx⟩ := Option.isSome_iff_exists.1
    (List.find?_isSome (p := fun x : Watch => decide (x.source = w.source)).2
      ⟨w, h, decide_eq_true rfl⟩)
  have hmem : x ∈ t.toList := List.mem_of_find?_eq_some hx
  have hsource : x.source = w.source := source_of_find? hx
  have hsymm : Std.Symm fun a b : Watch => a.source ≠ b.source := ⟨fun _ _ => Ne.symm⟩
  by_cases hxw : x = w
  · rw [watchOf?, hx, hxw]
  · exact absurd hsource (t.distinct.forall hmem h hxw)

theorem contains_iff : t.contains s ↔ t.watchOf? s ≠ none := by
  unfold contains watchOf?
  rw [List.any_eq_true, Ne, List.find?_eq_none]
  simp

theorem find?_merge_self (w : Watch) (ws : List Watch) :
    ∃ i, (merge w ws).find? (·.source = w.source) = some { w with interest := i } := by
  induction ws with
  | nil => exact ⟨w.interest, find?_cons_of_source rfl []⟩
  | cons x xs ih =>
    rw [merge]
    split
    · exact ⟨x.interest.union w.interest, find?_cons_of_source rfl xs⟩
    · next hne =>
      rw [find?_cons_of_source_ne hne]
      exact ih

theorem find?_merge_of_ne (h : w.source ≠ s) (ws : List Watch) :
    (merge w ws).find? (·.source = s) = ws.find? (·.source = s) := by
  induction ws with
  | nil => exact find?_cons_of_source_ne h []
  | cons x xs ih =>
    rw [merge]
    split
    · next heq =>
      have hnew : { w with interest := x.interest.union w.interest }.source ≠ s := h
      rw [find?_cons_of_source_ne hnew, find?_cons_of_source_ne (heq ▸ h)]
    · rw [List.find?_cons, List.find?_cons, ih]

theorem toList_of_add (h : t.add w = .ok t') : t'.toList = merge w t.toList := by
  unfold add at h
  split at h
  · cases h
  · cases h
    rfl

/-- A source that is watched belongs to the new owner. -/
theorem owner?_add_self (h : t.add w = .ok t') : t'.owner? w.source = some w.owner := by
  obtain ⟨i, hi⟩ := find?_merge_self w t.toList
  unfold owner? watchOf?
  rw [toList_of_add h, hi]
  rfl

theorem watchOf?_add_of_ne (h : t.add w = .ok t') (hs : w.source ≠ s) :
    t'.watchOf? s = t.watchOf? s := by
  unfold watchOf?
  rw [toList_of_add h]
  exact find?_merge_of_ne hs t.toList

theorem owner?_add_of_ne (h : t.add w = .ok t') (hs : w.source ≠ s) :
    t'.owner? s = t.owner? s := congrArg _ (watchOf?_add_of_ne h hs)

/-- What is left of the watch of a source has the same owner. -/
theorem find?_of_find?_dropInterest {i : Interest}
    (hws : ws.Pairwise fun a b => a.source ≠ b.source)
    (h : (dropInterest s i ws).find? (·.source = s) = some y) :
    ∃ x, ws.find? (·.source = s) = some x ∧ y.owner = x.owner := by
  induction ws with
  | nil => cases h
  | cons x xs ih =>
    obtain ⟨hx, hxs⟩ := List.pairwise_cons.1 hws
    rw [dropInterest] at h
    split at h
    · next heq =>
      refine ⟨x, find?_cons_of_source heq xs, ?_⟩
      split at h
      · have hleft : { x with interest := x.interest.without i }.source = s := heq
        rw [find?_cons_of_source hleft] at h
        cases h
        rfl
      · exact absurd (heq.trans (source_of_find? h).symm) (hx y (List.mem_of_find?_eq_some h))
    · next hne =>
      rw [find?_cons_of_source_ne hne] at h ⊢
      exact ih hxs h

theorem find?_dropInterest_of_ne {s' : Source} {i : Interest} (h : s ≠ s') (ws : List Watch) :
    (dropInterest s i ws).find? (·.source = s') = ws.find? (·.source = s') := by
  induction ws with
  | nil => rfl
  | cons x xs ih =>
    rw [dropInterest]
    split
    · next heq =>
      have hne : x.source ≠ s' := heq ▸ h
      rw [find?_cons_of_source_ne hne]
      split
      · have hleft : { x with interest := x.interest.without i }.source ≠ s' := hne
        exact find?_cons_of_source_ne hleft xs
      · rfl
    · rw [List.find?_cons, List.find?_cons, ih]

theorem watchOf?_remove_of_ne {s' : Source} (i : Interest) (h : s ≠ s') :
    (t.remove s i).watchOf? s' = t.watchOf? s' := find?_dropInterest_of_ne h t.toList

theorem owner?_remove_of_ne {s' : Source} (i : Interest) (h : s ≠ s') :
    (t.remove s i).owner? s' = t.owner? s' := congrArg _ (watchOf?_remove_of_ne i h)

/-- A source that is still watched belongs to the same block. -/
theorem owner?_of_remove {i : Interest} (h : (t.remove s i).owner? s = some o) :
    t.owner? s = some o := by
  obtain ⟨y, hy, rfl⟩ := Option.map_eq_some_iff.1 h
  obtain ⟨x, hx, hxy⟩ := find?_of_find?_dropInterest t.distinct hy
  rw [owner?, watchOf?, hx, hxy]
  rfl

/-- What one change does to the watches: one may be added for which `listed` holds. -/
inductive Changes (listed : Watch → Prop) (t : WatchTable) : WatchTable → Prop
  | same : Changes listed t t
  | added {t' : WatchTable} (w : Watch) (hlisted : listed w) (h : t.add w = .ok t') :
    Changes listed t t'
  | removed (s : Source) (i : Interest) : Changes listed t (t.remove s i)

variable {listed : Watch → Prop}

theorem Changes.of_eq (h : t' = t) : t.Changes listed t' := h ▸ .same

/-- A source belongs to a block as before, or its watch for the block is added. -/
theorem Changes.owner? (h : t.Changes listed t') (hs : t'.owner? s = some o) :
    t.owner? s = some o ∨ ∃ w, w.source = s ∧ w.owner = o ∧ listed w := by
  cases h with
  | same => exact .inl hs
  | added w hlisted hadd =>
    by_cases hw : w.source = s
    · subst hw
      rw [owner?_add_self hadd, Option.some.injEq] at hs
      exact .inr ⟨w, rfl, hs, hlisted⟩
    · rw [owner?_add_of_ne hadd hw] at hs
      exact .inl hs
  | removed s' i =>
    by_cases heq : s' = s
    · subst heq
      exact .inl (owner?_of_remove hs)
    · rw [owner?_remove_of_ne i heq] at hs
      exact .inl hs

/-- The ways in which a source does not belong to a block any more. -/
inductive Takes (t : WatchTable) (s : Source) (o : BlockId) : WatchTable → Prop
  /-- The source is watched for another block. -/
  | handed {t' : WatchTable} (w : Watch) (hs : w.source = s) (ho : w.owner ≠ o)
    (h : t.add w = .ok t') : Takes t s o t'
  /-- The source is not watched any more. -/
  | removed (i : Interest) : Takes t s o (t.remove s i)

/-- A change after which a source does not belong to a block any more is one of those ways. -/
theorem Changes.takes (h : t.Changes listed t') (hs : t.owner? s = some o)
    (hs' : t'.owner? s ≠ some o) : t.Takes s o t' := by
  cases h with
  | same => exact absurd hs hs'
  | added w _ hadd =>
    by_cases hw : w.source = s
    · refine .handed w hw (fun ho => hs' ?_) hadd
      rw [← hw, ← ho]
      exact owner?_add_self hadd
    · rw [owner?_add_of_ne hadd hw] at hs'
      exact absurd hs hs'
  | removed s' i =>
    by_cases heq : s' = s
    · exact heq ▸ .removed i
    · rw [owner?_remove_of_ne i heq] at hs'
      exact absurd hs hs'

end WatchTable

/-! ## Changes for live blocks -/

/-- A change that has to do with live blocks only. -/
structure Machine.ForLive (u v : Machine K) : Prop where
  /-- A timer that was not armed before is armed by the change. -/
  timers : ∀ x ∈ v.manager.timers.toList,
    x ∈ u.manager.timers.toList ∨ v.events = .armed x :: u.events
  /-- What is recorded as armed is armed, and for a live block. -/
  arms : ∀ x, v.events = .armed x :: u.events →
    x ∈ v.manager.timers.toList ∧ v.manager.blocks.contains x.owner
  /-- A watch is added by a change that enlists it only. -/
  watches : u.manager.watches.Changes (fun w => v.events = .enlisted w :: u.events)
    v.manager.watches
  /-- What is recorded as enlisted is watched, and for a live block. -/
  enlists : ∀ w, v.events = .enlisted w :: u.events →
    v.manager.blocks.contains w.owner ∧ v.manager.watches.owner? w.source = some w.owner
  /-- The hook that begins is that of a live instance. -/
  enters : ∀ serial id hook, v.events = .entered serial id hook :: u.events →
    (u.manager.blocks.get? id).map (·.serial) = some serial

namespace Machine.ForLive

variable {u v : Machine K}

/-- A change that arms and enlists nothing, and by which no hook begins. -/
theorem of_alone (hev : ∀ e, v.events = e :: u.events → e.StandsAlone)
    (ht : ∀ x ∈ v.manager.timers.toList, x ∈ u.manager.timers.toList)
    (hw : ∀ listed, u.manager.watches.Changes listed v.manager.watches) : ForLive u v where
  timers x hx := .inl (ht x hx)
  arms _ h := (hev _ h).elim
  watches := hw _
  enlists _ h := (hev _ h).elim
  enters _ _ _ h := (hev _ h).elim

/-- A change of the manager or the host that is not recorded. -/
theorem of_events_eq (hev : v.events = u.events)
    (ht : ∀ x ∈ v.manager.timers.toList, x ∈ u.manager.timers.toList)
    (hw : ∀ listed, u.manager.watches.Changes listed v.manager.watches) : ForLive u v :=
  of_alone (fun _ h => absurd (hev.symm.trans h).symm (List.cons_ne_self _ _)) ht hw

theorem of_record {e : Event K} (he : e.StandsAlone) (s : Machine K) :
    ForLive s { s with events := e :: s.events } :=
  of_alone (fun _ h => (List.cons.inj h).1 ▸ he) (fun _ hx => hx) fun _ => .same

/-- A timer of a live block is armed. -/
theorem armed {s : Machine K} {t : Timer} (hlive : s.manager.blocks.contains t.owner) :
    ForLive s
      { s with manager.timers := s.manager.timers.add t, events := .armed t :: s.events } where
  timers x hx := by
    rcases TimerList.mem_add.1 hx with rfl | ⟨hx, -⟩
    · exact .inr rfl
    · exact .inl hx
  arms x h := by
    cases h
    exact ⟨TimerList.mem_add.2 (.inl rfl), hlive⟩
  watches := .same
  enlists w h := by cases h
  enters serial id hook h := by cases h

/-- A watch for a live block is added. -/
theorem enlisted {s : Machine K} {w : Watch} {watches : WatchTable}
    (hlive : s.manager.blocks.contains w.owner) (hadd : s.manager.watches.add w = .ok watches) :
    ForLive s { s with manager.watches := watches, events := .enlisted w :: s.events } where
  timers x hx := .inl hx
  arms x h := by cases h
  watches := .added w rfl hadd
  enlists w' h := by
    cases h
    exact ⟨hlive, WatchTable.owner?_add_self hadd⟩
  enters serial id hook h := by cases h

/-- A hook of a live instance begins. -/
theorem entered {s : Machine K} {id : BlockId} {serial : Nat} (hook : Hook)
    (h : (s.manager.blocks.get? id).map (·.serial) = some serial) :
    ForLive s { s with events := .entered serial id hook :: s.events } where
  timers x hx := .inl hx
  arms x h := by cases h
  watches := .same
  enlists w h := by cases h
  enters serial id hook' hev := by
    cases hev
    exact h

/-- The hook of an instance ends. -/
theorem left (s : Machine K) (serial : Nat) :
    ForLive s { s with events := .left serial :: s.events } where
  timers x hx := .inl hx
  arms x h := by cases h
  watches := .same
  enlists w h := by cases h
  enters serial id hook h := by cases h

end Machine.ForLive

namespace Run

open Machine (ForLive)

/-- All changes of a run have to do with live blocks only. -/
def IsForLive (r : Run K α) : Prop :=
  ∀ s : Machine K, r.Abides (.changing ForLive fun _ => True) (fun _ _ => True) s

variable {call : Call K}

theorem IsForLive.bind {r : Run K α} {f : α → Run K β} (hr : r.IsForLive)
    (hf : ∀ a, (f a).IsForLive) : (r >>= f).IsForLive := by
  intro s
  rw [abides_bind]
  exact (hr s).mono fun a t _ => hf a t

theorem IsForLive.onBreak {r : Run K α} {last : Run K Unit} (hr : r.IsForLive)
    (hlast : last.IsForLive) : (r.onBreak last).IsForLive := by
  intro s
  exact Abides.onBreakThen (hr s) fun _ t _ => hlast t

theorem isForLive_pure (a : α) : (pure a : Run K α).IsForLive := fun _ => trivial

theorem isForLive_manager : (manager : Run K (Manager K)).IsForLive := fun _ => trivial

theorem isForLive_record {e : Event K} (he : e.StandsAlone) : (record e).IsForLive := fun s =>
  ⟨.of_record he s, trivial⟩

theorem isForLive_onHost (f : Host → α × Host) : (onHost f : Run K α).IsForLive := fun _ =>
  ⟨.of_events_eq rfl (fun _ hx => hx) fun _ => .same, trivial⟩

theorem isForLive_modifyManager {f : Manager K → Manager K}
    (hf : ∀ m x, x ∈ (f m).timers.toList → x ∈ m.timers.toList)
    (hw : ∀ m, (f m).watches = m.watches) : (modifyManager f).IsForLive := fun s =>
  ⟨.of_events_eq rfl (hf s.manager) fun _ => .of_eq (hw s.manager), trivial⟩

theorem isForLive_modifyEntry (id : BlockId) (f : Entry K → Entry K) :
    (modifyEntry id f).IsForLive := isForLive_modifyManager (fun _ _ hx => hx) fun _ => rfl

theorem isForLive_refuse {ε : Type} (n : Notice) (e : ε) :
    (refuse n e : Run K (Except ε α)).IsForLive :=
  (isForLive_record (e := .notice n) trivial).bind fun _ => isForLive_pure _

theorem isForLive_arm (owner : BlockId) (tid : TimerId) (delay : Duration) (arg : Payload) :
    (arm owner tid delay arg : Run K _).IsForLive := by
  intro s
  unfold arm
  rw [abides_bind, abides_manager]
  split
  · next hlive =>
    rw [abides_bind, abides_onHost]
    refine ⟨.of_events_eq rfl (fun _ hx => hx) fun _ => .same, ?_⟩
    cases s.host.readClock.1.later? delay with
    | none => exact isForLive_refuse _ _ _
    | some expiration =>
      dsimp only
      rw [abides_bind, abides_notify, abides_bind, abides_commit]
      exact ⟨.of_record (e := .notice _) trivial _, .armed hlive, trivial⟩
  · exact isForLive_refuse _ _ s

theorem isForLive_disarm (owner : BlockId) (tid : TimerId) :
    (disarm owner tid : Run K Unit).IsForLive := by
  intro s
  have hleft : ∀ x ∈ (s.manager.timers.without (owner, tid)).toList, x ∈ s.manager.timers.toList :=
    fun x hx => (TimerList.mem_without.1 hx).1
  unfold disarm
  rw [abides_bind, abides_manager]
  dsimp only [TimerList.remove]
  split
  · rw [abides_bind, abides_notify]
    refine ⟨.of_record (e := .notice _) trivial s, ?_⟩
    exact ⟨.of_events_eq rfl hleft fun _ => .same, trivial⟩
  · exact ⟨.of_events_eq rfl hleft fun _ => .same, trivial⟩

theorem isForLive_watch (w : Watch) : (watch w : Run K _).IsForLive := by
  intro s
  unfold watch
  rw [abides_bind, abides_manager]
  split
  · next hlive =>
    cases hadd : s.manager.watches.add w with
    | error e => exact isForLive_refuse _ _ s
    | ok watches =>
      dsimp only
      rw [abides_bind, abides_commit]
      refine ⟨.enlisted hlive hadd, ?_⟩
      exact (isForLive_record (e := .notice _) trivial).bind (fun _ => isForLive_pure _) _
  · exact isForLive_refuse _ _ s

theorem isForLive_unwatch (w : Watch) : (unwatch w : Run K Unit).IsForLive :=
  (isForLive_record (e := .notice _) trivial).bind fun _ _ =>
    ⟨.of_events_eq rfl (fun _ hx => hx) fun _ => .removed _ _, trivial⟩

theorem isForLive_popThen {now : Instant} {r : Run K α} {f : Timer → Run K α} (hr : r.IsForLive)
    (hf : ∀ t, (f t).IsForLive) : (popThen now r f).IsForLive := by
  intro s
  rcases s.manager.timers.popExpired_cases now with ⟨hpop, -⟩ | ⟨t, rest, hpop, hlist, -⟩
  · exact (abides_popThen_of_none hpop).2 (hr s)
  · have hleft : ∀ x ∈ rest.toList, x ∈ s.manager.timers.toList := fun x hx =>
      hlist ▸ .tail _ hx
    exact (abides_popThen_of_some hpop).2 ⟨.of_events_eq rfl hleft fun _ => .same, hf t _⟩

/-- All changes of what is made of the parts of the engine are for live blocks, if those of hooks
are. -/
theorem Made.isForLive {r : Run K α} (h : Made call r)
    (hcall : ∀ id hook, (call id hook).IsForLive) : r.IsForLive := by
  induction h with
  | pure a => exact isForLive_pure a
  | throw => exact fun _ => trivial
  | outOfFuel => exact fun _ => trivial
  | bind _ _ ihr ihf => exact ihr.bind ihf
  | manager => exact isForLive_manager
  | host => exact fun _ => trivial
  | record he => exact isForLive_record he
  | onHost | build | release => exact isForLive_onHost _
  | modifyManager hf =>
    exact isForLive_modifyManager (fun m x hx => (hf m).1 ▸ hx) fun m => (hf m).2
  | arm owner tid delay arg => exact isForLive_arm owner tid delay arg
  | disarm owner tid => exact isForLive_disarm owner tid
  | disarmAll => exact isForLive_modifyManager (fun m x hx => by cases hx) fun _ => rfl
  | watch w => exact isForLive_watch w
  | unwatch w => exact isForLive_unwatch w
  | popThen _ _ ihr ihf => exact isForLive_popThen ihr ihf
  | call id hook => exact hcall id hook

/-! ## Hooks and errands -/

theorem isForLive_release (serial : Nat) (c : K.Contents) : (release serial c).IsForLive :=
  IsForLive.bind (isForLive_record (e := .released serial) trivial) fun _ => isForLive_onHost _

theorem isForLive_leave (id : BlockId) (serial : Nat) (c : K.Contents) :
    (leave id serial c).IsForLive := by
  refine IsForLive.bind (fun s => ⟨.left s serial, trivial⟩) fun _ => ?_
  unfold giveBack
  refine isForLive_manager.bind fun m => ?_
  split
  · split
    · exact isForLive_modifyEntry id _
    · exact isForLive_release serial c
  · exact isForLive_release serial c

theorem isForLive_runScript (hcall : ∀ id hook, (call id hook).IsForLive) (n : Nat) {S : Type}
    {leave : S → Run K Unit} (hleave : ∀ c, (leave c).IsForLive) (c : S)
    (script : Script K.Factory K.Remark S α) : (runScript call n leave c script).IsForLive := by
  induction script generalizing c with
  | done a => exact isForLive_pure _
  | keep kept next ih => exact ih kept
  | call r next ih =>
    refine (((made_perform n r).isForLive hcall).onBreak (hleave c)).bind fun a => ?_
    exact IsForLive.bind (fun _ => trivial) fun _ => ih a c

theorem isForLive_callHook (n : Nat) (id : BlockId) (hook : Hook) :
    (callHook (K := K) n id hook).IsForLive := by
  induction n generalizing id hook with
  | zero => exact fun _ => trivial
  | succ n ih =>
    intro s
    show (enter (callHook n) n id hook).Abides _ _ s
    unfold enter
    rw [abides_bind, abides_manager]
    cases he : s.manager.blocks.get? id with
    | none => trivial
    | some e =>
      cases hc : e.contents with
      | none =>
        simp only [hc]
        exact (isForLive_record (e := .notice _) trivial).bind (fun _ => isForLive_pure _) s
      | some c =>
        simp only [hc]
        refine ⟨.of_events_eq rfl (fun _ hx => hx) fun _ => .same, .entered hook ?_, ?_⟩
        · simp [Keyed.get?_modify, he]
        · refine IsForLive.bind (isForLive_runScript ih n (isForLive_leave id e.serial) c _)
            (fun result => ?_) _
          exact (isForLive_leave id e.serial result.2).bind fun _ => isForLive_pure _

theorem isForLive_abandonAll (bs : List (BlockId × Entry K)) : (abandonAll bs).IsForLive := by
  induction bs with
  | nil => exact isForLive_pure _
  | cons b bs ih =>
    obtain ⟨id, e⟩ := b
    have herase : (erase id : Run K Unit).IsForLive :=
      isForLive_modifyManager (fun _ _ hx => hx) fun _ => rfl
    refine IsForLive.bind (herase.bind fun _ => ?_) fun _ => ih
    cases e.contents with
    | none => exact isForLive_pure _
    | some c => exact isForLive_release e.serial c

end Run

open Run

/-- All changes of an errand have to do with live blocks only. -/
theorem Errand.isForLive (e : Errand K) : e.run.IsForLive := by
  cases e with
  | play n script =>
    refine IsForLive.bind ?_ fun _ => isForLive_pure _
    exact isForLive_runScript (isForLive_callHook n) n (fun _ => isForLive_pure _) () script
  | dispose n =>
    refine IsForLive.bind (isForLive_modifyManager (fun m x hx => by cases hx) fun _ => rfl)
      fun _ => IsForLive.bind (IsForLive.onBreak ?_ ?_) fun _ =>
        isForLive_modifyManager (fun _ _ hx => hx) fun _ => rfl
    · exact (made_clear n).isForLive (isForLive_callHook n)
    · exact isForLive_manager.bind fun m => isForLive_abandonAll _

end BlockFlow
