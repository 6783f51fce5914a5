import BlockFlow.Proofs.Handover

/-!
# Instances and what they leave behind

Timers and watches stay when the block of their number goes, and a new block may come under the same
number. What is called then is what is live under the number: the instance for which the timer was
armed or the source watched, or one that came after it.

1. `Descends`: the instance that was live under a number after a change, and the one that is live
   some changes later.
2. `makes_fireUntil`: each direct call of a check of timers is for a timer that was armed.
3. `descent`: what is called for a timer or a descriptor; `descent_orphan`: a timer that outlives
   its instance.
4. `not_keepsInstance`: so not all that is called is called for what it has armed itself.
-/

namespace BlockFlow

open Run

variable {K : Kit} {α β : Type}

/-! ## Instances of one number -/

/-- By a change an instance is not live any more under a number. -/
def Departs (id : BlockId) (serial : Nat) (q : Change K) : Prop :=
  (q.1.manager.blocks.get? id).map (·.serial) = some serial ∧
    (q.2.manager.blocks.get? id).map (·.serial) ≠ some serial

/-- By a change an instance comes to be live under a number. -/
def Arrives (id : BlockId) (serial : Nat) (q : Change K) : Prop :=
  (q.1.manager.blocks.get? id).map (·.serial) ≠ some serial ∧
    (q.2.manager.blocks.get? id).map (·.serial) = some serial

/-- An instance that is live under a number some changes after a change was live under it then, or
it has come since, and the one that was live then has left. -/
def Descends (id : BlockId) (serial : Nat) (p : Change K) (after : List (Change K)) : Prop :=
  ∃ e, p.2.manager.blocks.get? id = some e ∧ (e.serial = serial ∨
    (∃ q ∈ after, Departs id e.serial q) ∧ ∃ q ∈ after, Arrives id serial q)

theorem Path.descends {id : BlockId} {serial : Nat} {p : Change K} {after : List (Change K)}
    {u : Machine K} (h : Path p.2 after u) (hp : p.2.manager.blocks.contains id)
    (hu : (u.manager.blocks.get? id).map (·.serial) = some serial) :
    Descends id serial p after := by
  obtain ⟨e, he⟩ := Option.isSome_iff_exists.1 hp
  refine ⟨e, he, ?_⟩
  by_cases hserial : e.serial = serial
  · exact .inl hserial
  have hthen : (p.2.manager.blocks.get? id).map (·.serial) = some e.serial := by rw [he]; rfl
  refine .inr ⟨?_, ?_⟩
  · obtain ⟨q, hq, hbefore, hafter⟩ := h.exists_change
      (P := fun u => (u.manager.blocks.get? id).map (·.serial) ≠ some e.serial)
      (fun hne => hne hthen) (by rw [hu]; simpa using Ne.symm hserial)
    exact ⟨q, hq, Classical.not_not.1 hbefore, hafter⟩
  · exact h.exists_change (P := fun u => (u.manager.blocks.get? id).map (·.serial) = some serial)
      (by rw [hthen]; simpa using hserial) hu

/-! ## The direct calls of a check of timers -/

namespace Run

variable {s t : Machine K} {qs : List (Change K)} {p : Change K} {v : Visit} {n : Nat}

theorem makes_popThen_of_none {now : Instant} {r : Run K α} {f : Timer → Run K α}
    {rest : TimerList} (h : s.manager.timers.popExpired now = (none, rest)) :
    (popThen now r f).Makes s qs p ↔ r.Makes s qs p := by
  rw [popThen_eq, makes_manager, h]

theorem makes_popThen_of_some {now : Instant} {r : Run K α} {f : Timer → Run K α} {x : Timer}
    {rest : TimerList} (h : s.manager.timers.popExpired now = (some x, rest)) :
    (popThen now r f).Makes s qs p ↔ qs = [] ∧ p = (s, s.withTimers rest) ∨
      ∃ rs, qs = (s, s.withTimers rest) :: rs ∧ (f x).Makes (s.withTimers rest) rs p := by
  rw [popThen_eq, makes_manager, h]
  exact Iff.rfl

theorem makes_deliverTimer {x : Timer} (h : (deliverTimer (callHook n) x).Makes s qs p)
    (hp : v.Begins s.stack p) : v.id = x.owner ∧ v.hook = .timer x := by
  unfold deliverTimer at h
  rw [makes_manager] at h
  split at h
  · obtain h' | ⟨_, t, rs, hnotify, rfl, h'⟩ := makes_bind.1 h
    · rw [makes_notify] at h'
      exact absurd (h'.2 ▸ hp) (Visit.not_begins_notice _)
    · have hstack := ((visits_notify _ s).result hnotify).1
      rw [makes_discard] at h'
      exact Machine.of_mem_visitOf (makes_callHook h' (hstack.symm ▸ hp)).1
  · rw [makes_notify] at h
    exact absurd (h.2 ▸ hp) (Visit.not_begins_notice _)

/-- A direct call of a check is for a timer that was armed. -/
theorem makes_fireUntil {now : Instant} {m fired : Nat}
    (h : (fireUntil (callHook n) now m fired).Makes s qs p) (hp : v.Begins s.stack p) :
    ∃ x u rs rs', Path s rs u ∧ x ∈ u.manager.timers.toList ∧ qs = rs ++ rs' ∧
      v.id = x.owner ∧ v.hook = .timer x := by
  induction m generalizing s qs fired with
  | zero => exact h.elim
  | succ m ih =>
    rw [fireUntil_succ] at h
    rcases s.manager.timers.popExpired_cases now with ⟨hpop, -⟩ | ⟨x, rest, hpop, hfirst, -⟩
    · rw [makes_popThen_of_none hpop] at h
      exact absurd h makes_pure
    · rw [makes_popThen_of_some hpop] at h
      rcases h with ⟨-, rfl⟩ | ⟨rs, rfl, h⟩
      · exact absurd hp (Visit.not_begins_of_events_eq rfl)
      obtain h' | ⟨_, t, rs', hrun, rfl, h'⟩ := makes_bind.1 h
      · exact ⟨x, s, [], _, .nil, hfirst ▸ .head _, rfl, makes_deliverTimer h' hp⟩
      · have hstack : t.stack = s.stack :=
          ((visits_deliverTimer n x (s.withTimers rest)).result hrun).1
        obtain ⟨y, u, rs, rs'', hpath, hy, rfl, hv⟩ := ih h' (hstack.symm ▸ hp)
        refine ⟨y, u, _, rs'', .cons ((path_changes hrun).append hpath), hy, ?_, hv⟩
        rw [List.cons_append, List.append_assoc]

end Run

/-! ## What is called for timers and descriptors -/

/-- By a change a timer is armed. -/
def Arms (x : Timer) (q : Change K) : Prop := q.2.events = .armed x :: q.1.events

/-- By a change a source is watched for a block. -/
def Enlists (src : Source) (q : Change K) : Prop :=
  ∃ w, w.source = src ∧ q.2.events = .enlisted w :: q.1.events

/-- What checks of timers and polls call that begin with a machine, after all that has happened. -/
structure Machine.CallsHeirs (m : Machine K) (ps : List (Change K)) : Prop where
  /-- A check calls the instance that is live under the number for which the timer was armed: the
  one that was live when it was armed last, or one that came after it. -/
  timers {n k : Nat} {qs : List (Change K)} {p : Change K} {v : Visit}
    (h : (fire (callHook n) k).Makes m qs p) (hp : v.Begins m.stack p) :
    ∃ x, v.id = x.owner ∧ v.hook = .timer x ∧
      (p.1.manager.blocks.get? x.owner).map (·.serial) = some v.serial ∧
      ∃ a after, LastOf (Arms x) (ps ++ qs) a after ∧ Descends x.owner v.serial a after
  /-- A poll calls the instance that is live under the number to which the source belonged when the
  poll began: the one that was live when the source was last watched, or one that came after it. -/
  events {n : Nat} {qs : List (Change K)} {p : Change K} {v : Visit}
    (h : (poll (callHook n)).Makes m qs p) (hp : v.Begins m.stack p) :
    ∃ w ∈ m.ready, v.id = w.owner ∧ v.hook = .event w ∧
      (p.1.manager.blocks.get? w.owner).map (·.serial) = some v.serial ∧
      ∃ a after, LastOf (Enlists w.source) ps a after ∧
        Descends w.owner v.serial a (after ++ qs)

section Descent

variable {m u : Machine K} {ps : List (Change K)}

theorem Machine.Lived.forLive (h : m.Lived ps) : ∀ p ∈ ps, Machine.ForLive p.1 p.2 :=
  h.changes fun e s _ hp => (e.isForLive s).change hp

/-- A timer that is armed was armed by a change. -/
theorem Path.exists_arms {settings : Settings} {host : Host}
    (h : Path (.fresh settings host) ps u) (hlive : ∀ q ∈ ps, Machine.ForLive q.1 q.2) {x : Timer}
    (hx : x ∈ u.manager.timers.toList) : ∃ p ∈ ps, Arms x p := by
  obtain ⟨p, hp, hbefore, hafter⟩ := h.exists_change
    (P := fun u => x ∈ u.manager.timers.toList) (fun hx => by cases hx) hx
  exact ⟨p, hp, ((hlive p hp).timers x hafter).resolve_left hbefore⟩

/-- A source does not come to belong to a block but by a change that enlists it. -/
theorem Machine.ForLive.owner? {v : Machine K} (h : Machine.ForLive u v) {src : Source}
    {o : BlockId} (hnot : ¬ Enlists src (u, v)) (ho : v.manager.watches.owner? src = some o) :
    u.manager.watches.owner? src = some o := by
  rcases h.watches.owner? ho with hbefore | ⟨w, hw, -, hev⟩
  · exact hbefore
  · exact absurd ⟨w, hw, hev⟩ hnot

/-- A source that is watched was enlisted by a change. -/
theorem Path.exists_enlists {settings : Settings} {host : Host}
    (h : Path (.fresh settings host) ps u) (hlive : ∀ q ∈ ps, Machine.ForLive q.1 q.2)
    {src : Source} {o : BlockId} (ho : u.manager.watches.owner? src = some o) :
    ∃ p ∈ ps, Enlists src p := by
  obtain ⟨p, hp, hbefore, hafter⟩ := h.exists_change
    (P := fun u => u.manager.watches.owner? src = some o) (fun ho => by cases ho) ho
  exact ⟨p, hp, Classical.byContradiction fun hnot => hbefore ((hlive p hp).owner? hnot hafter)⟩

/-- The last change that armed a timer armed it for the instance that was live then. -/
theorem Path.descends_of_arms {settings : Settings} {host : Host}
    (h : Path (.fresh settings host) ps u) (hlive : ∀ q ∈ ps, Machine.ForLive q.1 q.2) {x : Timer}
    (hx : ∃ q ∈ ps, Arms x q) {serial : Nat}
    (hu : (u.manager.blocks.get? x.owner).map (·.serial) = some serial) :
    ∃ a after, LastOf (Arms x) ps a after ∧ Descends x.owner serial a after := by
  obtain ⟨a, after, hlast⟩ := exists_lastOf hx
  have ha := hlive a (hlast.suffix.subset (.head _))
  exact ⟨a, after, hlast,
    (hlast.path h).descends (ha.arms x hlast.holds).2 hu⟩

/-- The last change that enlisted a source did so for the instance that was live then under the
number to which the source belongs. -/
theorem Path.descends_of_enlists {settings : Settings} {host : Host} {t : Machine K}
    {qs : List (Change K)} (h : Path (.fresh settings host) ps u)
    (hlive : ∀ q ∈ ps, Machine.ForLive q.1 q.2) {src : Source} {o : BlockId}
    (ho : u.manager.watches.owner? src = some o) (hqs : Path u qs t) {serial : Nat}
    (ht : (t.manager.blocks.get? o).map (·.serial) = some serial) :
    ∃ a after, LastOf (Enlists src) ps a after ∧ Descends o serial a (after ++ qs) := by
  obtain ⟨a, after, hlast⟩ := exists_lastOf (h.exists_enlists hlive ho)
  have hpath := hlast.path h
  obtain ⟨w, rfl, hw⟩ := hlast.holds
  obtain ⟨hcontains, howner⟩ := (hlive a (hlast.suffix.subset (.head _))).enlists w hw
  -- Since then the source has had the same owner.
  have hsame : a.2.manager.watches.owner? w.source = some o := by
    refine Classical.byContradiction fun hne => ?_
    exact hpath.keeps (P := fun u => u.manager.watches.owner? w.source ≠ some o)
      (fun q hq hbefore hafter => hbefore ((hlive q (hlast.suffix.subset (.tail _ hq))).owner?
        (hlast.none_after q hq) hafter)) hne ho
  obtain rfl : w.owner = o := Option.some.inj (howner.symm.trans hsame)
  exact ⟨a, after, hlast, (hpath.append hqs).descends hcontains ht⟩

/-- **Descent.** Whatever has happened and whatever the hooks do: a check of timers, or a poll,
calls an instance only under the number for which the timer was armed, or to which the source
belonged, and only if it is live then. An instance was live under that number when the timer was
last armed, or the source last watched; it is that very instance that is called, unless it has left
since, and the one that is called has come since. -/
theorem descent (h : m.Lived ps) : m.CallsHeirs ps where
  timers {n k qs p v} hmakes hp := by
    obtain ⟨settings, host, hpath⟩ := h.path
    have hpoll := (made_fire k).isForLive (isForLive_callHook n) m
    have hlive := (hpoll.change (hmakes.mem p (List.mem_append_right _ (.head _)))).enters _ _ _
      hp.events_eq
    have hall : ∀ q ∈ ps ++ qs, Machine.ForLive q.1 q.2 := List.forall_mem_append.2
      ⟨h.forLive, fun q hq => hpoll.change (hmakes.mem q (List.mem_append_left _ hq))⟩
    have hfull := hpath.append hmakes.path
    -- The clock is looked at before anything is called.
    obtain ⟨-, rfl⟩ | ⟨rs, rfl, hmakes⟩ := hmakes
    · exact absurd hp (Visit.not_begins_of_events_eq rfl)
    obtain ⟨x, u, rs', rs'', hu, hx, rfl, hid, hhook⟩ := makes_fireUntil hmakes hp
    rw [hid] at hlive
    rw [← List.cons_append, ← List.append_assoc] at hall hfull ⊢
    obtain ⟨q, hq, harms⟩ := (hpath.append (.cons hu)).exists_arms
      (fun q hq => hall q (List.mem_append_left _ hq)) hx
    exact ⟨x, hid, hhook, hlive,
      hfull.descends_of_arms hall ⟨q, List.mem_append_left _ hq, harms⟩ hlive⟩
  events {n qs p v} hmakes hp := by
    obtain ⟨settings, host, hpath⟩ := h.path
    have hlive := ((made_poll.isForLive (isForLive_callHook n) m).change
      (hmakes.mem p (List.mem_append_right _ (.head _)))).enters _ _ _ hp.events_eq
    obtain ⟨w, hw, t, rs, -, -, hv⟩ := makes_poll hmakes hp
    obtain ⟨-, hid, hhook, -⟩ := Turn.mem_calls.1 hv
    have howner : m.manager.watches.owner? w.source = some w.owner := by
      rw [WatchTable.owner?, WatchTable.watchOf?_of_mem (List.mem_filter.1 hw).1]
      rfl
    rw [hid] at hlive
    exact ⟨w, hw, hid, hhook, hlive,
      hpath.descends_of_enlists h.forLive howner hmakes.path hlive⟩

end Descent

/-! ## A timer that outlives its instance -/

/-- Blocks that do nothing. -/
@[reducible] def idlers : Kit where
  Factory := Unit
  Contents := Unit
  Remark := Empty
  build := fun _ h => (some (), h)
  hook := fun _ _ _ => return {}
  report := fun _ buffer => (0, buffer)
  release := fun _ => id

/-- A block arms a timer and is deleted, and a new one comes under its number. -/
def rebirth : Errand idlers :=
  .play 5 do
    Script.ask (.register "idler" ())
    discard (Script.ask (.add ⟨1⟩ "idler"))
    discard (Script.ask (.arm ⟨1⟩ 5 ⟨0⟩ .empty))
    discard (Script.ask (.del ⟨1⟩))
    discard (Script.ask (.add ⟨1⟩ "idler"))

def legacy : Timer := ⟨⟨1⟩, 5, Host.manual.now, .empty⟩

/-- Whether a change may be one by which the first block arms its timer. -/
def mayArmLegacy (q : Change idlers) : Bool :=
  match q.2.events with
  | .armed x :: _ => x.key = legacy.key
  | _ => false

theorem mayArmLegacy_of_arms {q : Change idlers} (h : Arms legacy q) : mayArmLegacy q := by
  rw [mayArmLegacy, show q.2.events = _ from h]
  exact decide_eq_true rfl

/-- The second block is called for the timer, which was armed while the first one was live. -/
theorem exists_legacyCall : ∃ (m : Machine idlers) (ps qs : List (Change idlers))
    (p : Change idlers), m.Lived ps ∧ (fire (callHook 2) 3).Makes m qs p ∧
      Visit.Begins ⟨1, ⟨1⟩, .timer legacy⟩ m.stack p ∧
      ∀ a ∈ ps ++ qs, Arms legacy a →
        (a.2.manager.blocks.get? ⟨1⟩).map (·.serial) = some 0 := by
  obtain ⟨m, hrun, hstack, p, hp, hpstack, hevents, harmed⟩ :
      ∃ m, Machine.run? (.fresh {} .manual) rebirth.run = some (.ok (), m) ∧ m.stack = [] ∧
        ∃ p, ((fire (callHook 2) 3).changes m)[4]? = some p ∧ p.1.stack = [] ∧
          p.2.events = .entered 1 ⟨1⟩ (.timer legacy) :: p.1.events ∧
          (rebirth.run.changes (.fresh {} .manual) ++ ((fire (callHook 2) 3).changes m).take 4).all
            (fun a => !mayArmLegacy a ||
              (a.2.manager.blocks.get? ⟨1⟩).map (·.serial) == some 0) = true :=
    ⟨_, rfl, rfl, _, rfl, rfl, rfl, rfl⟩
  refine ⟨m, _, _, p, .between (.after (.fresh {} .manual) rebirth hrun), makes_of_getElem? hp,
    ⟨hpstack.trans hstack.symm, hevents⟩, fun a ha harms => ?_⟩
  have hall := List.all_eq_true.1 harmed a ha
  rw [show mayArmLegacy a = true from mayArmLegacy_of_arms harms] at hall
  simpa using hall

/-- The first block has left, and the second one has come since. -/
theorem descent_orphan : ∃ (m : Machine idlers) (ps qs : List (Change idlers)) (p a : Change idlers)
    (after : List (Change idlers)), (fire (callHook 2) 3).Makes m qs p ∧
      Visit.Begins ⟨1, ⟨1⟩, .timer legacy⟩ m.stack p ∧
      LastOf (Arms legacy) (ps ++ qs) a after ∧
      (∃ q ∈ after, Departs ⟨1⟩ 0 q) ∧ ∃ q ∈ after, Arrives ⟨1⟩ 1 q := by
  obtain ⟨m, ps, qs, p, hlived, hmakes, hbegins, harmed⟩ := exists_legacyCall
  obtain ⟨x, -, hhook, -, a, after, hlast, e, he, hdesc⟩ := (descent hlived).timers hmakes hbegins
  obtain rfl : legacy = x := by simpa using hhook
  have hserial := harmed a (hlast.suffix.subset (.head _)) hlast.holds
  rw [show (⟨1⟩ : BlockId) = legacy.owner from rfl, he] at hserial
  have hzero : e.serial = 0 := by simpa using hserial
  rw [hzero] at hdesc
  exact ⟨m, ps, qs, p, a, after, hmakes, hbegins, hlast, hdesc.resolve_left (by decide)⟩

/-- All that is called for timers and descriptors is called for what was armed or watched while the
very instance that is called was live. -/
structure Kit.KeepsInstance (K : Kit) : Prop where
  timers {m : Machine K} {ps : List (Change K)} (h : m.Lived ps) {n k : Nat}
    {qs : List (Change K)} {p : Change K} {v : Visit} {x : Timer}
    (hmakes : (fire (callHook n) k).Makes m qs p) (hp : v.Begins m.stack p)
    (hx : v.hook = .timer x) :
    ∃ a after, LastOf (Arms x) (ps ++ qs) a after ∧
      (a.2.manager.blocks.get? v.id).map (·.serial) = some v.serial
  events {m : Machine K} {ps : List (Change K)} (h : m.Lived ps) {n : Nat}
    {qs : List (Change K)} {p : Change K} {v : Visit} {w : Watch}
    (hmakes : (poll (callHook n)).Makes m qs p) (hp : v.Begins m.stack p)
    (hw : v.hook = .event w) :
    ∃ a after, LastOf (Enlists w.source) ps a after ∧
      (a.2.manager.blocks.get? v.id).map (·.serial) = some v.serial

/-- An instance is called for what another one left behind. -/
theorem not_keepsInstance : ¬ idlers.KeepsInstance := by
  intro h
  obtain ⟨m, ps, qs, p, hlived, hmakes, hbegins, harmed⟩ := exists_legacyCall
  obtain ⟨a, after, hlast, hserial⟩ := h.timers hlived hmakes hbegins rfl
  rw [harmed a (hlast.suffix.subset (.head _)) hlast.holds] at hserial
  cases hserial

end BlockFlow
