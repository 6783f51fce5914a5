import BlockFlow.Scenario.Tables
import Mathlib.Data.List.TakeWhile

/-!
# The timer list as a queue

Whatever is done with a timer list, it holds the timers that are pending by the record of what was
done: those that were armed and neither armed again, nor disarmed, nor popped, nor cleared since.
They stand by expiration, and those of one expiration in the order of their arming.

1. `place_eq_takeWhile`: a timer is placed at the point up to which all expire no later.
2. `TimerTask.workAll`: the record of tasks; `Pending`: what a record leaves pending;
   `pending_concat` for one task more.
3. `TimerList.Ranks`: a list in the order of a record, kept by each task.
4. `Queues`, `queues_workAll`: what the list is after any tasks, and what it answers.
-/

namespace BlockFlow

/-! ## The place of a timer -/

namespace TimerList

theorem place_eq_takeWhile (t : Timer) (ts : List Timer) :
    place t ts = ts.takeWhile (·.expiration ≤ t.expiration) ++
      t :: ts.dropWhile (·.expiration ≤ t.expiration) := by
  induction ts with
  | nil => rfl
  | cons x xs ih =>
    rw [place]
    by_cases hle : x.expiration ≤ t.expiration
    · rw [if_pos hle, ih, List.takeWhile_cons_of_pos (by simpa using hle),
        List.dropWhile_cons_of_pos (by simpa using hle), List.cons_append]
    · rw [if_neg hle, List.takeWhile_cons_of_neg (by simpa using hle),
        List.dropWhile_cons_of_neg (by simpa using hle), List.nil_append]

variable {l : TimerList} {now i : Instant} {t : Timer} {ts : List Timer}

theorem popExpired_of_le (hlist : l.toList = t :: ts) (hdue : t.expiration ≤ now) :
    (l.popExpired now).1 = some t ∧ (l.popExpired now).2.toList = ts := by
  rcases l.popExpired_cases now with ⟨-, hlate⟩ | ⟨u, rest, hpop, hlist', -⟩
  · exact absurd (hlate t (by rw [hlist]; exact .head _)) (Nat.not_lt.2 hdue)
  · rw [hlist, List.cons.injEq] at hlist'
    rw [hpop, hlist'.1, hlist'.2]
    exact ⟨rfl, rfl⟩

theorem popExpired_of_lt (hlate : ∀ t, l.toList.head? = some t → now < t.expiration) :
    l.popExpired now = (none, l) := by
  rcases l.popExpired_cases now with ⟨hpop, -⟩ | ⟨u, rest, -, hlist, hdue⟩
  · exact hpop
  · exact absurd (hlate u (by rw [hlist]; rfl)) (Nat.not_lt.2 hdue)

/-- The next expiration is the least one. -/
theorem nextExpiration?_eq_some_iff :
    l.nextExpiration? = some i ↔
      (∃ t ∈ l.toList, t.expiration = i) ∧ ∀ t ∈ l.toList, i ≤ t.expiration := by
  obtain ⟨ts, hsorted, hdistinct⟩ := l
  cases ts with
  | nil => simp [nextExpiration?]
  | cons t ts =>
    have hfirst := (List.pairwise_cons.1 hsorted).1
    simp only [nextExpiration?, List.head?_cons, Option.map_some, Option.some.injEq]
    constructor
    · rintro rfl
      refine ⟨⟨t, .head _, rfl⟩, fun u hu => ?_⟩
      rcases List.mem_cons.1 hu with rfl | hu
      · exact Nat.le_refl _
      · exact hfirst u hu
    · rintro ⟨⟨u, hu, rfl⟩, hleast⟩
      have hle := hleast t (.head _)
      rcases List.mem_cons.1 hu with rfl | hu
      · rfl
      · rcases Instant.lt_or_eq_of_le (hfirst u hu) with hlt | heq
        · exact absurd hle (Nat.not_le.2 hlt)
        · exact heq

end TimerList

namespace Scenario

open TimerList (place)

/-! ## Timers that are pending by the record -/

/-- What was done with a timer list, and what came of it. -/
abbrev TimerRecord := List (TimerTask × TimerProduct)

/-- A timer list after some tasks, with the record of them. -/
def TimerTask.workAll (l : TimerList) : List TimerTask → TimerRecord × TimerList
  | [] => ([], l)
  | task :: tasks =>
    let (product, l) := task.work l
    let (record, l) := workAll l tasks
    ((task, product) :: record, l)

theorem TimerTask.map_fst_workAll (l : TimerList) (tasks : List TimerTask) :
    (TimerTask.workAll l tasks).1.map Prod.fst = tasks := by
  induction tasks generalizing l with
  | nil => rfl
  | cons task tasks ih => exact congrArg (task :: ·) (ih _)

/-- The ways in which what was pending for a key is pending no more. -/
inductive Ends (key : BlockId × TimerId) : TimerTask × TimerProduct → Prop
  | rearmed (t : Timer) (p : TimerProduct) (h : t.key = key) : Ends key (.add t, p)
  | removed (owner : BlockId) (tid : TimerId) (p : TimerProduct) (h : (owner, tid) = key) :
    Ends key (.remove owner tid, p)
  | popped (now : Instant) (t : Timer) (h : t.key = key) : Ends key (.pop now, .timer (some t))
  | cleared (p : TimerProduct) : Ends key (.clear, p)

/-- A timer was armed by the task of a number, and nothing has ended that since. -/
def Pending (record : TimerRecord) (n : Nat) (t : Timer) : Prop :=
  (∃ p, record[n]? = some (.add t, p)) ∧ ∀ m e, n < m → record[m]? = some e → ¬ Ends t.key e

variable {record : TimerRecord} {e : TimerTask × TimerProduct} {n m : Nat} {t u : Timer}
  {l : TimerList} {key : BlockId × TimerId}

theorem Pending.lt_length (h : Pending record n t) : n < record.length :=
  have ⟨_, hn⟩ := h.1
  (List.getElem?_eq_some_iff.1 hn).1

theorem Pending.unique (ht : Pending record n t) (hu : Pending record m u) (hkey : t.key = u.key) :
    n = m ∧ t = u := by
  obtain ⟨⟨p, hn⟩, hlater⟩ := ht
  obtain ⟨⟨q, hm⟩, hlater'⟩ := hu
  rcases Nat.lt_trichotomy n m with hlt | rfl | hlt
  · exact absurd (.rearmed u q hkey.symm) (hlater m _ hlt hm)
  · refine ⟨rfl, ?_⟩
    rw [hn] at hm
    cases hm
    rfl
  · exact absurd (.rearmed t p hkey) (hlater' n _ hlt hn)

/-- What one task more leaves pending: what was, unless it ends that, and a timer that it arms. -/
theorem pending_concat :
    Pending (record ++ [e]) n t ↔
      Pending record n t ∧ ¬ Ends t.key e ∨ n = record.length ∧ e.1 = .add t := by
  constructor
  · rintro ⟨⟨p, hn⟩, hlater⟩
    by_cases hlt : n < record.length
    · refine .inl ⟨⟨⟨p, by rwa [List.getElem?_append_left hlt] at hn⟩, fun m e' hm he' => ?_⟩, ?_⟩
      · refine hlater m e' hm ?_
        rwa [List.getElem?_append_left (List.getElem?_eq_some_iff.1 he').1]
      · exact hlater record.length e hlt List.getElem?_concat_length
    · have hlen := (List.getElem?_eq_some_iff.1 hn).1
      rw [List.length_append, List.length_singleton] at hlen
      obtain rfl : n = record.length := by omega
      rw [List.getElem?_concat_length, Option.some.injEq] at hn
      exact .inr ⟨rfl, by rw [hn]⟩
  · rintro (⟨hpending, hends⟩ | ⟨rfl, htask⟩)
    · have hlt := hpending.lt_length
      obtain ⟨⟨p, hn⟩, hlater⟩ := hpending
      refine ⟨⟨p, by rwa [List.getElem?_append_left hlt]⟩, fun m e' hm he' => ?_⟩
      by_cases hm' : m < record.length
      · rw [List.getElem?_append_left hm'] at he'
        exact hlater m e' hm he'
      · have hlen := (List.getElem?_eq_some_iff.1 he').1
        rw [List.length_append, List.length_singleton] at hlen
        obtain rfl : m = record.length := by omega
        rw [List.getElem?_concat_length, Option.some.injEq] at he'
        rwa [← he']
    · refine ⟨⟨e.2, by rw [List.getElem?_concat_length, ← htask]⟩, fun m e' hm he' => ?_⟩
      have hlen := (List.getElem?_eq_some_iff.1 he').1
      rw [List.length_append, List.length_singleton] at hlen
      omega

/-- A task that arms nothing leaves pending what it does not end. -/
theorem pending_concat_of_not_add (h : ∀ t, e.1 ≠ .add t) :
    Pending (record ++ [e]) n t ↔ Pending record n t ∧ ¬ Ends t.key e := by
  rw [pending_concat, or_iff_left fun ⟨_, htask⟩ => h t htask]

/-! ## Timers in the order of the record -/

/-- One timer fires before another, each with the number of the task that armed it. -/
def Before (a b : Nat × Timer) : Prop :=
  a.2.expiration < b.2.expiration ∨ a.2.expiration = b.2.expiration ∧ a.1 < b.1

/-- A timer list holds what is pending, each with the number of its arming, in firing order. -/
structure Ranks (record : TimerRecord) (l : TimerList) (q : List (Nat × Timer)) : Prop where
  toList : l.toList = q.map Prod.snd
  mem : ∀ n t, (n, t) ∈ q ↔ Pending record n t
  order : q.Pairwise Before

variable {q : List (Nat × Timer)}

/-- Timers of a list are kept as long as a task that arms nothing does not end them. -/
theorem Ranks.filter {l' : TimerList} (h : Ranks record l q) (keep : Timer → Bool)
    (htask : ∀ t, e.1 ≠ .add t) (hl : l'.toList = l.toList.filter keep)
    (hkeep : ∀ t ∈ l.toList, keep t = true ↔ ¬ Ends t.key e) :
    Ranks (record ++ [e]) l' (q.filter (keep ∘ Prod.snd)) where
  toList := by rw [hl, h.toList, List.filter_map]
  mem n t := by
    rw [List.mem_filter, pending_concat_of_not_add htask, h.mem, Function.comp_apply]
    refine and_congr_right fun hpending => hkeep t ?_
    rw [h.toList]
    exact List.mem_map_of_mem ((h.mem n t).2 hpending)
  order := h.order.filter _

theorem Ranks.same (h : Ranks record l q) (htask : ∀ t, e.1 ≠ .add t)
    (hends : ∀ key, ¬ Ends key e) : Ranks (record ++ [e]) l q where
  toList := h.toList
  mem n t := by rw [pending_concat_of_not_add htask, h.mem, and_iff_left (hends t.key)]
  order := h.order

theorem Ranks.remove (h : Ranks record l q) (owner : BlockId) (tid : TimerId) (p : TimerProduct) :
    ∃ q, Ranks (record ++ [(.remove owner tid, p)]) (l.remove owner tid).2 q := by
  refine ⟨_, h.filter (·.key ≠ (owner, tid)) (fun _ => nofun) rfl fun t _ => ?_⟩
  rw [decide_eq_true_iff]
  constructor
  · intro hne hends
    cases hends with
    | removed _ _ _ hkey => exact hne hkey.symm
  · intro hends hkey
    exact hends (.removed owner tid p hkey.symm)

theorem Ranks.clear (h : Ranks record l q) (p : TimerProduct) :
    ∃ q, Ranks (record ++ [(.clear, p)]) .empty q := by
  refine ⟨_, h.filter (fun _ => false) (fun _ => nofun) ?_ fun t _ => ?_⟩
  · exact (List.filter_eq_nil_iff.2 fun _ _ => Bool.false_ne_true).symm
  · constructor
    · intro hfalse
      cases hfalse
    · intro hends
      exact absurd (Ends.cleared p) hends

/-- The first timer is the only one of its key, so nothing else is ended when it is popped. -/
theorem Ranks.pop (h : Ranks record l q) (now : Instant) :
    ∃ q, Ranks (record ++ [(.pop now, .timer (l.popExpired now).1)]) (l.popExpired now).2 q := by
  rcases l.popExpired_cases now with ⟨hpop, -⟩ | ⟨t, rest, hpop, hlist, -⟩
  · rw [hpop]
    exact ⟨q, h.same (fun _ => nofun) fun key hends => by cases hends⟩
  · rw [hpop]
    have hne : ∀ x ∈ rest.toList, x.key ≠ t.key := fun x hx => by
      have hdistinct := l.distinct
      rw [hlist] at hdistinct
      exact ((List.pairwise_cons.1 hdistinct).1 x hx).symm
    refine ⟨_, h.filter (·.key ≠ t.key) (fun _ => nofun) ?_ fun x _ => ?_⟩
    · rw [hlist, List.filter_cons_of_neg (by simp), List.filter_eq_self.2]
      intro x hx
      simpa using hne x hx
    · rw [decide_eq_true_iff]
      constructor
      · intro hkey hends
        cases hends with
        | popped _ _ hkey' => exact hkey hkey'.symm
      · intro hends hkey
        exact hends (.popped now t hkey.symm)

/-- Behind the place of a timer, in a list in firing order, all expire later. -/
theorem lt_of_mem_dropWhile (hq : q.Pairwise Before) {i : Instant} {a : Nat × Timer}
    (ha : a ∈ q.dropWhile (·.2.expiration ≤ i)) : i < a.2.expiration := by
  induction q with
  | nil => cases ha
  | cons b q ih =>
    obtain ⟨hb, hq⟩ := List.pairwise_cons.1 hq
    by_cases hle : b.2.expiration ≤ i
    · rw [List.dropWhile_cons_of_pos (by simpa using hle)] at ha
      exact ih hq ha
    · rw [List.dropWhile_cons_of_neg (by simpa using hle)] at ha
      have hlt : i < b.2.expiration := Nat.lt_of_not_le hle
      rcases List.mem_cons.1 ha with rfl | ha
      · exact hlt
      · rcases hb a ha with hba | ⟨hba, -⟩
        · exact Nat.lt_trans hlt hba
        · rwa [← hba]

/-- A timer that is armed after all of a list is placed behind those that expire no later. -/
theorem pairwise_insert (hq : q.Pairwise Before) (hn : ∀ a ∈ q, a.1 < n) :
    (q.takeWhile (·.2.expiration ≤ t.expiration) ++
      (n, t) :: q.dropWhile (·.2.expiration ≤ t.expiration)).Pairwise Before := by
  have hcut := hq
  rw [← List.takeWhile_append_dropWhile (p := (·.2.expiration ≤ t.expiration)) (l := q),
    List.pairwise_append] at hcut
  obtain ⟨hfront, hback, hacross⟩ := hcut
  have hbefore : ∀ a ∈ q.takeWhile (·.2.expiration ≤ t.expiration), Before a (n, t) := by
    intro a ha
    have hle : a.2.expiration ≤ t.expiration := by simpa using List.mem_takeWhile_imp ha
    rcases Instant.lt_or_eq_of_le hle with hlt | heq
    · exact .inl hlt
    · exact .inr ⟨heq, hn a ((List.takeWhile_prefix _).subset ha)⟩
  have hafter : ∀ a ∈ q.dropWhile (·.2.expiration ≤ t.expiration), Before (n, t) a := by
    intro a ha
    exact .inl (lt_of_mem_dropWhile hq ha)
  refine List.pairwise_append.2 ⟨hfront, List.pairwise_cons.2 ⟨hafter, hback⟩, ?_⟩
  intro a ha b hb
  rcases List.mem_cons.1 hb with rfl | hb
  · exact hbefore a ha
  · exact hacross a ha b hb

theorem Ranks.add (h : Ranks record l q) (t : Timer) (p : TimerProduct) :
    ∃ q, Ranks (record ++ [(.add t, p)]) (l.add t) q := by
  -- What stays is what was pending for other keys.
  obtain ⟨others, hothers⟩ : ∃ others, others = q.filter fun a => a.2.key ≠ t.key := ⟨_, rfl⟩
  have hmem : ∀ n u, (n, u) ∈ others ↔ Pending record n u ∧ ¬ Ends u.key (.add t, p) := by
    intro n u
    rw [hothers, List.mem_filter, h.mem, decide_eq_true_iff]
    refine and_congr_right fun _ => ⟨?_, fun hends hkey => hends (.rearmed t p hkey.symm)⟩
    intro hne hends
    cases hends with
    | rearmed _ _ hkey => exact hne hkey.symm
  have hlist : (l.without t.key).toList = others.map Prod.snd := by
    rw [hothers, TimerList.toList_without, h.toList, List.filter_map]
    rfl
  have hcut : others.takeWhile (·.2.expiration ≤ t.expiration) ++
      others.dropWhile (·.2.expiration ≤ t.expiration) = others :=
    List.takeWhile_append_dropWhile
  refine ⟨others.takeWhile (·.2.expiration ≤ t.expiration) ++
    (record.length, t) :: others.dropWhile (·.2.expiration ≤ t.expiration), ?_, ?_, ?_⟩
  · rw [TimerList.toList_add, hlist, TimerList.place_eq_takeWhile, List.takeWhile_map, List.dropWhile_map,
      List.map_append, List.map_cons]
    rfl
  · intro n u
    have hnew : (n, u) = (record.length, t) ↔ n = record.length ∧ TimerTask.add t = .add u := by
      rw [Prod.mk.injEq, TimerTask.add.injEq, @eq_comm _ t]
    have hsplit := @List.mem_append _ (n, u) (others.takeWhile (·.2.expiration ≤ t.expiration))
      (others.dropWhile (·.2.expiration ≤ t.expiration))
    rw [hcut] at hsplit
    rw [pending_concat, ← hmem, hsplit, List.mem_append, List.mem_cons, hnew, or_left_comm, or_comm]
  · refine pairwise_insert ?_ fun a ha => ((hmem a.1 a.2).1 ha).1.lt_length
    rw [hothers]
    exact h.order.filter _

/-- Each task keeps a list in the order of the record. -/
theorem Ranks.work (h : Ranks record l q) (task : TimerTask) :
    ∃ q, Ranks (record ++ [(task, (task.work l).1)]) (task.work l).2 q := by
  cases task with
  | add t => exact h.add t _
  | remove owner tid => exact h.remove owner tid _
  | pop now => exact h.pop now
  | next => exact ⟨q, h.same (fun _ => nofun) fun key hends => by cases hends⟩
  | clear => exact h.clear _

theorem Ranks.workAll (h : Ranks record l q) (tasks : List TimerTask) :
    ∃ q, Ranks (record ++ (TimerTask.workAll l tasks).1) (TimerTask.workAll l tasks).2 q := by
  induction tasks generalizing record l q with
  | nil => exact ⟨q, by rwa [TimerTask.workAll, List.append_nil]⟩
  | cons task tasks ih =>
    obtain ⟨q, hq⟩ := h.work task
    obtain ⟨q, hq⟩ := ih hq
    exact ⟨q, by rwa [List.append_assoc] at hq⟩

theorem ranks_empty : Ranks [] .empty [] where
  toList := rfl
  mem _ _ := ⟨nofun, fun h : Pending [] _ _ => nomatch h.lt_length⟩
  order := .nil

/-! ## What the list is, and what it answers -/

/-- A timer list is the queue of what a record leaves pending. -/
structure Queues (record : TimerRecord) (l : TimerList) : Prop where
  /-- It holds just the pending timers, by expiration and then by their arming. -/
  ranked : ∃ q, Ranks record l q
  /-- One timer is pending for a key. -/
  unique : ∀ n m t u, Pending record n t → Pending record m u → t.key = u.key → n = m ∧ t = u
  /-- A removal tells whether the key was pending. -/
  remove_iff : ∀ owner tid, (l.remove owner tid).1 = true ↔
    ∃ n t, Pending record n t ∧ t.key = (owner, tid)
  /-- It takes out what was pending for the key, and nothing else. -/
  remove_toList : ∀ owner tid,
    (l.remove owner tid).2.toList = l.toList.filter fun t => t.key ≠ (owner, tid)
  /-- The first timer is popped if it has expired. -/
  pop : ∀ now t ts, l.toList = t :: ts → t.expiration ≤ now →
    (l.popExpired now).1 = some t ∧ (l.popExpired now).2.toList = ts
  /-- Otherwise nothing is. -/
  pop_none : ∀ now, (∀ t, l.toList.head? = some t → now < t.expiration) →
    l.popExpired now = (none, l)
  /-- The next expiration is the least one. -/
  next_iff : ∀ i, l.nextExpiration? = some i ↔
    (∃ n t, Pending record n t ∧ t.expiration = i) ∧ ∀ n t, Pending record n t → i ≤ t.expiration
  /-- There is none if nothing is pending. -/
  next_none : l.nextExpiration? = none ↔ ∀ n t, ¬ Pending record n t

theorem Ranks.mem_toList (h : Ranks record l q) : t ∈ l.toList ↔ ∃ n, Pending record n t := by
  rw [h.toList, List.mem_map]
  constructor
  · rintro ⟨⟨n, u⟩, hmem, rfl⟩
    exact ⟨n, (h.mem n u).1 hmem⟩
  · rintro ⟨n, hpending⟩
    exact ⟨(n, t), (h.mem n t).2 hpending, rfl⟩

theorem Ranks.remove_iff (h : Ranks record l q) (owner : BlockId) (tid : TimerId) :
    (l.remove owner tid).1 = true ↔ ∃ n t, Pending record n t ∧ t.key = (owner, tid) := by
  rw [TimerList.remove, TimerList.contains_iff]
  constructor
  · rintro ⟨t, ht, hkey⟩
    obtain ⟨n, hpending⟩ := h.mem_toList.1 ht
    exact ⟨n, t, hpending, hkey⟩
  · rintro ⟨n, t, hpending, hkey⟩
    exact ⟨t, h.mem_toList.2 ⟨n, hpending⟩, hkey⟩

theorem Ranks.next_iff (h : Ranks record l q) {i : Instant} :
    l.nextExpiration? = some i ↔ (∃ n t, Pending record n t ∧ t.expiration = i) ∧
      ∀ n t, Pending record n t → i ≤ t.expiration := by
  rw [TimerList.nextExpiration?_eq_some_iff]
  constructor
  · rintro ⟨⟨t, ht, hi⟩, hleast⟩
    obtain ⟨n, hpending⟩ := h.mem_toList.1 ht
    exact ⟨⟨n, t, hpending, hi⟩, fun n t hpending => hleast t (h.mem_toList.2 ⟨n, hpending⟩)⟩
  · rintro ⟨⟨n, t, hpending, hi⟩, hleast⟩
    refine ⟨⟨t, h.mem_toList.2 ⟨n, hpending⟩, hi⟩, fun u hu => ?_⟩
    obtain ⟨m, hpending⟩ := h.mem_toList.1 hu
    exact hleast m u hpending

theorem Ranks.next_none (h : Ranks record l q) :
    l.nextExpiration? = none ↔ ∀ n t, ¬ Pending record n t := by
  rw [TimerList.nextExpiration?, Option.map_eq_none_iff, List.head?_eq_none_iff,
    List.eq_nil_iff_forall_not_mem]
  constructor
  · intro hnone n t hpending
    exact hnone t (h.mem_toList.2 ⟨n, hpending⟩)
  · intro hnone t ht
    obtain ⟨n, hpending⟩ := h.mem_toList.1 ht
    exact hnone n t hpending

/-- After any tasks a timer list is the queue of what they leave pending. -/
theorem queues_workAll (tasks : List TimerTask) :
    (TimerTask.workAll .empty tasks).1.map Prod.fst = tasks ∧
      Queues (TimerTask.workAll .empty tasks).1 (TimerTask.workAll .empty tasks).2 := by
  obtain ⟨q, h⟩ := ranks_empty.workAll tasks
  rw [List.nil_append] at h
  refine ⟨TimerTask.map_fst_workAll _ _, ?_⟩
  exact
    { ranked := ⟨q, h⟩
      unique := fun n m t u => Pending.unique
      remove_iff := fun owner tid => h.remove_iff owner tid
      remove_toList := fun _ _ => rfl
      pop := fun now t ts hlist hdue => TimerList.popExpired_of_le hlist hdue
      pop_none := fun now => TimerList.popExpired_of_lt
      next_iff := fun i => h.next_iff
      next_none := h.next_none }

/-- A timer that is armed again goes behind those that expire with it. -/
example (a b : Timer) (ha : a = ⟨⟨1⟩, 1, ⟨5⟩, .empty⟩) (hb : b = ⟨⟨2⟩, 1, ⟨5⟩, .empty⟩) :
    (TimerTask.workAll .empty [.add a, .add b, .add a]).2.toList = [b, a] := by
  subst ha hb
  rfl

end Scenario

end BlockFlow
