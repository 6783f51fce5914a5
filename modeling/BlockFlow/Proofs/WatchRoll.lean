import BlockFlow.Proofs.Enrolment
import BlockFlow.Scenario.Tables
import Mathlib.Data.List.Nodup

/-!
# The table of watches as a map

Whatever is added to a table of watches and removed from it, the table is a map from sources to what
they are watched for, and for whom. Nothing is seen of the table but that map and the order of its
sources, and that is the order in which they came to be watched.

1. `Roll`: such a map; `Roll.enter` and `Roll.strike`, what additions and removals are for it.
2. `Watch.Refused`: the watches that are refused, and why.
3. `rollOf_merge`, `rollOf_dropInterest`: lists of watches follow these maps; `sources_merge`,
   `sources_dropInterest`: what becomes of the order.
4. `Scenario.Roster`: a table after some tasks, kept by each task.
5. `Scenario.Catalogues`, `catalogues_workAll`: what the table is after any tasks, and what it does.
-/

namespace BlockFlow

/-! ## Rolls -/

/-- For whom and for what each source is watched that is. -/
abbrev Roll := Source → Option (BlockId × Interest)

namespace Roll

/-- A watch is entered: the source is its owner's, for what it was watched for and for the new. -/
def enter (r : Roll) (w : Watch) : Roll :=
  Function.update r w.source
    (some (w.owner, (r w.source).elim w.interest fun x => x.2.union w.interest))

/-- Interests in a source are struck off, and with the last of them the source; so it is if none is
named. -/
def strike (r : Roll) (s : Source) (i : Interest) : Roll :=
  Function.update r s ((r s).bind fun x =>
    if i.any && (x.2.without i).any then some (x.1, x.2.without i) else none)

variable {r : Roll} {w : Watch} {s s' : Source} {i : Interest}

theorem enter_self : r.enter w w.source =
    some (w.owner, (r w.source).elim w.interest fun x => x.2.union w.interest) :=
  Function.update_self ..

theorem enter_of_ne (h : s ≠ w.source) : r.enter w s = r s := Function.update_of_ne h ..

theorem strike_self : r.strike s i s = (r s).bind fun x =>
    if i.any && (x.2.without i).any then some (x.1, x.2.without i) else none :=
  Function.update_self ..

theorem strike_of_ne (h : s' ≠ s) : r.strike s i s' = r s' := Function.update_of_ne h ..

end Roll

/-! ## Refusals -/

/-- A watch is refused by a table with a ceiling, and why: the first reason of these. -/
inductive Watch.Refused (max : Fd) (w : Watch) : WatchError → Prop
  | noInterest (h : w.interest = ⟨false, false⟩) : Refused max w .noInterest
  | noSource (hi : w.interest ≠ ⟨false, false⟩) (hs : w.source.socket = none)
    (hneg : w.source.fd < 0) : Refused max w .noSource
  | outOfRange (hi : w.interest ≠ ⟨false, false⟩) (hs : w.source.socket = none)
    (hpos : 0 ≤ w.source.fd) (hmax : max ≤ w.source.fd) :
    Refused max w (.outOfRange w.source.fd max)

theorem Interest.any_eq_false_iff {i : Interest} : i.any = false ↔ i = ⟨false, false⟩ := by
  rcases i with ⟨_ | _, _ | _⟩ <;> decide

namespace WatchTable

variable {t t' : WatchTable} {w x : Watch} {s s' : Source} {i : Interest} {ws : List Watch}
  {max : Fd} {e : WatchError}

theorem refusal?_eq_some_iff : refusal? max w = some e ↔ w.Refused max e := by
  unfold refusal?
  constructor
  · intro h
    split at h
    · next hi =>
      cases h
      exact .noInterest (Interest.any_eq_false_iff.1 (by simpa using hi))
    · next hi =>
      have hi : w.interest ≠ ⟨false, false⟩ := fun he =>
        hi (by rw [Interest.any_eq_false_iff.2 he]; rfl)
      split at h
      · next hneg =>
        rw [Bool.and_eq_true, Option.isNone_iff_eq_none, decide_eq_true_iff] at hneg
        cases h
        exact .noSource hi hneg.1 hneg.2
      · next hneg =>
        split at h
        · next hmax =>
          rw [Bool.and_eq_true, Option.isNone_iff_eq_none, decide_eq_true_iff] at hmax
          rw [Bool.and_eq_true, Option.isNone_iff_eq_none, decide_eq_true_iff] at hneg
          cases h
          exact .outOfRange hi hmax.1 (Int32.not_lt.1 fun hlt => hneg ⟨hmax.1, hlt⟩) hmax.2
        · cases h
  · have hany : w.interest ≠ ⟨false, false⟩ → w.interest.any = true := fun hi => by
      rw [← Bool.not_eq_false, Interest.any_eq_false_iff]
      exact hi
    rintro (h | ⟨hi, hs, hneg⟩ | ⟨hi, hs, hpos, hmax⟩)
    · rw [h]
      rfl
    · simp [hany hi, hs, hneg]
    · simp [hany hi, hs, Int32.not_lt.2 hpos, hmax]

theorem refusal?_eq_none_iff : refusal? max w = none ↔ ∀ e, ¬ w.Refused max e := by
  rw [Option.eq_none_iff_forall_ne_some]
  exact forall_congr' fun e => not_congr refusal?_eq_some_iff

instance : Decidable (∃ e, w.Refused max e) :=
  decidable_of_iff ((refusal? max w).isSome = true) <| by
    rw [Option.isSome_iff_exists]
    exact exists_congr fun e => refusal?_eq_some_iff

theorem add_of_refused (h : w.Refused t.maxFd e) : t.add w = .error e := by
  have hrefusal := refusal?_eq_some_iff.2 h
  unfold add
  split
  · next e' he' =>
    rw [hrefusal, Option.some.injEq] at he'
    rw [he']
  · next hnone => rw [hrefusal] at hnone; cases hnone

theorem add_of_not_refused (h : ∀ e, ¬ w.Refused t.maxFd e) :
    ∃ t', t.add w = .ok t' ∧ t'.maxFd = t.maxFd ∧ t'.toList = merge w t.toList := by
  have hrefusal := refusal?_eq_none_iff.2 h
  unfold add
  split
  · next e he => rw [hrefusal] at he; cases he
  · exact ⟨_, rfl, rfl, rfl⟩

/-! ## Lists of watches -/

/-- What a list of watches says of a source. -/
def rollOf (ws : List Watch) : Roll := fun s =>
  (ws.find? (·.source = s)).map fun w => (w.owner, w.interest)

theorem rollOf_cons_self (h : x.source = s) : rollOf (x :: ws) s = some (x.owner, x.interest) := by
  rw [rollOf, find?_cons_of_source h]
  rfl

theorem rollOf_cons_of_ne (h : x.source ≠ s) : rollOf (x :: ws) s = rollOf ws s := by
  rw [rollOf, find?_cons_of_source_ne h]
  rfl

theorem rollOf_eq_none_iff : rollOf ws s = none ↔ s ∉ ws.map (·.source) := by
  rw [rollOf, Option.map_eq_none_iff, List.find?_eq_none]
  simp

theorem rollOf_eq_none_of_ne (h : ∀ x ∈ ws, s ≠ x.source) : rollOf ws s = none := by
  rw [rollOf_eq_none_iff, List.mem_map]
  rintro ⟨x, hx, hsource⟩
  exact h x hx hsource.symm

theorem rollOf_merge (w : Watch) (ws : List Watch) : rollOf (merge w ws) = (rollOf ws).enter w := by
  funext s
  by_cases hs : s = w.source
  · subst hs
    rw [Roll.enter_self]
    induction ws with
    | nil => exact rollOf_cons_self rfl
    | cons x xs ih =>
      rw [merge]
      split
      · next heq =>
        rw [rollOf_cons_self heq, Option.elim_some]
        exact rollOf_cons_self rfl
      · next hne => rw [rollOf_cons_of_ne hne, rollOf_cons_of_ne hne, ih]
  · rw [Roll.enter_of_ne hs, rollOf, find?_merge_of_ne (Ne.symm hs)]
    rfl

theorem rollOf_dropInterest (s : Source) (i : Interest)
    (hws : ws.Pairwise fun a b => a.source ≠ b.source) :
    rollOf (dropInterest s i ws) = (rollOf ws).strike s i := by
  funext s'
  by_cases hs : s' = s
  · subst hs
    rw [Roll.strike_self]
    induction ws with
    | nil => rfl
    | cons x xs ih =>
      obtain ⟨hx, hxs⟩ := List.pairwise_cons.1 hws
      rw [dropInterest]
      split
      · next heq =>
        rw [rollOf_cons_self heq, Option.bind_some]
        split
        · exact rollOf_cons_self heq
        · exact rollOf_eq_none_of_ne (heq ▸ hx)
      · next hne =>
        rw [rollOf_cons_of_ne hne, rollOf_cons_of_ne hne, ih hxs]
  · rw [Roll.strike_of_ne hs, rollOf, find?_dropInterest_of_ne (Ne.symm hs)]
    rfl

/-- A source that is not watched yet comes last; any other stays where it is. -/
theorem sources_merge (w : Watch) (ws : List Watch) :
    (merge w ws).map (·.source) =
      if rollOf ws w.source = none then ws.map (·.source) ++ [w.source] else ws.map (·.source) := by
  induction ws with
  | nil => rfl
  | cons x xs ih =>
    rw [merge]
    split
    · next heq =>
      rw [rollOf_cons_self heq, if_neg (Option.some_ne_none _), List.map_cons, List.map_cons, heq]
    · next hne =>
      rw [rollOf_cons_of_ne hne, List.map_cons, ih, List.map_cons]
      split <;> rfl

theorem sublist_dropInterest (s : Source) (i : Interest) (ws : List Watch) :
    ((dropInterest s i ws).map (·.source)).Sublist (ws.map (·.source)) := by
  induction ws with
  | nil => exact .slnil
  | cons x xs ih =>
    rw [dropInterest]
    split
    · split
      · exact .refl _
      · exact .cons _ (.refl _)
    · exact ih.cons_cons _

theorem dropInterest_of_not_mem (i : Interest) (h : s ∉ ws.map (·.source)) :
    dropInterest s i ws = ws := by
  induction ws with
  | nil => rfl
  | cons x xs ih =>
    rw [List.map_cons, List.mem_cons, not_or] at h
    rw [dropInterest, if_neg (Ne.symm h.1), ih h.2]

/-- A source that is watched further stays where it is. -/
theorem sources_dropInterest (hws : ws.Pairwise fun a b => a.source ≠ b.source)
    (h : rollOf (dropInterest s i ws) s ≠ none) :
    (dropInterest s i ws).map (·.source) = ws.map (·.source) := by
  induction ws with
  | nil => rfl
  | cons x xs ih =>
    obtain ⟨hx, hxs⟩ := List.pairwise_cons.1 hws
    rw [dropInterest] at h ⊢
    split at h
    · next heq =>
      rw [if_pos heq]
      split at h
      · next hi => rw [if_pos hi]; rfl
      · exact absurd (rollOf_eq_none_of_ne (heq ▸ hx)) h
    · next hne =>
      rw [rollOf_cons_of_ne hne] at h
      rw [if_neg hne, List.map_cons, ih hxs h, List.map_cons]

theorem filter_merge (w : Watch) (ws : List Watch) :
    (merge w ws).filter (·.source ≠ w.source) = ws.filter (·.source ≠ w.source) := by
  induction ws with
  | nil => simp [merge]
  | cons x xs ih =>
    rw [merge]
    split
    · next heq => rw [List.filter_cons_of_neg (by simp), List.filter_cons_of_neg (by simp [heq])]
    · rw [List.filter_cons, List.filter_cons, ih]

theorem filter_dropInterest (s : Source) (i : Interest) (ws : List Watch) :
    (dropInterest s i ws).filter (·.source ≠ s) = ws.filter (·.source ≠ s) := by
  induction ws with
  | nil => rfl
  | cons x xs ih =>
    rw [dropInterest]
    split
    · next heq =>
      rw [List.filter_cons_of_neg (by simp [heq])]
      split
      · rw [List.filter_cons_of_neg (by simp [heq])]
      · rfl
    · rw [List.filter_cons, List.filter_cons, ih]

/-! ## Tables -/

/-- The map that a table is. -/
def roll (t : WatchTable) : Roll := rollOf t.toList

def sources (t : WatchTable) : List Source := t.toList.map (·.source)

theorem roll_eq_none_iff : t.roll s = none ↔ s ∉ t.sources := rollOf_eq_none_iff

theorem mem_iff_roll : w ∈ t.toList ↔ t.roll w.source = some (w.owner, w.interest) := by
  constructor
  · intro h
    show (t.watchOf? w.source).map _ = _
    rw [watchOf?_of_mem h]
    rfl
  · intro h
    obtain ⟨x, hx, heq⟩ := Option.map_eq_some_iff.1 h
    have hsource := source_of_find? hx
    obtain ⟨howner, hinterest⟩ := Prod.mk.inj heq
    have hxw : x = w := by
      cases x
      cases w
      cases hsource
      cases howner
      cases hinterest
      rfl
    exact hxw ▸ List.mem_of_find?_eq_some hx

theorem nodup_sources (t : WatchTable) : t.sources.Nodup := List.pairwise_map.2 t.distinct

theorem remove_of_unknown (i : Interest) (h : t.roll s = none) : t.remove s i = t := by
  obtain ⟨max, ws, hdistinct, hinterested, hwatchable⟩ := t
  have hdrop := dropInterest_of_not_mem i (rollOf_eq_none_iff.1 h)
  simp only [remove, hdrop]

theorem roll_remove (t : WatchTable) (s : Source) (i : Interest) :
    (t.remove s i).roll = t.roll.strike s i := rollOf_dropInterest s i t.distinct

end WatchTable

/-! ## Additions and removals -/

/-- A watch comes into a table. -/
structure WatchTable.Enters (t : WatchTable) (w : Watch) (t' : WatchTable) : Prop where
  /-- The source is watched for the new owner, for what it was and for what is added. -/
  entry : t'.roll w.source =
    some (w.owner, (t.roll w.source).elim w.interest fun x => x.2.union w.interest)
  /-- All else is as it was, in the same order. -/
  others : t'.toList.filter (·.source ≠ w.source) = t.toList.filter (·.source ≠ w.source)
  /-- A new source comes last, and one that is watched stays where it is. -/
  place : t'.sources = if t.roll w.source = none then t.sources ++ [w.source] else t.sources

/-- Interests leave a table. -/
structure WatchTable.Leaves (t : WatchTable) (w : Watch) (t' : WatchTable) : Prop where
  /-- Nothing is done for a source that is not watched. -/
  unknown : t.roll w.source = none → t' = t
  /-- What is named is watched no more, and the rest as it was. -/
  cleared : ∀ owner i, t.roll w.source = some (owner, i) → w.interest.any →
    t'.roll w.source =
      if (i.without w.interest).any then some (owner, i.without w.interest) else none
  /-- All is dropped if nothing is named. -/
  dropped : w.interest.any = false → t'.roll w.source = none
  /-- All else is as it was, in the same order. -/
  others : t'.toList.filter (·.source ≠ w.source) = t.toList.filter (·.source ≠ w.source)
  /-- A source that is watched further stays where it is. -/
  place : t'.roll w.source ≠ none → t'.sources = t.sources

namespace WatchTable

variable {t t' : WatchTable} {w : Watch}

theorem enters_of_merge (h : t'.toList = merge w t.toList) : t.Enters w t' where
  entry := by rw [roll, h, rollOf_merge, Roll.enter_self]; rfl
  others := by rw [h, filter_merge]
  place := by rw [sources, h, sources_merge]; rfl

theorem leaves_remove (t : WatchTable) (w : Watch) : t.Leaves w (t.remove w.source w.interest) where
  unknown h := remove_of_unknown w.interest h
  cleared owner i h hany := by
    rw [roll_remove, Roll.strike_self, h, Option.bind_some, hany, Bool.true_and]
  dropped hany := by
    rw [roll_remove, Roll.strike_self, hany]
    cases t.roll w.source <;> rfl
  others := filter_dropInterest _ _ _
  place h := sources_dropInterest t.distinct h

end WatchTable

namespace Scenario

/-! ## After any tasks -/

/-- A table of watches and a host after some tasks. -/
def WatchTask.workAll (t : WatchTable) (h : Host) (tasks : List WatchTask) : WatchTable × Host :=
  tasks.foldl (fun x task => (task.work x.1 x.2).2) (t, h)

/-- What a task is for a roll. -/
def WatchTask.turn (max : Fd) (r : Roll) : WatchTask → Roll
  | .add w => if ∃ e, w.Refused max e then r else r.enter w
  | .remove w => r.strike w.source w.interest
  | .same _ _ | .show _ | .poll | .act _ => r

/-- What is watched by the record of some tasks alone. -/
def rollAfter (max : Fd) (tasks : List WatchTask) : Roll :=
  tasks.foldl (WatchTask.turn max) fun _ => none

/-- A source was added by the task of a number when it was not watched, and is watched since. -/
structure Created (max : Fd) (tasks : List WatchTask) (n : Nat) (s : Source) : Prop where
  added : ∃ w, tasks[n]? = some (.add w) ∧ w.source = s
  new : rollAfter max (tasks.take n) s = none
  since : ∀ k, n < k → rollAfter max (tasks.take k) s ≠ none

variable {max : Fd} {tasks : List WatchTask} {task : WatchTask} {n m : Nat} {s : Source}
  {w : Watch} {t t' : WatchTable} {q : List (Nat × Source)}

theorem rollAfter_concat : rollAfter max (tasks ++ [task]) = task.turn max (rollAfter max tasks) :=
  List.foldl_concat ..

/-- There is one such task for a source. -/
theorem Created.unique (h : Created max tasks n s) (h' : Created max tasks m s) : n = m := by
  rcases Nat.lt_trichotomy n m with hlt | heq | hlt
  · exact absurd h'.new (h.since m hlt)
  · exact heq
  · exact absurd h.new (h'.since n hlt)

theorem Created.lt_length (h : Created max tasks n s) : n < tasks.length :=
  have ⟨_, hn, _⟩ := h.added
  (List.getElem?_eq_some_iff.1 hn).1

theorem Created.concat (h : Created max tasks n s) (hs : rollAfter max (tasks ++ [task]) s ≠ none) :
    Created max (tasks ++ [task]) n s where
  added := by
    rw [List.getElem?_append_left h.lt_length]
    exact h.added
  new := by
    rw [List.take_append_of_le_length (Nat.le_of_lt h.lt_length)]
    exact h.new
  since k hk := by
    by_cases hle : k ≤ tasks.length
    · rw [List.take_append_of_le_length hle]
      exact h.since k hk
    · rwa [List.take_of_length_le (by rw [List.length_append, List.length_singleton]; omega)]

theorem created_concat (hnew : rollAfter max tasks w.source = none)
    (hs : rollAfter max (tasks ++ [.add w]) w.source ≠ none) :
    Created max (tasks ++ [.add w]) tasks.length w.source where
  added := ⟨w, List.getElem?_concat_length, rfl⟩
  new := by rwa [List.take_left]
  since k hk := by
    rwa [List.take_of_length_le (by rw [List.length_append, List.length_singleton]; omega)]

/-- A table is what the record of some tasks says, in the order of the creation of its entries. -/
structure Roster (max : Fd) (tasks : List WatchTask) (t : WatchTable) (q : List (Nat × Source)) :
    Prop where
  maxFd : t.maxFd = max
  roll : t.roll = rollAfter max tasks
  sources : t.sources = q.map Prod.snd
  created : ∀ a ∈ q, Created max tasks a.1 a.2
  order : q.Pairwise fun a b => a.1 < b.1

/-- A task by which no source comes leaves the rest in order. -/
theorem Roster.kept (h : Roster max tasks t q) (hmax : t'.maxFd = t.maxFd)
    (hroll : t'.roll = task.turn max t.roll) (hsources : t'.sources.Sublist t.sources) :
    ∃ q, Roster max (tasks ++ [task]) t' q := by
  rw [h.sources, List.sublist_map_iff] at hsources
  obtain ⟨q', hsub, hq'⟩ := hsources
  rw [h.roll, ← rollAfter_concat] at hroll
  refine ⟨q', hmax.trans h.maxFd, hroll, hq', fun a ha => ?_, h.order.sublist hsub⟩
  refine (h.created a (hsub.subset ha)).concat ?_
  rw [← hroll, Ne, WatchTable.roll_eq_none_iff, not_not, hq']
  exact List.mem_map_of_mem ha

/-- A source that comes is the last. -/
theorem Roster.came (h : Roster max tasks t q) (hmax : t'.maxFd = t.maxFd)
    (hroll : t'.roll = (WatchTask.add w).turn max t.roll) (hnew : t.roll w.source = none)
    (hsources : t'.sources = t.sources ++ [w.source]) :
    ∃ q, Roster max (tasks ++ [.add w]) t' q := by
  have hroll' := hroll
  rw [h.roll, ← rollAfter_concat] at hroll'
  have hwatched : ∀ s ∈ t'.sources, rollAfter max (tasks ++ [.add w]) s ≠ none := by
    intro s hs
    rwa [← hroll', Ne, WatchTable.roll_eq_none_iff, not_not]
  refine ⟨q ++ [(tasks.length, w.source)], hmax.trans h.maxFd, hroll', ?_, fun a ha => ?_, ?_⟩
  · rw [hsources, h.sources, List.map_append]
    rfl
  · rcases List.mem_append.1 ha with ha | ha
    · refine (h.created a ha).concat (hwatched a.2 ?_)
      rw [hsources, h.sources]
      exact List.mem_append_left _ (List.mem_map_of_mem ha)
    · rw [List.mem_singleton.1 ha]
      refine created_concat (h.roll ▸ hnew) (hwatched w.source ?_)
      rw [hsources]
      exact List.mem_append_right _ (.head _)
  · refine List.pairwise_append.2 ⟨h.order, List.pairwise_singleton _ _, fun a ha b hb => ?_⟩
    rw [List.mem_singleton.1 hb]
    exact (h.created a ha).lt_length

/-- Each task keeps a table in the order of the record. -/
theorem Roster.work (h : Roster max tasks t q) (host : Host) (task : WatchTask) :
    ∃ q, Roster max (tasks ++ [task]) (task.work t host).2.1 q := by
  cases task with
  | add w =>
    by_cases hrefused : ∃ e, w.Refused max e
    · obtain ⟨e, he⟩ := hrefused
      rw [WatchTask.work, WatchTable.add_of_refused (h.maxFd.symm ▸ he)]
      exact h.kept rfl (by rw [WatchTask.turn, if_pos ⟨e, he⟩]) (.refl _)
    · obtain ⟨t', hadd, hmax, hlist⟩ := WatchTable.add_of_not_refused (t := t) (w := w)
        (h.maxFd.symm ▸ not_exists.1 hrefused)
      have hroll : t'.roll = (WatchTask.add w).turn max t.roll := by
        rw [WatchTask.turn, if_neg hrefused, WatchTable.roll, hlist, WatchTable.rollOf_merge]
        rfl
      have hplace := (WatchTable.enters_of_merge hlist).place
      rw [WatchTask.work, hadd]
      split at hplace
      · next hnew => exact h.came hmax hroll hnew hplace
      · exact h.kept hmax hroll (by rw [hplace])
  | remove w =>
    exact h.kept rfl (t.roll_remove _ _) (WatchTable.sublist_dropInterest _ _ _)
  -- The rest only asks the table, or is for the host.
  | _ => exact h.kept rfl rfl (.refl _)

theorem Roster.workAll (h : Roster max tasks t q) (host : Host) (more : List WatchTask) :
    ∃ q, Roster max (tasks ++ more) (WatchTask.workAll t host more).1 q := by
  induction more generalizing tasks t q host with
  | nil => exact ⟨q, by rwa [List.append_nil]⟩
  | cons task more ih =>
    obtain ⟨q, hq⟩ := h.work host task
    obtain ⟨q, hq⟩ := ih hq (task.work t host).2.2
    exact ⟨q, by rwa [List.append_assoc] at hq⟩

theorem roster_empty : Roster max [] (.empty max) [] where
  maxFd := rfl
  roll := rfl
  sources := rfl
  created := nofun
  order := .nil

/-! ## What the table is, and what it does -/

/-- A table of watches is the map that some tasks make. -/
structure Catalogues (max : Fd) (tasks : List WatchTask) (t : WatchTable) : Prop where
  /-- The map is that of the record. -/
  refines : t.roll = rollAfter max tasks
  /-- What is in the table is what the map says. -/
  entries : ∀ w, w ∈ t.toList ↔ t.roll w.source = some (w.owner, w.interest)
  /-- There is one entry for a source. -/
  single : t.sources.Nodup
  /-- Each entry is watched for reading or for writing. -/
  interested : ∀ w ∈ t.toList, w.interest.read ∨ w.interest.write
  /-- An entry without a socket has a number below the ceiling. -/
  inRange : ∀ w ∈ t.toList, w.source.socket = none → 0 ≤ w.source.fd ∧ w.source.fd < max
  /-- The entries stand in the order of the additions that last created them. -/
  ordered : ∃ q : List (Nat × Source), t.sources = q.map Prod.snd ∧
    (q.Pairwise fun a b => a.1 < b.1) ∧ ∀ a ∈ q, Created max tasks a.1 a.2
  /-- One addition has created an entry. -/
  once : ∀ n m s, Created max tasks n s → Created max tasks m s → n = m
  /-- A watch is refused for one of three reasons, and nothing is changed then. -/
  refused : ∀ w e h, w.Refused max e → (WatchTask.add w).work t h = (.added (.error e), t, h)
  /-- Any other watch is added. -/
  added : ∀ w h, (∀ e, ¬ w.Refused max e) →
    ∃ t', (WatchTask.add w).work t h = (.added (.ok ()), t', h) ∧ t.Enters w t'
  /-- Interests are removed. -/
  removed : ∀ w h, ∃ t', (WatchTask.remove w).work t h = (.removed, t', h) ∧ t.Leaves w t'

/-- **A map in the order of creation.** Whatever is added to a table of watches and removed from it,
it is the map that the additions and removals make, one entry for each source, in the order in which
the entries were last created. Additions are refused for three reasons only. -/
theorem catalogues_workAll (max : Fd) (host : Host) (tasks : List WatchTask) :
    Catalogues max tasks (WatchTask.workAll (.empty max) host tasks).1 := by
  obtain ⟨q, h⟩ := roster_empty.workAll host tasks
  rw [List.nil_append] at h
  obtain ⟨t, ht⟩ : ∃ t, t = (WatchTask.workAll (.empty max) host tasks).1 := ⟨_, rfl⟩
  rw [← ht] at h ⊢
  exact
    { refines := h.roll
      entries := fun w => WatchTable.mem_iff_roll
      single := t.nodup_sources
      interested := fun w hw => by simpa [Interest.any] using t.interested w hw
      inRange := fun w hw => h.maxFd ▸ t.watchable w hw
      ordered := ⟨q, h.sources, h.order, h.created⟩
      once := fun n m s => Created.unique
      refused := fun w e host he => by
        rw [WatchTask.work, WatchTable.add_of_refused (h.maxFd.symm ▸ he)]
      added := fun w host hrefused => by
        obtain ⟨t', hadd, -, hlist⟩ := WatchTable.add_of_not_refused (t := t) (w := w)
          (h.maxFd.symm ▸ hrefused)
        exact ⟨t', by rw [WatchTask.work, hadd], WatchTable.enters_of_merge hlist⟩
      removed := fun w host => ⟨_, rfl, t.leaves_remove w⟩ }

/-- A source that was dropped comes last when it is added again; one that is watched stays. -/
example (host : Host) :
    (WatchTask.workAll (.empty 8) host [.add (.reading ⟨1⟩ 3), .add (.reading ⟨1⟩ 4),
      .remove (.reading ⟨1⟩ 3), .add (.reading ⟨2⟩ 3), .add (.ofFd ⟨3⟩ 4 false true)]).1.toList =
      [.ofFd ⟨3⟩ 4 true true, .reading ⟨2⟩ 3] := by
  rfl

end Scenario

end BlockFlow
