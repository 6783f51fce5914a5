import BlockFlow.Proofs.Dispatch
import BlockFlow.Proofs.Enrolment
import BlockFlow.Proofs.History

/-!
# Sources that are handed over

A poll calls the block to which a source belonged when the poll began. A hook that it calls may hand
a source to another block before its turn comes; the turn still leads to the block before.

1. `makes_poll`: each direct call of a poll is for a watch that was ready when the poll began.
2. `handover`: the block that is called owned the source when the poll began, and still owns it
   unless an open hook took the source from it; `handover_steal`: a poll during which this happens.
3. `not_reachesOwner`: so the block that is called is not always the one that owns the source.
-/

namespace BlockFlow

open Run

variable {K : Kit} {α β : Type}

/-! ## The direct calls of a poll -/

namespace Run

variable {s t : Machine K} {qs : List (Change K)} {p : Change K} {v : Visit} {n : Nat}

theorem makes_deliverEvent {w : Watch} (h : (deliverEvent (callHook n) w).Makes s qs p)
    (hp : v.Begins s.stack p) : v ∈ Turn.calls ⟨w, s⟩ ∧ qs = [(s, s.away w.owner)] := by
  unfold deliverEvent at h
  rw [makes_manager] at h
  split at h
  · rw [makes_notify] at h
    exact absurd (h.2 ▸ hp) (Visit.not_begins_notice _)
  next hwatched =>
  split at h
  · rw [makes_notify] at h
    exact absurd (h.2 ▸ hp) (Visit.not_begins_notice _)
  · rw [makes_discard] at h
    unfold Turn.calls
    rw [if_pos (by simpa using hwatched)]
    exact makes_callHook h hp

/-- A direct call is made in the turn of a watch. -/
theorem makes_deliverEvents {ws : List Watch} (h : (deliverEvents (callHook n) ws).Makes s qs p)
    (hp : v.Begins s.stack p) :
    ∃ w ∈ ws, ∃ t rs, Path s rs t ∧ qs = rs ++ [(t, t.away w.owner)] ∧ v ∈ Turn.calls ⟨w, t⟩ := by
  induction ws generalizing s qs with
  | nil => exact absurd h makes_pure
  | cons w ws ih =>
    rw [deliverEvents, makes_bind] at h
    rcases h with h | ⟨_, t, rs, hrun, rfl, h⟩
    · obtain ⟨hv, rfl⟩ := makes_deliverEvent h hp
      exact ⟨w, .head _, s, [], .nil, rfl, hv⟩
    · have hstack : t.stack = s.stack := ((visits_deliverEvent n w s).result hrun).1
      obtain ⟨w', hw', u, rs', hpath, rfl, hv⟩ := ih h (hstack.symm ▸ hp)
      exact ⟨w', .tail _ hw', u, _, (path_changes hrun).append hpath,
        (List.append_assoc _ _ _).symm, hv⟩

theorem not_begins_of_makes_notifyAll {ns : List Notice} {stack : List Frame}
    (h : (notifyAll ns).Makes s qs p) : ¬ v.Begins stack p := by
  induction ns generalizing s qs with
  | nil => exact absurd h makes_pure
  | cons note ns ih =>
    rw [notifyAll, makes_bind] at h
    rcases h with h | ⟨_, _, _, _, _, h⟩
    · rw [makes_notify] at h
      exact h.2 ▸ Visit.not_begins_notice note
    · exact ih h

theorem makes_refuse {ε : Type} {note : Notice} {e : ε}
    (h : (refuse note e : Run K (Except ε α)).Makes s qs p) {stack : List Frame} :
    ¬ v.Begins stack p := by
  unfold refuse at h
  rw [makes_bind] at h
  rcases h with h | ⟨_, _, _, _, _, h⟩
  · rw [makes_notify] at h
    exact h.2 ▸ Visit.not_begins_notice note
  · exact absurd h makes_pure

/-- A direct call of a poll is made in the turn of a watch that was ready when the poll began. -/
theorem makes_poll (h : (poll (callHook n)).Makes s qs p) (hp : v.Begins s.stack p) :
    ∃ w ∈ s.ready, ∃ t rs, Path s rs t ∧ qs = rs ++ [(t, t.away w.owner)] ∧
      v ∈ Turn.calls ⟨w, t⟩ := by
  unfold poll at h
  rw [makes_manager] at h
  obtain h | ⟨_, _, _, hhost, rfl, h⟩ := makes_bind.1 h
  · exact h.elim
  cases hhost
  obtain h | ⟨_, t, rs, hsilent, rfl, h⟩ := makes_bind.1 h
  · exact absurd hp (not_begins_of_makes_notifyAll h)
  have hpath := path_changes hsilent
  have hstack := ((comes_notifyAll _ s).visits.result hsilent).1
  rw [(comes_notifyAll _ s).run?_eq] at hsilent
  cases hsilent
  by_cases hpoll : s.CanPoll
  · simp only [WatchTable.poll_eq hpoll] at h
    cases hready : s.manager.watches.ready s.host with
    | nil =>
      rw [hready] at h
      obtain ⟨-, rfl⟩ | ⟨_, -, h⟩ := h
      · exact absurd hp (Visit.not_begins_of_events_eq rfl)
      · exact h.elim
    | cons w ws =>
      rw [hready] at h
      obtain h | ⟨_, u, rs', hnotify, rfl, h⟩ := makes_bind.1 h
      · rw [makes_notify] at h
        exact absurd (h.2 ▸ hp) (Visit.not_begins_notice _)
      have hpath' := hpath.append (path_changes hnotify)
      have hstack' := ((visits_notify _ _).result hnotify).1.trans hstack
      cases hnotify
      obtain h | ⟨_, _, _, _, _, h⟩ := makes_bind.1 h
      · obtain ⟨w', hw', t, rs'', hpath'', rfl, hv⟩ := makes_deliverEvents h (hstack'.symm ▸ hp)
        have hmem : w' ∈ s.ready := (show s.ready = w :: ws from hready) ▸ hw'
        exact ⟨w', hmem, t, _, hpath'.append hpath'', by simp only [List.append_assoc], hv⟩
      · exact absurd h makes_pure
  · rw [WatchTable.poll_eq_error (Nat.not_le.1 hpoll)] at h
    exact absurd hp (makes_refuse h)

/-! ## The changes of a poll -/

/-- While a run goes on, timers, watches and factories change in hooks only. -/
def StaysAbove (r : Run K α) : Prop :=
  ∀ s : Machine K, r.Abides (.changing (Machine.Above s.stack) fun t => t.stack = s.stack)
    (fun _ t => t.stack = s.stack) s

theorem StaysAbove.bind {r : Run K α} {f : α → Run K β} (hr : r.StaysAbove)
    (hf : ∀ a, (f a).StaysAbove) : (r >>= f).StaysAbove := by
  intro s
  rw [abides_bind]
  exact (hr s).mono fun a t ht => ht ▸ hf a t

theorem staysAbove_pure (a : α) : (pure a : Run K α).StaysAbove := fun _ => rfl

theorem staysAbove_notify (note : Notice) : (notify note : Run K Unit).StaysAbove := fun s =>
  ⟨(Machine.Inside.notice s note).toAbove, rfl⟩

theorem staysAbove_onHost (f : Host → α × Host) : (onHost f : Run K α).StaysAbove := fun s =>
  ⟨(Machine.Inside.of_aside (u := s) (v := { s with host := (f s.host).2 }) rfl (.inl rfl) rfl
    rfl rfl).1.toAbove, rfl⟩

theorem staysAbove_callHook (n : Nat) (id : BlockId) (hook : Hook) :
    (callHook (K := K) n id hook).StaysAbove := fun s =>
  (above_callHook n id hook s).monoChanging (fun _ _ h => h.1) (fun _ h => h.1) fun _ _ h => h.1

theorem staysAbove_deliverEvent (n : Nat) (w : Watch) :
    (deliverEvent (callHook (K := K) n) w).StaysAbove := by
  refine StaysAbove.bind (fun _ => rfl) fun m => ?_
  split
  · exact staysAbove_notify _
  split
  · exact staysAbove_notify _
  · intro s
    rw [abides_discard]
    exact staysAbove_callHook n w.owner (.event w) s

theorem staysAbove_deliverEvents (n : Nat) (ws : List Watch) :
    (deliverEvents (callHook (K := K) n) ws).StaysAbove := by
  induction ws with
  | nil => exact staysAbove_pure ()
  | cons w ws ih => exact (staysAbove_deliverEvent n w).bind fun _ => ih

theorem staysAbove_notifyAll (ns : List Notice) : (notifyAll ns : Run K Unit).StaysAbove := by
  induction ns with
  | nil => exact staysAbove_pure ()
  | cons note ns ih => exact (staysAbove_notify note).bind fun _ => ih

/-- While a poll goes on, timers and watches change in hooks only. -/
theorem staysAbove_poll (n : Nat) : (poll (callHook (K := K) n)).StaysAbove := by
  refine StaysAbove.bind (fun _ => rfl) fun m => StaysAbove.bind (fun _ => rfl) fun h => ?_
  refine (staysAbove_notifyAll _).bind fun _ => ?_
  split
  · exact (staysAbove_notify _).bind fun _ => staysAbove_pure _
  · exact (staysAbove_onHost _).bind fun _ => staysAbove_pure _
  · exact (staysAbove_notify _).bind fun _ =>
      (staysAbove_deliverEvents n _).bind fun _ => staysAbove_pure _

end Run

/-! ## Who is called -/

/-- A poll that begins with a machine calls a hook for a watch, by a change after others. -/
structure Machine.Addresses (s : Machine K) (qs : List (Change K)) (p : Change K) (v : Visit)
    (w : Watch) : Prop where
  /-- The watch was ready when the poll began. -/
  ready : w ∈ s.ready
  hook_eq : v.hook = .event w
  /-- The source belonged to the block then. -/
  owner : s.manager.watches.owner? w.source = some v.id
  /-- The block is live, and the source is watched. -/
  live : (p.1.manager.blocks.get? v.id).map (·.serial) = some v.serial
  watched : p.1.manager.watches.contains w.source
  /-- The source still belongs to the block, unless it was taken from it while a hook was open that
  the poll had called. -/
  owner_or_taken : p.1.manager.watches.owner? w.source = some v.id ∨
    ∃ q ∈ qs, s.stack <:+ q.1.stack ∧ q.1.stack ≠ s.stack ∧
      q.1.manager.watches.owner? w.source = some v.id ∧
      q.1.manager.watches.Takes w.source v.id q.2.manager.watches

section Owners

variable {s : Machine K} {qs : List (Change K)} {p : Change K} {v : Visit} {n : Nat}

/-- The owner of a source that is not the same after some changes was changed by one of them. -/
theorem Run.Makes.owner_or_taken (h : (poll (callHook n)).Makes s qs p) {src : Source} {o : BlockId}
    (hs : s.manager.watches.owner? src = some o) :
    p.1.manager.watches.owner? src = some o ∨
      ∃ q ∈ qs, s.stack <:+ q.1.stack ∧ q.1.stack ≠ s.stack ∧
        q.1.manager.watches.owner? src = some o ∧
        q.1.manager.watches.Takes src o q.2.manager.watches := by
  by_cases hsame : p.1.manager.watches.owner? src = some o
  · exact .inl hsame
  obtain ⟨q, hq, hbefore, hafter⟩ := h.path.exists_change
    (P := fun u => u.manager.watches.owner? src ≠ some o) (fun hne => hne hs) hsame
  have hbefore : q.1.manager.watches.owner? src = some o := Classical.not_not.1 hbefore
  have hmem := h.mem q (List.mem_append_left _ hq)
  have habove := (staysAbove_poll n s).change hmem
  have hlive := (made_poll.isForLive (isForLive_callHook n) s).change hmem
  refine .inr ⟨q, hq, habove.before, fun hstack => ?_, hbefore, hlive.watches.takes hbefore hafter⟩
  rw [habove.watches_eq hstack] at hafter
  exact hafter hbefore

/-- **Handover.** Whatever the hooks do: a poll calls just the blocks to which the sources belonged
when it began. A block that is called still owns the source, unless a hook that the poll had called
before had it taken from the block. -/
theorem handover (h : (poll (callHook n)).Makes s qs p) (hp : v.Begins s.stack p) :
    ∃ w, s.Addresses qs p v w := by
  obtain ⟨w, hw, t, rs, hpath, rfl, hv⟩ := makes_poll h hp
  obtain ⟨hwatched, hid, hhook, -⟩ := Turn.mem_calls.1 hv
  have hwatches : p.1.manager.watches = t.manager.watches := by
    rw [h.path.eq_of_append]
    rfl
  have howner : s.manager.watches.owner? w.source = some v.id := by
    rw [WatchTable.owner?, WatchTable.watchOf?_of_mem (List.mem_filter.1 hw).1, hid]
    rfl
  have hlive := (made_poll.isForLive (isForLive_callHook n) s).change
    (h.mem p (List.mem_append_right _ (.head _)))
  exact ⟨w, hw, hhook, howner, hlive.enters _ _ _ hp.events_eq, hwatches ▸ hwatched,
    h.owner_or_taken howner⟩

end Owners

/-! ## A source that is taken -/

/-- Blocks that, when their descriptor is ready, have the next one watched for themselves. -/
@[reducible] def thieves : Kit where
  Factory := Unit
  Contents := Unit
  Remark := Empty
  build := fun _ h => (some (), h)
  hook := fun _ id hook =>
    match hook with
    | .event w => do
      discard (Script.ask (.watch (.reading id (w.source.fd + 1))))
      return {}
    | _ => return {}
  report := fun _ buffer => (0, buffer)
  release := fun _ => id

/-- Two blocks with a descriptor each, which are not open. -/
def contested : Machine thieves :=
  let row : Keyed BlockId (Entry thieves) := .empty
  { manager := { (.fresh {} : Manager thieves) with
      blocks := (row.insert ⟨1⟩
        { serial := 0, type := "thief", state := .started, contents := some () }).insert ⟨2⟩
        { serial := 1, type := "thief", state := .started, contents := some () }
      watches := {
        maxFd := 1024
        toList := [.reading ⟨1⟩ 5, .reading ⟨2⟩ 6]
        distinct := by decide
        interested := by decide
        watchable := by
          unfold Source.Watchable
          decide } }
    host := .manual }

/-- The call of the second block for its descriptor. -/
def lateCall : Visit := ⟨1, ⟨2⟩, .event (.reading ⟨2⟩ 6)⟩

/-- The second block is called when its descriptor belongs to the first one already. -/
theorem exists_lateCall : ∃ qs p, (poll (callHook 2)).Makes contested qs p ∧
    lateCall.Begins contested.stack p ∧
    p.1.manager.watches.owner? ⟨6, none⟩ = some ⟨1⟩ := by
  obtain ⟨p, hp, hstack, hevents, howner⟩ :
      ∃ p, ((poll (callHook 2)).changes contested)[8]? = some p ∧ p.1.stack = [] ∧
        p.2.events = .entered 1 ⟨2⟩ (.event (.reading ⟨2⟩ 6)) :: p.1.events ∧
        p.1.manager.watches.owner? ⟨6, none⟩ = some ⟨1⟩ := ⟨_, rfl, rfl, rfl, rfl⟩
  exact ⟨_, p, makes_of_getElem? hp, ⟨hstack, hevents⟩, howner⟩

/-- The first block took the descriptor while its hook was open. -/
theorem handover_steal : ∃ qs p w, contested.Addresses qs p lateCall w ∧
    p.1.manager.watches.owner? w.source = some ⟨1⟩ := by
  obtain ⟨qs, p, hmakes, hbegins, howner⟩ := exists_lateCall
  obtain ⟨w, hw⟩ := handover hmakes hbegins
  obtain rfl : w = .reading ⟨2⟩ 6 := by
    have h := hw.hook_eq
    cases h
    rfl
  exact ⟨qs, p, _, hw, howner⟩

/-- A poll calls for each watch the block that owns its source then. -/
def Kit.ReachesOwner (K : Kit) : Prop :=
  ∀ (s : Machine K) (n : Nat) (qs : List (Change K)) (p : Change K) (v : Visit) (w : Watch),
    (poll (callHook n)).Makes s qs p → v.Begins s.stack p → v.hook = .event w →
      p.1.manager.watches.owner? w.source = some v.id

/-- A poll does not always call the block that owns the source. -/
theorem not_reachesOwner : ¬ thieves.ReachesOwner := by
  intro h
  obtain ⟨qs, p, hmakes, hbegins, howner⟩ := exists_lateCall
  have hown := h contested 2 qs p lateCall (.reading ⟨2⟩ 6) hmakes hbegins rfl
  rw [show (Watch.reading ⟨2⟩ 6).source = ⟨6, none⟩ from rfl, howner] at hown
  cases hown

end BlockFlow
