import BlockFlow.Proofs.Serving

/-!
# What comes of configuring, starting and stopping a server

These hooks of a server ask nothing of other blocks, so all that comes of them can be said at once:
what the server is like afterwards, and what has become of the watches and of the host.

1. `Server.addressAfter`, `Server.Starts`, `Server.stopped`: what becomes of the server.
2. `ends_configure`, `ends_start`, `ends_stop`: the scripts.
3. `ends_callHook_server`: the hook of a live server.
-/

namespace BlockFlow

open Run

variable {K : Kit} {α : Type}

/-! ## The server afterwards -/

namespace Server

/-- The address after a configuration: the last one that it names, or else the one before. -/
def addressAfter (path : Option String) (conf : String) : Option String :=
  (Text.words conf.toList).foldl (fun path entry => ((address? entry).map String.ofList).or path)
    path

/-- What comes of starting a server with some watches and a host: the server, the watches and the
host afterwards. -/
inductive Starts (sv : Server) (id : BlockId) (w : WatchTable) (h : Host) :
    Server → WatchTable → Host → Prop
  /-- There is no address. -/
  | unaddressed (hpath : sv.path = none) : Starts sv id w h sv w h
  /-- No listener can be opened at the address. -/
  | unbound {path : String} {f : Host.Failure} (hpath : sv.path = some path)
    (hlisten : ((h.removeFile path).2.listen path).1 = .error f) :
    Starts sv id w h sv w (h.removeFile path).2
  /-- The listener cannot be watched and is closed. -/
  | unwatched {path : String} {fd : Fd} (hpath : sv.path = some path)
    (hlisten : ((h.removeFile path).2.listen path).1 = .ok fd) :
    Starts sv id w h sv w (((h.removeFile path).2.listen path).2.close fd)
  /-- The listener is open and watched. -/
  | listening {path : String} {fd : Fd} {w' : WatchTable} (hpath : sv.path = some path)
    (hlisten : ((h.removeFile path).2.listen path).1 = .ok fd)
    (hwatch : w.add (.reading id fd) = .ok w') :
    Starts sv id w h { sv with listener := some fd } w' ((h.removeFile path).2.listen path).2

def stopped (sv : Server) : Server := { sv with clients := [], listener := none }

/-- The descriptors that a server closes when it stops, in this order. -/
def closing (sv : Server) : List Fd := sv.clients.map (·.fd) ++ sv.listener.toList

end Server

/-- The host without the file at an address, if there is an address. -/
def Host.vacate (h : Host) : Option String → Host
  | none => h
  | some path => (h.removeFile path).2

/-- A host on which no listener could be opened is as it was. -/
theorem Host.listen_of_error {h : Host} {path : String} {f : Failure}
    (hlisten : (h.listen path).1 = .error f) : (h.listen path).2 = h := by
  unfold listen at hlisten ⊢
  split
  · rfl
  · next hsocket =>
    rw [hsocket] at hlisten
    cases hlisten

/-- Contents that come back to a block are the ones there are then, whatever was there before. -/
theorem Machine.regaining_of_away (s : Machine K) (id : BlockId) (c : K.Contents) :
    (s.away id).manager.regaining id c = s.manager.regaining id c := by
  unfold Machine.away Manager.regaining
  dsimp only
  rw [Keyed.modify_modify]

/-! ## Scripts -/

namespace Run

section Scripts

variable {S : Type} {call : Call K} {n : Nat} {leave : S → Run K Unit} {c : S} {s : Machine K}
  (sv : Server) (id : BlockId)

theorem ends_configure (conf : String) :
    (runScript call n leave c (sv.configure id conf)).Abides .total
      (fun p t => p.1 = { sv with path := Server.addressAfter sv.path conf } ∧
        t.manager = s.manager ∧ t.host = s.host) s := by
  unfold Server.configure Server.addressAfter
  induction Text.words conf.toList generalizing sv s with
  | nil => exact ⟨rfl, rfl, rfl⟩
  | cons entry entries ih =>
    unfold Server.applyEntries
    rw [List.foldl_cons]
    cases Server.address? entry with
    | some path => exact ih { sv with path := some (String.ofList path) }
    | none =>
      refine abides_runScript_notify ?_
      exact (ih sv).mono fun _ _ ht => ht

/-- A descriptor is watched for a live block, or is not because it cannot be. -/
theorem ends_watch {w : Watch} {Q : Except WatchError Unit → Machine K → Prop}
    (hlive : s.manager.blocks.contains w.owner)
    (herror : ∀ e es, s.manager.watches.add w = .error e → Q (.error e) { s with events := es })
    (hok : ∀ watches es, s.manager.watches.add w = .ok watches →
      Q (.ok ()) { s with manager.watches := watches, events := es }) :
    (watch w).Abides .total Q s := by
  unfold watch
  rw [abides_bind, abides_manager, if_pos hlive]
  cases hadd : s.manager.watches.add w with
  | error e => exact herror e _ hadd
  | ok watches => exact hok watches _ hadd

theorem ends_start (hlive : s.manager.blocks.contains id) :
    (runScript call n leave c (sv.start id)).Abides .total (fun p t => ∃ w,
      sv.Starts id s.manager.watches s.host p.1 w t.host ∧
      t.manager = { s.manager with watches := w }) s := by
  unfold Server.start
  obtain ⟨address, listener, clients, commands, failures⟩ := sv
  cases address with
  | none => exact abides_runScript_notify ⟨_, .unaddressed rfl, rfl⟩
  | some path =>
    refine abides_runScript_call (r := .removeFile path) ?_
    show Abides .total _ (onHost (·.removeFile path)) s
    simp only [abides_onHost]
    refine abides_runScript_call (r := .listen path) ?_
    show Abides .total _ (onHost (·.listen path)) _
    simp only [abides_onHost]
    cases hlisten : ((s.host.removeFile path).2.listen path).1 with
    | error f =>
      have hsame : ((s.host.removeFile path).2.listen path).2 = (s.host.removeFile path).2 :=
        Host.listen_of_error hlisten
      refine abides_runScript_notify ⟨_, ?_, rfl⟩
      rw [hsame]
      exact .unbound rfl hlisten
    | ok fd =>
      refine abides_runScript_call (r := .watch (.reading id fd)) ?_
      refine ends_watch hlive (fun e es hwatch => ?_) fun w es hwatch => ?_
      · show Abides .total _ (runScript _ _ _ _ _) _
        refine abides_runScript_call (r := .close fd) ?_
        exact ⟨_, .unwatched rfl hlisten, rfl⟩
      · refine abides_runScript_notify (T := .total) ?_
        exact ⟨w, .listening rfl hlisten hwatch, rfl⟩

theorem ends_removeAddress (s : Machine K) :
    (runScript call n leave c sv.removeAddress).Abides .total
      (fun _ t => t.manager = s.manager ∧ t.host = s.host.vacate sv.path) s := by
  unfold Server.removeAddress
  cases sv.path with
  | none => exact ⟨rfl, rfl⟩
  | some path =>
    refine abides_runScript_call (r := .removeFile path) ?_
    show Abides .total _ (onHost (·.removeFile path)) s
    simp only [abides_onHost]
    cases (s.host.removeFile path).1 with
    | ok _ => exact ⟨rfl, rfl⟩
    | error f => exact abides_runScript_call (r := .notice (.addressNotRemoved path f)) ⟨rfl, rfl⟩

theorem ends_stop : (runScript call n leave c (sv.stop id)).Abides .total
    (fun p t => p.1 = sv.stopped ∧
      t.manager = { s.manager with watches := s.manager.watches.withoutReading sv.closing } ∧
      t.host = (sv.closing.foldl Host.close s.host).vacate sv.path) s := by
  unfold Server.stop
  refine abides_runScript_bind ((ends_unwatchAll id _ s).mono fun _ t ⟨_, hhost, hmanager⟩ => ?_)
  refine abides_runScript_bind ((ends_closeAll _ t).mono fun _ t' ht' => ?_)
  subst ht'
  refine abides_runScript_bind ((ends_unwatchAll id _ _).mono fun _ u ⟨_, hhost', hmanager'⟩ => ?_)
  refine abides_runScript_bind ((ends_closeAll _ u).mono fun _ u' hu' => ?_)
  subst hu'
  refine abides_runScript_bind ((ends_removeAddress sv _).mono fun _ v ⟨hv, hvacated⟩ => ?_)
  refine abides_runScript_notify ⟨rfl, ?_, ?_⟩
  · show v.manager = _
    unfold Server.closing WatchTable.withoutReading
    rw [hv, hmanager', hmanager, List.foldl_append]
    rfl
  · show v.host = _
    unfold Server.closing
    rw [hvacated, hhost', hhost, List.foldl_append]

end Scripts

/-! ## Hooks -/

section Hooks

variable {n : Nat} {id : BlockId} {e : Entry Builtin.kit} {sv : Server} {hook : Hook}
  {s : Machine Builtin.kit}

/-- The hook of a live server, if its script leaves the blocks alone. -/
theorem ends_callHook_server {Q : Server → Manager Builtin.kit → Host → Prop}
    {script : Script BuiltinKind Empty Server Server}
    (hhook : sv.hook id hook = Server.leaving script)
    (hget : s.manager.blocks.get? id = some e) (hc : e.contents = some (.server sv))
    (h : ∀ (leave : Server → Run Builtin.kit Unit) (u : Machine Builtin.kit),
      u.manager = (s.away id).manager → u.host = s.host →
      (runScript (callHook n) n leave sv script).Abides .total (fun p t =>
        t.manager.blocks = u.manager.blocks ∧ Q p.1 t.manager t.host) u) :
    (callHook (n + 1) id hook).Abides .total (fun _ t => ∃ sv' m, Q sv' m t.host ∧
      t.manager = m.regaining id (.server sv')) s := by
  unfold callHook enter
  simp only [abides_bind, abides_manager, hget, hc, abides_modifyEntry, abides_record, abides_pause]
  show Abides .total _ (runScript _ _ _ (Builtin.server sv) ((sv.hook id hook).mapState .server))
    (s.entered e.serial id hook)
  rw [runScript_mapState, abides_bind, hhook]
  refine abides_runScript_bind ?_
  refine (h _ (s.entered e.serial id hook) rfl rfl).mono fun p t ht => ?_
  obtain ⟨hblocks, hQ⟩ := ht
  have hentry : t.manager.blocks.get? id = some { e with contents := none } := by
    rw [hblocks]
    show (s.manager.blocks.modify id _).get? id = _
    rw [Keyed.get?_modify, if_pos rfl, hget]
    rfl
  show (Run.leave (K := Builtin.kit) id e.serial (Builtin.server p.1)).Abides .total _ t
  rw [show e.serial = ({ e with contents := none } : Entry Builtin.kit).serial from rfl,
    ends_leave_of_live hentry]
  exact ⟨p.1, t.manager, hQ, rfl⟩

variable (hget : s.manager.blocks.get? id = some e) (hc : e.contents = some (.server sv))

include hget hc

theorem ends_callHook_configure (n : Nat) (conf : String) :
    (callHook (n + 1) id (.configure conf)).Abides .total (fun _ t =>
      t.manager = s.manager.regaining id
        (.server { sv with path := Server.addressAfter sv.path conf }) ∧
      t.host = s.host) s := by
  refine (ends_callHook_server (Q := fun sv' m h =>
    sv' = { sv with path := Server.addressAfter sv.path conf } ∧ m = (s.away id).manager ∧
      h = s.host) rfl hget hc fun leave u hmanager hhost => ?_).mono ?_
  · refine (ends_configure sv id conf).mono fun p t ⟨hp, hm, hh⟩ => ?_
    exact ⟨congrArg _ hm, hp, hm.trans hmanager, hh.trans hhost⟩
  · rintro _ t ⟨sv', m, ⟨rfl, rfl, hh⟩, hm⟩
    exact ⟨hm.trans (s.regaining_of_away id _), hh⟩

theorem ends_callHook_start (n : Nat) : (callHook (n + 1) id .start).Abides .total (fun _ t =>
    ∃ sv' w, sv.Starts id s.manager.watches s.host sv' w t.host ∧
      t.manager = { s.manager.regaining id (.server sv') with watches := w }) s := by
  have hlive : (s.away id).manager.blocks.contains id := by
    unfold Keyed.contains Machine.away
    rw [Keyed.get?_modify, if_pos rfl, hget]
    rfl
  refine (ends_callHook_server (Q := fun sv' m h => ∃ w,
    sv.Starts id s.manager.watches s.host sv' w h ∧
      m = { (s.away id).manager with watches := w }) rfl hget hc
    fun leave u hmanager hhost => ?_).mono ?_
  · refine (ends_start sv id (hmanager ▸ hlive)).mono fun p t ⟨w, hstarts, hm⟩ => ?_
    rw [hmanager] at hstarts hm ⊢
    rw [hhost] at hstarts
    exact ⟨by rw [hm], w, hstarts, hm⟩
  · rintro _ t ⟨sv', m, ⟨w, hstarts, rfl⟩, hm⟩
    refine ⟨sv', w, hstarts, hm.trans ?_⟩
    exact congrArg (fun m => { m with watches := w }) (s.regaining_of_away id _)

theorem ends_callHook_stop (n : Nat) : (callHook (n + 1) id .stop).Abides .total (fun _ t =>
    t.manager = { s.manager.regaining id (.server sv.stopped) with
      watches := s.manager.watches.withoutReading sv.closing } ∧
    t.host = (sv.closing.foldl Host.close s.host).vacate sv.path) s := by
  refine (ends_callHook_server (Q := fun sv' m h => sv' = sv.stopped ∧
    m = { (s.away id).manager with watches := s.manager.watches.withoutReading sv.closing } ∧
      h = (sv.closing.foldl Host.close s.host).vacate sv.path) rfl hget hc
    fun leave u hmanager hhost => ?_).mono ?_
  · refine (ends_stop sv id).mono fun p t ⟨hp, hm, hh⟩ => ?_
    rw [hmanager] at hm ⊢
    rw [hhost] at hh
    exact ⟨by rw [hm], hp, hm, hh⟩
  · rintro _ t ⟨sv', m, ⟨rfl, rfl, hh⟩, hm⟩
    refine ⟨hm.trans ?_, hh⟩
    exact congrArg (fun m => { m with watches := s.manager.watches.withoutReading sv.closing })
      (s.regaining_of_away id _)

end Hooks

end Run

end BlockFlow
