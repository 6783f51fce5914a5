import BlockFlow.Proofs.Addresses
import BlockFlow.Proofs.ServerHooks

/-!
# The file that a server removes

A server that stops removes the file at the address that its configuration named last. That is the
file of its listener, unless another address was named since the listener was opened.

1. `Server.Starts.listenerAt`, `Host.loses_vacate`: what starting and stopping do to files.
2. `Machine.HasServer`, `ends_conf_server`, `ends_start_server`, `ends_stop_server`: what the
   operations do to the block of a server.
3. `Server.Life`: a server that is configured, started and stopped in any order.
4. `vacancy`: the file that a stop removes; `not_vacatesOwn`: it is not always that of the listener.
-/

namespace BlockFlow

open Run

/-! ## Files -/

namespace Host

variable {h : Host} {path : String} {fd : Fd} {f : Failure}

theorem files_close (h : Host) (fd : Fd) : (h.close fd).files = h.files := by
  unfold close
  cases h.descriptors.get? fd with
  | none => rfl
  | some opened => cases opened <;> rfl

theorem files_foldl_close (fds : List Fd) (h : Host) : (fds.foldl close h).files = h.files := by
  induction fds generalizing h with
  | nil => rfl
  | cons fd fds ih => exact (ih _).trans (h.files_close fd)

theorem listeners_removeFile (h : Host) (path : String) :
    (h.removeFile path).2.listeners = h.listeners := by
  unfold removeFile
  cases h.files.remove path <;> rfl

/-- A listener that was opened is found at its address. -/
theorem listenerAt_of_listen (hlisten : (h.listen path).1 = .ok fd) :
    (h.listen path).2.files.listenerAt path = .ok h.listeners := by
  unfold listen at hlisten ⊢
  cases hsocket : h.files.makeSocket path h.listeners with
  | error f =>
    rw [hsocket] at hlisten
    cases hlisten
  | ok files => exact Files.listenerAt_of_makeSocket hsocket

/-- What is removed is the file at the address. -/
theorem loses_vacate (h : Host) (path : Option String) :
    h.files.Loses (h.vacate path).files path := by
  cases path with
  | none => exact h.files.loses_none
  | some path =>
    show h.files.Loses (h.removeFile path).2.files (some path)
    unfold removeFile
    cases hremove : h.files.remove path with
    | ok files =>
      show h.files.Loses files (some path)
      exact Files.loses_remove hremove
    | error f =>
      show h.files.Loses h.files (some path)
      exact Files.loses_of_remove_error hremove

end Host

namespace Server.Starts

variable {sv sv' : Server} {id : BlockId} {w w' : WatchTable} {h h' : Host}
  (hstarts : sv.Starts id w h sv' w' h')

include hstarts

theorem path_eq : sv'.path = sv.path := by
  cases hstarts with
  | unaddressed | unbound | unwatched | listening => rfl

/-- If a listener was opened, it is found at the address of the server. -/
theorem listenerAt (hbound : h'.listeners ≠ h.listeners) :
    ∃ p, sv.path = some p ∧ h'.files.listenerAt p = .ok h.listeners := by
  cases hstarts with
  | unaddressed => exact absurd rfl hbound
  | unbound => exact absurd (h.listeners_removeFile _) hbound
  | unwatched hpath hlisten =>
    refine ⟨_, hpath, ?_⟩
    rw [Host.files_close, Host.listenerAt_of_listen hlisten, Host.listeners_removeFile]
  | listening hpath hlisten =>
    refine ⟨_, hpath, ?_⟩
    rw [Host.listenerAt_of_listen hlisten, Host.listeners_removeFile]

end Server.Starts

/-! ## Operations -/

/-- A block is live with a server as its contents, and in a state. -/
def Machine.HasServer (s : Machine Builtin.kit) (id : BlockId) (sv : Server) (st : State) : Prop :=
  ∃ e, s.manager.blocks.get? id = some e ∧ e.contents = some (.server sv) ∧ e.state = st

def Machine.withState {K : Kit} (s : Machine K) (id : BlockId) (st : State) : Machine K :=
  { s with manager.blocks := s.manager.blocks.modify id ({ · with state := st }) }

namespace Machine.HasServer

variable {s t : Machine Builtin.kit} {id : BlockId} {sv sv' : Server} {st : State}

/-- The server comes back from a hook. -/
theorem of_regaining (h : s.HasServer id sv st)
    (hblocks : t.manager.blocks = (s.manager.regaining id (.server sv')).blocks) :
    t.HasServer id sv' st := by
  obtain ⟨e, hget, -, rfl⟩ := h
  refine ⟨{ e with contents := some (.server sv') }, ?_, rfl, rfl⟩
  rw [hblocks]
  show (s.manager.blocks.modify id _).get? id = _
  rw [Keyed.get?_modify, if_pos rfl, hget]
  rfl

theorem withState (h : s.HasServer id sv st) (st' : State) :
    (s.withState id st').HasServer id sv st' := by
  obtain ⟨e, hget, hc, -⟩ := h
  refine ⟨{ e with state := st' }, ?_, hc, rfl⟩
  show (s.manager.blocks.modify id _).get? id = _
  rw [Keyed.get?_modify, if_pos rfl, hget]
  rfl

end Machine.HasServer

namespace Run

variable {s : Machine Builtin.kit} {id : BlockId} {sv : Server} {st : State}

/-- A server that is added is stopped and has no address. -/
theorem ends_add_server {type : String} (hserver : s.manager.factories.get? type = some .server) :
    (add id type).Abides .total (fun x t => x = .ok () → t.HasServer id {} .stopped) s := by
  unfold add
  rw [abides_bind, abides_manager]
  split
  · exact fun h => by cases h
  split
  · exact fun h => by cases h
  rw [hserver]
  intro _
  refine ⟨{ serial := s.manager.built, type, contents := some (.server {}) }, ?_, rfl, rfl⟩
  show (s.manager.blocks.insert id _).get? id = _
  rw [Keyed.get?_insert, if_pos rfl]
  rfl

variable (hs : s.HasServer id sv st) (n : Nat)

include hs

theorem ends_conf_server (entry : String) : (conf (callHook (n + 1)) id entry).Abides .total
    (fun x t => x = .ok () ∧ ∃ sv', t.HasServer id sv' st ∧
      sv'.path = Server.addressAfter sv.path entry) s := by
  obtain ⟨e, hget, hc, hst⟩ := hs
  unfold conf withIdle
  simp only [abides_bind, abides_manager, hget, hc, abides_notify, abides_discard, abides_pure]
  let u := { s with events := .notice (.configured id entry) :: s.events }
  refine (ends_callHook_configure (s := u) hget hc n entry).mono fun _ t ht => ?_
  obtain ⟨hmanager, -⟩ := ht
  have hafter := Machine.HasServer.of_regaining ⟨e, hget, hc, hst⟩ (congrArg (·.blocks) hmanager)
  exact ⟨trivial, _, hafter, rfl⟩

/-- A server is started. If a listener is opened, it is found at the address of the server. -/
theorem ends_start_server : (start (callHook (n + 1)) id).Abides .total
    (fun x t => x = .ok () ∧ (∃ sv', t.HasServer id sv' .started ∧ sv'.path = sv.path) ∧
      (t.host.listeners ≠ s.host.listeners →
        ∃ p, sv.path = some p ∧ t.host.files.listenerAt p = .ok s.host.listeners)) s := by
  obtain ⟨e, hget, hc, -⟩ := hs
  unfold start withIdle
  simp only [abides_bind, abides_manager, hget, hc]
  cases hstate : e.state with
  | started => exact ⟨rfl, ⟨sv, ⟨e, hget, hc, hstate⟩, rfl⟩, fun h => absurd rfl h⟩
  | stopped =>
    simp only [abides_bind, abides_modifyEntry, abides_notify, abides_discard, abides_pure]
    obtain ⟨e', hget', hc', hst'⟩ := Machine.HasServer.withState ⟨e, hget, hc, hstate⟩ .started
    let u := { s.withState id .started with events := .notice (.started id) :: s.events }
    refine (ends_callHook_start (s := u) hget' hc' n).mono
      fun _ t ht => ?_
    obtain ⟨sv', w, hstarts, hmanager⟩ := ht
    have hafter : t.HasServer id sv' .started :=
      .of_regaining ⟨e', hget', hc', hst'⟩ (congrArg (·.blocks) hmanager)
    exact ⟨trivial, ⟨sv', hafter, hstarts.path_eq⟩, hstarts.listenerAt⟩

/-- A server that is stopped removes the file at its address, and nothing else. If it has stopped
already, it removes nothing. -/
theorem ends_stop_server : (stop (callHook (n + 1)) id).Abides .total
    (fun x t => x = .ok () ∧ (∃ sv', t.HasServer id sv' .stopped ∧ sv'.path = sv.path) ∧
      s.host.files.Loses t.host.files (if st = .started then sv.path else none)) s := by
  obtain ⟨e, hget, hc, rfl⟩ := hs
  unfold stop withIdle
  simp only [abides_bind, abides_manager, hget, hc]
  cases hstate : e.state with
  | stopped => exact ⟨rfl, ⟨sv, ⟨e, hget, hc, hstate⟩, rfl⟩, s.host.files.loses_none⟩
  | started =>
    simp only [abides_bind, abides_modifyEntry, abides_notify, abides_discard, abides_pure]
    obtain ⟨e', hget', hc', hst'⟩ := Machine.HasServer.withState ⟨e, hget, hc, hstate⟩ .stopped
    let u := { s.withState id .stopped with events := .notice (.stopped id) :: s.events }
    refine (ends_callHook_stop (s := u) hget' hc' n).mono
      fun _ t ht => ?_
    obtain ⟨hmanager, hhost⟩ := ht
    have hafter : t.HasServer id sv.stopped .stopped :=
      .of_regaining ⟨e', hget', hc', hst'⟩ (congrArg (·.blocks) hmanager)
    refine ⟨trivial, ⟨_, hafter, rfl⟩, ?_⟩
    have hloses := Host.loses_vacate (sv.closing.foldl Host.close s.host) sv.path
    rw [Host.files_foldl_close] at hloses
    rw [hhost]
    exact hloses

end Run

/-! ## The life of a server -/

/-- From one machine to another a server stays live, outside of its hooks, in the same state and
with the same address. -/
def Machine.SparesServer (s : Machine Builtin.kit) (id : BlockId) (t : Machine Builtin.kit) :
    Prop :=
  ∀ sv st, s.HasServer id sv st → ∃ sv', t.HasServer id sv' st ∧ sv'.path = sv.path

/-- A server was added, and has been configured, started and stopped in any order since. The first
address is the one that its configuration named last. The second one is the address that its server
had when its present start opened a listener. -/
inductive Server.Life (id : BlockId) :
    (named bound : Option String) → Machine Builtin.kit → Prop
  | added {s t : Machine Builtin.kit} {type : String}
    (hserver : s.manager.factories.get? type = some .server)
    (hrun : s.run? (Run.add id type) = some (.ok (.ok ()), t)) : Life id none none t
  | configured {named bound : Option String} {s t : Machine Builtin.kit} {n : Nat} {entry : String}
    {x : Except Breakdown (Except EngineError Unit)} (h : Life id named bound s)
    (hrun : s.run? (Run.conf (callHook (n + 1)) id entry) = some (x, t)) :
    Life id (addressAfter named entry) bound t
  | started {named bound : Option String} {s t : Machine Builtin.kit} {n : Nat}
    {x : Except Breakdown (Except EngineError Unit)} (h : Life id named bound s)
    (hrun : s.run? (Run.start (callHook (n + 1)) id) = some (x, t)) :
    Life id named (if t.host.listeners = s.host.listeners then bound else named) t
  | stopped {named bound : Option String} {s t : Machine Builtin.kit} {n : Nat}
    {x : Except Breakdown (Except EngineError Unit)} (h : Life id named bound s)
    (hrun : s.run? (Run.stop (callHook (n + 1)) id) = some (x, t)) : Life id named none t
  /-- Something else happens. -/
  | meanwhile {named bound : Option String} {s t : Machine Builtin.kit} (h : Life id named bound s)
    (hspares : s.SparesServer id t) : Life id named bound t

/-- A block is the server that it was added as, with the address that was named last. If its present
start opened a listener, it is started. -/
structure Machine.ServesAt (s : Machine Builtin.kit) (id : BlockId) (named bound : Option String)
    (st : State) : Prop where
  server : ∃ sv, s.HasServer id sv st ∧ sv.path = named
  started (hbound : bound ≠ none) : st = .started

namespace Server.Life

variable {id : BlockId} {named bound : Option String} {s t : Machine Builtin.kit}

theorem servesAt (h : Life id named bound s) : ∃ st, s.ServesAt id named bound st := by
  induction h with
  | added hserver hrun =>
    obtain ⟨_, hx, ht⟩ := (ends_add_server hserver).of_run? hrun
    cases hx
    exact ⟨.stopped, ⟨{}, ht rfl, rfl⟩, fun h => absurd rfl h⟩
  | configured _ hrun ih =>
    obtain ⟨st, ⟨sv, hs, rfl⟩, hstarted⟩ := ih
    obtain ⟨_, -, -, sv', ht, hpath⟩ := (ends_conf_server hs _ _).of_run? hrun
    exact ⟨st, ⟨sv', ht, hpath⟩, hstarted⟩
  | started _ hrun ih =>
    obtain ⟨st, ⟨sv, hs, rfl⟩, -⟩ := ih
    obtain ⟨_, -, -, ⟨sv', ht, hpath⟩, -⟩ := (ends_start_server hs _).of_run? hrun
    exact ⟨.started, ⟨sv', ht, hpath⟩, fun _ => rfl⟩
  | stopped _ hrun ih =>
    obtain ⟨st, ⟨sv, hs, rfl⟩, -⟩ := ih
    obtain ⟨_, -, -, ⟨sv', ht, hpath⟩, -⟩ := (ends_stop_server hs _).of_run? hrun
    exact ⟨.stopped, ⟨sv', ht, hpath⟩, fun h => absurd rfl h⟩
  | meanwhile _ hspares ih =>
    obtain ⟨st, ⟨sv, hs, rfl⟩, hstarted⟩ := ih
    obtain ⟨sv', ht, hpath⟩ := hspares sv st hs
    exact ⟨st, ⟨sv', ht, hpath⟩, hstarted⟩

end Server.Life

/-- A stop succeeds, and no file is lost by it but the one at an address, if there is one. -/
def Machine.StopLoses (s : Machine Builtin.kit) (n : Nat) (id : BlockId) (lost : Option String) :
    Prop :=
  (stop (callHook (n + 1)) id).Abides .total
    (fun x t => x = .ok () ∧ s.host.files.Loses t.host.files lost) s

/-- A server that is stopped loses the file at the address that was named last, and no other; one
that has stopped already loses none. So it loses the file of its listener, and no other, if no other
address was named since. A listener that is opened is found at the address that was named last. -/
theorem vacancy {id : BlockId} {named bound : Option String} {s : Machine Builtin.kit}
    (h : Server.Life id named bound s) (n : Nat) :
    (∃ st, s.ServesAt id named bound st ∧
      s.StopLoses n id (if st = .started then named else none) ∧
      (named = bound → s.StopLoses n id bound)) ∧
    (start (callHook (n + 1)) id).Abides .total (fun x t => x = .ok () ∧
      (t.host.listeners ≠ s.host.listeners →
        ∃ p, named = some p ∧ t.host.files.listenerAt p = .ok s.host.listeners)) s := by
  obtain ⟨st, hserves⟩ := h.servesAt
  obtain ⟨sv, hs, rfl⟩ := hserves.server
  have hstop : s.StopLoses n id (if st = .started then sv.path else none) :=
    (ends_stop_server hs n).mono fun _ _ ht => ⟨ht.1, ht.2.2⟩
  refine ⟨⟨st, hserves, hstop, ?_⟩, (ends_start_server hs n).mono fun _ _ ht => ⟨ht.1, ht.2.2⟩⟩
  rintro rfl
  cases hpath : sv.path with
  | none => rwa [hpath, ite_self] at hstop
  | some p =>
    have hst : st = .started := hserves.started (by simp [hpath])
    rwa [if_pos hst, hpath] at hstop

/-! ## A server with another address -/

def vacant : Machine Builtin.kit :=
  { manager := { (.fresh {} : Manager Builtin.kit) with
      factories := Keyed.empty.insert "ncli" .server }
    host := .manual }

def addressed : Machine Builtin.kit :=
  (vacant.after (add ⟨1⟩ "ncli")).after (conf (callHook 1) ⟨1⟩ "path=a")

def listening : Machine Builtin.kit := addressed.after (start (callHook 1) ⟨1⟩)

/-- The server has got the address `b`, after a file was made there. -/
def renamed : Machine Builtin.kit :=
  { listening with host := (listening.host.act (.makeFile "b" [0x78])).2 }.after
    (conf (callHook 1) ⟨1⟩ "path=b")

theorem life_listening : Server.Life ⟨1⟩ (some "a") (some "a") listening := by
  have hadd : vacant.run? (add ⟨1⟩ "ncli") =
      some (.ok (.ok ()), vacant.after (add ⟨1⟩ "ncli")) := rfl
  obtain ⟨_, hconf⟩ := (vacant.after (add ⟨1⟩ "ncli")).run?_after
    (r := conf (callHook 1) ⟨1⟩ "path=a") (by decide +kernel)
  obtain ⟨_, hstart⟩ := addressed.run?_after (r := start (callHook 1) ⟨1⟩) (by decide +kernel)
  have hnamed : Server.addressAfter none "path=a" = some "a" := by decide +kernel
  have hopened : listening.host.listeners ≠ addressed.host.listeners := by decide +kernel
  have hlife : Server.Life ⟨1⟩ (Server.addressAfter none "path=a")
      (if listening.host.listeners = addressed.host.listeners then none
        else Server.addressAfter none "path=a") listening :=
    .started (.configured (.added rfl hadd) hconf) hstart
  rwa [if_neg hopened, hnamed] at hlife

theorem life_renamed : Server.Life ⟨1⟩ (some "b") (some "a") renamed := by
  let s := { listening with host := (listening.host.act (.makeFile "b" [0x78])).2 }
  obtain ⟨_, hconf⟩ := s.run?_after (r := conf (callHook 1) ⟨1⟩ "path=b") (by decide +kernel)
  have hspares : listening.SparesServer ⟨1⟩ s := fun sv st h => ⟨sv, h, rfl⟩
  have hnamed : Server.addressAfter (some "a") "path=b" = some "b" := by decide +kernel
  exact hnamed ▸ .configured (.meanwhile life_listening hspares) hconf

/-- The server removes the file at `b` when it stops. -/
theorem vacancy_renamed : Server.Life ⟨1⟩ (some "b") (some "a") renamed ∧
    renamed.StopLoses 0 ⟨1⟩ (some "b") := by
  obtain ⟨⟨st, hserves, hstop, -⟩, -⟩ := vacancy life_renamed 0
  rw [hserves.started (Option.some_ne_none _), if_pos rfl] at hstop
  exact ⟨life_renamed, hstop⟩

/-- Every stop of a server removes the file of the listener that its present start opened, and no
other; if no listener was opened, no file. -/
def Server.VacatesOwn : Prop :=
  ∀ (id : BlockId) (named bound : Option String) (s : Machine Builtin.kit) (n : Nat),
    Life id named bound s → s.StopLoses n id bound

/-- A server does not always remove the file of its listener: the one that was to listen at `b` next
leaves the file at `a`. -/
theorem not_vacatesOwn : ¬ Server.VacatesOwn := by
  intro h
  have hstop := h ⟨1⟩ _ _ renamed 0 life_renamed
  obtain ⟨_, hrun⟩ := renamed.run?_after (r := stop (callHook 1) ⟨1⟩) (by decide +kernel)
  obtain ⟨_, -, -, hloses⟩ := hstop.of_run? hrun
  have haddress : renamed.host.files.listenerAt "a" = .ok 0 := by decide +kernel
  obtain ⟨way, hfile⟩ := Host.Files.isFile_of_listenerAt haddress
  have hleft : (renamed.after (stop (callHook 1) ⟨1⟩)).host.files.exists? "a" = true := by
    decide +kernel
  rw [Host.Files.exists?, hloses.gone rfl hfile] at hleft
  cases hleft

end BlockFlow
