import BlockFlow.Block.Builtin
import BlockFlow.Proofs.CalmHook
import BlockFlow.Proofs.Enrolment
import Mathlib.Data.List.Basic

/-!
# Streams that commands leave alone

Commands open listeners and close descriptors. A stream that is still open after them, and on which
something can still be sent, is the one that was there before, and is as it was: no command opens a
stream, and none does anything to a stream but close it.

1. `Streams.LeavesOpen`, `Host.Untouched`, `Machine.Untouched`: what is said of a descriptor.
2. `Host.untouched_close`, `Host.untouched_listen`: what hooks of servers do on the host.
3. `Run.Leaves`, `leaves_builtin`: these hooks, and those of the other built-in blocks.
-/

namespace BlockFlow

namespace Host

/-! ## Connections -/

theorem Endpoint.other_other (e : Endpoint) : e.other.other = e := by
  unfold other
  rw [Bool.not_not]

theorem Endpoint.eq_or_eq_other {e e' : Endpoint} (h : e'.connection = e.connection) :
    e' = e ∨ e' = e.other := by
  obtain ⟨n, b⟩ := e
  obtain ⟨n', b'⟩ := e'
  subst h
  cases b <;> cases b' <;> simp [other]

namespace Streams

variable {t t' t'' : Streams} {e e' : Endpoint} {f : Side → Side} {n : Nat} {refused : Bool}

theorem side_congr (h : t'.connections[e.connection]? = t.connections[e.connection]?)
    (he : e'.connection = e.connection) : t'.side e' = t.side e' := by
  unfold side
  rw [List.getD_eq_getElem?_getD, List.getD_eq_getElem?_getD, he, h]

theorem length_modify (t : Streams) (e : Endpoint) (f : Side → Side) :
    (t.modify e f).connections.length = t.connections.length := List.length_modify ..

theorem getElem?_modify_of_ne (h : e.connection ≠ n) :
    (t.modify e f).connections[n]? = t.connections[n]? := by
  unfold modify
  simp only [List.getElem?_modify, if_neg h]
  exact id_map _

theorem side_modify_self (h : e.connection < t.connections.length) :
    (t.modify e f).side e = f (t.side e) := by
  unfold side modify
  rw [List.getD_eq_getElem?_getD, List.getD_eq_getElem?_getD, List.getElem?_modify_eq,
    List.getElem?_eq_getElem h]
  cases he : e.isSecond <;> simp

theorem side_modify_other (t : Streams) (e : Endpoint) (f : Side → Side) :
    (t.modify e f).side e.other = t.side e.other := by
  unfold side modify Endpoint.other
  rw [List.getD_eq_getElem?_getD, List.getD_eq_getElem?_getD, List.getElem?_modify_eq]
  cases t.connections[e.connection]? with
  | none => rfl
  | some c => cases he : e.isSecond <;> rfl

/-- From some connections to others, a connection at an end of which something can still be sent is
as it was. -/
structure LeavesOpen (t t' : Streams) : Prop where
  length_eq : t'.connections.length = t.connections.length
  getElem?_eq {e : Endpoint} (h : (t'.side e).outputEnded = false) :
    t'.connections[e.connection]? = t.connections[e.connection]?

namespace LeavesOpen

theorem refl (t : Streams) : t.LeavesOpen t := ⟨rfl, fun _ => rfl⟩

theorem trans (h : t.LeavesOpen t') (h' : t'.LeavesOpen t'') : t.LeavesOpen t'' where
  length_eq := h'.length_eq.trans h.length_eq
  getElem?_eq {e} he := by
    have hconn := h'.getElem?_eq he
    rw [side_congr hconn rfl] at he
    exact hconn.trans (h.getElem?_eq he)

theorem side_eq (h : t.LeavesOpen t') (he : (t'.side e).outputEnded = false)
    (he' : e'.connection = e.connection) : t'.side e' = t.side e' :=
  side_congr (h.getElem?_eq he) he'

end LeavesOpen

/-- At both ends of a connection that is closed nothing more can be sent. -/
theorem outputEnded_close (h : e.connection < t.connections.length)
    (he : e'.connection = e.connection) : ((t.close e refused).side e').outputEnded = true := by
  unfold close
  rcases Endpoint.eq_or_eq_other he with rfl | rfl
  · have hother := side_modify_other (t.modify e' fun _ =>
      { inputEnded := true, outputEnded := true }) e'.other fun s => { s with
        inputEnded := true, outputEnded := true,
        reset := s.reset || (refused || !(t.side e').inbox.isEmpty) }
    rw [Endpoint.other_other] at hother
    rw [hother, side_modify_self h]
  · have hlength : e.other.connection < (t.modify e fun _ =>
        { inputEnded := true, outputEnded := true }).connections.length := by
      rw [length_modify]
      exact h
    rw [side_modify_self hlength]

theorem leavesOpen_close (t : Streams) (e : Endpoint) (refused : Bool) :
    t.LeavesOpen (t.close e refused) where
  length_eq := by
    unfold close
    rw [length_modify, length_modify]
  getElem?_eq {e'} h := by
    by_cases he : e'.connection = e.connection
    · by_cases hlt : e.connection < t.connections.length
      · rw [outputEnded_close hlt he] at h
        cases h
      · -- There is no such connection, so nothing is closed.
        rw [he, List.getElem?_eq_none (Nat.not_lt.1 hlt), List.getElem?_eq_none]
        unfold close
        rw [length_modify, length_modify]
        exact Nat.not_lt.1 hlt
    · have hself : e.connection ≠ e'.connection := Ne.symm he
      have hother : e.other.connection ≠ e'.connection := hself
      unfold close
      dsimp only
      rw [getElem?_modify_of_ne hother, getElem?_modify_of_ne hself]

theorem leavesOpen_foldl_close (t : Streams) (ns : List Nat) :
    t.LeavesOpen (ns.foldl (fun t n => t.close ⟨n, true⟩ true) t) := by
  induction ns generalizing t with
  | nil => exact .refl t
  | cons n ns ih => exact (t.leavesOpen_close _ _).trans (ih _)

end Streams

/-! ## Descriptors of a host -/

/-- From one host to another a descriptor is not opened on a stream, and connections that are still
open are as they were. -/
structure Untouched (fd : Fd) (h h' : Host) : Prop where
  stream {e : Endpoint} (he : h'.descriptors.get? fd = some (.stream e)) :
    h.descriptors.get? fd = some (.stream e)
  streams : h.streams.LeavesOpen h'.streams

variable {fd : Fd} {h h' h'' : Host}

theorem Untouched.refl (fd : Fd) (h : Host) : h.Untouched fd h := ⟨id, .refl _⟩

theorem Untouched.trans (hh' : h.Untouched fd h') (hh'' : h'.Untouched fd h'') :
    h.Untouched fd h'' :=
  ⟨fun he => hh'.stream (hh''.stream he), hh'.streams.trans hh''.streams⟩

theorem descriptors_close (h : Host) (fd : Fd) :
    (h.close fd).descriptors = h.descriptors.erase fd := by
  unfold close
  cases hopen : h.descriptors.get? fd with
  | none => exact (Keyed.erase_of_get?_eq_none hopen).symm
  | some opened => cases opened <;> rfl

theorem get?_close (h : Host) (fd fd' : Fd) :
    (h.close fd').descriptors.get? fd = if fd' = fd then none else h.descriptors.get? fd := by
  rw [descriptors_close]
  exact Keyed.get?_erase ..

theorem untouched_close (fd : Fd) (h : Host) (fd' : Fd) : h.Untouched fd (h.close fd') where
  stream he := by
    rw [get?_close] at he
    split at he
    · cases he
    · exact he
  streams := by
    unfold close
    cases h.descriptors.get? fd' with
    | none => exact .refl _
    | some opened =>
      cases opened with
      | stream e => exact h.streams.leavesOpen_close e false
      | listener _ waiting => exact h.streams.leavesOpen_foldl_close waiting

theorem get?_foldl_close {fds : List Fd} (hfd : fd ∈ fds) (h : Host) :
    (fds.foldl close h).descriptors.get? fd = none := by
  have hnone (fds : List Fd) (h : Host) (hh : h.descriptors.get? fd = none) :
      (fds.foldl close h).descriptors.get? fd = none := by
    induction fds generalizing h with
    | nil => exact hh
    | cons fd' fds ih =>
      refine ih _ ?_
      rw [get?_close, hh, ite_self]
  induction fds generalizing h with
  | nil => cases hfd
  | cons fd' fds ih =>
    rcases List.mem_cons.1 hfd with rfl | hfd
    · refine hnone fds _ ?_
      rw [get?_close, if_pos rfl]
    · exact ih hfd _

theorem untouched_foldl_close (fd : Fd) (h : Host) (fds : List Fd) :
    h.Untouched fd (fds.foldl close h) := by
  induction fds generalizing h with
  | nil => exact .refl fd h
  | cons fd' fds ih => exact (h.untouched_close fd fd').trans (ih _)

theorem untouched_removeFile (fd : Fd) (h : Host) (path : String) :
    h.Untouched fd (h.removeFile path).2 := by
  unfold removeFile
  split
  · exact ⟨id, .refl _⟩
  · exact .refl fd h

/-- A new listener is no stream. -/
theorem untouched_listen (fd : Fd) (h : Host) (path : String) :
    h.Untouched fd (h.listen path).2 := by
  unfold listen
  split
  · exact .refl fd h
  · refine ⟨fun he => ?_, .refl _⟩
    rcases Keyed.of_get?_insert he with ⟨-, hopened⟩ | ⟨-, he⟩
    · cases hopened
    · exact he

theorem get?_listen {path : String} {fd' : Fd} (hfd : (h.listen path).1 = .ok fd') :
    ∀ e, (h.listen path).2.descriptors.get? fd' ≠ some (.stream e) := by
  unfold listen at hfd ⊢
  split at hfd
  · cases hfd
  · cases hfd
    intro e he
    rcases Keyed.of_get?_insert he with ⟨-, hopened⟩ | ⟨hne, -⟩
    · cases hopened
    · exact hne rfl

end Host

/-! ## Descriptors of a machine -/

/-- The watches without the interest in reading from some descriptors. -/
def WatchTable.withoutReading (t : WatchTable) (fds : List Fd) : WatchTable :=
  fds.foldl (fun t fd => t.remove ⟨fd, none⟩ ⟨true, false⟩) t

theorem WatchTable.watchOf?_withoutReading {t : WatchTable} {fds : List Fd} {fd : Fd}
    (h : fd ∉ fds) : (t.withoutReading fds).watchOf? ⟨fd, none⟩ = t.watchOf? ⟨fd, none⟩ := by
  induction fds generalizing t with
  | nil => rfl
  | cons fd' fds ih =>
    have hne : (⟨fd', none⟩ : Source) ≠ ⟨fd, none⟩ := fun heq => h (by
      rw [← show fd' = fd from congrArg Source.fd heq]
      exact .head _)
    exact (ih fun hmem => h (.tail _ hmem)).trans (watchOf?_remove_of_ne _ hne)

variable {K : Kit} {α β : Type} {fd : Fd}

/-- From one machine to another nothing is done to a descriptor that is still open on a stream, and
the stream is as it was, unless nothing can be sent on it any more. -/
structure Machine.Untouched (fd : Fd) (s t : Machine K) : Prop where
  events : s.events <:+ t.events
  host : s.host.Untouched fd t.host
  watch {e : Host.Endpoint} (he : t.host.descriptors.get? fd = some (.stream e)) :
    t.manager.watches.watchOf? ⟨fd, none⟩ = s.manager.watches.watchOf? ⟨fd, none⟩

namespace Machine.Untouched

variable {s t u : Machine K}

theorem refl (fd : Fd) (s : Machine K) : s.Untouched fd s :=
  ⟨List.suffix_rfl, .refl fd _, fun _ => rfl⟩

theorem trans (h : s.Untouched fd t) (h' : t.Untouched fd u) : s.Untouched fd u where
  events := h.events.trans h'.events
  host := h.host.trans h'.host
  watch he := (h'.watch he).trans (h.watch (h'.host.stream he))

theorem of_watches (hevents : s.events <:+ t.events) (hhost : s.host.Untouched fd t.host)
    (hwatches : t.manager.watches = s.manager.watches) : s.Untouched fd t :=
  ⟨hevents, hhost, fun _ => by rw [hwatches]⟩

/-! ### One more step -/

theorem record (h : s.Untouched fd t) (e : Event K) :
    s.Untouched fd { t with events := e :: t.events } :=
  h.trans (.of_watches (List.suffix_cons _ _) (.refl fd _) rfl)

theorem onHost (h : s.Untouched fd t) {host : Host} (hhost : t.host.Untouched fd host) :
    s.Untouched fd { t with host } :=
  h.trans (.of_watches List.suffix_rfl hhost rfl)

theorem onManager (h : s.Untouched fd t) {m : Manager K}
    (hm : m.watches = t.manager.watches) : s.Untouched fd { t with manager := m } :=
  h.trans (.of_watches List.suffix_rfl (.refl fd _) hm)

end Machine.Untouched

/-! ## Scripts -/

/-- Requests of hooks that leave all streams untouched. -/
def Request.IsGentle {F M : Type} : Request F M → Prop
  | .listen _ => True
  | .close _ => True
  | .removeFile _ => True
  | .notice _ => True
  | _ => False

def Script.IsGentle {F M S α : Type} : Script F M S α → Prop
  | .done _ => True
  | .keep _ next => next.IsGentle
  | .call r next => r.IsGentle ∧ ∀ x, (next x).IsGentle

section Gentle

variable {F M S : Type}

namespace Server

theorem isGentle_closeAll (fds : List Fd) : (closeAll fds : Script F M S Unit).IsGentle := by
  induction fds with
  | nil => trivial
  | cons fd fds ih => exact ⟨trivial, fun _ => ih⟩

theorem isGentle_removeAddress (sv : Server) : (sv.removeAddress : Script F M S Unit).IsGentle := by
  unfold removeAddress
  cases sv.path with
  | none => trivial
  | some path =>
    refine ⟨trivial, fun x => ?_⟩
    cases x with
    | ok _ => trivial
    | error f => exact ⟨trivial, fun _ => trivial⟩

theorem isGentle_applyEntries (id : BlockId) (sv : Server) (entries : List (List Char)) :
    (applyEntries id sv entries : Script F M S Server).IsGentle := by
  induction entries generalizing sv with
  | nil => trivial
  | cons entry entries ih =>
    unfold applyEntries
    split
    · exact ih _
    · exact ⟨trivial, fun _ => ih _⟩

end Server

/-- A hook of a hello block that an operation calls makes a notice. -/
theorem Hello.isGentle_hook (h : Hello) (id : BlockId) {hook : Hook} (hhook : hook.IsLifecycle) :
    (h.hook id hook : Script F M Hello Reply).IsGentle := by
  cases hook with
  | bind | start | stop | configure => exact ⟨trivial, fun _ => trivial⟩
  | _ => exact hhook.elim

end Gentle

namespace Run

variable {call : Call K} {n : Nat} {s t : Machine K}

/-- A run comes to a result and leaves a descriptor untouched. -/
def Leaves (fd : Fd) (r : Run K α) (s : Machine K) : Prop :=
  r.Abides .total (fun _ t => s.Untouched fd t) s

theorem Leaves.bind {r : Run K α} {f : α → Run K β} (hr : r.Leaves fd s)
    (hf : ∀ a t, s.Untouched fd t → (f a).Leaves fd t) : (r >>= f).Leaves fd s := by
  unfold Leaves
  rw [abides_bind]
  refine Abides.mono hr fun a t ht => ?_
  exact Abides.mono (hf a t ht) fun _ u hu => ht.trans hu

theorem leaves_pure (a : α) (s : Machine K) : (pure a : Run K α).Leaves fd s := .refl fd s

theorem leaves_record (e : Event K) (s : Machine K) : (record e).Leaves fd s :=
  Machine.Untouched.record (.refl fd s) e

theorem leaves_onHost {f : Host → α × Host} (hf : ∀ h, Host.Untouched fd h (f h).2)
    (s : Machine K) : (onHost f : Run K α).Leaves fd s :=
  Machine.Untouched.onHost (.refl fd s) (hf s.host)

/-- The watch of a descriptor stays as it is when other ones are watched or not. -/
theorem leaves_watch {w : Watch}
    (hw : ∀ e, s.host.descriptors.get? fd = some (.stream e) → w.source ≠ ⟨fd, none⟩) :
    (watch w).Leaves fd s := by
  unfold Leaves watch
  rw [abides_bind, abides_manager]
  split
  · split
    · rw [abides_refuse]
      exact .record (.refl fd s) _
    · next watches hadd =>
      simp only [abides_bind, abides_commit, abides_notify, abides_pure]
      have hadded : s.Untouched fd
          { s with manager.watches := watches, events := .enlisted w :: s.events } :=
        ⟨List.suffix_cons _ _, .refl fd _, fun he => WatchTable.watchOf?_add_of_ne hadd (hw _ he)⟩
      exact hadded.record _
  · rw [abides_refuse]
    exact .record (.refl fd s) _

theorem leaves_perform {r : Request K.Factory K.Remark} (hr : r.IsGentle) (s : Machine K) :
    (perform call n r).Leaves fd s := by
  cases r with
  | listen path => exact leaves_onHost (Host.untouched_listen fd · path) s
  | close fd' =>
    have hclose (h : Host) : Host.Untouched fd h ((), h.close fd').2 := h.untouched_close fd fd'
    exact leaves_onHost hclose s
  | removeFile path => exact leaves_onHost (Host.untouched_removeFile fd · path) s
  | notice note => exact leaves_record (.notice note) s
  | _ => exact hr.elim

section Scripts

variable {S : Type} {leave : S → Run K Unit} {c : S}

theorem leaves_runScript_call {r : Request K.Factory K.Remark}
    {next : r.Answer → Script K.Factory K.Remark S α} {P : r.Answer → Machine K → Prop}
    (hr : (perform call n r).Abides .total (fun x t => s.Untouched fd t ∧ P x t) s)
    (hnext : ∀ x t, P x t → (runScript call n leave c (next x)).Leaves fd t) :
    (runScript call n leave c (.call r next)).Leaves fd s :=
  abides_runScript_call <| hr.mono fun x t ht =>
    Abides.mono (hnext x t ht.2) fun _ _ hu => ht.1.trans hu

theorem leaves_runScript_bind {x : Script K.Factory K.Remark S α}
    {f : α → Script K.Factory K.Remark S β} (hx : (runScript call n leave c x).Leaves fd s)
    (hf : ∀ a c t, (runScript call n leave c (f a)).Leaves fd t) :
    (runScript call n leave c (x >>= f)).Leaves fd s :=
  abides_runScript_bind <| Abides.mono hx fun p t ht =>
    Abides.mono (hf p.1 p.2 t) fun _ _ hu => ht.trans hu

theorem leaves_runScript_of_isGentle {script : Script K.Factory K.Remark S α}
    (hscript : script.IsGentle) (c : S) (s : Machine K) :
    (runScript call n leave c script).Leaves fd s := by
  induction script generalizing c s with
  | done a => exact .refl fd s
  | keep c' next ih => exact ih hscript c' s
  | call r next ih =>
    refine leaves_runScript_call (P := fun _ _ => True) ?_ fun x t _ => ih x (hscript.2 x) c t
    exact Abides.mono (leaves_perform hscript.1 s) fun _ _ ht => ⟨ht, trivial⟩

/-! ## Hooks of servers -/

/-- Descriptors are not watched for reading any more. -/
theorem ends_unwatchAll (id : BlockId) (fds : List Fd) (s : Machine K) :
    (runScript call n leave c (Server.unwatchAll id fds)).Abides .total
      (fun _ t => s.events <:+ t.events ∧ t.host = s.host ∧
        t.manager = { s.manager with watches := s.manager.watches.withoutReading fds }) s := by
  induction fds generalizing s with
  | nil => exact ⟨List.suffix_rfl, rfl, rfl⟩
  | cons fd fds ih =>
    refine abides_runScript_call (r := .unwatch (.reading id fd)) ?_
    refine (ih _).mono fun _ t ⟨hevents, hhost, hmanager⟩ => ⟨?_, hhost, hmanager⟩
    exact (List.suffix_cons _ _).trans hevents

theorem ends_closeAll (fds : List Fd) (s : Machine K) :
    (runScript call n leave c (Server.closeAll fds)).Abides .total
      (fun _ t => t = { s with host := fds.foldl Host.close s.host }) s := by
  induction fds generalizing s with
  | nil => exact rfl
  | cons fd' fds ih =>
    refine abides_runScript_call (r := .close fd') ?_
    exact ih { s with host := s.host.close fd' }

/-- Descriptors that are not watched any more are closed, so none of them is open on a stream. -/
theorem leaves_hangUp (id : BlockId) (fds : List Fd) {script : Script K.Factory K.Remark S α}
    (hscript : ∀ c t, (runScript call n leave c script).Leaves fd t) (c : S) (s : Machine K) :
    (runScript call n leave c (do
      Server.unwatchAll id fds
      Server.closeAll fds
      script)).Leaves fd s := by
  have hclosed : (runScript call n leave c (do
      Server.unwatchAll id fds
      Server.closeAll fds)).Leaves fd s := by
    refine abides_runScript_bind ?_
    refine (ends_unwatchAll id fds s).mono fun p t ⟨hevents, hhost, hmanager⟩ => ?_
    refine (ends_closeAll fds t).mono fun _ u hu => ?_
    subst hu
    refine ⟨hevents, hhost ▸ Host.untouched_foldl_close fd t.host fds, fun he => ?_⟩
    by_cases hfd : fd ∈ fds
    · rw [Host.get?_foldl_close hfd] at he
      cases he
    · show t.manager.watches.watchOf? _ = _
      rw [hmanager]
      exact WatchTable.watchOf?_withoutReading hfd
  have hassoc : (do Server.unwatchAll id fds; Server.closeAll fds; script) =
      (do Server.unwatchAll id fds; Server.closeAll fds) >>= fun _ => script := by
    rw [bind_assoc]
  rw [hassoc]
  exact leaves_runScript_bind hclosed fun _ => hscript

theorem leaves_stop (sv : Server) (id : BlockId) (c : S) (s : Machine K) :
    (runScript call n leave c (sv.stop id)).Leaves fd s := by
  unfold Server.stop
  refine leaves_hangUp id _ (leaves_hangUp id _ fun c t => ?_) c s
  refine leaves_runScript_bind (leaves_runScript_of_isGentle (Server.isGentle_removeAddress sv) c t)
    fun _ c u => leaves_runScript_of_isGentle ?_ c u
  exact ⟨trivial, fun _ => trivial⟩

theorem leaves_start (sv : Server) (id : BlockId) (c : S) (s : Machine K) :
    (runScript call n leave c (sv.start id)).Leaves fd s := by
  unfold Server.start
  cases sv.path with
  | none =>
    refine leaves_runScript_of_isGentle ?_ c s
    exact ⟨trivial, fun _ => trivial⟩
  | some path =>
    refine leaves_runScript_call (r := .removeFile path) (P := fun _ _ => True) ?_ fun _ t _ => ?_
    · have hremove : (perform call n (.removeFile path)).Leaves fd s :=
        leaves_perform (r := .removeFile path) trivial s
      exact Abides.mono hremove fun _ _ ht => ⟨ht, trivial⟩
    -- The descriptor that is watched then is open on a listener.
    refine leaves_runScript_call (r := .listen path) (P := fun x u => ∀ fd', x = .ok fd' →
      ∀ e, u.host.descriptors.get? fd' ≠ some (.stream e)) ?_ fun x u hu => ?_
    · show Abides .total _ (onHost (·.listen path)) t
      rw [abides_onHost]
      refine ⟨.onHost (.refl fd t) (t.host.untouched_listen fd path), ?_⟩
      exact fun fd' hfd' => Host.get?_listen hfd'
    cases x with
    | error f =>
      refine leaves_runScript_of_isGentle ?_ c u
      exact ⟨trivial, fun _ => trivial⟩
    | ok fd' =>
      refine leaves_runScript_call (r := .watch (.reading id fd')) (P := fun _ _ => True) ?_
        fun y v _ => leaves_runScript_of_isGentle ?_ c v
      · refine Abides.mono (leaves_watch fun e he hsource => ?_) fun _ _ ht => ⟨ht, trivial⟩
        have hfd : fd' = fd := congrArg Source.fd hsource
        exact hu fd' rfl e (hfd ▸ he)
      · cases y with
        | error _ => exact ⟨trivial, fun _ => trivial⟩
        | ok _ => exact ⟨trivial, fun _ => trivial⟩

theorem leaves_server (sv : Server) (id : BlockId) {hook : Hook} (hhook : hook.IsLifecycle)
    {leave : Server → Run K Unit} (c : Server) (s : Machine K) :
    (runScript call n leave c (sv.hook id hook)).Leaves fd s := by
  have hleaving {script : Script K.Factory K.Remark Server Server}
      (h : (runScript call n leave c script).Leaves fd s) :
      (runScript call n leave c (Server.leaving script)).Leaves fd s :=
    leaves_runScript_bind h fun _ _ t => leaves_pure _ t
  cases hook with
  | bind => exact .refl fd s
  | start => exact hleaving (leaves_start sv id c s)
  | stop => exact hleaving (leaves_stop sv id c s)
  | configure conf =>
    exact hleaving (leaves_runScript_of_isGentle (Server.isGentle_applyEntries id sv _) c s)
  | _ => exact hhook.elim

end Scripts

/-- A hook of a built-in block that an operation calls leaves all streams untouched. -/
theorem leaves_builtin {call : Call Builtin.kit} {leave : Builtin → Run Builtin.kit Unit}
    (c : Builtin) (id : BlockId) {hook : Hook} (hhook : hook.IsLifecycle)
    (s : Machine Builtin.kit) : (runScript call n leave c (c.hook id hook)).Leaves fd s := by
  cases c with
  | hello h =>
    show (runScript call n leave (.hello h) ((h.hook id hook).mapState .hello)).Leaves fd s
    rw [runScript_mapState]
    refine Leaves.bind ?_ fun _ t _ => leaves_pure _ t
    exact leaves_runScript_of_isGentle (h.isGentle_hook id hhook) h s
  | server sv =>
    show (runScript call n leave (.server sv) ((sv.hook id hook).mapState .server)).Leaves fd s
    rw [runScript_mapState]
    exact (leaves_server sv id hhook sv s).bind fun _ _ _ => leaves_pure _ _

end Run

end BlockFlow
