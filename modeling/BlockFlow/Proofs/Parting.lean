import BlockFlow.Proofs.Framing
import Mathlib.Data.List.Forall2

/-!
# When a client leaves

A server serves a client whenever its descriptor is ready, and other things happen in between. The
client sends what it wants to send and then stays, or ends its output, or is closed. The server
executes the whole lines that it receives, one after the other, and dismisses the client only then.
But it leaves the lines after a reply that cannot be sent, and to a client that was closed none can
be sent.

1. `Host.Departure`, `Host.Departs`: the ways in which a client departs; `departs_halfClose`,
   `departs_close`: what it does then.
2. `Machine.Attends`, `Attends.ends_event`: a server with a client, and what it does when the client
   is ready.
3. `Attendance`, `Attendance.exists_exchanges`: all that a server does for a client that can be told
   everything.
4. `parting`: what becomes of all lines; `not_servesAll`: not all of them are executed.
-/

namespace BlockFlow

open Run

/-! ## Departures -/

namespace Host

/-- What a client does after what it sent last. -/
inductive Departure where
  | stays
  | halfCloses
  | closes
  deriving Repr, DecidableEq, Inhabited

/-- The other end of a connection after a departure. If the end that was closed had not taken all
that was sent to it, the other one is reset. -/
def Departure.leaves (d : Departure) (reset : Bool) (s : Side) : Side :=
  match d with
  | stays => s
  | halfCloses => { s with inputEnded := true }
  | closes => { s with inputEnded := true, outputEnded := true, reset }

theorem Departure.inbox_leaves (d : Departure) (reset : Bool) (s : Side) :
    (d.leaves reset s).inbox = s.inbox := by
  cases d <;> rfl

theorem Departure.ending_leaves (d : Departure) (reset : Bool) (ms : List (List UInt8)) :
    (d.leaves reset { inbox := ms }).ending = .ongoing ↔ d = .stays := by
  cases d <;> cases reset <;> simp [leaves, Side.ending]

/-- The other end of the connection of a descriptor departs. -/
structure Departs (h h' : Host) (fd : Fd) (e : Endpoint) (d : Departure) : Prop where
  stream (he : h.descriptors.get? fd = some (.stream e)) : h'.descriptors.get? fd = some (.stream e)
  length_le : h.streams.connections.length ≤ h'.streams.connections.length
  side : ∃ reset, h'.streams.side e = d.leaves reset (h.streams.side e)

variable {h h' : Host} {fd fd' : Fd} {e : Endpoint} {side : Side} {d : Departure}

theorem Departs.hasSide (hd : h.Departs h' fd e d) (ho : h.HasSide fd e side) :
    ∃ reset, h'.HasSide fd e (d.leaves reset side) := by
  obtain ⟨reset, hside⟩ := hd.side
  refine ⟨reset, hd.stream ho.stream, Nat.lt_of_lt_of_le ho.lt_length hd.length_le, ?_⟩
  rw [hside, ho.side_eq]

/-- What is done to both ends of a connection, to the other one first. -/
theorem Streams.side_modify_modify {t : Streams} (h : e.connection < t.connections.length)
    (f g : Side → Side) : ((t.modify e.other f).modify e.other.other g).side e = g (t.side e) := by
  have hother := t.side_modify_other e.other f
  rw [Endpoint.other_other] at hother ⊢
  rw [side_modify_self, hother]
  rw [length_modify]
  exact h

/-- A client that ends its output. -/
theorem departs_halfClose (hclient : h.descriptors.get? fd' = some (.stream e.other))
    (hlt : e.connection < h.streams.connections.length) :
    h.Departs (h.halfClose fd') fd e .halfCloses := by
  unfold halfClose
  rw [hclient]
  refine ⟨id, ?_, false, ?_⟩
  · show _ ≤ (h.streams.endOutput e.other).connections.length
    unfold Streams.endOutput
    refine Nat.le_of_eq ?_
    rw [Streams.length_modify, Streams.length_modify]
  · show (h.streams.endOutput e.other).side e = _
    unfold Streams.endOutput
    rw [Streams.side_modify_modify hlt]
    rfl

theorem departs_close (hclient : h.descriptors.get? fd' = some (.stream e.other)) (hne : fd' ≠ fd)
    (hlt : e.connection < h.streams.connections.length) :
    h.Departs (h.close fd') fd e .closes := by
  have hstreams : (h.close fd').streams = h.streams.close e.other false := by
    unfold close
    rw [hclient]
  let unread := !(h.streams.side e.other).inbox.isEmpty
  refine ⟨fun he => ?_, ?_, (h.streams.side e).reset || (false || unread), ?_⟩
  · rw [get?_close, if_neg hne]
    exact he
  · rw [hstreams]
    unfold Streams.close
    refine Nat.le_of_eq ?_
    rw [Streams.length_modify, Streams.length_modify]
  · rw [hstreams]
    unfold Streams.close
    rw [Streams.side_modify_modify hlt]
    rfl

end Host

/-! ## A server and its client -/

variable {n : Nat} {id : BlockId} {fd : Fd} {ep : Host.Endpoint} {sv : Server} {w : Watch}
  {side : Host.Side} {pending received : List UInt8} {ms : List (List UInt8)}
  {e : Entry Builtin.kit} {x : Exchange Builtin.kit} {xs : List (Exchange Builtin.kit)}
  {s t u : Machine Builtin.kit} {h : Host} {d : Host.Departure}
  {calls : List (Machine Builtin.kit × Machine Builtin.kit)}

theorem Server.find?_hold (sv : Server) (rest : List UInt8)
    (h : sv.clients.find? (·.fd = fd) = some ⟨fd, pending⟩) :
    (sv.hold fd rest).clients.find? (·.fd = fd) = some ⟨fd, rest⟩ := by
  have hsame : (fun c : Client => decide (c.fd = fd)) ∘
      (fun c => if c.fd = fd then { c with pending := rest } else c) =
        fun c => decide (c.fd = fd) := by
    funext c
    by_cases hc : c.fd = fd <;> simp [hc]
  unfold hold
  rw [List.find?_map, hsame, h, Option.map_some, if_pos rfl]

namespace Machine

/-- A block is a server with a client of which it holds some bytes, and the end of the server is as
given. -/
structure Attends (id : BlockId) (fd : Fd) (ep : Host.Endpoint) (sv : Server)
    (pending : List UInt8) (side : Host.Side) (s : Machine Builtin.kit) : Prop where
  live : ∃ e, s.manager.blocks.get? id = some e ∧ e.contents = some (.server sv)
  listener : sv.listener ≠ some fd
  client : sv.clients.find? (·.fd = fd) = some ⟨fd, pending⟩
  hasSide : s.host.HasSide fd ep side

namespace Attends

/-- The end of the server may change. -/
theorem ofHost (hs : s.Attends id fd ep sv pending side) {side' : Host.Side}
    (ho : h.HasSide fd ep side') : { s with host := h }.Attends id fd ep sv pending side' :=
  ⟨hs.live, hs.listener, hs.client, ho⟩

/-- A server that is called for its client executes the lines that it receives. -/
theorem ends_event (hs : s.Attends id fd ep sv pending side) (hw : w.source.fd = fd) (n : Nat) :
    (callHook (n + 2) id (.event w)).Abides .total (fun _ t => ∃ (x : Exchange Builtin.kit) (e : _),
      x.Begins (callHook (n + 1)) (pending ++ side.inbox.flatten) ((s.received id fd).away id) ∧
      (side.outputEnded = true → x.answers.length = min 1 (Server.texts x.lines).length) ∧
      x.Concludes id e fd ep side sv s t) s := by
  subst hw
  obtain ⟨e, hget, hc⟩ := hs.live
  let e' : Entry Builtin.kit := { e with contents := none }
  have hget' : s.manager.blocks.get? id = some { e' with contents := some (.server sv) } := by
    rw [hget, ← hc]
  refine (ends_callHook_event rfl hget' hs.listener hs.client ⟨rfl, .refl _, rfl, get?_away hget⟩
    hs.hasSide).mono fun _ t ht => ?_
  obtain ⟨x, hx⟩ := ht
  exact ⟨x, _, hx⟩

/-- The server has its client still if the stream goes on. -/
theorem goesOn (hs : s.Attends id fd ep sv pending side)
    (hmanager : t.manager = x.after.manager.regaining id (.server (x.server sv fd)))
    (hpaired : (t.away id).Paired id e x.after) (ho : t.host.HasSide fd ep side.emptied) :
    t.Attends id fd ep (x.server sv fd) x.rest side.emptied where
  live := by
    refine ⟨{ e with contents := some (.server (x.server sv fd)) }, ?_, rfl⟩
    rw [hmanager, hpaired.manager]
    unfold Manager.regaining
    rw [Keyed.get?_modify, if_pos rfl, hpaired.entry]
    rfl
  listener := hs.listener
  client := (sv.counting x.answers).find?_hold x.rest hs.client
  hasSide := ho

/-- A server has a client in one way only. -/
theorem unique {sv' : Server} {pending' : List UInt8} {side' : Host.Side}
    (hs : s.Attends id fd ep sv pending side) (hs' : s.Attends id fd ep sv' pending' side') :
    sv' = sv ∧ pending' = pending ∧ side' = side := by
  obtain ⟨e, hget, hc⟩ := hs.live
  obtain ⟨e', hget', hc'⟩ := hs'.live
  obtain rfl : e = e' := Option.some.inj (hget.symm.trans hget')
  obtain rfl : sv = sv' := by
    rw [hc] at hc'
    cases hc'
    rfl
  obtain rfl : pending = pending' := by
    have hclient := hs.client.symm.trans hs'.client
    cases hclient
    rfl
  exact ⟨rfl, rfl, hs'.hasSide.side_eq.symm.trans hs.hasSide.side_eq⟩

end Attends

end Machine

/-! ## All that a client sends -/

/-- All that a server did for a client since it was accepted, as the machines before and after each
call, and all that it received. Between two calls more may arrive, and anything may be done
otherwise. The client could be told all replies. -/
inductive Attendance (n : Nat) (id : BlockId) (fd : Fd) (ep : Host.Endpoint) :
    List (Machine Builtin.kit × Machine Builtin.kit) → List UInt8 → Machine Builtin.kit → Prop
  | accepted {s : Machine Builtin.kit} {sv : Server} (hs : s.Attends id fd ep sv [] {}) :
    Attendance n id fd ep [] [] s
  | meanwhile {calls : List (Machine Builtin.kit × Machine Builtin.kit)}
    {received pending : List UInt8} {s t : Machine Builtin.kit} {sv sv' : Server}
    {ms : List (List UInt8)} (more : List (List UInt8)) (h : Attendance n id fd ep calls received s)
    (hs : s.Attends id fd ep sv pending { inbox := ms })
    (ht : t.Attends id fd ep sv' pending { inbox := ms ++ more }) :
    Attendance n id fd ep calls received t
  | served {calls : List (Machine Builtin.kit × Machine Builtin.kit)}
    {received pending : List UInt8} {s t : Machine Builtin.kit} {sv : Server}
    {ms : List (List UInt8)} {w : Watch} {a : Except Breakdown (Option Reply)}
    (h : Attendance n id fd ep calls received s)
    (hs : s.Attends id fd ep sv pending { inbox := ms }) (hw : w.source.fd = fd)
    (hrun : s.run? (callHook (n + 2) id (.event w)) = some (a, t)) (hreaches : ¬ s.Misses fd t) :
    Attendance n id fd ep (calls ++ [(s, t)]) (received ++ ms.flatten) t

/-- A call of a server executed just the lines of an exchange. -/
structure Exchange.Made (x : Exchange Builtin.kit) (n : Nat) (id : BlockId) (fd : Fd)
    (s t : Machine Builtin.kit) : Prop where
  comes : ∃ bytes, x.Comes (callHook (n + 1)) bytes ((s.received id fd).away id)
  manager : ∃ sv, t.manager = x.after.manager.regaining id (.server sv)
  doings : t.doings = x.after.doings

/-- The calls of a server executed all whole lines that it received, each once and in order. -/
theorem Attendance.exists_exchanges (h : Attendance n id fd ep calls received s) :
    ∃ (sv : Server) (pending : List UInt8) (ms : List (List UInt8))
      (xs : List (Exchange Builtin.kit)),
      s.Attends id fd ep sv pending { inbox := ms } ∧
      List.Forall₂ (fun p x => x.Made n id fd p.1 p.2) calls xs ∧
      Server.AreLines received (xs.flatMap (·.lines)) pending := by
  induction h with
  | accepted hs =>
    exact ⟨_, [], [], [], hs, .nil, .of_not_mem List.not_mem_nil⟩
  | meanwhile more _ hs ht ih =>
    obtain ⟨sv, pending, ms, xs, hs', hmade, hlines⟩ := ih
    obtain ⟨-, rfl, -⟩ := hs'.unique hs
    exact ⟨_, _, _, xs, ht, hmade, hlines⟩
  | @served calls received pending s t sv ms w a _ hs hw hrun hreaches ih =>
    obtain ⟨sv', pending', ms', xs, hs', hmade, hlines⟩ := ih
    obtain ⟨rfl, rfl, -⟩ := hs'.unique hs
    obtain ⟨-, -, x, e, hx, -, hconcludes⟩ := (hs.ends_event hw n).of_run? hrun
    cases hconcludes with
    | goesOn hwhole _ hmanager hpaired hserved =>
      refine ⟨_, _, [], xs ++ [x], hs.goesOn hmanager hpaired hserved.hasSide, ?_, ?_⟩
      · refine List.rel_append hmade (.cons ⟨⟨_, hx.comes hwhole⟩, ⟨_, hmanager⟩, ?_⟩ .nil)
        exact hpaired.doings.symm
      · rw [List.flatMap_append, List.flatMap_singleton]
        exact hlines.append hx.lines
    | ended _ hending => exact absurd rfl hending
    | missed _ _ hmisses => exact absurd hmisses hreaches

/-! ## The last call -/

/-- How a machine is left after a client departed: it stays connected, or it is dismissed after all
lines, or it is dismissed because a reply could not be sent. -/
inductive Exchange.Parted (x : Exchange Builtin.kit) (id : BlockId) (fd : Fd) (ep : Host.Endpoint)
    (sv : Server) (s t : Machine Builtin.kit) : Host.Departure → Prop
  | stays (hwhole : x.IsWhole)
    (hmanager : t.manager = x.after.manager.regaining id (.server (x.server sv fd)))
    (hdoings : t.doings = x.after.doings)
    (hattends : t.Attends id fd ep (x.server sv fd) x.rest {}) : Parted x id fd ep sv s t .stays
  | leaves {d : Host.Departure} (hd : d ≠ .stays) (hwhole : x.IsWhole)
    (hdismisses : x.Dismisses id fd sv [] t) : Parted x id fd ep sv s t d
  | missed {d : Host.Departure} (f : Host.Failure) (hne : x.answers ≠ [])
    (hmisses : s.Misses fd t)
    (hdismisses : x.Dismisses id fd sv [.notice (.clientUnreachable fd f)] t) :
    Parted x id fd ep sv s t d

/-- The call of a server after a client departed. -/
theorem Machine.Attends.ends_departs (hs : s.Attends id fd ep sv pending { inbox := ms })
    (hd : s.host.Departs h fd ep d) (hw : w.source.fd = fd) (n : Nat) :
    (callHook (n + 2) id (.event w)).Abides .total (fun _ t => ∃ x : Exchange Builtin.kit,
      x.Begins (callHook (n + 1)) (pending ++ ms.flatten)
        (({ s with host := h }.received id fd).away id) ∧
      x.Parted id fd ep sv { s with host := h } t d ∧
      (d = .closes → x.answers.length = min 1 (Server.texts x.lines).length))
      { s with host := h } := by
  obtain ⟨reset, hside⟩ := hd.hasSide hs.hasSide
  have hs' := hs.ofHost hside
  refine (hs'.ends_event hw n).mono fun _ t ht => ?_
  obtain ⟨x, e, hx, hlength, hconcludes⟩ := ht
  rw [d.inbox_leaves] at hx
  refine ⟨x, hx, ?_, ?_⟩
  · cases hconcludes with
    | goesOn hwhole hending hmanager hpaired hserved =>
      obtain rfl := (d.ending_leaves reset ms).1 hending
      exact .stays hwhole hmanager hpaired.doings.symm
        (hs'.goesOn hmanager hpaired hserved.hasSide)
    | ended hwhole hending hdismisses =>
      exact .leaves (fun hstays => hending ((d.ending_leaves reset ms).2 hstays)) hwhole hdismisses
    | missed f hne hmisses hdismisses => exact .missed f hne hmisses hdismisses
  · rintro rfl
    exact hlength rfl

/-- A client that sent something or departed is found ready. -/
theorem Machine.Attends.mem_ready (hs : s.Attends id fd ep sv pending { inbox := ms })
    (hd : s.host.Departs h fd ep d)
    (hwatch : s.manager.watches.watchOf? ⟨fd, none⟩ = some w) (hread : w.interest.read)
    (hne : ms ≠ [] ∨ d ≠ .stays) : w ∈ { s with host := h }.ready := by
  obtain ⟨reset, hside⟩ := hd.hasSide hs.hasSide
  refine mem_ready_of_hasSide (s := { s with host := h }) hwatch hread hside ?_
  rw [d.inbox_leaves]
  refine hne.imp_right fun hd => ?_
  cases d with
  | stays => exact absurd rfl hd
  | halfCloses | closes => rfl

/-- **Parting.** The whole lines of all that a server received from a client that could be told all
replies were executed, each once and in order. When it has departed, and maybe sent something before
that, the next poll finds it ready, and the server executes the whole lines of what it held and of
what was sent, and dismisses the client after that if it did not stay. If a reply cannot be sent,
the lines after it are left; to a client that was closed none can be, so only the first line is
executed. -/
theorem parting (hatt : Attendance n id fd ep calls received s) (hd : s.host.Departs h fd ep d)
    (hw : w.source.fd = fd) :
    ∃ (sv : Server) (pending : List UInt8) (ms : List (List UInt8))
      (xs : List (Exchange Builtin.kit)),
      s.Attends id fd ep sv pending { inbox := ms } ∧
      List.Forall₂ (fun p x => x.Made n id fd p.1 p.2) calls xs ∧
      Server.AreLines received (xs.flatMap (·.lines)) pending ∧
      (s.manager.watches.watchOf? ⟨fd, none⟩ = some w → w.interest.read →
        ms ≠ [] ∨ d ≠ .stays → w ∈ { s with host := h }.ready) ∧
      (callHook (n + 2) id (.event w)).Abides .total (fun _ t => ∃ x : Exchange Builtin.kit,
        x.Begins (callHook (n + 1)) (pending ++ ms.flatten)
          (({ s with host := h }.received id fd).away id) ∧
        x.Parted id fd ep sv { s with host := h } t d ∧
        (d = .closes → x.answers.length = min 1 (Server.texts x.lines).length))
        { s with host := h } := by
  obtain ⟨sv, pending, ms, xs, hs, hmade, hlines⟩ := hatt.exists_exchanges
  exact ⟨sv, pending, ms, xs, hs, hmade, hlines, hs.mem_ready hd, hs.ends_departs hd hw n⟩

/-! ## A client that departs after two lines -/

/-- The machine after a client has sent the beginning of a line. -/
def prompted : Machine Builtin.kit :=
  { attended with host := (attended.host.transmit 4 (bytesOf "0 1 hello")).2 }

/-- The machine after the server has received it. -/
def begun : Machine Builtin.kit :=
  prompted.after (callHook 2 ⟨-1⟩ (.event (.reading ⟨-1⟩ 5)))

/-- The machine after the client has sent the end of the line and one line more. -/
def completed : Machine Builtin.kit :=
  { begun with host := (begun.host.transmit 4 (bytesOf "\n0 2 hello\n")).2 }

def hungUp : Host := completed.host.close 4

def hushed : Host := completed.host.halfClose 4

theorem attendance_begun :
    Attendance 0 ⟨-1⟩ 5 served [(prompted, begun)] (bytesOf "0 1 hello") begun := by
  have hattended : attended.Attends ⟨-1⟩ 5 served attendant [] {} :=
    ⟨⟨_, rfl, rfl⟩, by decide, rfl, ⟨rfl, by decide, rfl⟩⟩
  have hprompted : prompted.Attends ⟨-1⟩ 5 served attendant [] { inbox := [bytesOf "0 1 hello"] } :=
    hattended.ofHost ⟨by decide +kernel, by decide +kernel, by decide +kernel⟩
  obtain ⟨a, hrun⟩ := Machine.run?_after (s := prompted)
    (r := callHook 2 ⟨-1⟩ (.event (.reading ⟨-1⟩ 5))) (by decide +kernel)
  exact .served (.meanwhile [bytesOf "0 1 hello"] (.accepted hattended) hattended hprompted)
    hprompted rfl hrun (Machine.not_misses (by decide +kernel))

theorem exists_attends_begun : ∃ sv, begun.Attends ⟨-1⟩ 5 served sv (bytesOf "0 1 hello") {} := by
  obtain ⟨sv, pending, ms, xs, hs, -, hlines⟩ := attendance_begun.exists_exchanges
  obtain ⟨-, rfl⟩ := hlines.unique (.of_not_mem (by decide +kernel))
  have hside : begun.host.streams.side served = {} := by decide +kernel
  rw [hs.hasSide.side_eq] at hside
  exact ⟨sv, hside ▸ hs⟩

theorem attends_completed (hs : begun.Attends ⟨-1⟩ 5 served sv (bytesOf "0 1 hello") {}) :
    completed.Attends ⟨-1⟩ 5 served sv (bytesOf "0 1 hello")
      { inbox := [bytesOf "\n0 2 hello\n"] } :=
  hs.ofHost ⟨by decide +kernel, by decide +kernel, by decide +kernel⟩

theorem attendance_completed :
    Attendance 0 ⟨-1⟩ 5 served [(prompted, begun)] (bytesOf "0 1 hello") completed := by
  obtain ⟨sv, hs⟩ := exists_attends_begun
  exact .meanwhile [bytesOf "\n0 2 hello\n"] attendance_begun hs (attends_completed hs)

theorem departs_hungUp : completed.host.Departs hungUp 5 served .closes :=
  Host.departs_close (by decide +kernel) (by decide) (by decide +kernel)

theorem departs_hushed : completed.host.Departs hushed 5 served .halfCloses :=
  Host.departs_halfClose (by decide +kernel) (by decide +kernel)

/-- What the server had when the client departed. -/
theorem lines_completed {sv : Server} {pending : List UInt8} {ms : List (List UInt8)}
    (hs : completed.Attends ⟨-1⟩ 5 served sv pending { inbox := ms }) :
    pending ++ ms.flatten = bytesOf "0 1 hello\n0 2 hello\n" := by
  obtain ⟨sv', hs'⟩ := exists_attends_begun
  obtain ⟨-, rfl, hside⟩ := (attends_completed hs').unique hs
  obtain rfl : ms = [bytesOf "\n0 2 hello\n"] := congrArg Host.Side.inbox hside
  decide +kernel

theorem length_texts_completed {x : Exchange Builtin.kit} {s : Machine Builtin.kit}
    (hx : x.Begins (callHook 1) (bytesOf "0 1 hello\n0 2 hello\n") s) :
    (Server.texts x.lines).length = 2 := by
  have hlines : _ = x.lines := congrArg Prod.fst hx.lines.splitLines_eq
  rw [← hlines]
  decide +kernel

/-- A client that only ends its output can be told all replies. -/
theorem not_misses_hushed {y : Except Breakdown (Option Reply)} {t : Machine Builtin.kit}
    (hrun : Machine.run? { completed with host := hushed }
      (callHook 2 ⟨-1⟩ (.event (.reading ⟨-1⟩ 5))) = some (y, t)) :
    ¬ Machine.Misses 5 { completed with host := hushed } t := by
  obtain ⟨z, hz⟩ := Machine.run?_after (s := { completed with host := hushed })
    (r := callHook 2 ⟨-1⟩ (.event (.reading ⟨-1⟩ 5))) (by decide +kernel)
  obtain ⟨rfl, rfl⟩ := Prod.mk.inj (Option.some.inj (hrun.symm.trans hz))
  exact Machine.not_misses (by decide +kernel)

/-- A client sends two lines, the first one in two pieces, and departs. If it was closed, the first
line is executed and the second one left; if it ended its output, both are executed. -/
theorem parting_hangUp :
    Attendance 0 ⟨-1⟩ 5 served [(prompted, begun)] (bytesOf "0 1 hello") completed ∧
    (completed.host.Departs hungUp 5 served .closes ∧
      (callHook 2 ⟨-1⟩ (.event (.reading ⟨-1⟩ 5))).Abides .total (fun _ t =>
        ∃ (x : Exchange Builtin.kit) (sv : Server),
        x.Begins (callHook 1) (bytesOf "0 1 hello\n0 2 hello\n")
          (({ completed with host := hungUp }.received ⟨-1⟩ 5).away ⟨-1⟩) ∧
        (Server.texts x.lines).length = 2 ∧ x.answers.length = 1 ∧
        x.Parted ⟨-1⟩ 5 served sv { completed with host := hungUp } t .closes)
        { completed with host := hungUp }) ∧
    completed.host.Departs hushed 5 served .halfCloses ∧
      (callHook 2 ⟨-1⟩ (.event (.reading ⟨-1⟩ 5))).Abides .total (fun _ t =>
        ∃ (x : Exchange Builtin.kit) (sv : Server),
        x.Begins (callHook 1) (bytesOf "0 1 hello\n0 2 hello\n")
          (({ completed with host := hushed }.received ⟨-1⟩ 5).away ⟨-1⟩) ∧
        (Server.texts x.lines).length = 2 ∧ x.IsWhole ∧ x.Dismisses ⟨-1⟩ 5 sv [] t)
        { completed with host := hushed } := by
  refine ⟨attendance_completed, ⟨departs_hungUp, ?_⟩, departs_hushed, ?_⟩
  · obtain ⟨sv, pending, ms, xs, hs, -, -, -, hends⟩ :=
      parting (w := .reading ⟨-1⟩ 5) attendance_completed departs_hungUp rfl
    refine hends.mono fun _ t ht => ?_
    obtain ⟨x, hx, hparted, hlength⟩ := ht
    rw [lines_completed hs] at hx
    have htexts := length_texts_completed hx
    exact ⟨x, sv, hx, htexts, (hlength rfl).trans (congrArg (min 1) htexts), hparted⟩
  · obtain ⟨sv, pending, ms, xs, hs, -, -, -, hends⟩ :=
      parting (w := .reading ⟨-1⟩ 5) attendance_completed departs_hushed rfl
    obtain ⟨y, t, hrun, x, hx, hparted, -⟩ := abides_total_iff.1 hends
    rw [lines_completed hs] at hx
    refine abides_total_iff.2 ⟨y, t, hrun, x, sv, hx, length_texts_completed hx, ?_⟩
    cases hparted with
    | leaves _ hwhole hdismisses => exact ⟨hwhole, hdismisses⟩
    | missed _ _ hmisses => exact absurd hmisses (not_misses_hushed hrun)

/-- When a client has departed, all whole lines that the server has received are executed in order,
before it does anything else. -/
def Server.ServesAll : Prop :=
  ∀ (n : Nat) (id : BlockId) (fd : Fd) (ep : Host.Endpoint) (sv : Server) (w : Watch)
    (pending : List UInt8) (ms : List (List UInt8)) (s : Machine Builtin.kit) (h : Host)
    (d : Host.Departure), s.Attends id fd ep sv pending { inbox := ms } →
      s.host.Departs h fd ep d → w.source.fd = fd →
      (callHook (n + 2) id (.event w)).Abides .total (fun _ t => ∃ x : Exchange Builtin.kit,
        x.Comes (callHook (n + 1)) (pending ++ ms.flatten)
          (({ s with host := h }.received id fd).away id) ∧
        x.after.doings <:+ t.doings) { s with host := h }

/-- Whether an event tells that a command was given. -/
def Event.isGiven {K : Kit} : Event K → Bool
  | .notice (.commandGiven ..) => true
  | _ => false

def Machine.given (s : Machine Builtin.kit) : Nat := s.doings.countP (·.isGiven)

/-- What both lines would come to. -/
theorem given_of_comes {x : Exchange Builtin.kit}
    (hx : x.Comes (callHook 1) (bytesOf "0 1 hello\n0 2 hello\n")
      (({ completed with host := hungUp }.received ⟨-1⟩ 5).away ⟨-1⟩)) : x.after.given = 2 := by
  have hrun := hx.run
  have hlines : _ = x.lines := congrArg Prod.fst hx.lines.splitLines_eq
  rw [← hlines] at hrun
  have hgiven : (Machine.run? (({ completed with host := hungUp }.received ⟨-1⟩ 5).away ⟨-1⟩)
      (answers (callHook 1) (Server.texts
        (Server.splitLines (bytesOf "0 1 hello\n0 2 hello\n")).1))).map
          (fun p => p.2.given) = some 2 := by
    decide +kernel
  rw [hrun] at hgiven
  exact Option.some.inj hgiven

/-- Not all lines of a client are executed that is closed after it sent them. -/
theorem not_servesAll : ¬ Server.ServesAll := by
  intro h
  obtain ⟨sv, hs⟩ := exists_attends_begun
  have hs' := attends_completed hs
  have hends := h 0 ⟨-1⟩ 5 served sv (.reading ⟨-1⟩ 5) _ _ completed hungUp .closes hs'
    departs_hungUp rfl
  obtain ⟨_, t, hrun, x, hx, hdoings⟩ := abides_total_iff.1 hends
  rw [lines_completed hs'] at hx
  have hone : (Machine.run? { completed with host := hungUp }
      (callHook 2 ⟨-1⟩ (.event (.reading ⟨-1⟩ 5)))).map (fun p => p.2.given) = some 1 := by
    decide +kernel
  rw [hrun] at hone
  have hle : x.after.given ≤ t.given := hdoings.sublist.countP_le
  have hgiven : t.given = 1 := Option.some.inj hone
  rw [given_of_comes hx, hgiven] at hle
  exact absurd hle (by decide)

end BlockFlow
