import BlockFlow.Proofs.Dispatch
import BlockFlow.Proofs.Serving

/-!
# Framing

What a client sends arrives in pieces that are cut anywhere: inside of a character, inside of a line
or after many lines. A poll follows each piece. The server executes the whole lines of all bytes, as
if they had arrived at once.

1. `Machine.Connected`: a server with a client from which all was received; `Session`: pieces that
   arrive from the client, each with a poll in which no other descriptor is ready.
2. `Exchange.Leaves`: what a machine is like after an exchange; `Connected.ends_poll`: a poll comes
   to the exchange of the bytes that arrived.
3. `Session.exists_exchange`, `framing`: a session comes to the exchange of all its bytes.
-/

namespace BlockFlow

/-! ## Sessions -/

open Run

variable {K : Kit} {n : Nat} {id : BlockId} {fd : Fd} {ep : Host.Endpoint} {sv : Server}
  {pending bytes said : List UInt8} {pieces : List (List UInt8)} {e : Entry Builtin.kit}
  {s s' t u : Machine Builtin.kit} {h : Host} {x y : Exchange Builtin.kit}

namespace Machine

/-- A block is a server with a client, nothing waits to be received from the client, and what is
held of it is no whole line. -/
structure Connected (id : BlockId) (fd : Fd) (ep : Host.Endpoint) (sv : Server)
    (pending : List UInt8) (s : Machine Builtin.kit) : Prop where
  live : ∃ e, s.manager.blocks.get? id = some e ∧ e.contents = some (.server sv)
  client : ∀ c, c ∈ sv.clients ∧ c.fd = fd ↔ c = ⟨fd, pending⟩
  listener : sv.listener ≠ some fd
  watch : ∃ w, s.manager.watches.watchOf? ⟨fd, none⟩ = some w ∧ w.owner = id ∧ w.interest.read
  isOpen : s.host.IsOpen fd ep []
  not_mem : Text.lineFeed ∉ pending

/-- No other descriptor than that of a client is ready. -/
def OnlyReady (s : Machine Builtin.kit) (fd : Fd) : Prop := ∀ w ∈ s.ready, w.source = ⟨fd, none⟩

instance decidableOnlyReady (s : Machine Builtin.kit) (fd : Fd) : Decidable (s.OnlyReady fd) :=
  inferInstanceAs (Decidable (∀ w ∈ s.ready, w.source = ⟨fd, none⟩))

/-- A poll succeeds in which no other descriptor than that of a client is ready, and the client can
be sent all replies. -/
structure Polls (n : Nat) (fd : Fd) (ep : Host.Endpoint) (said : List UInt8)
    (s t : Machine Builtin.kit) : Prop where
  canPoll : s.CanPoll
  onlyReady : s.OnlyReady fd
  run : ∃ a, s.run? (poll (callHook (n + 2))) = some (a, t)
  reaches : ¬ s.Misses fd t
  heard : t.host.heard ep = s.host.heard ep ++ said

end Machine

/-- Pieces arrive from a client, with a poll after each, and the client is told `said`. -/
inductive Session (n : Nat) (fd : Fd) (ep : Host.Endpoint) :
    Machine Builtin.kit → List (List UInt8) → List UInt8 → Machine Builtin.kit → Prop
  | rest {s : Machine Builtin.kit} : Session n fd ep s [] [] s
  | piece {s t u : Machine Builtin.kit} {h : Host} {bytes said said' : List UInt8}
    {pieces : List (List UInt8)} (hgets : s.host.Gets h ep bytes)
    (hpolls : { s with host := h }.Polls n fd ep said t)
    (hrest : Session n fd ep t pieces said' u) :
    Session n fd ep s (bytes :: pieces) (said ++ said') u

/-- A machine is as an exchange leaves it: the server is back, with what follows the last line held
of the client, and all that commands did is as it is after the exchange. -/
structure Exchange.Leaves (x : Exchange Builtin.kit) (id : BlockId) (fd : Fd) (ep : Host.Endpoint)
    (sv : Server) (t : Machine Builtin.kit) : Prop where
  manager : t.manager = x.after.manager.regaining id (.server (x.server sv fd))
  paired : ∃ e, (t.away id).Paired id e x.after
  connected : t.Connected id fd ep (x.server sv fd) x.rest

/-! ## One poll -/

namespace Machine

section Ready

variable {w : Watch} {side : Host.Side}

theorem Noted.away {s t : Machine K} (h : s.Noted t) (id : BlockId) :
    (s.away id).Noted (t.away id) where
  manager := by
    unfold Machine.away
    rw [h.manager]
  host := h.host
  events := h.events
  doings := h.doings

theorem noted_noticed (s : Machine K) (ns : List Notice)
    (h : ∀ n ∈ ns, (Event.notice n : Event K).isOfCommands = false) : s.Noted (s.noticed ns) where
  manager := rfl
  host := rfl
  events := List.suffix_append _ _
  doings := by
    have hnone : (ns.map Event.notice).reverse.filter (·.isOfCommands (K := K)) = [] := by
      simpa using h
    show ((ns.map Event.notice).reverse ++ s.events).filter _ = _
    rw [List.filter_append, hnone]
    rfl

/-- What a poll tells of is not from commands. -/
theorem noted_polled (s : Machine K) : s.Noted s.polled := by
  refine noted_noticed s _ (List.forall_mem_append.2 ⟨?_, ?_⟩)
  · exact List.forall_mem_map.2 fun _ _ => rfl
  · exact List.forall_mem_singleton.2 rfl

theorem mem_ready_of_hasSide (hwatch : s.manager.watches.watchOf? ⟨fd, none⟩ = some w)
    (hread : w.interest.read) (ho : s.host.HasSide fd ep side)
    (hside : side.inbox ≠ [] ∨ side.inputEnded = true) : w ∈ s.ready := by
  have hsource : w.source = ⟨fd, none⟩ := by simpa using List.find?_some hwatch
  refine List.mem_filter.2 ⟨List.mem_of_find?_eq_some hwatch, decide_eq_true ?_⟩
  rw [Watch.isReady_of_number (by rw [hsource]), hsource]
  unfold Host.isReady
  rw [ho.stream]
  dsimp only
  rw [ho.side_eq]
  rcases hside with hside | hside
  · simp [Host.Side.isReady, hread, hside]
  · simp [Host.Side.isReady, hread, hside]

/-- If no other descriptor is ready, then nothing or just this one is. -/
theorem ready_eq_of_onlyReady (hs : s.OnlyReady fd)
    (hwatch : s.manager.watches.watchOf? ⟨fd, none⟩ = some w) (hne : s.ready ≠ []) :
    s.ready = [w] := by
  have heq : ∀ v ∈ s.ready, v = w := by
    intro v hv
    have hv' := WatchTable.watchOf?_of_mem (List.mem_filter.1 hv).1
    rw [hs v hv, hwatch] at hv'
    exact (Option.some.inj hv').symm
  have hdistinct : s.ready.Pairwise fun a b => a.source ≠ b.source :=
    WatchTable.distinct_ready _ _
  obtain ⟨v, vs, hcons⟩ := List.exists_cons_of_ne_nil hne
  rw [hcons] at heq hdistinct ⊢
  obtain rfl := heq v (.head _)
  cases vs with
  | nil => rfl
  | cons v' vs =>
    obtain rfl := heq v' (.tail _ (.head _))
    exact absurd rfl (List.rel_of_pairwise_cons hdistinct (.head _))

end Ready

namespace Connected

variable (hs : s.Connected id fd ep sv pending)

include hs

theorem find?_clients : sv.clients.find? (·.fd = fd) = some ⟨fd, pending⟩ := by
  obtain ⟨hmem, -⟩ := (hs.client ⟨fd, pending⟩).2 rfl
  obtain ⟨c, hc⟩ := Option.isSome_iff_exists.1
    (List.find?_isSome.2 ⟨_, hmem, decide_eq_true rfl⟩ : (sv.clients.find? (·.fd = fd)).isSome)
  have hfd : c.fd = fd := by simpa using List.find?_some hc
  rw [hc, (hs.client c).1 ⟨List.mem_of_find?_eq_some hc, hfd⟩]

/-- Nothing changes if the same is held again. -/
theorem hold_pending : sv.hold fd pending = sv := by
  have hsame : ∀ c ∈ sv.clients, (if c.fd = fd then { c with pending } else c) = c := by
    intro c hc
    split
    · next hfd =>
      rw [(hs.client c).1 ⟨hc, hfd⟩]
    · rfl
  have hclients := (List.map_congr_left hsame).trans (List.map_id _)
  exact congrArg (fun clients => { sv with clients }) hclients

theorem client_hold (rest : List UInt8) (c : Client) :
    c ∈ (sv.hold fd rest).clients ∧ c.fd = fd ↔ c = ⟨fd, rest⟩ := by
  constructor
  · rintro ⟨hc, hfd⟩
    obtain ⟨c', -, rfl⟩ := List.mem_map.1 hc
    by_cases hfd' : c'.fd = fd
    · rw [if_pos hfd', hfd']
    · rw [if_neg hfd'] at hfd
      exact absurd hfd hfd'
  · rintro rfl
    obtain ⟨hmem, -⟩ := (hs.client ⟨fd, pending⟩).2 rfl
    exact ⟨List.mem_map.2 ⟨_, hmem, if_pos rfl⟩, rfl⟩

/-- The entry of the server while its contents are away. -/
theorem entry (he : (s.away id).manager.blocks.get? id = some e) : e.contents = none ∧
    s.manager.blocks.get? id = some { e with contents := some (.server sv) } := by
  obtain ⟨e', hget, hcontents⟩ := hs.live
  obtain rfl := Option.some.inj ((get?_away hget).symm.trans he)
  refine ⟨rfl, ?_⟩
  rw [hget, ← hcontents]

/-- What a machine has to be like for the server to be connected as before. -/
theorem leaves (hmanager : t.manager = x.after.manager.regaining id (.server (x.server sv fd)))
    (hp : (t.away id).Paired id e x.after) (hrest : Text.lineFeed ∉ x.rest)
    (ho : t.host.IsOpen fd ep [])
    (hwatch : t.manager.watches.watchOf? ⟨fd, none⟩ = s.manager.watches.watchOf? ⟨fd, none⟩) :
    x.Leaves id fd ep sv t := by
  refine ⟨hmanager, ⟨e, hp⟩, ?_, ?_, hs.listener, ?_, ho, hrest⟩
  · refine ⟨{ e with contents := some (.server (x.server sv fd)) }, ?_, rfl⟩
    rw [hmanager, hp.manager]
    unfold Manager.regaining
    rw [Keyed.get?_modify, if_pos rfl, hp.entry]
    rfl
  · exact fun c => hs.client_hold x.rest c
  · rw [hwatch]
    exact hs.watch

/-- A poll in which the client is ready: what was received of it comes to an exchange. -/
theorem ends_poll_of_ready {side : Host.Side} (ho : h.HasSide fd ep side)
    (hp : (({ s with host := h }.received id fd).away id).Paired id e s')
    (hpoll : { s with host := h }.CanPoll) (hready : { s with host := h }.OnlyReady fd)
    (hne : { s with host := h }.ready ≠ []) (n : Nat) :
    (poll (callHook (n + 2))).Abides .total (fun a t => a = .ok 1 ∧ ∃ x : Exchange Builtin.kit,
      x.Begins (callHook (n + 1)) (pending ++ side.inbox.flatten) s' ∧
      (side.outputEnded = true → x.answers.length = min 1 (Server.texts x.lines).length) ∧
      x.Concludes id e fd ep side sv { s with host := h } t) { s with host := h } := by
  obtain ⟨w, hwatch, howner, -⟩ := hs.watch
  have hsource : w.source = ⟨fd, none⟩ := by simpa using List.find?_some hwatch
  obtain rfl : w.source.fd = fd := by rw [hsource]
  have hcontains : s.manager.watches.contains w.source := by
    rw [WatchTable.contains_iff, hsource, hwatch]
    exact Option.some_ne_none w
  have honly : { s with host := h }.ready = [w] := ready_eq_of_onlyReady hready hwatch hne
  obtain ⟨he, hget⟩ := hs.entry hp.entry
  have hlive : s.manager.blocks.contains w.owner := by
    rw [howner, Keyed.contains, hget]
    rfl
  have hnoted := noted_polled { s with host := h }
  refine Run.ends_poll hpoll hne ?_
  rw [honly]
  unfold deliverEvents deliverEvents deliverEvent
  rw [abides_bind, abides_bind, abides_manager]
  simp only [hnoted.manager, hcontains, hlive, Bool.not_true, Bool.false_eq_true, if_false]
  rw [abides_discard, howner]
  refine (ends_callHook_event (s := { s with host := h }.polled) he hget hs.listener
    hs.find?_clients ((hnoted.away id).paired_received hp) ho).mono fun _ t ht => ?_
  obtain ⟨x, hx, hlength, hconcludes⟩ := ht
  refine ⟨rfl, x, hx, hlength, ?_⟩
  cases hconcludes with
  | goesOn hwhole hending hmanager hpaired hserved =>
    exact .goesOn hwhole hending hmanager hpaired
      ⟨hnoted.events.trans hserved.events, hserved.hasSide, hserved.heard, hserved.watch⟩
  | ended hwhole hending hdismisses => exact .ended hwhole hending hdismisses
  | missed f hne hmisses hdismisses => exact .missed f hne (hmisses.after hnoted.events) hdismisses

/-- If nothing is ready, then nothing waits at the client, and its stream has not ended. -/
theorem of_not_ready {side : Host.Side} (ho : h.HasSide fd ep side)
    (hnil : { s with host := h }.ready = []) : side.inbox = [] ∧ side.inputEnded = false := by
  obtain ⟨w, hwatch, -, hread⟩ := hs.watch
  by_contra hside
  have hmem : w ∈ { s with host := h }.ready := by
    refine mem_ready_of_hasSide hwatch hread ho ?_
    by_cases hinbox : side.inbox = []
    · exact .inr (by simpa [hinbox] using hside)
    · exact .inl hinbox
  rw [hnil] at hmem
  cases hmem

/-- A poll in which nothing is ready: nothing arrived. -/
theorem ends_poll_of_nil (hopen : h.IsOpen fd ep [])
    (hp : ({ s with host := h }.away id).Paired id e s') (hpoll : { s with host := h }.CanPoll)
    (hready : { s with host := h }.ready = []) (n : Nat) :
    (poll (callHook (n + 2))).Abides .total (fun a t => a = .ok 0 ∧ ∃ x : Exchange Builtin.kit,
      x.Comes (callHook (n + 1)) pending s' ∧ x.Leaves id fd ep sv t ∧
      t.host.heard ep = h.heard ep ++ x.said) { s with host := h } := by
  have hnoted := noted_noticed { s with host := h }
    ((s.manager.watches.silentOwners h).map .socketSilent) (List.forall_mem_map.2 fun _ _ => rfl)
  obtain ⟨hcontents, hget⟩ := hs.entry hp.entry
  have haway : (s.away id).manager.regaining id (.server sv) = s.manager :=
    regaining_away hget rfl
  refine abides_total_iff.2 ⟨_, _, (comes_poll_of_nil hpoll hready).run?_eq, rfl,
    ⟨[], pending, [], s'⟩, ⟨.of_not_mem hs.not_mem, rfl⟩, ?_, (List.append_nil _).symm⟩
  refine hs.leaves (e := e) ?_ ?_ hs.not_mem ⟨hopen.stream, hopen.lt_length, hopen.side⟩ rfl
  · show s.manager = s'.manager.regaining id (.server (sv.hold fd pending))
    rw [hs.hold_pending, hp.manager]
    exact haway.symm
  · have hwait : h.Matches (h.wait s.manager.settings.pollTimeout) := ⟨rfl, rfl, rfl⟩
    exact ((hnoted.away id).paired hp).onHost hwait

variable (hp : (s.away id).Paired id e s') (hgets : s.host.Gets h ep bytes)

include hp hgets

/-- A poll comes to the exchange of what arrived, unless a reply cannot be sent. -/
theorem ends_poll (hpoll : { s with host := h }.CanPoll)
    (hready : { s with host := h }.OnlyReady fd) (n : Nat) :
    (poll (callHook (n + 2))).Abides .total (fun a t => (∃ k, a = .ok k) ∧
      ({ s with host := h }.Misses fd t ∨ ∃ x : Exchange Builtin.kit,
        x.Comes (callHook (n + 1)) (pending ++ bytes) s' ∧ x.Leaves id fd ep sv t ∧
        t.host.heard ep = h.heard ep ++ x.said)) { s with host := h } := by
  obtain ⟨waiting, rfl, hopen⟩ := hgets.isOpen hs.isOpen
  by_cases hnil : { s with host := h }.ready = []
  · obtain ⟨hwaiting, -⟩ := hs.of_not_ready hopen.hasSide hnil
    obtain rfl : waiting = [] := hwaiting
    refine (hs.ends_poll_of_nil hopen (hp.onHost hgets.same) hpoll hnil n).mono fun a t ht => ?_
    rw [List.flatten_nil, List.append_nil]
    exact ⟨⟨0, ht.1⟩, .inr ht.2⟩
  have hreceived : (({ s with host := h }.received id fd).away id).Paired id e s' := by
    rw [Machine.received_of_isOpen (s := { s with host := h }) hopen]
    exact hp.onHost (hgets.same.trans (h.matches_receive fd))
  refine (hs.ends_poll_of_ready hopen.hasSide hreceived hpoll hready hnil n).mono fun a t ht => ?_
  obtain ⟨rfl, x, hx, -, hconcludes⟩ := ht
  refine ⟨⟨1, rfl⟩, ?_⟩
  cases hconcludes with
  | goesOn hwhole _ hmanager hpaired hserved =>
    have hleaves := hs.leaves hmanager hpaired hx.lines.not_mem_rest hserved.hasSide.isOpen
      hserved.watch
    exact .inr ⟨x, hx.comes hwhole, hleaves, hserved.heard⟩
  | ended _ hending => exact absurd rfl hending
  | missed _ _ hmisses => exact .inl hmisses

/-- A poll that succeeds comes to the exchange of what arrived. -/
theorem polls (hpolls : { s with host := h }.Polls n fd ep said t) : ∃ x : Exchange Builtin.kit,
    x.Comes (callHook (n + 1)) (pending ++ bytes) s' ∧ x.Leaves id fd ep sv t ∧ said = x.said := by
  have hends := hs.ends_poll hp hgets hpolls.canPoll hpolls.onlyReady n
  obtain ⟨a, t', hrun, -, hx⟩ := abides_total_iff.1 hends
  obtain ⟨a', hrun'⟩ := hpolls.run
  obtain rfl : t' = t := by
    rw [hrun] at hrun'
    cases hrun'
    rfl
  rcases hx with hmiss | ⟨x, hx, hleaves, hheard⟩
  · exact absurd hmiss hpolls.reaches
  · rw [hpolls.heard] at hheard
    exact ⟨x, hx, hleaves, List.append_cancel_left hheard⟩

end Connected

end Machine

/-! ## All polls -/

theorem Exchange.Leaves.append (hy : y.Leaves id fd ep (x.server sv fd) t) :
    (x.append y).Leaves id fd ep sv t := by
  obtain ⟨hmanager, hpaired, hconnected⟩ := hy
  rw [x.server_append] at hmanager hconnected
  exact ⟨hmanager, hpaired, hconnected⟩

/-- A session comes to the exchange of all its bytes. -/
theorem Session.exists_exchange (h : Session n fd ep s pieces said u)
    (hs : s.Connected id fd ep sv pending) (hp : (s.away id).Paired id e s') :
    ∃ x : Exchange Builtin.kit, x.Comes (callHook (n + 1)) (pending ++ pieces.flatten) s' ∧
      x.Leaves id fd ep sv u ∧ said = x.said := by
  -- The lines of each piece are executed on the machine after the exchange so far, which is paired
  -- with the machine of the session while the server is away.
  induction h generalizing sv pending e s' with
  | @rest s =>
    obtain ⟨hcontents, hget⟩ := hs.entry hp.entry
    refine ⟨⟨[], pending, [], s'⟩, ⟨?_, rfl⟩, ?_, rfl⟩
    · rw [List.flatten_nil, List.append_nil]
      exact .of_not_mem hs.not_mem
    · refine hs.leaves ?_ hp hs.not_mem hs.isOpen rfl
      show s.manager = s'.manager.regaining id (.server (sv.hold fd pending))
      rw [hs.hold_pending, hp.manager, Machine.regaining_away hget rfl]
  | piece hgets hpolls _ ih =>
    obtain ⟨x, hx, hleaves, rfl⟩ := hs.polls hp hgets hpolls
    obtain ⟨e', hp'⟩ := hleaves.paired
    obtain ⟨y, hy, hleaves', rfl⟩ := ih hleaves.connected hp'
    refine ⟨x.append y, ?_, hleaves'.append, (x.said_append y).symm⟩
    rw [List.flatten_cons, ← List.append_assoc]
    exact hx.append hy

/-- **Framing.** A server whose only busy client sends bytes, cut into pieces anywhere, with a poll
after each piece, and gets all replies, executes the lines of all the bytes as they are executed
without a server, and replies to each with what it came to. What follows the last line is held. The
same comes of the same bytes if they are cut otherwise, and one more poll always has a result. -/
theorem framing (hs : s.Connected id fd ep sv pending) (h : Session n fd ep s pieces said u) :
    (∃ x : Exchange Builtin.kit,
      x.Comes (callHook (n + 1)) (pending ++ pieces.flatten) (s.away id) ∧
      x.Leaves id fd ep sv u ∧ said = x.said) ∧
    (∀ pieces' said' u', Session n fd ep s pieces' said' u' → pieces'.flatten = pieces.flatten →
      said' = said ∧ u'.manager = u.manager ∧ u'.doings = u.doings ∧ u.host.Matches u'.host) ∧
    ∀ host bytes, u.host.Gets host ep bytes → { u with host }.CanPoll →
      { u with host }.OnlyReady fd →
      ∃ k t, { u with host }.run? (poll (callHook (n + 2))) = some (.ok (.ok k), t) := by
  obtain ⟨e, hget, hcontents⟩ := hs.live
  have hself : ∃ e, (s.away id).Paired id e (s.away id) := by
    refine ⟨{ e with contents := none }, rfl, .refl _, rfl, ?_⟩
    unfold Machine.away
    rw [Keyed.get?_modify, if_pos rfl, hget]
    rfl
  obtain ⟨e', hp⟩ := hself
  obtain ⟨x, hx, hleaves, hsaid⟩ := h.exists_exchange hs hp
  obtain ⟨a, hpaired⟩ := hleaves.paired
  refine ⟨⟨x, hx, hleaves, hsaid⟩, ?_, ?_⟩
  · intro pieces' said' u' h' hsame
    obtain ⟨y, hy, hleaves', hsaid'⟩ := h'.exists_exchange hs hp
    rw [hsame] at hy
    obtain rfl := hx.unique hy
    obtain ⟨b, hpaired'⟩ := hleaves'.paired
    refine ⟨hsaid'.trans hsaid.symm, hleaves'.manager.trans hleaves.manager.symm, ?_, ?_⟩
    · exact hpaired'.doings.symm.trans hpaired.doings
    · exact hpaired.host.trans hpaired'.host.symm
  · intro host bytes hgets hpoll hready
    have hends := hleaves.connected.ends_poll hpaired hgets hpoll hready n
    obtain ⟨_, t, hrun, ⟨k, rfl⟩, -⟩ := abides_total_iff.1 hends
    exact ⟨k, t, hrun⟩

/-! ## A session that is cut twice -/

/-- The end of a connection at which a server has its client. -/
def served : Host.Endpoint := ⟨0, true⟩

def attendant : Server := { path := some "s", listener := some 3, clients := [⟨5, []⟩] }

/-- A machine with this server. The client has the descriptor 4. -/
def attended : Machine Builtin.kit :=
  let row : Keyed BlockId (Entry Builtin.kit) := .empty
  let descriptors : Keyed Fd Host.Opened := .empty
  { manager := { (.fresh {} : Manager Builtin.kit) with
      factories := Keyed.empty.insert "hello" .hello
      blocks := row.insert ⟨-1⟩
        { serial := 0, type := "ncli", state := .started
          contents := some (.server attendant) }
      watches := {
        maxFd := 1024
        toList := [.reading ⟨-1⟩ 3, .reading ⟨-1⟩ 5]
        distinct := by decide
        interested := by decide
        watchable := by
          unfold Source.Watchable
          decide } }
    host := { Host.manual with
      streams := ⟨[{}]⟩
      descriptors := ((descriptors.insert 3 (.listener 0 [])).insert 4
        (.stream served.other)).insert 5 (.stream served) } }

namespace Machine

theorem Polls.of_after (said : List UInt8) (hpoll : s.CanPoll) (hready : s.OnlyReady 5)
    (hrun : (s.run? (poll (callHook 2))).isSome)
    (hreaches : (s.after (poll (callHook 2))).events.any (·.isMiss 5) = false)
    (hheard : (s.after (poll (callHook 2))).host.heard served =
      s.host.heard served ++ said) :
    s.Polls 0 5 served said (s.after (poll (callHook 2))) :=
  ⟨hpoll, hready, run?_after hrun, not_misses hreaches, hheard⟩

end Machine

/-- A piece that the client sends. -/
theorem Session.transmit {said' : List UInt8}
    (hopen : s.host.descriptors.get? 4 = some (.stream served.other))
    (hlt : 0 < s.host.streams.connections.length)
    (hsent : (s.host.transmit 4 bytes).1 = .ok ())
    (hpolls : (s.transmitted 4 bytes).Polls 0 5 served said t)
    (hrest : Session 0 5 served t pieces said' u) :
    Session 0 5 served s (bytes :: pieces) (said ++ said') u :=
  .piece (Host.gets_transmit hopen hlt hsent) hpolls hrest

/-- The first line comes in two pieces, and so does the only character of the second one. -/
theorem exists_session : ∃ u, Session 0 5 served attended
    [bytesOf "0 1 hello\r", [0x0A, 0xC3], [0xA9, 0x0A]]
    (bytesOf "OK -1 ncli 1;1 hello 0;\n" ++ bytesOf "KO -1 ncli 1;1 hello 0;\n") u := by
  have hsession : ∃ u, Session 0 5 served attended
      [bytesOf "0 1 hello\r", [0x0A, 0xC3], [0xA9, 0x0A]]
      ([] ++ (bytesOf "OK -1 ncli 1;1 hello 0;\n" ++
        (bytesOf "KO -1 ncli 1;1 hello 0;\n" ++ []))) u := by
    refine ⟨_, .transmit ?_ ?_ ?_ (.of_after _ ?_ ?_ ?_ ?_ ?_) <|
      .transmit ?_ ?_ ?_ (.of_after _ ?_ ?_ ?_ ?_ ?_) <|
      .transmit ?_ ?_ ?_ (.of_after _ ?_ ?_ ?_ ?_ ?_) .rest⟩
    all_goals decide +kernel
  rwa [List.nil_append, List.append_nil] at hsession

theorem connected_attended : attended.Connected ⟨-1⟩ 5 served attendant [] := by
  have hopen : attended.host.IsOpen 5 served [] := ⟨rfl, by decide, rfl⟩
  refine ⟨⟨_, rfl, rfl⟩, ?_, by decide, ⟨_, rfl, rfl, rfl⟩, hopen, List.not_mem_nil⟩
  intro c
  constructor
  · rintro ⟨hc, -⟩
    exact List.mem_singleton.1 hc
  · rintro rfl
    exact ⟨List.mem_singleton_self _, rfl⟩

/-- The lines of the whole text are executed. -/
theorem framing_cut : attended.Connected ⟨-1⟩ 5 served attendant [] ∧
    ∃ (u : Machine Builtin.kit) (x : Exchange Builtin.kit),
      Session 0 5 served attended [bytesOf "0 1 hello\r", [0x0A, 0xC3], [0xA9, 0x0A]] x.said u ∧
      x.Comes (callHook 1) (bytesOf "0 1 hello\r\né\n") (attended.away ⟨-1⟩) ∧
      x.said = bytesOf "OK -1 ncli 1;1 hello 0;\n" ++ bytesOf "KO -1 ncli 1;1 hello 0;\n" ∧
      x.Leaves ⟨-1⟩ 5 served attendant u := by
  obtain ⟨u, hsession⟩ := exists_session
  obtain ⟨⟨x, hx, hleaves, hsaid⟩, -⟩ := framing connected_attended hsession
  exact ⟨connected_attended, u, x, hsaid ▸ hsession, hx, hsaid.symm, hleaves⟩

end BlockFlow
