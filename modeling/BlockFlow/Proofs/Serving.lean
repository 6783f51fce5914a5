import BlockFlow.Proofs.ClientStream
import BlockFlow.Proofs.History
import BlockFlow.Proofs.WholeLines

/-!
# Serving a client

A server executes the whole lines that it received, one after the other, and sends a reply to each
that is not blank. What the lines do is told without the server: the texts are executed in order,
and after each one the live blocks are looked at.

1. `Run.answers`, `Exchange`: the texts of lines executed in order, and what that comes to.
2. `Machine.Served`, `Machine.Misses`, `Machine.Conveys`: a client is told something, or cannot
   be told.
3. `ends_serveLines`, `ends_serve`, `ends_callHook_event`: a server does just what the exchange
   says. If a reply cannot be sent, the exchange breaks off there.
4. `Exchange.Dismisses`: a client whose stream has ended, or that could not be told, is dismissed.
-/

namespace BlockFlow

variable {K : Kit} {α : Type}

/-! ## What lines come to -/

/-- What a server does with a client after its lines: it holds what follows the last of them as long
as the client could be told everything and its stream goes on, and dismisses the client if not. -/
def Server.settle {F M : Type} (id : BlockId) (fd : Fd) (rest : List UInt8) (ending : Host.Ending)
    (p : Server × Bool) : Script F M Server Server :=
  if p.2 && ending = .ongoing then return p.1.hold fd rest
  else do
    Script.notify (.clientDisconnected id fd)
    Script.ask (.unwatch (.reading id fd))
    Script.ask (.close fd)
    return p.1.forget fd

/-- What a line came to: whether it succeeded, and the records of all live blocks right after it. -/
structure Answer where
  succeeded : Bool
  dump : String

def Answer.reply (a : Answer) : List UInt8 :=
  bytesOf ((if a.succeeded then "OK " else "KO ") ++ a.dump ++ "\n")

/-- The texts that lines stand for: ill-formed bytes are replaced, outer blanks and blank lines left
out. -/
def Server.texts (lines : List (List UInt8)) : List (List Char) :=
  (lines.map fun line => Text.trim (Text.Utf8.decodeLenient line)).filter (!·.isEmpty)

def Server.counting (sv : Server) (answers : List Answer) : Server :=
  { sv with
    commands := sv.commands + answers.length
    failures := sv.failures + answers.countP (!·.succeeded) }

section Server

variable (sv : Server) (fd : Fd) (as as' : List Answer) (rest rest' : List UInt8)

theorem Server.counting_counting : (sv.counting as).counting as' = sv.counting (as ++ as') := by
  unfold counting
  simp only [List.length_append, List.countP_append, Nat.add_assoc]

theorem Server.hold_hold : (sv.hold fd rest).hold fd rest' = sv.hold fd rest' := by
  unfold hold
  simp only [List.map_map]
  congr 1
  refine List.map_congr_left fun c _ => ?_
  by_cases hc : c.fd = fd <;> simp [hc]

/-- Only the bytes that are held last are kept. -/
theorem Server.counting_hold_counting_hold :
    (((sv.counting as).hold fd rest).counting as').hold fd rest' =
      (sv.counting (as ++ as')).hold fd rest' := by
  rw [← counting_counting]
  exact hold_hold ((sv.counting as).counting as') fd rest rest'

end Server

namespace Run

/-- A text is executed: as structured commands if it begins with a brace, as a command line if
not. -/
def obeyText (call : Call K) (text : List Char) : Run K (Except CommandError Unit) :=
  if text.head? = some '\x7b' then loadBytes call (Text.Utf8.encode text) else line call text

/-- A text is executed, and what it came to is looked at. -/
def answer (call : Call K) (text : List Char) : Run K Answer := do
  let result ← obeyText call text
  return ⟨result.isOk, (← manager).dump⟩

/-- Texts are executed in order, each as soon as the one before has been answered. -/
def answers (call : Call K) : List (List Char) → Run K (List Answer)
  | [] => return []
  | text :: texts => do
    let a ← answer call text
    let as ← answers call texts
    return a :: as

theorem answers_append (call : Call K) (texts texts' : List (List Char)) :
    answers call (texts ++ texts') = do
      let as ← answers call texts
      let as' ← answers call texts'
      return as ++ as' := by
  induction texts with
  | nil => simp [answers]
  | cons text texts ih => simp [answers, ih]

theorem length_answers {call : Call K} {texts : List (List Char)} {as : List Answer}
    {s t : Machine K} (h : s.run? (answers call texts) = some (.ok as, t)) :
    as.length = texts.length := by
  induction texts generalizing s as with
  | nil =>
    cases h
    rfl
  | cons text texts ih =>
    rw [answers] at h
    obtain ⟨a, u, -, h⟩ := exists_of_run?_bind h
    obtain ⟨as', v, has, h⟩ := exists_of_run?_bind h
    cases h
    rw [List.length_cons, List.length_cons, ih has]

end Run

/-- What bytes come to: their whole lines and what follows them, the answers to the lines, and the
machine after these. -/
structure Exchange (K : Kit) where
  lines : List (List UInt8)
  rest : List UInt8
  answers : List Answer
  after : Machine K

namespace Exchange

/-- Bytes come to an exchange on a machine. -/
structure Comes (x : Exchange K) (call : Call K) (bytes : List UInt8) (s : Machine K) :
    Prop where
  lines : Server.AreLines bytes x.lines x.rest
  run : s.run? (Run.answers call (Server.texts x.lines)) = some (.ok x.answers, x.after)

/-- Bytes come to an exchange that may have broken off: the lines after the last one that was
answered were not executed. -/
structure Begins (x : Exchange K) (call : Call K) (bytes : List UInt8) (s : Machine K) :
    Prop where
  lines : Server.AreLines bytes x.lines x.rest
  run : s.run? (Run.answers call ((Server.texts x.lines).take x.answers.length)) =
    some (.ok x.answers, x.after)

/-- All lines were answered. -/
def IsWhole (x : Exchange K) : Prop := x.answers.length = (Server.texts x.lines).length

def said (x : Exchange K) : List UInt8 := x.answers.flatMap (·.reply)

def server (x : Exchange K) (sv : Server) (fd : Fd) : Server :=
  (sv.counting x.answers).hold fd x.rest

def append (x y : Exchange K) : Exchange K :=
  ⟨x.lines ++ y.lines, y.rest, x.answers ++ y.answers, y.after⟩

variable {x y : Exchange K} {call : Call K} {bytes more : List UInt8} {s : Machine K}

/-- Bytes come to one exchange only. -/
theorem Comes.unique (hx : x.Comes call bytes s) (hy : y.Comes call bytes s) : x = y := by
  obtain ⟨lines, rest, as, after⟩ := x
  obtain ⟨lines', rest', as', after'⟩ := y
  obtain ⟨rfl, rfl⟩ : lines = lines' ∧ rest = rest' := hx.lines.unique hy.lines
  obtain ⟨rfl, rfl⟩ : as = as' ∧ after = after' := by simpa using hx.run.symm.trans hy.run
  rfl

theorem Begins.comes (hx : x.Begins call bytes s) (hw : x.IsWhole) : x.Comes call bytes s where
  lines := hx.lines
  run := by
    have hrun := hx.run
    rwa [hw, List.take_length] at hrun

theorem Comes.isWhole (hx : x.Comes call bytes s) : x.IsWhole := Run.length_answers hx.run

theorem Comes.begins (hx : x.Comes call bytes s) : x.Begins call bytes s where
  lines := hx.lines
  run := by
    rw [hx.isWhole, List.take_length]
    exact hx.run

/-- What was left over goes before the next bytes. -/
theorem Comes.append (hx : x.Comes call bytes s) (hy : y.Comes call (x.rest ++ more) x.after) :
    (x.append y).Comes call (bytes ++ more) s where
  lines := hx.lines.append hy.lines
  run := by
    have htexts : Server.texts (x.lines ++ y.lines) =
        Server.texts x.lines ++ Server.texts y.lines := by
      unfold Server.texts
      rw [List.map_append, List.filter_append]
    show s.run? (Run.answers call (Server.texts (x.lines ++ y.lines))) = _
    rw [htexts, Run.answers_append, Run.run?_bind, hx.run]
    dsimp only
    rw [Run.run?_bind, hy.run]
    rfl

theorem said_append (x y : Exchange K) : (x.append y).said = x.said ++ y.said :=
  List.flatMap_append

theorem server_append (x y : Exchange K) (sv : Server) (fd : Fd) :
    y.server (x.server sv fd) fd = (x.append y).server sv fd :=
  sv.counting_hold_counting_hold fd x.answers y.answers x.rest y.rest

end Exchange

def Manager.regaining (m : Manager K) (id : BlockId) (c : K.Contents) : Manager K :=
  { m with blocks := m.blocks.modify id ({ · with contents := some c }) }

namespace Machine

variable {s : Machine K} {id : BlockId} {e : Entry K} {c : K.Contents}

/-- A block whose contents are put away. -/
theorem get?_away (hget : s.manager.blocks.get? id = some e) :
    (s.away id).manager.blocks.get? id = some { e with contents := none } := by
  unfold away
  rw [Keyed.get?_modify, if_pos rfl, hget, Option.map_some]

/-- Contents that were away and come back are put away again. -/
theorem away_regaining (hget : s.manager.blocks.get? id = some e) (he : e.contents = none) :
    { s with manager := s.manager.regaining id c }.away id = s := by
  have hself : s.manager.blocks.modify id ({ · with contents := none }) = s.manager.blocks := by
    refine Keyed.modify_eq_self hget ?_
    rw [← he]
  unfold away Manager.regaining
  dsimp only
  rw [Keyed.modify_modify]
  exact congrArg (fun blocks => { s with manager.blocks := blocks }) hself

/-- Contents that were put away come back. -/
theorem regaining_away (hget : s.manager.blocks.get? id = some e) (he : e.contents = some c) :
    (s.away id).manager.regaining id c = s.manager := by
  have hself : s.manager.blocks.modify id ({ · with contents := some c }) = s.manager.blocks := by
    refine Keyed.modify_eq_self hget ?_
    rw [← he]
  unfold away Manager.regaining
  dsimp only
  rw [Keyed.modify_modify]
  exact congrArg (fun blocks => { s.manager with blocks }) hself

end Machine

/-! ## What happens to the client -/

/-- Events after it was noted if a client could not be read. -/
def Host.Ending.noted (id : BlockId) (fd : Fd) (es : List (Event K)) : Host.Ending → List (Event K)
  | .failed f => .notice (.clientUnreadable id fd f) :: es
  | .ongoing => es
  | .ended => es

/-- Whether an event tells that a client could not be sent a reply. -/
def Event.isMiss (fd : Fd) : Event K → Bool
  | .notice (.clientUnreachable fd' _) => fd' = fd
  | _ => false

namespace Machine

/-- From one machine to another a client is told some bytes; the end of the server is as given
then. -/
structure Served (fd : Fd) (e : Host.Endpoint) (side : Host.Side) (said : List UInt8)
    (s t : Machine K) : Prop where
  events : s.events <:+ t.events
  hasSide : t.host.HasSide fd e side
  heard : t.host.heard e = s.host.heard e ++ said
  watch : t.manager.watches.watchOf? ⟨fd, none⟩ = s.manager.watches.watchOf? ⟨fd, none⟩

/-- From one machine to another a client could not be sent a reply. -/
def Misses (fd : Fd) (s t : Machine K) : Prop :=
  ∃ ev es, ev.isMiss fd ∧ s.events <:+ es ∧ ev :: es <:+ t.events

def transmitted (s : Machine K) (fd : Fd) (bytes : List UInt8) : Machine K :=
  { s with host := (s.host.transmit fd bytes).2 }

/-- The machine after it was noted that a client could not be sent a reply. -/
def missed (s : Machine K) (fd : Fd) (f : Host.Failure) : Machine K :=
  { s with events := .notice (.clientUnreachable fd f) :: s.events }

/-- The ways in which a client of a server is left that answered it: it was told everything, or it
could not be told the last answer. What was done is paired with a machine without the server. -/
inductive Conveys (id : BlockId) (entry : Entry K) (fd : Fd) (e : Host.Endpoint) (side : Host.Side)
    (said : List UInt8) (s : Machine K) : Machine K → Machine K → Bool → Prop
  | reached {t t' : Machine K} (hp : t.Paired id entry t') (hserved : s.Served fd e side said t) :
    Conveys id entry fd e side said s t t' true
  | missed {t t' : Machine K} (f : Host.Failure) (hp : t.Paired id entry t')
    (hevents : s.events <:+ t.events) :
    Conveys id entry fd e side said s (t.missed fd f) t' false

variable {id : BlockId} {entry : Entry K} {fd : Fd} {e : Host.Endpoint} {side : Host.Side}
  {said said' bytes : List UInt8} {s t u u' : Machine K} {reached : Bool}

theorem Served.refl (h : s.host.HasSide fd e side) : s.Served fd e side [] s :=
  ⟨List.suffix_rfl, h, (List.append_nil _).symm, rfl⟩

theorem Served.trans (h : s.Served fd e side said t) (h' : t.Served fd e side said' u) :
    s.Served fd e side (said ++ said') u where
  events := h.events.trans h'.events
  hasSide := h'.hasSide
  heard := by rw [h'.heard, h.heard, List.append_assoc]
  watch := h'.watch.trans h.watch

theorem Served.noted (h : s.Served fd e side said t) (h' : t.Noted u) :
    s.Served fd e side said u where
  events := h.events.trans h'.events
  hasSide := h'.host ▸ h.hasSide
  heard := by rw [h'.host, h.heard]
  watch := by rw [h'.manager, h.watch]

theorem Served.conveys (h : s.Served fd e side said t)
    (h' : t.Conveys id entry fd e side said' u u' reached) :
    s.Conveys id entry fd e side (said ++ said') u u' reached := by
  cases h' with
  | reached hp hserved => exact .reached hp (h.trans hserved)
  | missed f hp hevents => exact .missed f hp (h.events.trans hevents)

/-- A client whose stream was left alone is told what is transmitted. -/
theorem served_transmitted (ho : s.host.HasSide fd e side) (hu : s.Untouched fd u)
    (hsent : (u.host.transmit fd bytes).1 = .ok ()) :
    side.outputEnded = false ∧ s.Served fd e side bytes (u.transmitted fd bytes) := by
  obtain ⟨hended, hside, hheard⟩ := Host.transmit_of_hasSide ho hu.host hsent
  have hstream : u.host.descriptors.get? fd = some (.stream e) := by
    rw [← (u.host.matches_transmit fd bytes).descriptors]
    exact hside.stream
  exact ⟨hended, hu.events, hside, hheard, hu.watch hstream⟩

theorem misses_missed (f : Host.Failure) (h : s.events <:+ t.events) :
    s.Misses fd (t.missed fd f) :=
  ⟨.notice (.clientUnreachable fd f), t.events, decide_eq_true rfl, h, List.suffix_rfl⟩

/-- Nothing tells that a client could not be sent a reply. -/
theorem not_misses (h : t.events.any (·.isMiss fd) = false) : ¬ s.Misses fd t := by
  rintro ⟨ev, es, hev, -, hsuffix⟩
  have hmem : ev ∈ t.events := hsuffix.subset List.mem_cons_self
  exact absurd hev (by simpa using List.any_eq_false.1 h ev hmem)

theorem Misses.after (h : t.Misses fd u) (hst : s.events <:+ t.events) : s.Misses fd u := by
  obtain ⟨ev, es, hev, hes, hu⟩ := h
  exact ⟨ev, es, hev, hst.trans hes, hu⟩

theorem Misses.before (h : s.Misses fd t) (htu : t.events <:+ u.events) : s.Misses fd u := by
  obtain ⟨ev, es, hev, hes, ht⟩ := h
  exact ⟨ev, es, hev, hes, ht.trans htu⟩

/-- The machine after a server has received what waits at a client. -/
def received (s : Machine K) (id : BlockId) (fd : Fd) : Machine K :=
  { s with
    host := (s.host.receive fd).2
    events := (s.host.receive fd).1.2.noted id fd s.events }

theorem doings_received (s : Machine K) (id : BlockId) (fd : Fd) :
    (s.received id fd).doings = (s.host.receive fd).1.2.noted id fd s.doings := by
  show ((s.host.receive fd).1.2.noted id fd s.events).filter _ = _
  cases (s.host.receive fd).1.2 <;> rfl

/-- Nothing is noted of a client whose stream goes on. -/
theorem received_of_isOpen {waiting : List (List UInt8)} (ho : s.host.IsOpen fd e waiting)
    (id : BlockId) : s.received id fd = { s with host := (s.host.receive fd).2 } := by
  unfold received
  rw [(Host.receive_of_hasSide ho.hasSide).1]
  rfl

/-- Events that do not come from commands make no difference to what is received. -/
theorem Noted.paired_received (h : s.Noted t)
    (hp : (s.received id fd).Paired id entry u) : (t.received id fd).Paired id entry u where
  manager := hp.manager.trans h.manager.symm
  host := by
    show (t.host.receive fd).2.Matches u.host
    rw [h.host]
    exact hp.host
  doings := by
    rw [hp.doings, doings_received, doings_received, h.doings, h.host]
  entry := by
    show t.manager.blocks.get? id = _
    rw [h.manager]
    exact hp.entry

/-- The machine after a server has dismissed a client. -/
def dismissed (s : Machine K) (id : BlockId) (fd : Fd) : Machine K where
  manager := { s.manager with watches := s.manager.watches.remove ⟨fd, none⟩ ⟨true, false⟩ }
  host := s.host.close fd
  events := .notice (.unwatched id fd) :: .notice (.clientDisconnected id fd) :: s.events

end Machine

/-- A client is served: what was received of it comes to an exchange, which breaks off at a reply
that cannot be sent. To a client that was closed no reply can be sent. -/
structure Exchange.Serves (x : Exchange Builtin.kit) (n : Nat) (id : BlockId)
    (e : Entry Builtin.kit) (fd : Fd) (ep : Host.Endpoint) (side : Host.Side)
    (pending : List UInt8) (s s' u : Machine Builtin.kit) (reached : Bool) : Prop where
  begins : x.Begins (Run.callHook (n + 1)) (pending ++ side.inbox.flatten) s'
  conveys : s.Conveys id e fd ep side.emptied x.said u x.after reached
  isWhole (hreached : reached = true) : x.IsWhole
  answers_ne (hreached : reached = false) : x.answers ≠ []
  length_answers (hended : side.outputEnded = true) :
    x.answers.length = min 1 (Server.texts x.lines).length

/-- A machine is as an exchange leaves it after which the client was dismissed: the server is back
without the client, whose descriptor is neither watched nor open. All that commands did was done
before, and then something was told. -/
structure Exchange.Dismisses (x : Exchange Builtin.kit) (id : BlockId) (fd : Fd) (sv : Server)
    (told : List (Event Builtin.kit)) (t : Machine Builtin.kit) : Prop where
  manager : t.manager = { x.after.manager with
      watches := x.after.manager.watches.remove ⟨fd, none⟩ ⟨true, false⟩ }.regaining id
    (.server ((sv.counting x.answers).forget fd))
  host : ∃ h, x.after.host.Matches h ∧ t.host = h.close fd
  doings : t.doings =
    .notice (.unwatched id fd) :: .notice (.clientDisconnected id fd) :: (told ++ x.after.doings)

/-- The server and the machine after a client was served. -/
def Exchange.Settles (x : Exchange Builtin.kit) (id : BlockId) (fd : Fd) (side : Host.Side)
    (sv : Server) (u : Machine Builtin.kit) (reached : Bool) (sv' : Server)
    (t : Machine Builtin.kit) : Prop :=
  if reached && side.ending = .ongoing then sv' = x.server sv fd ∧ t = u
  else sv' = (sv.counting x.answers).forget fd ∧ t = u.dismissed id fd

/-- How a machine is left when a server has served a client: it goes on, or its stream has ended and
it was dismissed, or a reply could not be sent and it was dismissed. -/
inductive Exchange.Concludes (x : Exchange Builtin.kit) (id : BlockId) (e : Entry Builtin.kit)
    (fd : Fd) (ep : Host.Endpoint) (side : Host.Side) (sv : Server) (s t : Machine Builtin.kit) :
    Prop
  | goesOn (hwhole : x.IsWhole) (hending : side.ending = .ongoing)
    (hmanager : t.manager = x.after.manager.regaining id (.server (x.server sv fd)))
    (hpaired : (t.away id).Paired id e x.after)
    (hserved : s.Served fd ep side.emptied x.said t) : Concludes x id e fd ep side sv s t
  | ended (hwhole : x.IsWhole) (hending : side.ending ≠ .ongoing)
    (hdismisses : x.Dismisses id fd sv [] t) : Concludes x id e fd ep side sv s t
  | missed (f : Host.Failure) (hne : x.answers ≠ []) (hmisses : s.Misses fd t)
    (hdismisses : x.Dismisses id fd sv [.notice (.clientUnreachable fd f)] t) :
    Concludes x id e fd ep side sv s t

/-! ## Lines -/

namespace Run

variable {id : BlockId} {e : Entry Builtin.kit} {fd : Fd} {ep : Host.Endpoint} {n m : Nat}
  {side : Host.Side} {s s' : Machine Builtin.kit} {leave : Server → Run Builtin.kit Unit}
  {sv c : Server}

section Answers

variable {s₀ : Machine Builtin.kit} (he : e.contents = none) (hp : s.Paired id e s')
  (hu : s₀.Untouched fd s)

include he hp hu

theorem pairs_obeyText (n : Nat) (text : List Char) :
    (obeyText (callHook (n + 1)) text).Pairs id e (s₀.Untouched fd) s s' := by
  unfold obeyText
  split
  · exact pairs_loadBytes he hp hu n _
  · exact pairs_line he hp hu n text

/-- A text has the same answer on both machines. -/
theorem pairs_answer (n : Nat) (text : List Char) :
    (answer (callHook (n + 1)) text).Pairs id e (s₀.Untouched fd) s s' := by
  refine (pairs_obeyText he hp hu n text).bind fun x t t' hp hu => ?_
  exact pairs_manager hp (pairs_pure hp _ hu)

end Answers

/-- A text is executed; a failure is told of in a notice. -/
theorem ends_execute {Q : Bool × Server → Machine Builtin.kit → Prop} (text : List Char)
    (h : (obeyText (callHook (n + 1)) text).Abides .total (fun x t => ∀ u, t.Noted u →
      Q (x.isOk, c) u) s) :
    (runScript (callHook (n + 1)) m leave c (Server.execute fd text)).Abides .total Q s := by
  unfold Server.execute
  unfold obeyText at h
  by_cases hbrace : text.head? = some '\x7b'
  · rw [if_pos hbrace] at h
    simp only [hbrace, if_true]
    refine abides_runScript_bind (abides_runScript_call (h.mono ?_))
    intro x t hx
    cases x with
    | ok _ => exact hx _ (.refl t)
    | error err => exact hx _ ((Machine.Noted.refl t).cons rfl)
  · rw [if_neg hbrace, ← String.toList_ofList (l := text)] at h
    simp only [hbrace, if_false]
    refine abides_runScript_bind (abides_runScript_call (h.mono ?_))
    intro x t hx
    cases x with
    | ok _ => exact hx _ (.refl t)
    | error err => exact hx _ ((Machine.Noted.refl t).cons rfl)

theorem texts_cons_of_blank {bytes : List UInt8} (lines : List (List UInt8))
    (h : Text.trim (Text.Utf8.decodeLenient bytes) = []) :
    Server.texts (bytes :: lines) = Server.texts lines := by
  unfold Server.texts
  rw [List.map_cons, h, List.filter_cons_of_neg (by simp)]

theorem texts_cons {bytes : List UInt8} (lines : List (List UInt8))
    (h : Text.trim (Text.Utf8.decodeLenient bytes) ≠ []) :
    Server.texts (bytes :: lines) =
      Text.trim (Text.Utf8.decodeLenient bytes) :: Server.texts lines := by
  unfold Server.texts
  rw [List.map_cons, List.filter_cons_of_pos (by simpa using h)]

/-- A line that is not blank is answered and the answer is sent. If that fails, the lines after it
are left; if not, they come next. -/
theorem ends_serveLines_cons {bytes : List UInt8} {lines : List (List UInt8)}
    {text : List Char} {Q : (Server × Bool) × Server → Machine Builtin.kit → Prop}
    (rest : List UInt8) (htext : Text.trim (Text.Utf8.decodeLenient bytes) = text)
    (hne : text ≠ [])
    (h : (answer (callHook (n + 1)) text).Abides .total (fun a t => ∀ c u, t.Noted u →
      (∀ f, (u.host.transmit fd a.reply).1 = .error f → Q ((sv.counting [a], false), c)
        ((u.transmitted fd a.reply).missed fd f)) ∧
      ((u.host.transmit fd a.reply).1 = .ok () → (runScript (callHook (n + 1)) m leave c
        (Server.serveLines fd rest (sv.counting [a]) lines)).Abides .total Q
          (u.transmitted fd a.reply))) s) :
    (runScript (callHook (n + 1)) m leave c
      (Server.serveLines fd rest sv (bytes :: lines))).Abides .total Q s := by
  obtain ⟨ch, cs, rfl⟩ := List.exists_cons_of_ne_nil hne
  unfold answer at h
  rw [abides_bind] at h
  unfold Server.serveLines
  rw [htext]
  dsimp only
  refine abides_runScript_bind ?_
  show Abides .total _ (runScript _ m leave _ (_ >>= _)) s
  refine abides_runScript_bind (ends_execute _ (h.mono fun x t hx u hnoted => ?_))
  obtain ⟨herror, hok⟩ := hx _ _ hnoted
  rw [← hnoted.manager] at herror hok
  have hcounting : sv.counting [Answer.mk x.isOk u.manager.dump] = { sv with
      commands := sv.commands + 1
      failures := if x.isOk then sv.failures else sv.failures + 1 } := by cases x <;> rfl
  rw [hcounting] at herror hok
  refine abides_runScript_bind (abides_runScript_call (r := .dump) ?_)
  refine abides_runScript_bind (abides_runScript_call
    (r := .transmit fd (Answer.mk x.isOk u.manager.dump).reply) ?_)
  show Abides .total _ (onHost (·.transmit fd (Answer.mk x.isOk u.manager.dump).reply)) _
  rw [abides_onHost]
  cases hsent : (u.host.transmit fd (Answer.mk x.isOk u.manager.dump).reply).1 with
  | error f => exact herror f hsent
  | ok _ => exact hok hsent

/-- Lines are served as their texts are answered, up to a reply that cannot be sent. To a client
that was closed no reply can be sent. -/
theorem ends_serveLines (he : e.contents = none) (rest : List UInt8) (lines : List (List UInt8))
    (sv : Server) (hp : s.Paired id e s') (ho : s.host.HasSide fd ep side) :
    (runScript (callHook (n + 1)) m leave c (Server.serveLines fd rest sv lines)).Abides .total
      (fun p t => ∃ as t', s'.run? (answers (callHook (n + 1))
          ((Server.texts lines).take as.length)) = some (.ok as, t') ∧
        p.1.1 = sv.counting as ∧ s.Conveys id e fd ep side (as.flatMap (·.reply)) t t' p.1.2 ∧
        (p.1.2 = true → as.length = (Server.texts lines).length) ∧ (p.1.2 = false → as ≠ []) ∧
        (side.outputEnded = true → as.length = min 1 (Server.texts lines).length)) s := by
  induction lines generalizing sv c s s' with
  | nil =>
    refine ⟨[], s', rfl, rfl, .reached hp (.refl ho), fun _ => rfl, fun h => ?_, fun _ => rfl⟩
    cases h
  | cons bytes lines ih =>
    by_cases htext : Text.trim (Text.Utf8.decodeLenient bytes) = []
    · rw [texts_cons_of_blank lines htext]
      unfold Server.serveLines
      rw [htext]
      exact ih sv hp ho
    rw [texts_cons lines htext]
    obtain ⟨a, t, t', ht, ht', hpt, hut⟩ := pairs_answer he hp (.refl fd s) n
      (Text.trim (Text.Utf8.decodeLenient bytes))
    refine ends_serveLines_cons rest rfl htext (abides_total_iff.2 ⟨a, t, ht, ?_⟩)
    intro c u hnoted
    have hsu : s.Untouched fd u := hut.trans (hnoted.untouched fd)
    have hpaired : (u.transmitted fd a.reply).Paired id e t' :=
      (hnoted.paired hpt).onHost (u.host.matches_transmit fd a.reply)
    constructor
    · intro f _
      refine ⟨[a], t', ?_, rfl, .missed f hpaired hsu.events, fun h => ?_,
        fun _ => List.cons_ne_nil _ _, fun _ => ?_⟩
      · rw [List.length_singleton, List.take_succ_cons, List.take_zero, answers, run?_bind, ht']
        rfl
      · cases h
      · rw [List.length_singleton, List.length_cons, Nat.min_eq_left (Nat.le_add_left ..)]
    intro hsent
    obtain ⟨hended, hserved⟩ := Machine.served_transmitted ho hsu hsent
    refine (ih (sv.counting [a]) hpaired hserved.hasSide).mono fun p v hv => ?_
    obtain ⟨as, t'', hrun, hsv, hconveys, hwhole, -⟩ := hv
    refine ⟨a :: as, t'', ?_, ?_, hserved.conveys hconveys, fun h => ?_,
      fun _ => List.cons_ne_nil _ _, fun h => ?_⟩
    · rw [List.length_cons, List.take_succ_cons, answers, run?_bind, ht']
      dsimp only
      rw [run?_bind, hrun]
      rfl
    · rw [hsv, Server.counting_counting]
      rfl
    · rw [List.length_cons, List.length_cons, hwhole h]
    · rw [hended] at h
      cases h

/-! ## The server -/

section Server

variable {pending : List UInt8} {waiting : List (List UInt8)}

/-- All that waits is received, and nothing else is done. -/
theorem served_received (ho : s.host.HasSide fd ep side) (id : BlockId) :
    s.Served fd ep side.emptied [] (s.received id fd) := by
  obtain ⟨-, hside, hheard⟩ := Host.receive_of_hasSide ho
  refine ⟨?_, hside, hheard.trans (List.append_nil _).symm, rfl⟩
  show s.events <:+ (s.host.receive fd).1.2.noted id fd s.events
  cases (s.host.receive fd).1.2 with
  | failed f => exact List.suffix_cons _ _
  | ongoing | ended => exact List.suffix_rfl

theorem ends_settle {call : Call Builtin.kit} (id : BlockId) (fd : Fd) (rest : List UInt8)
    (ending : Host.Ending) (p : Server × Bool) (s : Machine Builtin.kit) :
    (runScript call m leave c (Server.settle id fd rest ending p)).Abides .total (fun p' t =>
      if p.2 && ending = .ongoing then p'.1 = p.1.hold fd rest ∧ t = s
      else p'.1 = p.1.forget fd ∧ t = s.dismissed id fd) s := by
  unfold Server.settle
  split
  · exact ⟨rfl, rfl⟩
  · refine abides_runScript_notify ?_
    refine abides_runScript_bind (abides_runScript_call (r := .unwatch (.reading id fd)) ?_)
    exact abides_runScript_bind (abides_runScript_call (r := .close fd) ⟨rfl, rfl⟩)

/-- The whole lines of what was received are served. -/
theorem ends_serveLines_settle {u : Machine Builtin.kit} {ending : Host.Ending} (c : Server)
    (he : e.contents = none) (hp : (s.received id fd).Paired id e s')
    (ho : s.host.HasSide fd ep side) (hending : side.ending = ending)
    (hu : s.received id fd = u) :
    (runScript (callHook (n + 1)) m leave c
      (Server.serveLines fd (Server.splitLines (pending ++ side.inbox.flatten)).2 sv
        (Server.splitLines (pending ++ side.inbox.flatten)).1 >>=
          Server.settle id fd (Server.splitLines (pending ++ side.inbox.flatten)).2
            ending)).Abides .total
      (fun p t => ∃ (x : Exchange Builtin.kit) (u : Machine Builtin.kit) (reached : Bool),
        x.Serves n id e fd ep side pending s s' u reached ∧
        x.Settles id fd side sv u reached p.1 t) u := by
  subst hending hu
  have hreceived := served_received ho id
  have hlines := Server.areLines_splitLines (pending ++ side.inbox.flatten)
  refine abides_runScript_bind ?_
  refine (ends_serveLines he _ _ sv hp hreceived.hasSide).mono fun p u hu => ?_
  obtain ⟨as, t', hrun, hsv, hconveys, hwhole, hne, hlength⟩ := hu
  refine (ends_settle id fd _ side.ending p.1 u).mono fun p' t ht => ?_
  rw [hsv] at ht
  exact ⟨⟨_, _, as, t'⟩, u, p.1.2,
    ⟨⟨hlines, hrun⟩, hreceived.conveys hconveys, hwhole, hne, hlength⟩, ht⟩

/-- A server that is ready to receive executes the whole lines of what it had and what it receives.
If the stream goes on it keeps what follows the last of them; if not, or if a reply cannot be sent,
it dismisses the client. -/
theorem ends_serve (he : e.contents = none)
    (hclient : sv.clients.find? (·.fd = fd) = some ⟨fd, pending⟩)
    (hp : (s.received id fd).Paired id e s') (ho : s.host.HasSide fd ep side) :
    (runScript (callHook (n + 1)) m leave c (sv.serve id fd)).Abides .total
      (fun p t => ∃ (x : Exchange Builtin.kit) (u : Machine Builtin.kit) (reached : Bool),
        x.Serves n id e fd ep side pending s s' u reached ∧
        x.Settles id fd side sv u reached p.1 t) s := by
  obtain ⟨hresult, -, -⟩ := Host.receive_of_hasSide ho
  have hreceived : s.received id fd = { s with
      host := (s.host.receive fd).2
      events := side.ending.noted id fd s.events } := by
    unfold Machine.received
    rw [hresult]
  unfold Server.serve
  rw [hclient]
  refine abides_runScript_bind (abides_runScript_call (r := .receive fd) ?_)
  show Abides .total _ (onHost (·.receive fd)) s
  simp only [abides_onHost, hresult]
  cases hending : side.ending with
  | failed f =>
    rw [hending] at hreceived
    exact abides_runScript_notify (ends_serveLines_settle _ he hp ho hending hreceived)
  | ongoing | ended =>
    rw [hending] at hreceived
    exact ends_serveLines_settle _ he hp ho hending hreceived

/-- The contents of a live instance come back. -/
theorem ends_leave_of_live {id : BlockId} {e : Entry K} {c : K.Contents} {s : Machine K}
    {U : Unit → Machine K → Prop} (hget : s.manager.blocks.get? id = some e) :
    (Run.leave id e.serial c).Abides .total U s ↔ U () { s with
      manager := s.manager.regaining id c
      events := .left e.serial :: s.events } := by
  unfold Run.leave giveBack
  simp only [abides_bind, abides_record, abides_manager, hget, if_true, abides_modifyEntry]
  rfl

/-- A client that is dismissed after an exchange. -/
theorem dismisses_of_paired {x : Exchange Builtin.kit} {u : Machine Builtin.kit}
    (hp : u.Paired id e x.after) (told : List (Event Builtin.kit))
    (htold : told.filter (·.isOfCommands) = told) :
    x.Dismisses id fd sv told
      ((Machine.dismissed { u with events := told ++ u.events } id fd).regained ⟨e.serial, id⟩
        (.server ((sv.counting x.answers).forget fd))) where
  manager := by
    rw [hp.manager]
    rfl
  host := ⟨u.host, hp.host.symm, rfl⟩
  doings := by
    show _ :: _ :: (told ++ u.events).filter _ = _
    rw [List.filter_append, htold, hp.doings]
    rfl

/-- The hook of a server ends after an exchange. -/
theorem ends_leave_settled {x : Exchange Builtin.kit} {v t : Machine Builtin.kit} {hook : Hook}
    {sv' : Server} {reached : Bool} (he : e.contents = none)
    (hserves : x.Serves n id e fd ep side pending (s.entered e.serial id hook) s' v reached)
    (hsettles : x.Settles id fd side sv v reached sv' t) :
    (Run.leave (K := Builtin.kit) id e.serial (Builtin.server sv')).Abides .total
      (fun _ t => x.Concludes id e fd ep side sv s t) t := by
  have hevents : s.events <:+ (s.entered e.serial id hook).events := List.suffix_cons _ _
  cases hserves.conveys with
  | reached hpaired hserved =>
    have hwhole := hserves.isWhole rfl
    by_cases hending : side.ending = .ongoing
    · obtain ⟨hsv, rfl⟩ : sv' = x.server sv fd ∧ t = v := by
        simpa [Exchange.Settles, hending] using hsettles
      rw [ends_leave_of_live hpaired.entry]
      refine .goesOn hwhole hending ?_ ?_ ?_
      · rw [hsv, hpaired.manager]
      · have hleft : t.Noted { t with events := .left e.serial :: t.events } :=
          (Machine.Noted.refl t).cons rfl
        have haway := Machine.away_regaining
          (s := { t with events := .left e.serial :: t.events }) (c := .server sv') hpaired.entry he
        rw [haway]
        exact hleft.paired hpaired
      · exact ⟨(hevents.trans hserved.events).trans (List.suffix_cons _ _), hserved.hasSide,
          hserved.heard, hserved.watch⟩
    · obtain ⟨hsv, rfl⟩ : sv' = (sv.counting x.answers).forget fd ∧ t = v.dismissed id fd := by
        simpa [Exchange.Settles, hending] using hsettles
      have hentry : (v.dismissed id fd).manager.blocks.get? id = some e := hpaired.entry
      rw [ends_leave_of_live hentry, hsv]
      exact .ended hwhole hending (dismisses_of_paired hpaired [] rfl)
  | @missed v _ f hpaired htold =>
    obtain ⟨hsv, rfl⟩ : sv' = (sv.counting x.answers).forget fd ∧
        t = (v.missed fd f).dismissed id fd := by
      simpa [Exchange.Settles] using hsettles
    have hentry : ((v.missed fd f).dismissed id fd).manager.blocks.get? id = some e :=
      hpaired.entry
    rw [ends_leave_of_live hentry, hsv]
    refine .missed f (hserves.answers_ne rfl) ?_
      (dismisses_of_paired hpaired [.notice (.clientUnreachable fd f)] rfl)
    refine (Machine.misses_missed f (hevents.trans htold)).before ?_
    exact ((List.suffix_cons _ _).trans (List.suffix_cons _ _)).trans (List.suffix_cons _ _)

/-- The hook of a server that is ready to receive from a client. -/
theorem ends_callHook_event {w : Watch} (he : e.contents = none)
    (hget : s.manager.blocks.get? id = some { e with contents := some (.server sv) })
    (hlistener : sv.listener ≠ some w.source.fd)
    (hclient : sv.clients.find? (·.fd = w.source.fd) = some ⟨w.source.fd, pending⟩)
    (hp : ((s.away id).received id w.source.fd).Paired id e s')
    (ho : s.host.HasSide w.source.fd ep side) :
    (callHook (n + 2) id (.event w)).Abides .total (fun _ t => ∃ x : Exchange Builtin.kit,
      x.Begins (callHook (n + 1)) (pending ++ side.inbox.flatten) s' ∧
      (side.outputEnded = true → x.answers.length = min 1 (Server.texts x.lines).length) ∧
      x.Concludes id e w.source.fd ep side sv s t) s := by
  let u : Machine Builtin.kit := s.entered e.serial id (.event w)
  have hnoted : (s.away id).Noted u := (Machine.Noted.refl _).cons rfl
  unfold callHook enter
  simp only [abides_bind, abides_manager, hget, abides_modifyEntry, abides_record, abides_pause]
  show Abides .total _ (runScript _ _ _ (Builtin.server sv)
    ((Server.leaving (sv.onEvent id w)).mapState .server)) u
  rw [runScript_mapState, abides_bind]
  refine abides_runScript_bind ?_
  unfold Server.onEvent
  rw [if_neg hlistener]
  refine (ends_serve he hclient (hnoted.paired_received hp) ho).mono fun p t ht => ?_
  obtain ⟨x, v, reached, hserves, hsettles⟩ := ht
  show (Run.leave (K := Builtin.kit) id e.serial (Builtin.server p.1)).Abides .total _ t
  exact (ends_leave_settled he hserves hsettles).mono fun _ _ ht =>
    ⟨x, hserves.begins, hserves.length_answers, ht⟩

end Server

end Run

end BlockFlow
