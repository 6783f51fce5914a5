import BlockFlow.Proofs.Parting
import BlockFlow.Proofs.Reentrancy
import BlockFlow.Proofs.Sparing

/-!
# Servers and commands for themselves

A server executes commands inside of its own hook, so it is busy then. The commands may add blocks,
and configure, bind, start, stop and delete them, but none of this can be done to the server itself.

1. `Server.SameSeat`: servers with the same address and the same listener; `keeps_onEvent`: what a
   server does with its clients leaves both alone.
2. `Server.AimsAt`: texts that ask for something to be done to a live block; `answers_fail`: none of
   them succeeds while the block is busy.
3. `Machine.Services`: what a server does time after time; `self_service`: it stays what it is, and
   tells each client that asks for something to be done to it that this has failed.
-/

namespace BlockFlow

variable {F M : Type}

/-! ## What a server leaves alone -/

namespace Server

/-- Servers with the same address and the same listener. -/
structure SameSeat (sv sv' : Server) : Prop where
  path : sv'.path = sv.path
  listener : sv'.listener = sv.listener

variable {sv sv' sv'' : Server}

theorem SameSeat.refl (sv : Server) : sv.SameSeat sv := ⟨rfl, rfl⟩

theorem SameSeat.trans (h : sv.SameSeat sv') (h' : sv'.SameSeat sv'') : sv.SameSeat sv'' :=
  ⟨h'.path.trans h.path, h'.listener.trans h.listener⟩

theorem keeps_execute (fd : Fd) (text : List Char) :
    (execute fd text : Script F M Server Bool).Keeps sv.SameSeat fun _ => True := by
  unfold execute
  split <;> refine ⟨not_false, fun result => ?_⟩
  all_goals
    cases result with
    | ok _ => trivial
    | error err => exact ⟨not_false, fun _ => trivial⟩

theorem keeps_serveLines (h : sv.SameSeat sv') (fd : Fd) (rest : List UInt8)
    (lines : List (List UInt8)) : (serveLines fd rest sv' lines : Script F M Server _).Keeps
      sv.SameSeat fun p => sv.SameSeat p.1 := by
  induction lines generalizing sv' with
  | nil => exact h
  | cons bytes lines ih =>
    unfold serveLines
    split
    · exact ih h
    · refine ⟨⟨h.path, h.listener⟩, (keeps_execute fd _).bind fun succeeded _ => ?_⟩
      refine ⟨not_false, fun dump => ⟨not_false, fun sent => ?_⟩⟩
      cases sent with
      | ok _ => exact ih ⟨h.path, h.listener⟩
      | error f => exact ⟨not_false, fun _ => ⟨h.path, h.listener⟩⟩

theorem keeps_settle (id : BlockId) (fd : Fd) (rest : List UInt8) (ending : Host.Ending)
    {p : Server × Bool} (h : sv.SameSeat p.1) :
    (settle id fd rest ending p : Script F M Server Server).Keeps sv.SameSeat sv.SameSeat := by
  unfold settle
  split
  · exact ⟨h.path, h.listener⟩
  · exact ⟨not_false, fun _ => ⟨not_false, fun _ => ⟨not_false, fun _ => ⟨h.path, h.listener⟩⟩⟩⟩

theorem keeps_serve (sv : Server) (id : BlockId) (fd : Fd) :
    (sv.serve id fd : Script F M Server Server).Keeps sv.SameSeat sv.SameSeat := by
  unfold serve
  cases sv.clients.find? (·.fd = fd) with
  | none => exact .refl sv
  | some client =>
    refine ⟨not_false, fun received => ?_⟩
    have hlines : (serveLines fd (splitLines (client.pending ++ received.1)).2 sv
        (splitLines (client.pending ++ received.1)).1 >>=
          settle id fd (splitLines (client.pending ++ received.1)).2 received.2 :
            Script F M Server Server).Keeps sv.SameSeat sv.SameSeat :=
      (keeps_serveLines (.refl sv) fd _ _).bind fun _ hp => keeps_settle id fd _ _ hp
    obtain ⟨bytes, ending⟩ := received
    cases ending with
    | failed f => exact ⟨not_false, fun _ => hlines⟩
    | ongoing | ended => exact hlines

theorem keeps_acceptClients (h : sv.SameSeat sv') (id : BlockId) (listener : Fd) (n : Nat) :
    (acceptClients id listener n sv' : Script F M Server Server).Keeps sv.SameSeat
      sv.SameSeat := by
  induction n generalizing sv' with
  | zero => exact h
  | succ n ih =>
    refine ⟨not_false, fun accepted => ?_⟩
    cases accepted with
    | none => exact h
    | some fd =>
      refine ⟨not_false, fun watched => ?_⟩
      cases watched with
      | ok _ => exact ⟨not_false, fun _ => ih ⟨h.path, h.listener⟩⟩
      | error _ => exact ⟨not_false, fun _ => ih h⟩

theorem keeps_onEvent (sv : Server) (id : BlockId) (w : Watch) :
    (sv.onEvent id w : Script F M Server Server).Keeps sv.SameSeat sv.SameSeat := by
  unfold onEvent
  split
  · exact ⟨not_false, fun n => keeps_acceptClients (.refl sv) id _ n⟩
  · exact keeps_serve sv id _

/-- A server that is called for a descriptor keeps its address and its listener. -/
theorem keeps_hook_event (sv : Server) (id : BlockId) (w : Watch) :
    (sv.hook id (.event w) : Script F M Server Reply).Keeps sv.SameSeat fun _ => True :=
  (keeps_onEvent sv id w).bind fun _ h => ⟨h, trivial⟩

end Server

/-- No hook of a built-in block asks for the end of all blocks. -/
theorem Builtin.neverClears : Builtin.kit.NeverClears := by
  intro c id hook
  by_cases hlifecycle : hook.IsLifecycle
  · exact (Builtin.isLocal_hook c id hlifecycle).keeps
  cases c with
  | hello h =>
    refine Script.Keeps.mapState (f := Builtin.hello) ?_
    cases hook with
    | data => exact ⟨not_false, fun _ => ⟨trivial, trivial⟩⟩
    | control => exact ⟨not_false, fun _ => trivial⟩
    | timer | event => trivial
    | bind | start | stop | configure => exact absurd trivial hlifecycle
  | server sv =>
    refine Script.Keeps.mapState (f := Builtin.server) ?_
    cases hook with
    | data | control | timer => trivial
    | event w => exact (sv.keeps_hook_event id w).mono (fun _ _ => trivial) fun _ _ => trivial
    | bind | start | stop | configure => exact absurd trivial hlifecycle

/-! ## Commands for a busy block -/

/-- Commands by which something is done to a live block. -/
def CommandKind.Alters : CommandKind → Prop
  | .add | .init => False
  | .start | .stop | .del | .conf | .bind => True

def Order.Alters : Order → Prop
  | .add _ | .init => False
  | .start | .stop | .del | .conf _ | .bind _ _ => True

/-- What such a command asks for is such an order. -/
theorem Order.alters_of_ofArgument {kind : CommandKind} {arg : Option String} {order : Order}
    (h : ofArgument kind arg = .ok order) (hkind : kind.Alters) : order.Alters := by
  cases kind with
  | add | init => exact hkind.elim
  | start | stop | del =>
    cases h
    trivial
  | conf =>
    unfold ofArgument at h
    dsimp only at h
    split at h
    · cases h
      trivial
    · cases h
  | bind =>
    unfold ofArgument at h
    dsimp only at h
    split at h
    · cases h
    · split at h
      · cases h
        trivial
      · cases h

/-- A text asks for something to be done to a live block, as a command line or as a structured
command. -/
inductive Server.AimsAt (id : BlockId) (text : List Char) : Prop
  | line {kind : CommandKind} {arg : Option String} (hbrace : text.head? ≠ some '\x7b')
    (hparse : Line.parse text = .ok (kind, id, arg)) (hkind : kind.Alters)
  | structured {c : Command} (hbrace : text.head? = some '\x7b')
    (hparse : Command.Batch.ofBytes (Text.Utf8.encode text) = .ok (.one c)) (hid : c.id = id)
    (hkind : c.kind.Alters)

namespace Run

section Busy

variable {K : Kit} {α : Type} {call : Call K} {s t : Machine K} {id : BlockId} {e : Entry K}
  {kind : CommandKind} {text : List Char}

theorem ends_of_passesOver {r : Run K α} {a : α} (h : s.PassesOver r a) :
    r.Abides .total (fun x t => x = a ∧ s.OnlyTold t) s := by
  obtain ⟨t, hrun, ht⟩ := h.result
  exact abides_total_iff.2 ⟨a, t, hrun, rfl, ht⟩

variable (hs : s.manager.blocks.get? id = some e) (he : e.contents = none)

include hs he

/-- Nothing is done to a busy block. -/
theorem ends_obey_of_busy {order : Order} (horder : order.Alters) :
    (obey call id order).Abides .total (fun x _ => x.isOk = false) s := by
  have hbusy := Machine.busyAs_contents hs
  have hfails {r : Run K (Except EngineError Unit)} {err : EngineError}
      (h : s.PassesOver r (.error err)) : r.Abides .total (fun x _ => x.isOk = false) s :=
    (ends_of_passesOver h).mono fun x _ hx => by rw [hx.1]; rfl
  cases order with
  | add | init => exact horder.elim
  | conf entry => exact hfails ((hbusy.conf call entry).refused he)
  | bind port dest =>
    by_cases hdest : mayLeadTo s.manager dest
    · exact hfails ((hbusy.bind call port hdest).refused he)
    · exact hfails (hbusy.bind_unknown call port hdest)
  | start => exact hfails ((hbusy.start call).refused he)
  | stop => exact hfails ((hbusy.stop call).refused he)
  | del => exact hfails (hbusy.del.refused he)

theorem ends_exec_of_busy (hkind : kind.Alters) (arg : Option String) :
    (exec call kind id arg).Abides .total (fun x _ => x.isOk = false) s := by
  unfold exec
  rw [abides_bind, abides_notify]
  split
  · rfl
  split
  · rfl
  · rfl
  next order horder =>
  rw [abides_bind]
  have hbusy : ({ s with events := .notice (.commandGiven id kind (arg.getD "")) :: s.events } :
      Machine K).manager.blocks.get? id = some e := hs
  refine (ends_obey_of_busy hbusy he (Order.alters_of_ofArgument horder hkind)).mono ?_
  intro x t hx
  cases x with
  | ok _ => cases hx
  | error err => rfl

/-- No text succeeds that asks for something to be done to a busy block. -/
theorem ends_answer_of_busy (haims : Server.AimsAt id text) :
    (answer call text).Abides .total (fun a _ => a.succeeded = false) s := by
  have hobeys : (obeyText call text).Abides .total (fun x _ => x.isOk = false) s := by
    cases haims with
    | line hbrace hparse hkind =>
      unfold obeyText line
      rw [if_neg hbrace, hparse]
      exact ends_exec_of_busy hs he hkind _
    | structured hbrace hparse hid hkind =>
      subst hid
      unfold obeyText loadBytes
      rw [if_pos hbrace, hparse]
      exact ends_exec_of_busy hs he hkind _
  unfold answer
  rw [abides_bind]
  exact hobeys.mono fun x t hx => hx

omit hs in
theorem spares_answer (hcall : ∀ id' hook, (call id' hook).Spares id e) (text : List Char) :
    (answer call text).Spares id e := by
  have hobeys : (obeyText call text).Spares id e := by
    unfold obeyText
    split
    · exact (operates_loadBytes _).spares he hcall
    · exact (operates_line _).spares he hcall
  exact hobeys.bind fun _ => spares_manager.bind fun _ => spares_pure _

/-- None of the texts that are executed one after the other succeeds if it asks for something to be
done to a block that is busy all along. -/
theorem answers_fail (hcall : ∀ id' hook, (call id' hook).Spares id e) {texts : List (List Char)}
    {as : List Answer} (hrun : s.run? (answers call texts) = some (.ok as, t)) {i : Nat}
    {a : Answer} (htext : texts[i]? = some text) (ha : as[i]? = some a)
    (haims : Server.AimsAt id text) : a.succeeded = false := by
  induction texts generalizing s as i with
  | nil => cases htext
  | cons text' texts ih =>
    rw [answers] at hrun
    obtain ⟨a', u, hfirst, hrest⟩ := exists_of_run?_bind hrun
    obtain ⟨as', v, hlast, hdone⟩ := exists_of_run?_bind hrest
    cases hdone
    cases i with
    | zero =>
      cases htext
      cases ha
      obtain ⟨_, hx, hfails⟩ := (ends_answer_of_busy hs he haims).of_run? hfirst
      cases hx
      exact hfails
    | succ i => exact ih ((spares_answer he hcall text' s hs).result hfirst) hlast htext ha

end Busy

end Run

/-! ## Servers -/

open Run

variable {n : Nat} {id : BlockId} {e : Entry Builtin.kit} {sv sv' : Server}
  {s t : Machine Builtin.kit}

/-- The client is told of each text that asks for something to be done to a live block that this has
failed. -/
def Exchange.Refuses (x : Exchange Builtin.kit) (id : BlockId) : Prop :=
  ∀ (i : Nat) (text : List Char) (a : Answer), (Server.texts x.lines)[i]? = some text →
    x.answers[i]? = some a → Server.AimsAt id text → a.reply = bytesOf ("KO " ++ a.dump ++ "\n")

theorem Exchange.Begins.refuses {x : Exchange Builtin.kit} {bytes : List UInt8}
    (h : x.Begins (callHook n) bytes s) (hs : s.manager.blocks.get? id = some e)
    (he : e.contents = none) : x.Refuses id := by
  intro i text a htext ha haims
  have hlt : i < x.answers.length := (List.getElem?_eq_some_iff.1 ha).1
  have htext' : ((Server.texts x.lines).take x.answers.length)[i]? = some text := by
    rw [List.getElem?_take_of_lt hlt, htext]
  have hfails := answers_fail hs he (spares_callHook he Builtin.neverClears n) h.run htext' ha haims
  unfold Answer.reply
  rw [hfails]
  rfl

namespace Machine

/-- A live block is as given but for its contents, which are a server with the same seat. -/
def Seats (id : BlockId) (e : Entry Builtin.kit) (sv : Server) (t : Machine Builtin.kit) : Prop :=
  ∃ sv', sv.SameSeat sv' ∧
    t.manager.blocks.get? id = some { e with contents := some (.server sv') }

/-- What a server does when its descriptors are ready, time after time. Between two times anything
may happen that leaves its block as it is. -/
inductive Services (n : Nat) (id : BlockId) (s : Machine Builtin.kit) : Machine Builtin.kit → Prop
  | none : Services n id s s
  | meanwhile {t u : Machine Builtin.kit} (h : Services n id s t)
    (hsame : u.manager.blocks.get? id = t.manager.blocks.get? id) : Services n id s u
  | event {t u : Machine Builtin.kit} {w : Watch} {a : Except Breakdown (Option Reply)}
    (h : Services n id s t) (hrun : t.run? (callHook n id (.event w)) = some (a, u)) :
    Services n id s u

/-- A server that is called for a descriptor stays the server that it is. -/
theorem spares_event (hs : s.manager.blocks.get? id = some e)
    (hc : e.contents = some (.server sv)) (n : Nat) (w : Watch) :
    (callHook n id (.event w)).Abides (.sparing id { e with contents := none } (·.Seats id e sv))
      (fun _ t => t.Seats id e sv) s := by
  let P (c : Builtin) : Prop := ∃ sv', sv.SameSeat sv' ∧ c = .server sv'
  have hscript : (Builtin.kit.hook (.server sv) id (.event w)).Keeps P fun _ => True :=
    Script.Keeps.mapState <|
      (sv.keeps_hook_event id w).mono (fun sv' h => ⟨sv', h, rfl⟩) fun _ h => h
  have hseats : ∀ t : Machine Builtin.kit, (∃ c', P c' ∧
      t.manager.blocks.get? id = some { e with contents := some c' }) → t.Seats id e sv := by
    rintro t ⟨_, ⟨sv', hsv, rfl⟩, ht⟩
    exact ⟨sv', hsv, ht⟩
  exact (abides_callHook_of_keeps Builtin.neverClears hs hc ⟨sv, .refl sv, rfl⟩ hscript n).monoAlong
    (fun _ h => h) hseats fun _ => hseats

theorem Services.seats (hs : s.Seats id e sv) (h : s.Services n id t) : t.Seats id e sv := by
  induction h with
  | none => exact hs
  | meanwhile _ hsame ih =>
    obtain ⟨sv', hsv, ht⟩ := ih
    exact ⟨sv', hsv, hsame.trans ht⟩
  | event _ hrun ih =>
    obtain ⟨sv', hsv, ht⟩ := ih
    obtain ⟨sv'', hsv', hu⟩ := (spares_event ht rfl n _).after hrun
    exact ⟨sv'', hsv.trans hsv', hu⟩

end Machine

/-- **Self-service.** Let a live block be a server that is called time after time for its
descriptors, whatever happens to others meanwhile and whatever its clients send. Then it stays live,
with the same type, state and bindings, and keeps its address and its listener. When it is called,
its entry is as it was at each moment, and its contents are back at the end. Each line of a client
that asks for something to be done to the server itself, as a text or in JSON and wherever it stands
among others, gets the reply that it has failed. -/
theorem self_service (hs : s.manager.blocks.get? id = some e)
    (hc : e.contents = some (.server sv)) (h : s.Services (n + 2) id t) : ∃ sv', sv.SameSeat sv' ∧
      t.manager.blocks.get? id = some { e with contents := some (.server sv') } ∧ ∀ w : Watch,
        (callHook (n + 2) id (.event w)).Abides
          (.sparing id { e with contents := none } (·.Seats id e sv))
          (fun _ u => u.Seats id e sv) t ∧
        ∀ (fd : Fd) (ep : Host.Endpoint) (pending : List UInt8) (side : Host.Side),
          t.Attends id fd ep sv' pending side → w.source.fd = fd →
          (callHook (n + 2) id (.event w)).Abides .total
            (fun _ u => ∃ (x : Exchange Builtin.kit) (e' : _),
              x.Begins (callHook (n + 1)) (pending ++ side.inbox.flatten)
                ((t.received id fd).away id) ∧
              x.Refuses id ∧ x.Concludes id e' fd ep side sv' t u) t := by
  have hseats : s.Seats id e sv := ⟨sv, .refl sv, by rw [hs, ← hc]⟩
  obtain ⟨sv', hsv, ht⟩ := h.seats hseats
  refine ⟨sv', hsv, ht, fun w => ⟨?_, fun fd ep pending side hattends hw => ?_⟩⟩
  · have hsame : ∀ u : Machine Builtin.kit, u.Seats id e sv' → u.Seats id e sv := by
      rintro u ⟨sv'', hsv', hu⟩
      exact ⟨sv'', hsv.trans hsv', hu⟩
    exact (Machine.spares_event ht rfl (n + 2) w).monoAlong (fun _ h => h) hsame fun _ => hsame
  · have hbusy := Machine.get?_away (s := t.received id fd) ht
    refine (hattends.ends_event hw n).mono ?_
    rintro a u ⟨x, e', hbegins, -, hconcludes⟩
    exact ⟨x, e', hbegins, hbegins.refuses hbusy rfl, hconcludes⟩

/-! ## A server that is to stop and to delete itself -/

def selfish : List UInt8 := bytesOf "5 -1\n\x7b\"cmd\":\"del\",\"id\":-1\x7d\n"

def asked : Machine Builtin.kit :=
  { attended with host := (attended.host.transmit 4 selfish).2 }

/-- Both lines fail. -/
theorem self_service_asked : asked.Services 2 ⟨-1⟩ asked ∧
    (callHook 2 ⟨-1⟩ (.event (.reading ⟨-1⟩ 5))).Abides .total (fun _ _ =>
      ∃ x : Exchange Builtin.kit, x.Begins (callHook 1) selfish ((asked.received ⟨-1⟩ 5).away ⟨-1⟩) ∧ x.answers ≠ [] ∧
      ∀ a ∈ x.answers, a.reply = bytesOf ("KO " ++ a.dump ++ "\n")) asked := by
  have hattended : attended.Attends ⟨-1⟩ 5 served attendant [] {} :=
    ⟨⟨_, rfl, rfl⟩, by decide, rfl, ⟨rfl, by decide, rfl⟩⟩
  have hasked : asked.Attends ⟨-1⟩ 5 served attendant [] { inbox := [selfish] } :=
    hattended.ofHost ⟨by decide +kernel, by decide +kernel, by decide +kernel⟩
  let entry : Entry Builtin.kit :=
    { serial := 0, type := "ncli", state := .started, contents := some (.server attendant) }
  have hlive : asked.manager.blocks.get? ⟨-1⟩ = some entry := rfl
  have hservices : asked.Services 2 ⟨-1⟩ asked := .none
  obtain ⟨sv, -, hsv, hevent⟩ := self_service hlive rfl hservices
  have hsame := congrArg (Option.bind · Entry.contents) (hlive.symm.trans hsv)
  obtain rfl : attendant = sv := by simpa [entry] using hsame
  refine ⟨hservices, ((hevent (.reading ⟨-1⟩ 5)).2 5 served [] _ hasked rfl).mono ?_⟩
  rintro _ u ⟨x, e, hbegins, hrefuses, hconcludes⟩
  have htexts : Server.texts x.lines =
      ["5 -1".toList, "\x7b\"cmd\":\"del\",\"id\":-1\x7d".toList] := by
    have hlines : _ = x.lines := congrArg Prod.fst hbegins.lines.splitLines_eq
    rw [← hlines]
    decide +kernel
  have haims : ∀ text ∈ Server.texts x.lines, Server.AimsAt ⟨-1⟩ text := by
    rw [htexts]
    have hline : Line.parse "5 -1".toList = .ok (.stop, ⟨-1⟩, none) := by decide +kernel
    refine List.forall_mem_cons.2 ⟨.line (by decide) hline trivial, ?_⟩
    refine List.forall_mem_singleton.2 (.structured (c := .del ⟨-1⟩) (by decide) ?_ rfl trivial)
    decide +kernel
  refine ⟨x, hbegins, ?_, fun a ha => ?_⟩
  · intro hnil
    have hnone (hwhole : x.IsWhole) : False := by
      unfold Exchange.IsWhole at hwhole
      rw [hnil, htexts] at hwhole
      cases hwhole
    cases hconcludes with
    | goesOn hwhole | ended hwhole => exact hnone hwhole
    | missed _ hne => exact hne hnil
  · obtain ⟨i, hi⟩ := List.mem_iff_getElem?.1 ha
    have hlength := length_answers hbegins.run
    rw [List.length_take] at hlength
    have hlt : i < (Server.texts x.lines).length := by
      have := (List.getElem?_eq_some_iff.1 hi).1
      omega
    have htext := List.getElem?_eq_getElem hlt
    exact hrefuses i _ a htext hi (haims _ (List.mem_of_getElem? htext))

end BlockFlow
