import BlockFlow.Proofs.Commuting
import BlockFlow.Proofs.Dispatch
import BlockFlow.Proofs.HelloFlows

/-!
# Control messages to hello blocks

A hello block that gets a control message sends it on as data, along bindings that may well lead
back to it. It is busy meanwhile, so the message does not come in there, and the block does not
count what it has sent itself. All others count what they get.

1. `Kit.Builtins.hear`: what becomes of a block that gets messages of data.
2. `Machine.Hears`: from one machine to another each block has got just the messages of data that
   are recorded, none if it was busy, and nothing else has changed.
3. `ends_hears_data`, `hears_follow`, `hears_flow`: so it is while a flow of data goes on.
4. `Machine.Nudged`: what a control message to a hello block comes to; `control_nudges`: each one
   comes to that, and so do many in a row.
-/

namespace BlockFlow

variable {K : Kit}

/-! ## Messages of data -/

/-- What becomes of contents when so many messages of data have come: a hello block counts them. -/
def Kit.Builtins.hear (B : K.Builtins) (k : Nat) (c : K.Contents) : K.Contents :=
  match B.get? c with
  | some (.hello h) => B.of (.hello { h with count := h.count + k })
  | _ => c

def Event.isDataFor (id : BlockId) : Event K → Bool
  | .entered _ id' (.data _) => id' = id
  | _ => false

theorem Event.isDataFor_left (serial : Nat) (id : BlockId) :
    (Event.left serial : Event K).isDataFor id = false := rfl

theorem Event.isDataFor_of_ne {id id' : BlockId} (hid : id ≠ id') (serial : Nat) (hook : Hook) :
    (Event.entered serial id hook : Event K).isDataFor id' = false := by
  cases hook with
  | data => exact decide_eq_false hid
  | _ => rfl

namespace Kit.Builtins

variable (B : K.Builtins)

theorem hear_hello (k : Nat) (h : Hello) :
    B.hear k (B.of (.hello h)) = B.of (.hello { h with count := h.count + k }) := by
  rw [hear, B.get?_of]

theorem hear_server (k : Nat) (sv : Server) :
    B.hear k (B.of (.server sv)) = B.of (.server sv) := by
  rw [hear, B.get?_of]

theorem hear_zero (b : Builtin) : B.hear 0 (B.of b) = B.of b := by
  cases b with
  | hello h => exact B.hear_hello 0 h
  | server sv => exact B.hear_server 0 sv

theorem hear_hear (j k : Nat) (c : K.Contents) : B.hear k (B.hear j c) = B.hear (j + k) c := by
  cases hc : B.get? c with
  | none => simp only [hear, hc]
  | some b =>
    cases b with
    | server sv => simp only [hear, hc]
    | hello h => simp only [hear, hc, B.get?_of, Nat.add_assoc]

end Kit.Builtins

namespace Machine

/-- From one machine to another these events have happened, and nothing has changed but contents.
Each block that was not busy has got just the messages of data among them that are for it, and none
has come to a busy one. -/
structure Hears (B : K.Builtins) (s t : Machine K) (es : List (Event K)) : Prop where
  settled : s.Settled t
  events : t.events = es ++ s.events
  host : t.host = s.host
  blocks : ∀ id, t.manager.blocks.get? id = (s.manager.blocks.get? id).map fun e =>
    { e with contents := e.contents.map (B.hear (es.countP (·.isDataFor id))) }
  busy : ∀ id e, s.manager.blocks.get? id = some e → e.contents = none →
    es.countP (·.isDataFor id) = 0

variable {B : K.Builtins} {s t u : Machine K} {es fs : List (Event K)} {id : BlockId} {e : Entry K}
  {c : K.Contents} {hook : Hook}

/-- A block that gets no message of data is as it was. -/
theorem IsBuiltin.map_hear_zero (hs : s.IsBuiltin B) (id : BlockId) :
    (s.manager.blocks.get? id).map (fun e => { e with contents := e.contents.map (B.hear 0) }) =
      s.manager.blocks.get? id := by
  cases he : s.manager.blocks.get? id with
  | none => rfl
  | some e =>
    rw [Option.map_some]
    cases hc : e.contents with
    | none => rw [Option.map_none, ← hc]
    | some c =>
      obtain ⟨b, rfl⟩ := hs he hc
      rw [Option.map_some, B.hear_zero, ← hc]

theorem Hears.refl (hs : s.IsBuiltin B) : s.Hears B s [] :=
  ⟨.refl s, rfl, rfl, fun id => (hs.map_hear_zero id).symm, fun _ _ _ _ => rfl⟩

theorem Hears.told (hs : s.IsBuiltin B) (n : Notice) :
    s.Hears B { s with events := .notice n :: s.events } [.notice n] :=
  ⟨.aside s s.host [.notice n] rfl, rfl, rfl, fun id => (hs.map_hear_zero id).symm,
    fun _ _ _ _ => rfl⟩

theorem Hears.get?_of_busy (h : s.Hears B t es) (he : s.manager.blocks.get? id = some e)
    (hc : e.contents = none) : t.manager.blocks.get? id = some e := by
  rw [h.blocks, he, Option.map_some, hc, Option.map_none, ← hc]

theorem Hears.trans (h : s.Hears B t es) (h' : t.Hears B u fs) : s.Hears B u (fs ++ es) where
  settled := h.settled.trans h'.settled
  events := by rw [h'.events, h.events, List.append_assoc]
  host := h'.host.trans h.host
  blocks := by
    intro id
    rw [h'.blocks, h.blocks, Option.map_map, List.countP_append, Nat.add_comm]
    refine Option.map_congr fun e _ => ?_
    have hcontents : ∀ o : Option K.Contents,
        (o.map (B.hear (es.countP (·.isDataFor id)))).map (B.hear (fs.countP (·.isDataFor id))) =
          o.map (B.hear (es.countP (·.isDataFor id) + fs.countP (·.isDataFor id))) := by
      intro o
      rw [Option.map_map]
      exact Option.map_congr fun c _ => B.hear_hear _ _ c
    simp only [Function.comp_apply, hcontents]
  busy := by
    intro id e he hc
    rw [List.countP_append, h.busy id e he hc, h'.busy id e (h.get?_of_busy he hc) hc]

/-- Blocks that have got messages are built-in ones still. -/
theorem Hears.isBuiltin (h : s.Hears B t es) (hs : s.IsBuiltin B) : t.IsBuiltin B := by
  intro id e' c' he' hc'
  rw [h.blocks] at he'
  obtain ⟨e, he, rfl⟩ := Option.map_eq_some_iff.1 he'
  obtain ⟨c, hc, rfl⟩ := Option.map_eq_some_iff.1 hc'
  obtain ⟨b, rfl⟩ := hs he hc
  cases b with
  | hello h => exact ⟨_, B.hear_hello _ h⟩
  | server sv => exact ⟨_, B.hear_server _ sv⟩

/-- A hook that is no message of data for a block adds nothing to what the block gets. -/
theorem countP_around {id' : BlockId} {serial : Nat}
    (h : (Event.entered serial id hook : Event K).isDataFor id' = false) :
    (Event.left serial :: es ++ [Event.entered serial id hook]).countP (Event.isDataFor id') =
      es.countP (Event.isDataFor id') := by
  rw [List.countP_append, List.countP_cons, List.countP_singleton, h]
  rfl

/-- What was called inside of a hook, and the hook itself. The contents that it leaves are those of
a block that has got a message if it was for data. -/
theorem Hears.regained (h : (s.entered e.serial id hook).Hears B t es)
    (he : s.manager.blocks.get? id = some e) (hc : e.contents = some c) {c' : K.Contents}
    (hc' : c' =
      B.hear (if (Event.entered (K := K) e.serial id hook).isDataFor id then 1 else 0) c) :
    s.Hears B (t.regained ⟨e.serial, id⟩ c')
      (.left e.serial :: es ++ [.entered e.serial id hook]) where
  settled := h.settled.regained he hc c'
  events := by
    show .left e.serial :: t.events = _
    rw [h.events]
    simp [entered]
  host := h.host
  blocks := by
    intro id'
    have hget : (t.regained ⟨e.serial, id⟩ c').manager.blocks.get? id' =
        if id = id' then (t.manager.blocks.get? id').map ({ · with contents := some c' })
        else t.manager.blocks.get? id' := Keyed.get?_modify ..
    rw [hget]
    by_cases hid : id = id'
    · -- The block was busy, so it got no message but the one that the hook was called for.
      subst hid
      rw [if_pos rfl, h.get?_of_busy (get?_within he) rfl, he, Option.map_some, Option.map_some, hc,
        hc', List.countP_append, List.countP_cons, h.busy id _ (get?_within he) rfl,
        List.countP_singleton]
      simp only [Event.isDataFor_left, Bool.false_eq_true, if_false, Nat.zero_add, Option.map_some]
    · rw [if_neg hid, h.blocks, get?_within_of_ne hid,
        countP_around (Event.isDataFor_of_ne hid _ _)]
  busy := by
    intro id' e' he' hidle
    have hid : id ≠ id' := by
      rintro rfl
      rw [he] at he'
      cases he'
      rw [hc] at hidle
      cases hidle
    rw [countP_around (Event.isDataFor_of_ne hid _ _)]
    exact h.busy id' e' ((get?_within_of_ne hid).trans he') hidle

/-- If no block has got a message, the manager is as it was. -/
theorem Hears.manager_eq (h : s.Hears B t es) (hs : s.IsBuiltin B)
    (hsilent : ∀ id, es.countP (·.isDataFor id) = 0) : t.manager = s.manager := by
  have hblocks : t.manager.blocks = s.manager.blocks := by
    refine Keyed.ext_get? fun id => ?_
    rw [h.blocks, hsilent, hs.map_hear_zero]
  rw [h.settled.manager, hblocks]

/-- A block has got a message of data, unless it was busy. -/
def Gets (s : Machine K) (id : BlockId) (payload : Payload) (es : List (Event K)) : Prop :=
  ∀ e, s.manager.blocks.get? id = some e → e.contents ≠ none →
    .entered e.serial id (.data payload) ∈ es

end Machine

namespace Run

variable {B : K.Builtins} {s t : Machine K} {id : BlockId} {e : Entry K} {kind : FlowKind}
  {payload : Payload} {α : Type}

/-! ## Flows of data -/

theorem ends_hears_data (hs : s.IsBuiltin B) (n : Nat) (id : BlockId) (payload : Payload) :
    (callHook (n + 1) id (.data payload)).Abides .total (fun reply t =>
      (∀ r, reply = some r → r.payload = payload) ∧ ∃ es, s.Hears B t es ∧ s.Gets id payload es)
      s := by
  rcases hs.away_or_idle id with haway | ⟨e, b, he, hc⟩
  · have hgets (es : List (Event K)) : s.Gets id payload es :=
      fun e he hidle => absurd (haway e he) hidle
    have hnone (r : Reply) (hr : none = some r) : r.payload = payload := by cases hr
    unfold callHook enter
    rw [abides_bind, abides_manager]
    cases he : s.manager.blocks.get? id with
    | none => exact ⟨hnone, [], .refl hs, hgets []⟩
    | some e =>
      simp only [haway e he]
      exact ⟨hnone, _, .told hs (.reentrantDropped id), hgets _⟩
  have hentered : (s.entered e.serial id (.data payload)).IsBuiltin B := hs.entered e.serial
  have hgets (es : List (Event K)) :
      s.Gets id payload (.left e.serial :: es ++ [.entered e.serial id (.data payload)]) := by
    intro e' he' _
    rw [he] at he'
    cases he'
    exact List.mem_append_right _ (.head _)
  have hone : (Event.entered (K := K) e.serial id (.data payload)).isDataFor id :=
    decide_eq_true rfl
  refine ends_callHook_idle he hc ?_
  cases b with
  | server sv =>
    rw [B.hook_of]
    refine ⟨.refl _, fun r hr => ?_, _, (Machine.Hears.refl hentered).regained he hc ?_, hgets _⟩
    · cases hr
      rfl
    · rw [B.hear_server]
  | hello h =>
    rw [hook_hello_data]
    have htold := Machine.Hears.told hentered (.helloData id h.nextPort)
    refine ⟨htold.settled, fun r hr => ?_, _, htold.regained he hc ?_, hgets _⟩
    · cases hr
      rfl
    · rw [if_pos hone, B.hear_hello]
      rfl

/-- While a flow of data goes on, blocks get messages of data and nothing else changes. The block
that it comes to first gets its payload. By induction on the hops that are left. -/
theorem hears_follow (hkind : ∀ p, kind.hook p = .data p) (hs : s.IsBuiltin B) (n m hops : Nat)
    (id : BlockId) (port : Port) (payload : Payload) :
    (follow (callHook (n + 1)) kind m hops id port payload).Abides .free
      (fun _ t => ∃ es, s.Hears B t es ∧
        ∀ dest, s.manager.hop hops id port = .routed dest → s.Gets dest payload es) s := by
  induction m generalizing s hops id port payload with
  | zero => trivial
  | succ m ih =>
    show (notify _ >>= _ : Run K Payload).Abides _ _ s
    rw [abides_bind, abides_notify]
    have htold (hop : Hop) := Machine.Hears.told hs (hop.notice id port kind)
    cases hhop : s.manager.hop hops id port with
    | routed dest =>
      dsimp only
      rw [abides_bind, hkind]
      refine (ends_hears_data ((htold _).isBuiltin hs) n dest payload).free.mono ?_
      rintro reply t ⟨hpayload, es, hes, hgets⟩
      have hst := (htold _).trans hes
      have hfirst (fs gs : List (Event K)) (dest' : BlockId)
          (hdest : Hop.routed dest = .routed dest') : s.Gets dest' payload (fs ++ (es ++ gs)) := by
        cases hdest
        intro e he hidle
        exact List.mem_append_right _ (List.mem_append_left _ (hgets e he hidle))
      cases reply with
      | none => exact ⟨_, hst, hfirst [] _⟩
      | some r =>
        dsimp only
        rw [hpayload r rfl]
        split
        · exact ⟨_, hst.trans (.told (hst.isBuiltin hs) _), hfirst _ _⟩
        · refine (ih (hst.isBuiltin hs) (hops + 1) dest r.port payload).mono ?_
          rintro x u ⟨fs, hfs, -⟩
          exact ⟨_, hst.trans hfs, hfirst _ _⟩
    | vanished | unbound | ended | limited | lost => exact ⟨_, htold _, nofun⟩

theorem hears_flow (hkind : ∀ p, kind.hook p = .data p) (hs : s.IsBuiltin B)
    (he : s.manager.blocks.get? id = some e) (n m : Nat) (port : Port) (payload : Payload) :
    (flow (callHook (n + 1)) m id port payload kind).Abides .free
      (fun _ t => ∃ es, s.Hears B t es ∧
        (e.state = .stopped → ∀ id, es.countP (·.isDataFor id) = 0) ∧
        (e.state = .started → ∀ dest, s.manager.hop 0 id port = .routed dest →
          s.Gets dest payload es)) s := by
  unfold flow
  rw [abides_bind, abides_manager, he]
  dsimp only
  cases e.state with
  | stopped =>
    dsimp only
    rw [abides_bind, abides_notify, abides_pure]
    exact ⟨_, .told hs (.flowNotStarted id kind), fun _ _ => rfl, nofun⟩
  | started =>
    dsimp only
    rw [abides_bind, abides_notify]
    have htold := Machine.Hears.told hs (.flowStarted id port kind)
    refine (hears_follow hkind (htold.isBuiltin hs) n m 0 id port payload).mono ?_
    rintro x t ⟨es, hes, hgets⟩
    refine ⟨_, htold.trans hes, nofun, fun _ dest hdest e he hidle => ?_⟩
    exact List.mem_append_left _ (hgets dest hdest e he hidle)

end Run

/-! ## Control messages -/

/-- From one machine to another a hello block has got a control message, and these events have
happened. -/
structure Machine.Nudged (B : K.Builtins) (s : Machine K) (id : BlockId) (e : Entry K) (h : Hello)
    (payload : Payload) (t : Machine K) (es : List (Event K)) : Prop where
  /-- Nothing has changed but the counts of blocks that got messages of data. -/
  hears : s.Hears B t es
  /-- The block itself is as it was, and got none. -/
  get?_eq : t.manager.blocks.get? id = some e
  silent : es.countP (·.isDataFor id) = 0
  /-- Each other hello block that was not busy has counted the messages that it got. -/
  counted : ∀ id' e' h', id' ≠ id → s.manager.blocks.get? id' = some e' →
    e'.contents = some (B.of (.hello h')) → t.manager.blocks.get? id' = some { e' with
      contents := some
        (B.of (.hello { h' with count := h'.count + es.countP (·.isDataFor id') })) }
  /-- If the block is stopped, nothing has changed at all. -/
  stopped : e.state = .stopped → t.manager = s.manager ∧ t.host = s.host
  /-- If it is started, the block that its next port leads to got the message unless it was busy. -/
  started : e.state = .started → ∀ dest, e.LeadsOn h.nextPort dest → dest ≠ .sink → dest ≠ id →
    s.Gets dest payload es

namespace Run

variable {B : K.Builtins} {s t : Machine K} {id : BlockId} {e : Entry K} {h : Hello}
  {payload : Payload} {n : Nat}

/-- From inside of the hook the first hop leads where the next port of the block leads. -/
theorem hop_within (he : s.manager.blocks.get? id = some e)
    (hmax : s.manager.settings.maxHops ≠ some 0) {port : Port} {dest : BlockId}
    (hleads : e.LeadsOn port dest) (hsink : dest ≠ .sink) (hdest : dest ≠ id) {ed : Entry K}
    (hed : s.manager.blocks.get? dest = some ed) (hook : Hook) :
    (s.entered e.serial id hook).manager.hop 0 id port = .routed dest := by
  let σ : Stage K := ⟨s.entered e.serial id hook, id, port, default⟩
  have hleads : σ.LeadsTo dest := ⟨_, Machine.get?_within he, hleads⟩
  have hgo : σ.MayGoOn 0 := by
    intro max hmax'
    refine Nat.pos_of_ne_zero fun hzero => hmax ?_
    obtain rfl : max = 0 := UInt64.toNat_inj.1 hzero
    exact hmax'
  have hed' : σ.machine.manager.blocks.get? dest = some ed :=
    (Machine.get?_within_of_ne (Ne.symm hdest)).trans hed
  exact hleads.hop_routed hsink hgo hed'

/-- The hook of a hello block for a control message. -/
theorem ends_callHook_nudges (hs : s.IsBuiltin B) (he : s.manager.blocks.get? id = some e)
    (hc : e.contents = some (B.of (.hello h))) (hmax : s.manager.settings.maxHops ≠ some 0)
    (hn : s.passes B < n) (payload : Payload) :
    (callHook (n + 1) id (.control payload)).Abides .total
      (fun reply t => reply = some ⟨stopPort, payload⟩ ∧ ∃ es, s.Nudged B id e h payload t es)
      s := by
  have hentered : (s.entered e.serial id (.control payload)).IsBuiltin B := hs.entered e.serial
  have hpasses : (s.entered e.serial id (.control payload)).passes B ≤ s.passes B :=
    Machine.passes_entered_le he e.serial
  obtain ⟨n, rfl⟩ := Nat.exists_eq_succ_of_ne_zero (Nat.ne_of_gt (Nat.zero_lt_of_lt hn))
  have hkind : ∀ p, FlowKind.tx.hook p = .data p := fun _ => rfl
  have hflow := (ends_flow_data hkind hentered (Nat.lt_of_le_of_lt hpasses hn) n id h.nextPort
    payload).and (hears_flow hkind hentered (Machine.get?_within he) n _ h.nextPort payload)
  refine ends_callHook_idle he hc ?_
  rw [hook_hello_control]
  show (do
    let x ← (flow (callHook (n + 1)) (n + 1) id h.nextPort payload .tx).onBreak _
    pause
    return ((⟨stopPort, x⟩ : Reply), B.of (.hello h)) :
      Run K (Reply × K.Contents)).Abides .total _ _
  rw [abides_bind]
  refine (hflow.onBreak _).mono ?_
  rintro x t ⟨⟨rfl, ht⟩, es, hes, hstopped, hstarted⟩
  have hears := hes.regained he hc (B.hear_zero (.hello h)).symm
  have hsilent (id' : BlockId) : (Event.left e.serial :: es ++
      [Event.entered e.serial id (.control x)]).countP (Event.isDataFor id') =
        es.countP (Event.isDataFor id') :=
    Machine.countP_around rfl
  have hself := hes.busy id _ (Machine.get?_within he) rfl
  refine ⟨hes.settled, rfl, _, hears, ?_, ?_, ?_, ?_, ?_⟩
  · rw [hears.blocks, hsilent, hself, hs.map_hear_zero, he]
  · rw [hsilent, hself]
  · intro id' e' h' _ he' hc'
    rw [hears.blocks, he', Option.map_some, hc', Option.map_some, B.hear_hello]
  · intro hstate
    have hnone := hstopped hstate
    exact ⟨hears.manager_eq hs fun id' => (hsilent id').trans (hnone id'), hears.host⟩
  · intro hstate dest hleads hsink hdest ed hed hidle
    have hhop := hop_within he hmax hleads hsink hdest hed (.control x)
    have hed' : (s.entered e.serial id (.control x)).manager.blocks.get? dest = some ed :=
      (Machine.get?_within_of_ne (Ne.symm hdest)).trans hed
    exact List.mem_append_left _ (.tail _ (hstarted hstate dest hhop ed hed' hidle))

theorem ends_control_nudges (hs : s.IsBuiltin B) (he : s.manager.blocks.get? id = some e)
    (hc : e.contents = some (B.of (.hello h))) (hmax : s.manager.settings.maxHops ≠ some 0)
    (hn : s.passes B < n) (payload : Payload) :
    (control (callHook (n + 1)) id payload).Abides .total
      (fun r t => r = (some stopPort, payload) ∧ ∃ es, s.Nudged B id e h payload t es) s := by
  have hlive : s.manager.blocks.contains id := by simp [Keyed.contains, he]
  unfold control
  rw [abides_bind, abides_manager, if_pos hlive, abides_bind]
  refine (ends_callHook_nudges hs he hc hmax hn payload).mono ?_
  rintro reply t ⟨rfl, ht⟩
  exact ⟨rfl, ht⟩

end Run

/-- Not more messages pass than seven for each live block. -/
theorem Machine.passes_le_size (B : K.Builtins) (s : Machine K) :
    s.passes B ≤ 7 * s.manager.blocks.size := by
  rw [← Keyed.total_one]
  refine Keyed.total_le_mul _ fun e => ?_
  cases e.contents with
  | none => exact Nat.zero_le _
  | some c =>
    show B.passes c ≤ _
    unfold Kit.Builtins.passes
    split
    · exact Hello.passes_le _
    · exact Nat.zero_le _

open Run

/-- **Control messages to hello blocks.** Let all blocks that are not inside of a hook be built-in
ones, bound in any way, with any counts, and let the limit of hops be none or at least one. Then a
control message to a live hello block comes back with the port on which nothing goes on, and the
block has not counted it. Each other hello block has counted the messages of data that it got; if
the block is stopped, nothing has changed; if it is started, the block that its next port leads to
has got the message. So many control messages in a row leave the block on the same port. -/
theorem control_nudges (B : K.Builtins) {s : Machine K} (hs : s.IsBuiltin B) {id : BlockId}
    {e : Entry K} (he : s.manager.blocks.get? id = some e) {h : Hello}
    (hc : e.contents = some (B.of (.hello h))) (hmax : s.manager.settings.maxHops ≠ some 0)
    {n : Nat} (hn : 7 * s.manager.blocks.size + 1 < n) :
    (∀ payload, (control (callHook n) id payload).Abides .total
      (fun r t => r = (some stopPort, payload) ∧ ∃ es, s.Nudged B id e h payload t es) s) ∧
    ∀ payloads : List Payload, (payloads.mapM (control (callHook n) id)).Abides .total
      (fun rs t => rs = payloads.map (fun payload => (some stopPort, payload)) ∧
        t.manager.blocks.get? id = some e) s := by
  obtain ⟨n, rfl⟩ := Nat.exists_eq_succ_of_ne_zero (Nat.ne_of_gt (Nat.zero_lt_of_lt hn))
  have hone {t : Machine K} (ht : t.IsBuiltin B) (he : t.manager.blocks.get? id = some e)
      (hmax : t.manager.settings.maxHops ≠ some 0) (hn : 7 * t.manager.blocks.size < n)
      (payload : Payload) : (control (callHook (n + 1)) id payload).Abides .total
        (fun r u => r = (some stopPort, payload) ∧ ∃ es, t.Nudged B id e h payload u es) t :=
    ends_control_nudges ht he hc hmax (Nat.lt_of_le_of_lt (t.passes_le_size B) hn) payload
  refine ⟨hone hs he hmax (by omega), fun payloads => ?_⟩
  have hsize : 7 * s.manager.blocks.size < n := by omega
  clear hn
  induction payloads generalizing s with
  | nil => exact ⟨rfl, he⟩
  | cons payload payloads ih =>
    rw [List.mapM_cons, abides_bind]
    refine (hone hs he hmax hsize payload).mono ?_
    rintro r t ⟨rfl, es, ht⟩
    have hsettled := ht.hears.settled
    rw [abides_bind]
    refine (ih (ht.hears.isBuiltin hs) ht.get?_eq (hsettled.settings ▸ hmax)
      (hsettled.size ▸ hsize)).mono ?_
    rintro rs u ⟨rfl, hu⟩
    exact ⟨rfl, hu⟩

/-- Control messages to one of two blocks that are bound in a circle. -/
theorem control_nudges_merryGoRound :
    ([.text "round", .empty, .text "round"].mapM (control (callHook 17) ⟨1⟩)).Abides .total
      (fun rs t => rs = [(some stopPort, .text "round"), (some stopPort, .empty),
        (some stopPort, .text "round")] ∧
        t.manager.blocks.get? ⟨1⟩ = merryGoRound.manager.blocks.get? ⟨1⟩) merryGoRound := by
  have hbuiltin : merryGoRound.IsBuiltin Builtin.builtins := fun {_ _ c} _ _ => ⟨c, rfl⟩
  have hlive : merryGoRound.manager.blocks.get? ⟨1⟩ = some _ := rfl
  exact (control_nudges Builtin.builtins hbuiltin hlive (h := { count := 1 }) rfl (by decide)
    (n := 17) (by decide)).2 [.text "round", .empty, .text "round"]

end BlockFlow
