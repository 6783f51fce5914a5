import BlockFlow.Block.Builtin
import BlockFlow.Proofs.Terms
import BlockFlow.Proofs.Population

/-!
# Flows over built-in blocks

Nothing keeps a flow from coming back to a block that it has been at, so bindings in a circle could
lead it on for ever. What ends it are the blocks: a hello block lets a message pass on at most seven
times before one ends there, in whatever order the blocks come, and a server lets none pass.

1. `Kit.Builtins`: a kit that runs built-in blocks, perhaps among others.
2. `Hello.passes`: how many messages a hello block lets pass before one ends there;
   `Machine.passes`: how many all blocks do together, at most seven for each hello block.
3. `Machine.Handles`: so many hooks were called for data and for control messages at most.
4. `ends_callHook_data`: one message that passes is one message less to pass; by it, and by induction
   on the messages to pass, flows of data end (`ends_follow_data`). A control message is a flow of
   data from inside of a hook (`ends_callHook_control`).
5. `builtin_messages_end`: messages end, with their payload as it was.
-/

namespace BlockFlow

/-! ## Kits that run built-in blocks -/

/-- How a kit runs built-in blocks, perhaps among others. -/
structure Kit.Builtins (K : Kit) where
  of : Builtin → K.Contents
  get? : K.Contents → Option Builtin
  get?_of (b : Builtin) : get? (of b) = some b
  hook_of (b : Builtin) (id : BlockId) (hook : Hook) :
    K.hook (of b) id hook = (b.hook id hook).mapState of

theorem Script.mapState_id {F M S α : Type} (script : Script F M S α) :
    script.mapState id = script := by
  induction script with
  | done a => rfl
  | keep s next ih => rw [mapState, ih, id]
  | call r next ih => simp only [mapState, ih]

/-- A kit of built-in blocks alone. -/
def Builtin.builtins : Builtin.kit.Builtins where
  of := id
  get? := some
  get?_of _ := rfl
  hook_of b id' hook := (Script.mapState_id (b.hook id' hook)).symm

/-! ## Messages to pass -/

namespace Hello

/-- How many messages pass before the next one that ends at the block. -/
def passes (h : Hello) : Nat := (ports - h.count % ports) % ports

theorem passes_le (h : Hello) : h.passes ≤ 7 :=
  Nat.le_of_lt_succ (Nat.mod_lt _ (by decide))

/-- The block after one more message of data. -/
def counted (h : Hello) : Hello := { h with count := h.count + 1 }

/-- A message that passes is one less to pass. -/
theorem passes_counted {h : Hello} (hport : h.nextPort ≠ stopPort) :
    h.counted.passes + 1 = h.passes := by
  have hcount : h.count % 8 ≠ 0 := fun hzero => hport (by rw [nextPort, ports, hzero]; rfl)
  simp only [passes, counted, ports]
  omega

end Hello

variable {K : Kit} {α : Type}

namespace Kit.Builtins

/-- How many messages pass before the next one that ends at a block. -/
def passes (B : K.Builtins) (c : K.Contents) : Nat :=
  match B.get? c with
  | some (.hello h) => h.passes
  | _ => 0

/-- One for a hello block. -/
def hellos (B : K.Builtins) (c : K.Contents) : Nat :=
  match B.get? c with
  | some (.hello _) => 1
  | _ => 0

theorem passes_of_hello (B : K.Builtins) (h : Hello) : B.passes (B.of (.hello h)) = h.passes := by
  rw [passes, B.get?_of]

theorem passes_le (B : K.Builtins) (c : K.Contents) : B.passes c ≤ 7 * B.hellos c := by
  unfold passes hellos
  split
  · exact Hello.passes_le _
  · exact Nat.zero_le _

end Kit.Builtins

def Event.isDataCall : Event K → Bool
  | .entered _ _ (.data _) => true
  | _ => false

def Event.isControlCall : Event K → Bool
  | .entered _ _ (.control _) => true
  | _ => false

namespace Machine

/-- How many messages all blocks that are not inside of a hook let pass together. -/
def passes (B : K.Builtins) (s : Machine K) : Nat :=
  s.manager.blocks.total fun e => e.contents.elim 0 B.passes

/-- The number of hello blocks that are not inside of a hook. -/
def hellos (B : K.Builtins) (s : Machine K) : Nat :=
  s.manager.blocks.total fun e => e.contents.elim 0 B.hellos

def dataCalls (s : Machine K) : Nat := s.events.countP (·.isDataCall)

def controlCalls (s : Machine K) : Nat := s.events.countP (·.isControlCall)

/-- All live blocks that are not inside of a hook are built-in ones. -/
def IsBuiltin (B : K.Builtins) (s : Machine K) : Prop :=
  ∀ {id : BlockId} {e : Entry K} {c : K.Contents}, s.manager.blocks.get? id = some e →
    e.contents = some c → ∃ b, c = B.of b

variable {B : K.Builtins} {s t u : Machine K} {id : BlockId} {e : Entry K} {c : K.Contents}
  {hook : Hook}

theorem passes_le (B : K.Builtins) (s : Machine K) : s.passes B ≤ 7 * s.hellos B := by
  refine Keyed.total_le_mul _ fun e => ?_
  cases e.contents with
  | none => exact Nat.zero_le _
  | some c => exact B.passes_le c

theorem passes_congr (h : t.manager = s.manager) : t.passes B = s.passes B := by
  unfold passes
  rw [h]

/-- A block that is inside of a hook lets nothing pass. -/
theorem passes_entered_le (he : s.manager.blocks.get? id = some e) (serial : Nat) :
    (s.entered serial id hook).passes B ≤ s.passes B := by
  have htotal := Keyed.total_modify_add he (fun e => e.contents.elim 0 B.passes)
    ({ · with contents := none })
  exact Nat.le.intro htotal

/-- What is let pass when a hook has left other contents. -/
theorem passes_regained (he : s.manager.blocks.get? id = some e) (hc : e.contents = some c)
    (ht : t.manager = (s.entered e.serial id hook).manager) (c' : K.Contents) :
    (t.regained ⟨e.serial, id⟩ c').passes B + B.passes c = s.passes B + B.passes c' := by
  have htotal := Keyed.total_modify_add he (fun e => e.contents.elim 0 B.passes)
    ({ · with contents := some c' })
  simp only [hc, Option.elim_some] at htotal
  unfold passes regained
  simp only [ht, entered, Keyed.modify_modify]
  exact htotal

/-! ## Calls of hooks -/

/-- From one machine to another so many hooks were called for data and for control messages at most,
and nothing but the contents of built-in blocks has changed. -/
structure Handles (B : K.Builtins) (data control : Nat) (s t : Machine K) : Prop where
  settled : s.Settled t
  isBuiltin : t.IsBuiltin B
  data_le : t.dataCalls ≤ s.dataCalls + data
  control_le : t.controlCalls ≤ s.controlCalls + control

variable {data data' control control' : Nat}

theorem Handles.mono (h : s.Handles B data control t) (hdata : data ≤ data')
    (hcontrol : control ≤ control') : s.Handles B data' control' t where
  settled := h.settled
  isBuiltin := h.isBuiltin
  data_le := Nat.le_trans h.data_le (Nat.add_le_add_left hdata _)
  control_le := Nat.le_trans h.control_le (Nat.add_le_add_left hcontrol _)

theorem Handles.trans (h : s.Handles B data control t) (h' : t.Handles B data' control' u) :
    s.Handles B (data + data') (control + control') u where
  settled := h.settled.trans h'.settled
  isBuiltin := h'.isBuiltin
  data_le := by
    have := h.data_le
    have := h'.data_le
    omega
  control_le := by
    have := h.control_le
    have := h'.control_le
    omega

theorem Handles.refl (h : s.IsBuiltin B) : s.Handles B 0 0 s :=
  ⟨.refl s, h, Nat.le_refl _, Nat.le_refl _⟩

theorem Handles.noticed (h : s.IsBuiltin B) (n : Notice) :
    s.Handles B 0 0 ⟨s.manager, s.host, .notice n :: s.events⟩ where
  settled := .aside s s.host [.notice n] rfl
  isBuiltin := h
  data_le := Nat.le_refl _
  control_le := Nat.le_refl _

/-- A block is not live, inside of a hook, or an idle built-in one. -/
theorem IsBuiltin.away_or_idle (h : s.IsBuiltin B) (id : BlockId) :
    (∀ e, s.manager.blocks.get? id = some e → e.contents = none) ∨
      ∃ e b, s.manager.blocks.get? id = some e ∧ e.contents = some (B.of b) := by
  cases he : s.manager.blocks.get? id with
  | none => exact .inl nofun
  | some e =>
    cases hc : e.contents with
    | none => exact .inl fun e' he' => Option.some.inj he' ▸ hc
    | some c =>
      obtain ⟨b, rfl⟩ := h he hc
      exact .inr ⟨e, b, rfl, hc⟩

theorem IsBuiltin.entered (h : s.IsBuiltin B) (serial : Nat) :
    (s.entered serial id hook).IsBuiltin B := by
  intro id' e' c' he' hc'
  rcases Keyed.of_get?_modify he' with ⟨-, _, -, rfl⟩ | ⟨-, he'⟩
  · cases hc'
  · exact h he' hc'

/-- What was called inside of a hook, and the hook itself. -/
theorem Handles.regained (h : (s.entered e.serial id hook).Handles B data control t)
    (he : s.manager.blocks.get? id = some e) (hc : e.contents = some c) (b : Builtin) :
    s.Handles B (data + (if (Event.entered (K := K) e.serial id hook).isDataCall then 1 else 0))
      (control + (if (Event.entered (K := K) e.serial id hook).isControlCall then 1 else 0))
      (t.regained ⟨e.serial, id⟩ (B.of b)) where
  settled := h.settled.regained he hc _
  isBuiltin := by
    intro id' e' c' he' hc'
    rcases Keyed.of_get?_modify he' with ⟨-, _, -, rfl⟩ | ⟨-, he'⟩
    · exact ⟨b, (Option.some.inj hc').symm⟩
    · exact h.isBuiltin he' hc'
  data_le := by
    have hle := h.data_le
    unfold dataCalls Machine.entered at hle
    unfold dataCalls Machine.regained
    rw [List.countP_cons] at hle ⊢
    simp only [Event.isDataCall, Bool.false_eq_true, if_false] at hle ⊢
    omega
  control_le := by
    have hle := h.control_le
    unfold controlCalls Machine.entered at hle
    unfold controlCalls Machine.regained
    rw [List.countP_cons] at hle ⊢
    simp only [Event.isControlCall, Bool.false_eq_true, if_false] at hle ⊢
    omega

end Machine

namespace Run

variable {B : K.Builtins} {s t : Machine K} {id : BlockId} {e : Entry K} {c : K.Contents}
  {hook : Hook} {n : Nat} {payload : Payload}

/-- A hook of an idle block comes to what its script comes to, if nothing but contents changes
inside of it. -/
theorem ends_callHook_idle (he : s.manager.blocks.get? id = some e) (hc : e.contents = some c)
    {Q : Option Reply → Machine K → Prop}
    (h : (runScript (callHook n) n (leave id e.serial) c (K.hook c id hook)).Abides .total
      (fun r t => (s.entered e.serial id hook).Settled t ∧
        Q (some r.1) (t.regained ⟨e.serial, id⟩ r.2)) (s.entered e.serial id hook)) :
    (callHook (n + 1) id hook).Abides .total Q s := by
  unfold callHook enter
  simp only [abides_bind, abides_manager, he, hc, abides_modifyEntry, abides_record, abides_pause]
  refine h.mono fun r t ht => ?_
  obtain ⟨hsettled, hQ⟩ := ht
  obtain ⟨e', he', hserial⟩ := hsettled.exists_inside he
  unfold leave giveBack
  simp only [abides_bind, abides_record, abides_manager, he', hserial, if_true, abides_modifyEntry,
    abides_pure]
  exact hQ

/-- A hook of a block that is not live or busy is not called. -/
theorem ends_callHook_away (hs : s.IsBuiltin B)
    (h : ∀ e, s.manager.blocks.get? id = some e → e.contents = none) (n : Nat) :
    (callHook (n + 1) id hook).Abides .total
      (fun reply t => reply = none ∧ s.Handles B 0 0 t) s := by
  unfold callHook enter
  rw [abides_bind, abides_manager]
  cases he : s.manager.blocks.get? id with
  | none => exact ⟨rfl, .refl hs⟩
  | some e =>
    simp only [h e he]
    exact ⟨rfl, .noticed hs _⟩

/-! ## Data -/

theorem hook_hello_data (B : K.Builtins) (h : Hello) (id : BlockId) (payload : Payload) :
    K.hook (B.of (.hello h)) id (.data payload) = (do
      Script.notify (.helloData id h.nextPort)
      Script.leaveAs (B.of (.hello h.counted))
      return ⟨h.nextPort, payload⟩) := by
  rw [B.hook_of]
  rfl

/-- One message comes to a block: if it passes, it is one less to pass. -/
theorem ends_callHook_data (hs : s.IsBuiltin B) (n : Nat) (id : BlockId) (payload : Payload) :
    (callHook (n + 1) id (.data payload)).Abides .total
      (fun reply t => s.Handles B 1 0 t ∧ ∀ r, reply = some r →
        r.payload = payload ∧ (r.port ≠ stopPort → t.passes B + 1 = s.passes B)) s := by
  rcases hs.away_or_idle id with haway | ⟨e, b, he, hc⟩
  · refine (ends_callHook_away hs haway n).mono fun reply t h => ?_
    obtain ⟨hreply, ht⟩ := h
    exact ⟨ht.mono (Nat.zero_le _) (Nat.le_refl _), fun r hr => by rw [hreply] at hr; cases hr⟩
  have hentered : (s.entered e.serial id (.data payload)).IsBuiltin B := hs.entered e.serial
  refine ends_callHook_idle he hc ?_
  cases b with
  | server sv =>
    rw [B.hook_of]
    refine ⟨.refl _, (Machine.Handles.refl hentered).regained he hc (.server sv), fun r hr => ?_⟩
    cases hr
    exact ⟨rfl, fun hport => absurd rfl hport⟩
  | hello h =>
    rw [hook_hello_data]
    have hrun : (runScript (callHook n) n (leave id e.serial) (B.of (.hello h)) (do
        Script.notify (.helloData id h.nextPort)
        Script.leaveAs (B.of (.hello h.counted))
        return (⟨h.nextPort, payload⟩ : Reply))).Abides .total
        (fun r t => r = (⟨h.nextPort, payload⟩, B.of (.hello h.counted)) ∧
          t.manager = (s.entered e.serial id (.data payload)).manager ∧
          (s.entered e.serial id (.data payload)).Handles B 0 0 t)
        (s.entered e.serial id (.data payload)) := ⟨rfl, rfl, .noticed hentered _⟩
    refine hrun.mono fun r t ht => ?_
    obtain ⟨rfl, hmanager, ht⟩ := ht
    refine ⟨ht.settled, ht.regained he hc (.hello h.counted), ?_⟩
    intro r hr
    cases hr
    refine ⟨rfl, fun hport => ?_⟩
    have hpasses := Machine.passes_regained (B := B) he hc hmanager
      (B.of (.hello h.counted))
    rw [B.passes_of_hello, B.passes_of_hello, ← Hello.passes_counted hport] at hpasses
    dsimp only
    omega

/-! ## Flows -/

section Flows

variable {call : Call K} {kind : FlowKind} {m hops data control : Nat} {port : Port}

/-- What a flow comes to: the payload is as it was, and so many hooks were called at most. -/
def HandsOn (B : K.Builtins) (s : Machine K) (payload : Payload) (data control : Nat)
    (p : Payload) (t : Machine K) : Prop :=
  p = payload ∧ s.Handles B data control t

theorem ends_handsOn_notify (h : s.Handles B data control t) (note : Notice) :
    (do notify note; return payload : Run K Payload).Abides .total
      (HandsOn B s payload data control) t :=
  ⟨rfl, h.trans (.noticed h.isBuiltin note)⟩

/-- A flow ends at a hop, or calls one hook and ends there or goes on from there. -/
theorem ends_follow_succ (hs : s.IsBuiltin B)
    (hcall : ∀ t dest, s.Handles B 0 0 t → t.manager = s.manager →
      (call dest (kind.hook payload)).Abides .total (fun reply u =>
        s.Handles B data control u ∧ ∀ r, reply = some r → r.payload = payload ∧
          (r.port ≠ stopPort → (follow call kind m (hops + 1) dest r.port payload).Abides .total
            (HandsOn B s payload data control) u)) t) :
    (follow call kind (m + 1) hops id port payload).Abides .total
      (HandsOn B s payload data control) s := by
  show (notify _ >>= _ : Run K Payload).Abides .total _ s
  rw [abides_bind, abides_notify]
  have hnoticed (hop : Hop) := Machine.Handles.noticed hs (hop.notice id port kind)
  cases s.manager.hop hops id port with
  | routed dest =>
    dsimp only
    rw [abides_bind]
    refine (hcall _ dest (hnoticed _) rfl).mono fun reply u ⟨hu, hreply⟩ => ?_
    cases reply with
    | none => exact ⟨rfl, hu⟩
    | some r =>
      obtain ⟨hpayload, hgo⟩ := hreply r rfl
      dsimp only
      rw [hpayload]
      split
      · exact ends_handsOn_notify hu _
      · next hport => exact hgo hport
  | vanished | unbound | ended | limited | lost =>
    exact ⟨rfl, (hnoticed _).mono (Nat.zero_le _) (Nat.zero_le _)⟩

theorem ends_flow (hs : s.IsBuiltin B)
    (hfollow : ∀ t, s.Handles B 0 0 t → t.manager = s.manager →
      (follow call kind m 0 id port payload).Abides .total (HandsOn B s payload data control) t) :
    (flow call m id port payload kind).Abides .total (HandsOn B s payload data control) s := by
  have hnothing : s.Handles B data control s :=
    (Machine.Handles.refl hs).mono (Nat.zero_le _) (Nat.zero_le _)
  unfold flow
  rw [abides_bind, abides_manager]
  cases s.manager.blocks.get? id with
  | none => exact ends_handsOn_notify hnothing _
  | some e =>
    dsimp only
    cases e.state with
    | stopped => exact ends_handsOn_notify hnothing _
    | started => exact hfollow _ (.noticed hs (.flowStarted id port kind)) rfl

/-! ## Flows of data -/

/-- A flow of data calls one hook more at most than there are messages to pass. By induction on the
hops that are left: each one but the last takes a message to pass. -/
theorem ends_follow_data (hkind : ∀ p, kind.hook p = .data p) (hs : s.IsBuiltin B)
    (hm : s.passes B < m) (n hops : Nat) (id : BlockId) (port : Port) (payload : Payload) :
    (follow (callHook (n + 1)) kind m hops id port payload).Abides .total
      (HandsOn B s payload (s.passes B + 1) 0) s := by
  induction m generalizing s hops id port with
  | zero => omega
  | succ m ih =>
    refine ends_follow_succ hs fun t dest ht hmanager => ?_
    have hpasses := Machine.passes_congr (B := B) hmanager
    rw [hkind]
    refine (ends_callHook_data ht.isBuiltin n dest payload).mono fun reply u ⟨hu, hreply⟩ => ?_
    have hsu : s.Handles B 1 0 u := (ht.trans hu).mono (by omega) (by omega)
    refine ⟨hsu.mono (by omega) (Nat.le_refl _), fun r hr => ?_⟩
    obtain ⟨hpayload, hless⟩ := hreply r hr
    refine ⟨hpayload, fun hport => ?_⟩
    have hless := hless hport
    refine (ih hu.isBuiltin (by omega) (hops + 1) dest r.port).mono fun p v ⟨hp, hv⟩ => ?_
    exact ⟨hp, (hsu.trans hv).mono (by omega) (Nat.le_refl _)⟩

theorem ends_flow_data (hkind : ∀ p, kind.hook p = .data p) (hs : s.IsBuiltin B)
    (hm : s.passes B < m) (n : Nat) (id : BlockId) (port : Port) (payload : Payload) :
    (flow (callHook (n + 1)) m id port payload kind).Abides .total
      (HandsOn B s payload (s.passes B + 1) 0) s := by
  refine ends_flow hs fun t ht hmanager => ?_
  have hpasses := Machine.passes_congr (B := B) hmanager
  rw [← hpasses]
  refine (ends_follow_data hkind ht.isBuiltin (hpasses ▸ hm) n 0 id port payload).mono ?_
  exact fun p u ⟨hp, hu⟩ => ⟨hp, (ht.trans hu).mono (by omega) (Nat.le_refl _)⟩

end Flows

/-! ## Control messages -/

theorem hook_hello_control (B : K.Builtins) (h : Hello) (id : BlockId) (payload : Payload) :
    K.hook (B.of (.hello h)) id (.control payload) = (do
      let payload ← Script.ask (.flow id h.nextPort payload .tx)
      return ⟨stopPort, payload⟩) := by
  rw [B.hook_of]
  rfl

/-- A control message comes to a block: a hello block sends it on as data. -/
theorem ends_callHook_control (hs : s.IsBuiltin B) (hn : s.passes B < n) (id : BlockId)
    (payload : Payload) :
    (callHook (n + 1) id (.control payload)).Abides .total
      (fun reply t => s.Handles B (s.passes B + 1) 1 t ∧ ∀ r, reply = some r →
        r = ⟨stopPort, payload⟩) s := by
  rcases hs.away_or_idle id with haway | ⟨e, b, he, hc⟩
  · refine (ends_callHook_away hs haway n).mono fun reply t h => ?_
    obtain ⟨hreply, ht⟩ := h
    exact ⟨ht.mono (Nat.zero_le _) (Nat.zero_le _), fun r hr => by rw [hreply] at hr; cases hr⟩
  have hentered : (s.entered e.serial id (.control payload)).IsBuiltin B := hs.entered e.serial
  refine ends_callHook_idle he hc ?_
  cases b with
  | server sv =>
    rw [B.hook_of]
    have hcalled := (Machine.Handles.refl hentered).regained he hc (.server sv)
    refine ⟨.refl _, hcalled.mono (Nat.zero_le _) (Nat.le_refl _), fun r hr => ?_⟩
    cases hr
    rfl
  | hello h =>
    -- Inside of its hook the block lets nothing pass, so the flow ends without it.
    have hpasses : (s.entered e.serial id (.control payload)).passes B ≤ s.passes B :=
      Machine.passes_entered_le he e.serial
    obtain ⟨n, rfl⟩ := Nat.exists_eq_succ_of_ne_zero (Nat.ne_of_gt (Nat.zero_lt_of_lt hn))
    have hkind : ∀ p, FlowKind.tx.hook p = .data p := fun _ => rfl
    have hflow := ends_flow_data hkind hentered (Nat.lt_of_le_of_lt hpasses hn) n id h.nextPort
      payload
    rw [hook_hello_control]
    show (do
      let x ← (flow (callHook (n + 1)) (n + 1) id h.nextPort payload .tx).onBreak _
      pause
      return ((⟨stopPort, x⟩ : Reply), B.of (.hello h)) :
        Run K (Reply × K.Contents)).Abides .total _ _
    rw [abides_bind]
    refine (Abides.onBreak hflow _).mono fun x t h => ?_
    obtain ⟨hx, ht⟩ := h
    refine ⟨ht.settled, ?_, fun r hr => ?_⟩
    · exact (ht.regained he hc (.hello h)).mono (by simp [Event.isDataCall]; omega)
        (by simp [Event.isControlCall])
    · cases hr
      rw [hx]

theorem ends_flow_control (hs : s.IsBuiltin B) (hn : s.passes B < n) {m : Nat} (hm : 0 < m)
    (id : BlockId) (port : Port) (payload : Payload) :
    (flow (callHook (n + 1)) m id port payload .notif).Abides .total
      (HandsOn B s payload (s.passes B + 1) 1) s := by
  obtain ⟨m, rfl⟩ := Nat.exists_eq_succ_of_ne_zero (Nat.ne_of_gt hm)
  refine ends_flow hs fun t ht hmanager => ?_
  have hfollow : (follow (callHook (n + 1)) .notif (m + 1) 0 id port payload).Abides .total
      (HandsOn B t payload (s.passes B + 1) 1) t := by
    refine ends_follow_succ ht.isBuiltin fun u dest hu hmanager' => ?_
    have hpasses := Machine.passes_congr (B := B) (hmanager'.trans hmanager)
    refine (ends_callHook_control hu.isBuiltin (hpasses ▸ hn) dest payload).mono ?_
    intro reply v ⟨hv, hreply⟩
    refine ⟨(hu.trans hv).mono (by omega) (by omega), fun r hr => ?_⟩
    rw [hreply r hr]
    exact ⟨rfl, fun hport => absurd rfl hport⟩
  exact hfollow.mono fun p u ⟨hp, hu⟩ => ⟨hp, (ht.trans hu).mono (by omega) (by omega)⟩

theorem ends_control (hs : s.IsBuiltin B) (hn : s.passes B < n) (id : BlockId)
    (payload : Payload) :
    (control (callHook (n + 1)) id payload).Abides .total
      (fun r t => HandsOn B s payload (s.passes B + 1) 1 r.2 t) s := by
  show Abides .total _ (if s.manager.blocks.contains id then _ else _) s
  split
  · rw [abides_bind]
    refine (ends_callHook_control hs hn id payload).mono fun reply t ⟨ht, hreply⟩ => ?_
    cases reply with
    | none => exact ⟨rfl, ht⟩
    | some r =>
      rw [hreply r rfl]
      exact ⟨rfl, ht⟩
  · exact ⟨rfl, (Machine.Handles.noticed hs (.controlUnknown id)).mono (Nat.zero_le _)
      (Nat.zero_le _)⟩

end Run

open Run

/-- **Messages to built-in blocks end.** Let all blocks that are not inside of a hook be built-in
ones, bound in any way, with any counts and any limit of hops. Then every flow of data ends with its
payload as it was, after at most one call of a hook more than seven for each hello block; and so
does every flow of control messages and every control message, which call one hook for a control
message at most. -/
theorem builtin_messages_end (B : K.Builtins) {s : Machine K} (hs : s.IsBuiltin B) {n m : Nat}
    (hn : 7 * s.hellos B + 1 < n) (hm : 7 * s.hellos B < m) :
    (∀ (id : BlockId) (port : Port) (payload : Payload) (kind : FlowKind), kind ≠ .notif →
      (flow (callHook n) m id port payload kind).Abides .total
        (HandsOn B s payload (7 * s.hellos B + 1) 0) s) ∧
    (∀ (id : BlockId) (port : Port) (payload : Payload),
      (flow (callHook n) m id port payload .notif).Abides .total
        (HandsOn B s payload (7 * s.hellos B + 1) 1) s) ∧
    ∀ (id : BlockId) (payload : Payload),
      (control (callHook n) id payload).Abides .total
        (fun r t => HandsOn B s payload (7 * s.hellos B + 1) 1 r.2 t) s := by
  have hpasses := s.passes_le B
  have hmost {p payload : Payload} {control : Nat} {t : Machine K}
      (h : HandsOn B s payload (s.passes B + 1) control p t) :
      HandsOn B s payload (7 * s.hellos B + 1) control p t :=
    ⟨h.1, h.2.mono (Nat.succ_le_succ hpasses) (Nat.le_refl _)⟩
  obtain ⟨n, rfl⟩ := Nat.exists_eq_succ_of_ne_zero (Nat.ne_of_gt (Nat.zero_lt_of_lt hn))
  have hlt : s.passes B < n := by omega
  refine ⟨fun id port payload kind hkind => ?_, fun id port payload => ?_, fun id payload => ?_⟩
  · have hdata : ∀ p, kind.hook p = .data p := fun p => by
      cases kind with
      | rx | tx => rfl
      | notif => exact absurd rfl hkind
    exact (ends_flow_data hdata hs (by omega) n id port payload).mono fun _ _ h => hmost h
  · exact (ends_flow_control hs hlt (by omega) id port payload).mono fun _ _ h => hmost h
  · exact (ends_control hs hlt id payload).mono fun _ _ h => hmost h

/-- Two started hello blocks, each bound to the other one on two ports and to itself on one. -/
def merryGoRound : Machine Builtin.kit :=
  let entry (serial count : Nat) (self other : BlockId) : Entry Builtin.kit :=
    { serial, type := "hello", state := .started
      bindings := [⟨1, other⟩, ⟨2, self⟩, ⟨4, other⟩], contents := some (.hello { count }) }
  { manager := { (.fresh {} : Manager Builtin.kit) with
      blocks := (Keyed.empty.insert ⟨1⟩ (entry 0 1 ⟨1⟩ ⟨2⟩)).insert ⟨2⟩ (entry 1 4 ⟨2⟩ ⟨1⟩) }
    host := .manual }

/-- A control message goes round, and ends. -/
theorem builtin_messages_end_merryGoRound :
    (control (callHook 17) ⟨1⟩ (.text "round")).Abides .total
      (fun r t => HandsOn Builtin.builtins merryGoRound (.text "round") 15 1 r.2 t)
      merryGoRound := by
  have hbuiltin : merryGoRound.IsBuiltin Builtin.builtins := fun {_ _ c} _ _ => ⟨c, rfl⟩
  exact (builtin_messages_end Builtin.builtins hbuiltin (n := 17) (m := 15) (by decide)
    (by decide)).2.2 ⟨1⟩ (.text "round")

end BlockFlow
