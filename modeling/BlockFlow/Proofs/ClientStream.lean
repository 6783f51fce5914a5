import BlockFlow.Proofs.Pairing

/-!
# The stream of a client

A server and its client have the two ends of a connection. What is sent at one of them waits at the
other one until it is received.

1. `Streams.of_send`, `of_transmit`: what sending does to the two ends.
2. `IsOpen`, `HasSide`, `heard`: the end of a server, and what waits at that of the client;
   `receive_of_hasSide`, `transmit_of_hasSide`: what the server receives and sends.
3. `Gets`, `gets_transmit`: what the client sends.
-/

namespace BlockFlow.Host

variable {h h' : Host} {fd : Fd} {e : Endpoint} {side : Side} {waiting ms : List (List UInt8)}
  {bytes : List UInt8}

/-! ## Sending -/

/-- An end at which more messages wait. -/
def Side.adding (s : Side) (ms : List (List UInt8)) : Side := { s with inbox := s.inbox ++ ms }

theorem Side.adding_nil (s : Side) : s.adding [] = s := by
  unfold adding
  rw [List.append_nil]

theorem Side.adding_adding (s : Side) (ms ms' : List (List UInt8)) :
    (s.adding ms).adding ms' = s.adding (ms ++ ms') := by
  unfold adding
  rw [List.append_assoc]

theorem Side.exists_enqueue (s : Side) (ms : List (List UInt8)) :
    ∃ ms', (s.enqueue ms).2 = s.adding ms' := by
  induction ms generalizing s with
  | nil => exact ⟨[], s.adding_nil.symm⟩
  | cons m ms ih =>
    rw [enqueue]
    split
    · obtain ⟨ms', hms'⟩ := ih (s.adding [m])
      refine ⟨m :: ms', ?_⟩
      rw [Side.adding_adding] at hms'
      exact hms'
    · exact ⟨[], s.adding_nil.symm⟩

/-- What there is room for waits behind what waited at the other end. -/
theorem Streams.of_send {t t' : Streams} {sent : Nat} (hsent : t.send e bytes = .ok (sent, t')) :
    (t.side e).outputEnded = false ∧ ∃ ms : List (List UInt8), ms.flatten = bytes.take sent ∧
      t' = t.modify e.other fun _ => (t.side e.other).adding ms := by
  obtain ⟨ms, hms⟩ := (t.side e.other).exists_enqueue (Message.messages bytes)
  have hflatten := (t.side e.other).flatten_enqueue (Message.messages bytes)
  unfold send at hsent
  cases henqueue : (t.side e.other).enqueue (Message.messages bytes) with
  | mk sent' other =>
    rw [henqueue] at hsent hms hflatten
    obtain rfl : other = (t.side e.other).adding ms := hms
    rw [Message.flatten_messages, Side.adding, List.flatten_append] at hflatten
    split at hsent
    · cases hsent
    next hended =>
    dsimp only at hsent
    split at hsent
    · cases hsent
    · cases hsent
      exact ⟨by simpa using hended, ms, List.append_cancel_left hflatten, rfl⟩

/-- Bytes that were transmitted wait behind what waited at the other end. -/
theorem of_transmit (hsent : (h.transmit fd bytes).1 = .ok ()) :
    ∃ e, h.descriptors.get? fd = some (.stream e) ∧ (h.streams.side e).outputEnded = false ∧
      ∃ ms : List (List UInt8), ms.flatten = bytes ∧ (h.transmit fd bytes).2 = { h with
        streams := h.streams.modify e.other fun _ => (h.streams.side e.other).adding ms } := by
  unfold transmit send at hsent ⊢
  cases hopen : h.descriptors.get? fd with
  | none =>
    simp only [hopen] at hsent
    cases hsent
  | some opened =>
    cases opened with
    | listener =>
      simp only [hopen] at hsent
      cases hsent
    | stream e =>
      cases hsend : h.streams.send e bytes with
      | error f =>
        simp only [hopen, hsend] at hsent
        cases hsent
      | ok p =>
        simp only [hopen, hsend] at hsent
        split at hsent
        · cases hsent
        next hall =>
        obtain ⟨hended, ms, hms, hstreams⟩ := Streams.of_send hsend
        rw [List.take_of_length_le (Nat.not_lt.1 hall)] at hms
        exact ⟨e, rfl, hended, ms, hms, by simp only [hsend, hstreams]⟩

theorem matches_transmit (h : Host) (fd : Fd) (bytes : List UInt8) :
    h.Matches (h.transmit fd bytes).2 := by
  unfold transmit send
  cases h.descriptors.get? fd with
  | none => exact .refl h
  | some opened =>
    cases opened with
    | listener => exact .refl h
    | stream e =>
      cases hsend : h.streams.send e bytes with
      | error f =>
        simp only [hsend]
        exact .refl h
      | ok p =>
        simp only [hsend]
        exact ⟨rfl, rfl, rfl⟩

theorem matches_receive (h : Host) (fd : Fd) : h.Matches (h.receive fd).2 := by
  unfold receive
  split
  · exact ⟨rfl, rfl, rfl⟩
  · exact .refl h
  · exact .refl h

/-! ## The end of the server -/

/-- A descriptor is open on an end of a connection that has not ended in either way, where just the
given messages wait. -/
structure IsOpen (h : Host) (fd : Fd) (e : Endpoint) (waiting : List (List UInt8)) : Prop where
  stream : h.descriptors.get? fd = some (.stream e)
  lt_length : e.connection < h.streams.connections.length
  side : h.streams.side e = { inbox := waiting }

/-- The bytes that were sent from an end of a connection and wait at the other one. -/
def heard (h : Host) (e : Endpoint) : List UInt8 := (h.streams.side e.other).inbox.flatten

/-- A descriptor is open on an end of a connection that is as given. -/
structure HasSide (h : Host) (fd : Fd) (e : Endpoint) (side : Side) : Prop where
  stream : h.descriptors.get? fd = some (.stream e)
  lt_length : e.connection < h.streams.connections.length
  side_eq : h.streams.side e = side

theorem IsOpen.hasSide (ho : h.IsOpen fd e waiting) : h.HasSide fd e { inbox := waiting } :=
  ⟨ho.stream, ho.lt_length, ho.side⟩

theorem HasSide.isOpen (ho : h.HasSide fd e { inbox := waiting }) : h.IsOpen fd e waiting :=
  ⟨ho.stream, ho.lt_length, ho.side_eq⟩

def Side.ending (s : Side) : Ending :=
  if s.reset then .failed .connectionReset else if s.inputEnded then .ended else .ongoing

/-- An end after all that waited there was received. -/
def Side.emptied (s : Side) : Side := { s with inbox := [], reset := false }

theorem receive_of_hasSide (ho : h.HasSide fd e side) :
    (h.receive fd).1 = (side.inbox.flatten, side.ending) ∧
      (h.receive fd).2.HasSide fd e side.emptied ∧ (h.receive fd).2.heard e = h.heard e := by
  unfold receive
  rw [ho.stream]
  dsimp only [Streams.receive]
  rw [ho.side_eq]
  refine ⟨rfl, ⟨ho.stream, ?_, ?_⟩, ?_⟩
  · rw [Streams.length_modify]
    exact ho.lt_length
  · rw [Streams.side_modify_self ho.lt_length, ho.side_eq]
    rfl
  · exact congrArg (·.inbox.flatten) (h.streams.side_modify_other e _)

/-- What is transmitted on a stream that nothing was done to waits at its other end; nothing is
transmitted if the other end was closed. -/
theorem transmit_of_hasSide (ho : h.HasSide fd e side) (hu : h.Untouched fd h')
    (hsent : (h'.transmit fd bytes).1 = .ok ()) :
    side.outputEnded = false ∧ (h'.transmit fd bytes).2.HasSide fd e side ∧
      (h'.transmit fd bytes).2.heard e = h.heard e ++ bytes := by
  obtain ⟨e', hopen, hended, ms, rfl, heq⟩ := of_transmit hsent
  obtain rfl : e' = e := by
    have hstream := hu.stream hopen
    rw [ho.stream] at hstream
    cases hstream
    rfl
  have hlt : e'.other.connection < h'.streams.connections.length := by
    rw [hu.streams.length_eq]
    exact ho.lt_length
  have hown := h'.streams.side_modify_other e'.other fun _ => (h'.streams.side e'.other).adding ms
  rw [Endpoint.other_other] at hown
  have hside : h'.streams.side e' = side := (hu.streams.side_eq hended rfl).trans ho.side_eq
  have hother : h'.streams.side e'.other = h.streams.side e'.other := hu.streams.side_eq hended rfl
  rw [heq]
  refine ⟨hside ▸ hended, ⟨hopen, ?_, hown.trans hside⟩, ?_⟩
  · rw [Streams.length_modify]
    exact hlt
  · unfold heard
    rw [Streams.side_modify_self hlt, hother, Side.adding, List.flatten_append]

/-! ## The end of the client -/

/-- Bytes arrive at an end of a connection. Files, open descriptors and listeners stay the same. -/
structure Gets (h h' : Host) (e : Endpoint) (bytes : List UInt8) : Prop where
  same : h.Matches h'
  length_le : h.streams.connections.length ≤ h'.streams.connections.length
  side : ∃ ms : List (List UInt8), ms.flatten = bytes ∧
    h'.streams.side e = (h.streams.side e).adding ms

/-- The bytes wait at the descriptor of the end. -/
theorem Gets.isOpen (hg : h.Gets h' e bytes) (ho : h.IsOpen fd e []) :
    ∃ waiting : List (List UInt8), waiting.flatten = bytes ∧ h'.IsOpen fd e waiting := by
  obtain ⟨ms, hms, hside⟩ := hg.side
  refine ⟨ms, hms, ?_, Nat.lt_of_lt_of_le ho.lt_length hg.length_le, ?_⟩
  · rw [hg.same.descriptors]
    exact ho.stream
  · rw [hside, ho.side]
    rfl

/-- What is sent at the other end arrives. -/
theorem gets_transmit (hopen : h.descriptors.get? fd = some (.stream e.other))
    (hlt : e.connection < h.streams.connections.length)
    (hsent : (h.transmit fd bytes).1 = .ok ()) : h.Gets (h.transmit fd bytes).2 e bytes := by
  obtain ⟨e', hopen', -, ms, hms, heq⟩ := of_transmit hsent
  obtain rfl : e.other = e' := by
    rw [hopen] at hopen'
    cases hopen'
    rfl
  rw [Endpoint.other_other] at heq
  refine ⟨h.matches_transmit fd bytes, ?_, ms, hms, ?_⟩
  · rw [heq]
    exact Nat.le_of_eq (Streams.length_modify ..).symm
  · rw [heq]
    exact Streams.side_modify_self hlt

end BlockFlow.Host
