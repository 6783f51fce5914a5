import BlockFlow.Block.Builtin
import BlockFlow.Host.Action

/-!
# The clock never goes back

Nothing that is asked of a host turns its clock back. What blocks do on a host when they are built
and when they end is their own affair, so it has to be said of a kind of blocks that they leave the
clock alone.

1. `Host.Forward`: something done on a host that does not turn its clock back; one lemma for each
   thing that the engine does there.
2. `Kit.KeepsTime`: blocks that do not turn the clock back.
-/

namespace BlockFlow

namespace Instant

variable {a b c : Instant}

theorem le_refl (a : Instant) : a ≤ a := Nat.le_refl _

theorem le_trans (hab : a ≤ b) (hbc : b ≤ c) : a ≤ c := Nat.le_trans hab hbc

end Instant

namespace Host

/-- Something is done on a host that does not turn its clock back. -/
def Forward {α : Type} (f : Host → α × Host) : Prop := ∀ h, h.now ≤ (f h).2.now

variable (h : Host)

theorem now_close (fd : Fd) : (h.close fd).now = h.now := by
  unfold close
  split <;> rfl

theorem now_receive (fd : Fd) : (h.receive fd).2.now = h.now := by
  unfold receive
  split <;> rfl

theorem now_send (fd : Fd) (bytes : List UInt8) : (h.send fd bytes).2.now = h.now := by
  unfold send
  split
  · split <;> rfl
  · rfl
  · rfl

theorem now_transmit (fd : Fd) (bytes : List UInt8) : (h.transmit fd bytes).2.now = h.now := by
  rw [← h.now_send fd bytes]
  unfold transmit
  split <;> simp_all

theorem now_listen (path : String) : (h.listen path).2.now = h.now := by
  unfold listen
  split <;> rfl

theorem now_accept (fd : Fd) : (h.accept fd).2.now = h.now := by
  unfold accept
  split <;> rfl

theorem now_removeFile (path : String) : (h.removeFile path).2.now = h.now := by
  unfold removeFile
  split <;> rfl

theorem now_connect (name path : String) : (h.connect name path).2.now = h.now := by
  unfold connect
  split
  · rfl
  · split
    · rfl
    · dsimp only
      split
      · exact now_close _ _
      · rfl

theorem now_plain (r : Except Failure Unit × Host) : (plain r).2.now = r.2.now := by
  unfold plain
  split <;> rfl

theorem now_withFiles (r : Except Failure Files) : (h.withFiles r).now = h.now := by
  unfold withFiles
  split <;> rfl

theorem now_hangUp (name : String) : (h.hangUp name).2.now = h.now := by
  unfold hangUp
  split
  · exact now_close _ _
  · rfl

theorem now_halfClose (fd : Fd) : (h.halfClose fd).now = h.now := by
  unfold halfClose
  split <;> rfl

/-- Only moving the clock changes the time, and it moves on. -/
theorem now_act {a : Action} (ha : ∀ d, a ≠ .advance d) : (h.act a).2.now = h.now := by
  cases a with
  | setSocket | isThere => rfl
  | pair a b =>
    show ((h.close a).close b).now = h.now
    rw [now_close, now_close]
  | write fd data =>
    rw [← h.now_send fd data]
    simp only [act]
    split <;> simp_all
  | read fd => exact h.now_receive fd
  | close fd => exact h.now_close fd
  | makeFile | makeDirectory => exact h.now_withFiles _
  | connect client path =>
    simp only [act]
    rw [now_plain, now_connect]
  | send client data =>
    simp only [act]
    split
    · split
      · rfl
      · rw [now_plain, now_transmit]
    · rfl
  | receive client =>
    simp only [act]
    split
    · exact h.now_receive _
    · rfl
  | halfClose client =>
    simp only [act]
    split
    · exact h.now_halfClose _
    · rfl
  | hangUp client => exact h.now_hangUp client
  | advance d => exact absurd rfl (ha d)

/-! ## What does not turn the clock back -/

theorem Forward.of_now_eq {α : Type} {f : Host → α × Host} (hf : ∀ h, (f h).2.now = h.now) :
    Forward f := fun h => by
  rw [hf h]
  exact Instant.le_refl _

theorem forward_readClock : Forward readClock := fun h => h.clock.now_le_pass tick

theorem forward_wait (d : Duration) : Forward fun h => ((), h.wait d) :=
  fun h => h.clock.now_le_pass _

theorem forward_close (fd : Fd) : Forward fun h => ((), h.close fd) :=
  .of_now_eq fun h => h.now_close fd

theorem forward_act (a : Action) : Forward (·.act a) := by
  by_cases ha : ∀ d, a ≠ .advance d
  · exact .of_now_eq fun h => h.now_act ha
  · obtain ⟨d, rfl⟩ : ∃ d, a = .advance d := by simpa using ha
    intro h
    show h.now ≤ (h.act (.advance d)).2.now
    simp only [act]
    split
    · exact Instant.le_refl _
    · next now hclock =>
      split
      · next later hlater =>
        show h.clock.now ≤ later
        rw [hclock]
        exact Instant.le_of_later? hlater
      · exact Instant.le_refl _

end Host

/-- Blocks that do not turn the clock back when they are built and when they end. -/
structure Kit.KeepsTime (K : Kit) : Prop where
  build (factory : K.Factory) : Host.Forward (K.build factory)
  release (c : K.Contents) : Host.Forward fun h => ((), K.release c h)

end BlockFlow
