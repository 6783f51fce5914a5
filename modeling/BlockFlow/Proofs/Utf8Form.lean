import BlockFlow.Text.Utf8

/-!
# Reading back what is written as UTF-8

The bytes of a text are divided into the characters of the text.

1. `exists_front_encodeChar`: the first piece of the bytes of a character and more bytes; one lemma for
   each length of a character.
2. `pieces_encode`: the pieces of the bytes of a text.
-/

namespace BlockFlow.Text.Utf8

/-! ## Bytes as numbers -/

theorem isTail_iff (b : UInt8) : isTail b ↔ 128 ≤ b.toNat ∧ b.toNat ≤ 191 := by
  simp [isTail, UInt8.le_iff_toNat_le]

/-- A byte that carries six bits of a character. -/
def tailByte (n : Nat) : UInt8 := UInt8.ofNat (n % 64 + 128)

theorem toNat_tailByte (n : Nat) : (tailByte n).toNat = n % 64 + 128 := by
  rw [tailByte, UInt8.toNat_ofNat']
  omega

theorem isTail_tailByte (n : Nat) : isTail (tailByte n) := by
  rw [isTail_iff, toNat_tailByte]
  omega

theorem low_tailByte (n : Nat) : low (tailByte n) = n % 64 := by
  rw [low, toNat_tailByte]
  omega

/-- A second byte is accepted unless it makes the form longer than needed, a surrogate or a code
point above the last plane. -/
theorem isSecond_tailByte {b : UInt8} {n : Nat} (hE0 : b.toNat = 224 → 32 ≤ n % 64)
    (hED : b.toNat = 237 → n % 64 < 32) (hF0 : b.toNat = 240 → 16 ≤ n % 64)
    (hF4 : b.toNat = 244 → n % 64 < 16) : isSecond b (tailByte n) := by
  have heq : ∀ k : UInt8, b = k → b.toNat = k.toNat := fun k h => congrArg UInt8.toNat h
  have hle : ∀ k : UInt8, k ≤ tailByte n ↔ k.toNat ≤ n % 64 + 128 := fun k => by
    rw [UInt8.le_iff_toNat_le, toNat_tailByte]
  have hge : ∀ k : UInt8, tailByte n ≤ k ↔ n % 64 + 128 ≤ k.toNat := fun k => by
    rw [UInt8.le_iff_toNat_le, toNat_tailByte]
  unfold isSecond
  split
  · next h =>
    have := hE0 (heq _ h)
    simp [hle, hge]
    omega
  split
  · next h =>
    have := hED (heq _ h)
    simp [hle, hge]
    omega
  split
  · next h =>
    have := hF0 (heq _ h)
    simp [hle, hge]
    omega
  split
  · next h =>
    have := hF4 (heq _ h)
    simp [hle, hge]
    omega
  · exact isTail_tailByte n

/-! ## The first piece -/

section Front

variable {n : Nat} (rest : List UInt8)

theorem toNat_ofNat_of_lt (h : n < 256) : (UInt8.ofNat n).toNat = n := by
  rw [UInt8.toNat_ofNat']
  omega

theorem front_one (h : n < 128) : front (UInt8.ofNat n) rest = (.char (Char.ofNat n), rest) := by
  have hb := toNat_ofNat_of_lt (n := n) (by omega)
  have hlt : UInt8.ofNat n < 0x80 := by
    rw [UInt8.lt_iff_toNat_lt, hb]
    exact h
  unfold front
  rw [if_pos hlt, hb]

theorem front_two (hlow : 128 ≤ n) (hhigh : n < 2048) :
    front (UInt8.ofNat (n / 64 % 32 + 192)) (tailByte n :: rest) =
      (.char (Char.ofNat n), rest) := by
  have hb := toNat_ofNat_of_lt (n := n / 64 % 32 + 192) (by omega)
  have hone : ¬ UInt8.ofNat (n / 64 % 32 + 192) < 0x80 := by
    rw [UInt8.lt_iff_toNat_lt, hb, show (0x80 : UInt8).toNat = 128 from rfl]
    omega
  have htwo : (0xC2 ≤ UInt8.ofNat (n / 64 % 32 + 192) &&
      UInt8.ofNat (n / 64 % 32 + 192) ≤ 0xDF) = true := by
    simp [UInt8.le_iff_toNat_le]
    omega
  have hchar : (n / 64 % 32 + 192) % 32 * 64 + n % 64 = n := by omega
  unfold front
  rw [if_neg hone, if_pos htwo]
  simp only [isTail_tailByte, if_true, hb, low_tailByte, hchar]

theorem front_three (hlow : 2048 ≤ n) (hhigh : n < 65536) (hvalid : n < 0xD800 ∨ 0xDFFF < n) :
    front (UInt8.ofNat (n / 4096 % 16 + 224)) (tailByte (n / 64) :: tailByte n :: rest) =
      (.char (Char.ofNat n), rest) := by
  have hb := toNat_ofNat_of_lt (n := n / 4096 % 16 + 224) (by omega)
  have hone : ¬ UInt8.ofNat (n / 4096 % 16 + 224) < 0x80 := by
    rw [UInt8.lt_iff_toNat_lt, hb, show (0x80 : UInt8).toNat = 128 from rfl]
    omega
  have htwo : ¬ (0xC2 ≤ UInt8.ofNat (n / 4096 % 16 + 224) &&
      UInt8.ofNat (n / 4096 % 16 + 224) ≤ 0xDF) = true := by
    simp [UInt8.le_iff_toNat_le]
    omega
  have hthree : (0xE0 ≤ UInt8.ofNat (n / 4096 % 16 + 224) &&
      UInt8.ofNat (n / 4096 % 16 + 224) ≤ 0xEF) = true := by
    simp [UInt8.le_iff_toNat_le]
    omega
  have hsecond : isSecond (UInt8.ofNat (n / 4096 % 16 + 224)) (tailByte (n / 64)) := by
    apply isSecond_tailByte <;> rw [hb] <;> omega
  have hchar : (n / 4096 % 16 + 224) % 16 * 4096 + n / 64 % 64 * 64 + n % 64 = n := by omega
  unfold front
  rw [if_neg hone, if_neg htwo, if_pos hthree]
  simp only [hsecond, Bool.not_true, Bool.false_eq_true, if_false, isTail_tailByte, if_true, hb,
    low_tailByte, hchar]

theorem front_four (hlow : 65536 ≤ n) (hhigh : n < 1114112) :
    front (UInt8.ofNat (n / 262144 % 8 + 240))
      (tailByte (n / 4096) :: tailByte (n / 64) :: tailByte n :: rest) =
      (.char (Char.ofNat n), rest) := by
  have hb := toNat_ofNat_of_lt (n := n / 262144 % 8 + 240) (by omega)
  have hone : ¬ UInt8.ofNat (n / 262144 % 8 + 240) < 0x80 := by
    rw [UInt8.lt_iff_toNat_lt, hb, show (0x80 : UInt8).toNat = 128 from rfl]
    omega
  have htwo : ¬ (0xC2 ≤ UInt8.ofNat (n / 262144 % 8 + 240) &&
      UInt8.ofNat (n / 262144 % 8 + 240) ≤ 0xDF) = true := by
    simp [UInt8.le_iff_toNat_le]
    omega
  have hthree : ¬ (0xE0 ≤ UInt8.ofNat (n / 262144 % 8 + 240) &&
      UInt8.ofNat (n / 262144 % 8 + 240) ≤ 0xEF) = true := by
    simp [UInt8.le_iff_toNat_le]
    omega
  have hfour : (0xF0 ≤ UInt8.ofNat (n / 262144 % 8 + 240) &&
      UInt8.ofNat (n / 262144 % 8 + 240) ≤ 0xF4) = true := by
    simp [UInt8.le_iff_toNat_le]
    omega
  have hsecond : isSecond (UInt8.ofNat (n / 262144 % 8 + 240)) (tailByte (n / 4096)) := by
    apply isSecond_tailByte <;> rw [hb] <;> omega
  have hchar : (n / 262144 % 8 + 240) % 8 * 262144 + n / 4096 % 64 * 4096 + n / 64 % 64 * 64 +
      n % 64 = n := by omega
  unfold front
  rw [if_neg hone, if_neg htwo, if_neg hthree, if_pos hfour]
  simp only [hsecond, Bool.not_true, Bool.false_eq_true, if_false, isTail_tailByte, if_true, hb,
    low_tailByte, hchar]

/-- The first piece of the bytes of a character is the character. -/
theorem exists_front_encodeChar (c : Char) :
    ∃ b r, encodeChar c ++ rest = b :: r ∧ front b r = (.char c, rest) := by
  have hvalid : c.val.toNat < 0xD800 ∨ 0xDFFF < c.val.toNat ∧ c.val.toNat < 0x110000 := c.valid
  have hchar : Char.ofNat c.val.toNat = c := Char.ofNat_toNat c
  generalize hn : c.val.toNat = n at hvalid hchar
  unfold encodeChar String.utf8EncodeChar
  simp only [hn]
  split
  · exact ⟨_, _, rfl, hchar ▸ front_one rest (by omega)⟩
  split
  · exact ⟨_, _, rfl, hchar ▸ front_two rest (by omega) (by omega)⟩
  split
  · exact ⟨_, _, rfl, hchar ▸ front_three rest (by omega) (by omega) (by omega)⟩
  · exact ⟨_, _, rfl, hchar ▸ front_four rest (by omega) (by omega)⟩

end Front

/-- The bytes of a text are divided into its characters. -/
theorem pieces_encode (cs : List Char) : pieces (encode cs) = ofText cs := by
  induction cs with
  | nil => simp [encode, ofText, pieces]
  | cons c cs ih =>
    obtain ⟨b, r, hbytes, hfront⟩ := exists_front_encodeChar (encode cs) c
    rw [show encode (c :: cs) = encodeChar c ++ encode cs from List.flatMap_cons, hbytes, pieces,
      hfront, ih]
    rfl

end BlockFlow.Text.Utf8
