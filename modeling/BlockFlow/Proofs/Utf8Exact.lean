import BlockFlow.Proofs.Utf8Form

/-!
# The bytes that are text

A strict reading of bytes takes just the bytes of a text, and gives that text: there is one way to
write a character, and nothing else is read as it.

1. `eq_of_front_eq_char`: what the first piece is read from, if it is a character; one lemma for each
   length of a character.
2. `decode_eq_ok_iff`: what is read is what was written.
-/

namespace BlockFlow.Text.Utf8

variable {b x y z : UInt8} {r r' : List UInt8} {c : Char} {n : Nat}

/-! ## Bytes as numbers -/

/-- What a second byte has to be, besides one that can follow inside of a character. -/
theorem of_isSecond (h : isSecond b x) : 128 ≤ x.toNat ∧ x.toNat ≤ 191 ∧
    (b.toNat = 224 → 160 ≤ x.toNat) ∧ (b.toNat = 237 → x.toNat ≤ 159) ∧
    (b.toNat = 240 → 144 ≤ x.toNat) ∧ (b.toNat = 244 → x.toNat ≤ 143) := by
  have hne : ∀ k : UInt8, b ≠ k → b.toNat ≠ k.toNat := fun k hk h => hk (UInt8.toNat_inj.1 h)
  unfold isSecond at h
  split at h
  · next hb =>
    subst hb
    simp [UInt8.le_iff_toNat_le] at h ⊢
    omega
  next h1 =>
  split at h
  · next hb =>
    subst hb
    simp [UInt8.le_iff_toNat_le] at h ⊢
    omega
  next h2 =>
  split at h
  · next hb =>
    subst hb
    simp [UInt8.le_iff_toNat_le] at h ⊢
    omega
  next h3 =>
  split at h
  · next hb =>
    subst hb
    simp [UInt8.le_iff_toNat_le] at h ⊢
    omega
  next h4 =>
  have h1 := hne _ h1
  have h2 := hne _ h2
  have h3 := hne _ h3
  have h4 := hne _ h4
  rw [isTail_iff] at h
  simp at h1 h2 h3 h4
  omega

theorem toNat_val_ofNat (h : n < 0xD800 ∨ 0xDFFF < n ∧ n < 0x110000) :
    (Char.ofNat n).val.toNat = n := by
  rw [Char.ofNat, dif_pos h]
  rfl

/-- A byte is known from its number. -/
theorem ofNat_eq_of_toNat (h : b.toNat = n) : UInt8.ofNat n = b := by
  rw [← h, UInt8.ofNat_toNat]

theorem tailByte_eq (h : 128 ≤ x.toNat) (h' : x.toNat ≤ 191) (hn : n % 64 = x.toNat % 64) :
    tailByte n = x :=
  ofNat_eq_of_toNat (by omega)

/-! ## The first piece -/

/-- Characters of one byte. -/
theorem encodeChar_of_one (hb : b.toNat < 128) : encodeChar (Char.ofNat b.toNat) = [b] := by
  have hval := toNat_val_ofNat (n := b.toNat) (by omega)
  unfold encodeChar String.utf8EncodeChar
  simp only [hval]
  rw [if_pos (by omega)]
  exact congrArg (· :: []) (ofNat_eq_of_toNat rfl)

/-- Characters of two bytes. -/
theorem encodeChar_of_two (hb : 194 ≤ b.toNat) (hb' : b.toNat ≤ 223) (hx : isTail x) :
    encodeChar (Char.ofNat (b.toNat % 32 * 64 + low x)) = [b, x] := by
  rw [isTail_iff] at hx
  unfold low
  generalize hn : b.toNat % 32 * 64 + x.toNat % 64 = n
  have hval := toNat_val_ofNat (n := n) (by omega)
  unfold encodeChar String.utf8EncodeChar
  simp only [hval]
  rw [if_neg (by omega), if_pos (by omega)]
  have hfirst : UInt8.ofNat (n / 64 % 32 + 192) = b := ofNat_eq_of_toNat (by omega)
  have hlast : tailByte n = x := tailByte_eq hx.1 hx.2 (by omega)
  show [UInt8.ofNat (n / 64 % 32 + 192), tailByte n] = _
  rw [hfirst, hlast]

/-- Characters of three bytes. -/
theorem encodeChar_of_three (hb : 224 ≤ b.toNat) (hb' : b.toNat ≤ 239) (hx : isSecond b x)
    (hy : isTail y) :
    encodeChar (Char.ofNat (b.toNat % 16 * 4096 + low x * 64 + low y)) = [b, x, y] := by
  obtain ⟨hx, hx', hE0, hED, -, -⟩ := of_isSecond hx
  rw [isTail_iff] at hy
  unfold low
  generalize hn : b.toNat % 16 * 4096 + x.toNat % 64 * 64 + y.toNat % 64 = n
  have hval := toNat_val_ofNat (n := n) (by omega)
  unfold encodeChar String.utf8EncodeChar
  simp only [hval]
  rw [if_neg (by omega), if_neg (by omega), if_pos (by omega)]
  have hfirst : UInt8.ofNat (n / 4096 % 16 + 224) = b := ofNat_eq_of_toNat (by omega)
  have hsecond : tailByte (n / 64) = x := tailByte_eq hx hx' (by omega)
  have hlast : tailByte n = y := tailByte_eq hy.1 hy.2 (by omega)
  show [UInt8.ofNat (n / 4096 % 16 + 224), tailByte (n / 64), tailByte n] = _
  rw [hfirst, hsecond, hlast]

/-- Characters of four bytes. -/
theorem encodeChar_of_four (hb : 240 ≤ b.toNat) (hb' : b.toNat ≤ 244) (hx : isSecond b x)
    (hy : isTail y) (hz : isTail z) :
    encodeChar (Char.ofNat (b.toNat % 8 * 262144 + low x * 4096 + low y * 64 + low z)) =
      [b, x, y, z] := by
  obtain ⟨hx, hx', -, -, hF0, hF4⟩ := of_isSecond hx
  rw [isTail_iff] at hy hz
  unfold low
  generalize hn : b.toNat % 8 * 262144 + x.toNat % 64 * 4096 + y.toNat % 64 * 64 + z.toNat % 64 = n
  have hval := toNat_val_ofNat (n := n) (by omega)
  unfold encodeChar String.utf8EncodeChar
  simp only [hval]
  rw [if_neg (by omega), if_neg (by omega), if_neg (by omega)]
  have hfirst : UInt8.ofNat (n / 262144 % 8 + 240) = b := ofNat_eq_of_toNat (by omega)
  have hsecond : tailByte (n / 4096) = x := tailByte_eq hx hx' (by omega)
  have hthird : tailByte (n / 64) = y := tailByte_eq hy.1 hy.2 (by omega)
  have hlast : tailByte n = z := tailByte_eq hz.1 hz.2 (by omega)
  show [UInt8.ofNat (n / 262144 % 8 + 240), tailByte (n / 4096), tailByte (n / 64), tailByte n] = _
  rw [hfirst, hsecond, hthird, hlast]

/-- A first piece that is a character is read from the bytes of this character. -/
theorem eq_of_front_eq_char (h : front b r = (.char c, r')) : b :: r = encodeChar c ++ r' := by
  unfold front at h
  simp only [UInt8.lt_iff_toNat_lt, UInt8.le_iff_toNat_le, Bool.and_eq_true,
    decide_eq_true_eq] at h
  split at h
  · next hb =>
    cases h
    rw [encodeChar_of_one hb]
    rfl
  split at h
  · next hb =>
    split at h
    · cases h
    · split at h
      · next hx =>
        cases h
        rw [encodeChar_of_two hb.1 hb.2 hx]
        rfl
      · cases h
  split at h
  · next hb =>
    split at h
    · cases h
    · split at h <;> cases h
    · split at h
      · cases h
      · next hx =>
        split at h
        · next hy =>
          cases h
          rw [encodeChar_of_three hb.1 hb.2 (by simpa using hx) hy]
          rfl
        · cases h
  split at h
  · next hb =>
    split at h
    · cases h
    · split at h <;> cases h
    · split at h
      · cases h
      · split at h <;> cases h
    · split at h
      · cases h
      · next hx =>
        split at h
        · cases h
        · next hy =>
          split at h
          · next hz =>
            cases h
            rw [encodeChar_of_four hb.1 hb.2 (by simpa using hx) (by simpa using hy) hz]
            rfl
          · cases h
  · cases h

/-! ## Reading strictly -/

theorem ofPieces_ofText (offset : Nat) (cs : List Char) : ofPieces offset (ofText cs) = .ok cs := by
  induction cs generalizing offset with
  | nil => rfl
  | cons c cs ih =>
    show (ofPieces _ (ofText cs)).map _ = _
    rw [ih]
    rfl

/-- Pieces are read as a text if they are its characters. -/
theorem eq_ofText_of_ofPieces {offset : Nat} {ps : List Piece} {cs : List Char}
    (h : ofPieces offset ps = .ok cs) : ps = ofText cs := by
  induction ps generalizing offset cs with
  | nil =>
    cases h
    rfl
  | cons p ps ih =>
    cases p with
    | char c =>
      change (ofPieces _ ps).map _ = _ at h
      cases hps : ofPieces (offset + c.utf8Size) ps with
      | error d =>
        rw [hps] at h
        cases h
      | ok ds =>
        rw [hps] at h
        cases h
        rw [ih hps]
        rfl
    | bad n => cases h
    | cut n => cases h

/-- Bytes whose pieces are the characters of a text are the bytes of the text. -/
theorem eq_encode_of_pieces {bs : List UInt8} {cs : List Char} (h : pieces bs = ofText cs) :
    bs = encode cs := by
  induction cs generalizing bs with
  | nil =>
    cases bs with
    | nil => rfl
    | cons b r =>
      rw [pieces] at h
      cases h
  | cons c cs ih =>
    cases bs with
    | nil =>
      rw [pieces] at h
      cases h
    | cons b r =>
      rw [pieces] at h
      obtain ⟨hfirst, hrest⟩ := List.cons.inj h
      have hfront : front b r = (.char c, (front b r).2) := Prod.ext hfirst rfl
      calc b :: r
        _ = encodeChar c ++ (front b r).2 := eq_of_front_eq_char hfront
        _ = encodeChar c ++ encode cs := by rw [ih hrest]
        _ = encode (c :: cs) := rfl

/-- **Strict reading.** Bytes are read as a text just when they are the bytes of the text. -/
theorem decode_eq_ok_iff {bs : List UInt8} {cs : List Char} :
    decode bs = .ok cs ↔ bs = encode cs := by
  constructor
  · intro h
    exact eq_encode_of_pieces (eq_ofText_of_ofPieces h)
  · rintro rfl
    rw [decode, pieces_encode, ofPieces_ofText]

end BlockFlow.Text.Utf8
