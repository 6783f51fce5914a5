import BlockFlow.Proofs.Tokens

/-!
# How command lines are written

A line is read from left to right, and cut where a blank or a colon is found. Here is what is
written in it, without regard to how it is read: words, blanks between them, and numerals.

1. `Numeral.Spells`: numerals; `readInt32?_eq_some_iff`.
2. `IsWord`, `IsTrimmed`, `FirstWord`: words and blanks; `token?_eq_some_iff`, `trim_eq_iff`.
3. `Line.Parts`: the parts of a line; `Line.numbers?_of_parts`, `Line.exists_parts_of_numbers?`: what
   is read of them.
4. `Order.Pair`: two numerals with a colon between them; `Order.bindArgument?_eq_some_iff`.
-/

namespace BlockFlow

namespace Text

/-! ## Numerals -/

namespace Numeral

/-- Decimal digits and the number that they stand for. -/
inductive Digits : List Char → Nat → Prop
  | one {d : Char} (hd : d.isDigit) : Digits [d] (d.toNat - '0'.toNat)
  | more {ds : List Char} {n : Nat} {d : Char} (h : Digits ds n) (hd : d.isDigit) :
    Digits (ds ++ [d]) (10 * n + (d.toNat - '0'.toNat))

/-- A decimal numeral, with a sign or without, and the number that it stands for. -/
inductive Spells : List Char → Int → Prop
  | plain {ds : List Char} {n : Nat} (h : Digits ds n) : Spells ds n
  | plus {ds : List Char} {n : Nat} (h : Digits ds n) : Spells ('+' :: ds) n
  | minus {ds : List Char} {n : Nat} (h : Digits ds n) : Spells ('-' :: ds) (-n)

variable {cs ds : List Char} {c d : Char} {n : Nat} {i : Int}

theorem Digits.ne_nil (h : Digits ds n) : ds ≠ [] := by
  cases h with
  | one => exact List.cons_ne_nil _ _
  | more => exact List.concat_ne_nil _ _

theorem Digits.isDigit (h : Digits ds n) : ∀ d ∈ ds, d.isDigit := by
  induction h with
  | one hd =>
    intro d hmem
    rwa [List.mem_singleton.1 hmem]
  | more _ hd ih =>
    intro d hmem
    rcases List.mem_append.1 hmem with hmem | hmem
    · exact ih d hmem
    · rwa [List.mem_singleton.1 hmem]

theorem Digits.ofDigitChars (h : Digits ds n) : Nat.ofDigitChars 10 ds 0 = n := by
  induction h with
  | one => rw [Nat.ofDigitChars_cons, Nat.ofDigitChars_nil, Nat.mul_zero, Nat.zero_add]
  | more _ _ ih => rw [Nat.ofDigitChars_append, ih, Nat.ofDigitChars_cons, Nat.ofDigitChars_nil]

theorem digits_ofDigitChars (hne : ds ≠ []) (hds : ∀ d ∈ ds, d.isDigit) :
    Digits ds (Nat.ofDigitChars 10 ds 0) := by
  induction ds using List.reverseRecOn with
  | nil => exact absurd rfl hne
  | append_singleton ds d ih =>
    have hd : d.isDigit := hds d (List.mem_append_right _ (.head _))
    by_cases hnil : ds = []
    · subst hnil
      have hone := Digits.one hd
      rwa [← hone.ofDigitChars] at hone
    · have hmore := (ih hnil fun d hmem => hds d (List.mem_append_left _ hmem)).more hd
      rwa [← hmore.ofDigitChars] at hmore

theorem readNat?_eq_some_iff : readNat? cs = some n ↔ Digits cs n := by
  unfold readNat?
  constructor
  · intro h
    split at h
    · next hcs =>
      simp only [Bool.and_eq_true, Bool.not_eq_true', List.isEmpty_eq_false_iff,
        List.all_eq_true] at hcs
      rw [← Option.some.inj h]
      exact digits_ofDigitChars hcs.1 hcs.2
    · cases h
  · intro h
    rw [if_pos, h.ofDigitChars]
    simp only [Bool.and_eq_true, Bool.not_eq_true', List.isEmpty_eq_false_iff, List.all_eq_true]
    exact ⟨h.ne_nil, h.isDigit⟩

theorem readInt?_of_digits (h : Digits ds n) : readInt? ds = some n := by
  unfold readInt?
  split
  · exact absurd (h.isDigit '-' (.head _)) (by decide)
  · exact absurd (h.isDigit '+' (.head _)) (by decide)
  · rw [readNat?_eq_some_iff.2 h]
    rfl

theorem readInt?_eq_some_iff : readInt? cs = some i ↔ Spells cs i := by
  constructor
  · intro h
    unfold readInt? at h
    split at h
    · simp only [Option.map_eq_some_iff, Option.bind_eq_bind, Option.bind_eq_some_iff,
        Option.pure_def, Option.some.injEq] at h
      obtain ⟨_, ⟨n, hn, rfl⟩, rfl⟩ := h
      exact .minus (readNat?_eq_some_iff.1 hn)
    · obtain ⟨n, hn, rfl⟩ := Option.map_eq_some_iff.1 h
      exact .plus (readNat?_eq_some_iff.1 hn)
    · obtain ⟨n, hn, rfl⟩ := Option.map_eq_some_iff.1 h
      exact .plain (readNat?_eq_some_iff.1 hn)
  · intro h
    cases h with
    | plain h => exact readInt?_of_digits h
    | plus h => rw [readInt?, readNat?_eq_some_iff.2 h]; rfl
    | minus h => rw [readInt?, readNat?_eq_some_iff.2 h]; rfl

theorem fitsInt32_iff : fitsInt32 i ↔ -2147483648 ≤ i ∧ i ≤ 2147483647 := by
  simp only [fitsInt32, Bool.and_eq_true, decide_eq_true_eq]

/-- A numeral is read as the number that it stands for, if that has 32 bits. -/
theorem readInt32?_eq_some_iff {n : Int32} : readInt32? cs = some n ↔ Spells cs n.toInt := by
  unfold readInt32?
  constructor
  · intro h
    split at h
    · next i hi =>
      split at h
      · next hfits =>
        obtain ⟨hlow, hhigh⟩ := fitsInt32_iff.1 hfits
        cases h
        rw [Int32.toInt_ofInt_of_le hlow (Int.lt_add_one_of_le hhigh)]
        exact readInt?_eq_some_iff.1 hi
      · cases h
    · cases h
  · intro h
    have hfits : fitsInt32 n.toInt := fitsInt32_iff.2 ⟨n.le_toInt, Int.le_of_lt_add_one n.toInt_lt⟩
    simp only [readInt?_eq_some_iff.2 h, hfits, if_true, Int32.ofInt_toInt]

theorem Spells.mem (h : Spells cs i) (hc : c ∈ cs) : c.isDigit ∨ c = '+' ∨ c = '-' := by
  cases h with
  | plain h => exact .inl (h.isDigit c hc)
  | plus h =>
    rcases List.mem_cons.1 hc with rfl | hc
    · exact .inr (.inl rfl)
    · exact .inl (h.isDigit c hc)
  | minus h =>
    rcases List.mem_cons.1 hc with rfl | hc
    · exact .inr (.inr rfl)
    · exact .inl (h.isDigit c hc)

theorem Spells.ne_nil (h : Spells cs i) : cs ≠ [] := by
  cases h with
  | plain h => exact h.ne_nil
  | plus | minus => exact List.cons_ne_nil _ _

theorem Spells.colon_not_mem (h : Spells cs i) : ':' ∉ cs := fun hc => by
  rcases h.mem hc with hc | hc | hc <;> exact absurd hc (by decide)

end Numeral

/-! ## Words and blanks -/

def Blanks (bs : List Char) : Prop := ∀ b ∈ bs, isBlank b

/-- Something without any blank in it. -/
structure IsWord (w : List Char) : Prop where
  ne_nil : w ≠ []
  solid : ∀ c ∈ w, isBlank c = false

/-- A text with no blank at either end. -/
structure IsTrimmed (cs : List Char) : Prop where
  front : ∀ c, cs.head? = some c → isBlank c = false
  back : ∀ c, cs.getLast? = some c → isBlank c = false

/-- A text that ends here or goes on with a blank. -/
def Cut (cs : List Char) : Prop := ∀ c, cs.head? = some c → isBlank c

/-- A text begins with a word, but for blanks, and with nothing longer. -/
def FirstWord (cs w : List Char) : Prop :=
  IsWord w ∧ ∃ bs rest, cs = bs ++ w ++ rest ∧ Blanks bs ∧ Cut rest

variable {cs bs bs' w a rest : List Char} {c : Char} {i : Int}

theorem Numeral.Spells.isWord (h : Numeral.Spells cs i) : IsWord cs where
  ne_nil := h.ne_nil
  solid c hc := by
    rcases h.mem hc with hc | rfl | rfl
    · exact isBlank_of_isDigit hc
    · decide
    · decide

theorem IsWord.isTrimmed (h : IsWord w) : IsTrimmed w where
  front c hc := h.solid c (List.mem_of_head? hc)
  back c hc := h.solid c (List.mem_of_getLast? hc)

theorem IsWord.isTrimmed_append (hw : IsWord w) (cs : List Char) (ha : IsWord a) :
    IsTrimmed (w ++ cs ++ a) where
  front c hc := by
    rw [List.append_assoc, List.head?_append_of_ne_nil w hw.ne_nil] at hc
    exact hw.isTrimmed.front c hc
  back c hc := by
    rw [List.getLast?_append_of_ne_nil _ ha.ne_nil] at hc
    exact ha.isTrimmed.back c hc

theorem IsTrimmed.not_cut (h : IsTrimmed a) (hne : a ≠ []) (cs : List Char) : ¬ Cut (a ++ cs) := by
  obtain ⟨d, ds, rfl⟩ := List.exists_cons_of_ne_nil hne
  intro hcut
  have hfront := h.front d rfl
  rw [hcut d rfl] at hfront
  cases hfront

theorem blanks_nil : Blanks [] := List.forall_mem_nil _

theorem Blanks.append (h : Blanks bs) (h' : Blanks bs') : Blanks (bs ++ bs') := fun b hb =>
  (List.mem_append.1 hb).elim (h b) (h' b)

theorem trimStart_append (h : Blanks bs) (cs : List Char) : trimStart (bs ++ cs) = trimStart cs :=
  List.dropWhile_append_of_pos h

theorem trimEnd_append (h : Blanks bs) (cs : List Char) : trimEnd (cs ++ bs) = trimEnd cs := by
  rw [trimEnd, List.reverse_append, List.dropWhile_append_of_pos fun b hb =>
    h b (List.mem_reverse.1 hb)]
  rfl

theorem IsTrimmed.trimStart_eq (h : IsTrimmed cs) : trimStart cs = cs := by
  cases cs with
  | nil => rfl
  | cons c cs => exact trimStart_cons_of_not_isBlank (h.front c rfl) cs

theorem IsTrimmed.trimEnd_eq (h : IsTrimmed cs) : trimEnd cs = cs := by
  rw [trimEnd_eq_rdropWhile, List.rdropWhile_eq_self_iff]
  intro hne
  simp [h.back _ (List.getLast?_eq_some_getLast hne)]

theorem isTrimmed_trim (cs : List Char) : IsTrimmed (trim cs) where
  front c hc := by
    obtain ⟨bs, hbs⟩ := List.head?_eq_some_iff.1 hc
    exact isBlank_of_trimStart_eq_cons ((trimStart_trim cs).trans hbs)
  back c hc := by
    rw [trim, trimEnd, List.getLast?_reverse] at hc
    have hhead := List.head?_dropWhile_not isBlank (trimStart cs).reverse
    rw [hc] at hhead
    exact hhead

/-- A text is cut down to what is left of it without the blanks around it. -/
theorem trim_eq_iff : trim cs = a ↔
    IsTrimmed a ∧ ∃ bs bs', cs = bs ++ a ++ bs' ∧ Blanks bs ∧ Blanks bs' := by
  constructor
  · rintro rfl
    refine ⟨isTrimmed_trim cs, cs.takeWhile isBlank, (trimStart cs).rtakeWhile isBlank, ?_,
      fun b hb => List.mem_takeWhile_imp hb, fun b hb => List.mem_rtakeWhile_imp hb⟩
    rw [List.append_assoc, trim, trimEnd_eq_rdropWhile, List.rdropWhile_append_rtakeWhile,
      trimStart, List.takeWhile_append_dropWhile]
  · rintro ⟨ha, bs, bs', rfl, hbs, hbs'⟩
    rw [trim, List.append_assoc, trimStart_append hbs]
    cases a with
    | nil =>
      rw [List.nil_append, trimStart, List.dropWhile_eq_nil_iff.2 hbs']
      rfl
    | cons c cs =>
      have hc : isBlank c = false := ha.front c rfl
      rw [List.cons_append, trimStart_cons_of_not_isBlank hc, ← List.cons_append,
        trimEnd_append hbs', ha.trimEnd_eq]

theorem IsTrimmed.trim_eq (h : IsTrimmed a) : trim a = a :=
  trim_eq_iff.2 ⟨h, [], [], (List.append_nil a).symm, blanks_nil, blanks_nil⟩

/-! ## The first word -/

theorem token?_eq_some_iff : token? cs = some (w, rest) ↔
    IsWord w ∧ Cut rest ∧ ∃ bs, cs = bs ++ w ++ rest ∧ Blanks bs := by
  constructor
  · intro h
    have hcs : cs = cs.takeWhile isBlank ++ trimStart cs := List.takeWhile_append_dropWhile.symm
    unfold token? at h
    split at h
    · cases h
    · next c r hstart =>
      have hc : isBlank c = false := isBlank_of_trimStart_eq_cons hstart
      rw [Option.some.injEq, Prod.mk.injEq] at h
      obtain ⟨rfl, rfl⟩ := h
      refine ⟨⟨?_, fun d hd => ?_⟩, fun d hd => ?_, cs.takeWhile isBlank, ?_, fun b hb =>
        List.mem_takeWhile_imp hb⟩
      · rw [List.takeWhile_cons_of_pos (by simp [hc])]
        exact List.cons_ne_nil _ _
      · simpa using List.mem_takeWhile_imp hd
      · have hhead := List.head?_dropWhile_not (!isBlank ·) (c :: r)
        rw [hd] at hhead
        simpa using hhead
      · rw [List.append_assoc, List.takeWhile_append_dropWhile, ← hstart]
        exact hcs
  · rintro ⟨hw, hrest, bs, rfl, hbs⟩
    rw [token?, List.append_assoc, trimStart_append hbs, ← token?]
    exact token?_append hw.ne_nil hw.solid hrest

theorem firstWord_iff : FirstWord cs w ↔ ∃ rest, token? cs = some (w, rest) := by
  constructor
  · rintro ⟨hw, bs, rest, hcs, hbs, hrest⟩
    exact ⟨rest, token?_eq_some_iff.2 ⟨hw, hrest, bs, hcs, hbs⟩⟩
  · rintro ⟨rest, h⟩
    obtain ⟨hw, hrest, bs, hcs, hbs⟩ := token?_eq_some_iff.1 h
    exact ⟨hw, bs, rest, hcs, hbs, hrest⟩

/-- A trimmed text with anything in it begins with a word. -/
theorem exists_firstWord (ha : IsTrimmed a) (hne : a ≠ []) : ∃ w, FirstWord a w := by
  obtain ⟨c, cs, rfl⟩ := List.exists_cons_of_ne_nil hne
  refine ⟨(c :: cs).takeWhile (!isBlank ·), firstWord_iff.2
    ⟨(c :: cs).dropWhile (!isBlank ·), ?_⟩⟩
  rw [token?, ha.trimStart_eq]

theorem FirstWord.ne_nil (h : FirstWord a w) : a ≠ [] := by
  obtain ⟨hw, bs, rest, rfl, -, -⟩ := h
  simp [hw.ne_nil]

end Text

open Text

/-! ## The parts of a line -/

namespace Line

/-- A line is made of two words and a trimmed text, with blanks between them, before and behind. -/
inductive Parts : List Char → List Char → List Char → List Char → Prop
  | mk {b₀ c b₁ i b₂ a b₃ : List Char} (h₀ : Blanks b₀) (hc : IsWord c) (h₁ : Blanks b₁)
    (hne₁ : b₁ ≠ []) (hi : IsWord i) (h₂ : Blanks b₂) (hne₂ : a ≠ [] → b₂ ≠ []) (ha : IsTrimmed a)
    (h₃ : Blanks b₃) : Parts (b₀ ++ c ++ (b₁ ++ i ++ (b₂ ++ a ++ b₃))) c i a

variable {line c i a rest : List Char} {code id : Int32}

theorem cut_append {bs : List Char} (hbs : Blanks bs) (hne : bs ≠ []) (cs : List Char) :
    Cut (bs ++ cs) := by
  obtain ⟨b, bs, rfl⟩ := List.exists_cons_of_ne_nil hne
  intro d hd
  cases hd
  exact hbs b (.head _)

theorem parts_iff : Parts line c i a ↔
    ∃ rest rest', token? line = some (c, rest) ∧ token? rest = some (i, rest') ∧
      trim rest' = a := by
  constructor
  · rintro @⟨b₀, _, b₁, _, b₂, _, b₃, h₀, hc, h₁, hne₁, hi, h₂, hne₂, ha, h₃⟩
    have hcut : Cut (b₂ ++ a ++ b₃) := by
      by_cases hnil : a = []
      · subst hnil
        intro d hd
        rw [List.append_nil] at hd
        exact (h₂.append h₃) d (List.mem_of_head? hd)
      · rw [List.append_assoc]
        exact cut_append h₂ (hne₂ hnil) _
    refine ⟨_, _, token?_eq_some_iff.2 ⟨hc, ?_, b₀, rfl, h₀⟩,
      token?_eq_some_iff.2 ⟨hi, hcut, b₁, rfl, h₁⟩, trim_eq_iff.2 ⟨ha, b₂, b₃, rfl, h₂, h₃⟩⟩
    rw [List.append_assoc]
    exact cut_append h₁ hne₁ _
  · rintro ⟨rest, rest', htc, hti, hta⟩
    obtain ⟨hc, hrest, b₀, rfl, h₀⟩ := token?_eq_some_iff.1 htc
    obtain ⟨hi, hrest', b₁, rfl, h₁⟩ := token?_eq_some_iff.1 hti
    obtain ⟨ha, b₂, b₃, rfl, h₂, h₃⟩ := trim_eq_iff.1 hta
    refine .mk h₀ hc h₁ ?_ hi h₂ ?_ ha h₃
    · rintro rfl
      exact hi.isTrimmed.not_cut hi.ne_nil _ hrest
    · rintro hne rfl
      exact ha.not_cut hne _ hrest'

/-- A line has parts in one way only. -/
theorem Parts.unique {c' i' a' : List Char} (h : Parts line c i a) (h' : Parts line c' i' a') :
    c = c' ∧ i = i' ∧ a = a' := by
  obtain ⟨rest, rest', hc, hi, rfl⟩ := parts_iff.1 h
  obtain ⟨_, _, hc', hi', rfl⟩ := parts_iff.1 h'
  rw [hc] at hc'
  cases hc'
  rw [hi] at hi'
  cases hi'
  exact ⟨rfl, rfl, rfl⟩

theorem Parts.isTrimmed (h : Parts line c i a) : IsTrimmed a := by
  obtain ⟨-, -, -, -, -, -, -, ha, -⟩ := h
  exact ha

/-- A line that begins with two numerals is read as the numbers that they stand for. -/
theorem numbers?_of_parts (h : Parts line c i a) (hc : Numeral.Spells c code.toInt)
    (hi : Numeral.Spells i id.toInt) :
    ∃ rest, numbers? line = some (code, id, rest) ∧ trim rest = a := by
  obtain ⟨rest, rest', htc, hti, ha⟩ := parts_iff.1 h
  refine ⟨rest', ?_, ha⟩
  simp only [numbers?, htc, hti, Numeral.readInt32?_eq_some_iff.2 hc,
    Numeral.readInt32?_eq_some_iff.2 hi, Option.bind_eq_bind, Option.bind_some, Option.pure_def]

theorem exists_parts_of_numbers? (h : numbers? line = some (code, id, rest)) :
    ∃ c i, Parts line c i (trim rest) ∧ Numeral.Spells c code.toInt ∧
      Numeral.Spells i id.toInt := by
  simp only [numbers?, Option.bind_eq_bind, Option.bind_eq_some_iff, Option.pure_def,
    Option.some.injEq, Prod.mk.injEq] at h
  obtain ⟨⟨c, r⟩, hc, ⟨i, r'⟩, hi, code', hcode, id', hid, rfl, rfl, rfl⟩ := h
  exact ⟨c, i, parts_iff.2 ⟨r, r', hc, hi, rfl⟩, Numeral.readInt32?_eq_some_iff.1 hcode,
    Numeral.readInt32?_eq_some_iff.1 hid⟩

end Line

/-! ## Bindings -/

namespace Order

/-- Two numerals with a colon between them, and blanks around each of the two. -/
inductive Pair : List Char → Port → BlockId → Prop
  | mk {b₀ p b₁ b₂ d b₃ : List Char} {port : Port} {dest : BlockId} (h₀ : Blanks b₀)
    (hp : Numeral.Spells p port.toInt) (h₁ : Blanks b₁) (h₂ : Blanks b₂)
    (hd : Numeral.Spells d dest.value.toInt) (h₃ : Blanks b₃) :
    Pair (b₀ ++ p ++ b₁ ++ ':' :: (b₂ ++ d ++ b₃)) port dest

variable {a : List Char} {port : Port} {dest : BlockId}

theorem Pair.ne_nil (h : Pair a port dest) : a ≠ [] := by
  cases h
  simp

theorem bindArgument?_eq_some_iff : bindArgument? a = some (port, dest) ↔ Pair a port dest := by
  constructor
  · intro h
    simp only [bindArgument?, Option.bind_eq_bind, Option.bind_eq_some_iff, Option.pure_def,
      Option.some.injEq, Prod.mk.injEq] at h
    obtain ⟨⟨x, y⟩, hcut, port', hport, n, hn, rfl, rfl⟩ := h
    obtain ⟨-, e₀, e₁, ha, he₀, he₁⟩ := trim_eq_iff.1 (eq_append_of_cutAt? hcut)
    obtain ⟨-, b₀, b₁, hx, h₀, h₁⟩ := trim_eq_iff.1 (rfl : trim x = trim x)
    obtain ⟨-, b₂, b₃, hy, h₂, h₃⟩ := trim_eq_iff.1 (rfl : trim y = trim y)
    have hpair : Pair (e₀ ++ b₀ ++ trim x ++ b₁ ++ ':' :: (b₂ ++ trim y ++ (b₃ ++ e₁))) port' ⟨n⟩ :=
      .mk (he₀.append h₀) (Numeral.readInt32?_eq_some_iff.1 hport) h₁ h₂
        (Numeral.readInt32?_eq_some_iff.1 hn) (h₃.append he₁)
    have heq : e₀ ++ b₀ ++ trim x ++ b₁ ++ ':' :: (b₂ ++ trim y ++ (b₃ ++ e₁)) = a := by
      rw [ha]
      conv_rhs => rw [hx, hy]
      simp only [List.append_assoc, List.cons_append]
    rwa [heq] at hpair
  · rintro @⟨b₀, p, b₁, b₂, d, b₃, _, _, h₀, hp, h₁, h₂, hd, h₃⟩
    have hshape : p ++ (b₁ ++ ':' :: b₂) ++ d = p ++ b₁ ++ ':' :: (b₂ ++ d) := by
      simp only [List.append_assoc, List.cons_append]
    have htrim : trim (b₀ ++ p ++ b₁ ++ ':' :: (b₂ ++ d ++ b₃)) = p ++ b₁ ++ ':' :: (b₂ ++ d) := by
      refine trim_eq_iff.2 ⟨?_, b₀, b₃, ?_, h₀, h₃⟩
      · exact hshape ▸ hp.isWord.isTrimmed_append (b₁ ++ ':' :: b₂) hd.isWord
      · simp only [List.append_assoc, List.cons_append]
    have hcolon : ':' ∉ p ++ b₁ := fun hmem => by
      rcases List.mem_append.1 hmem with hmem | hmem
      · exact hp.colon_not_mem hmem
      · exact absurd (h₁ ':' hmem) (by decide)
    have hport : trim (p ++ b₁) = p :=
      trim_eq_iff.2 ⟨hp.isWord.isTrimmed, [], b₁, rfl, blanks_nil, h₁⟩
    have hdest : trim (b₂ ++ d) = d :=
      trim_eq_iff.2 ⟨hd.isWord.isTrimmed, b₂, [], by rw [List.append_nil], h₂, blanks_nil⟩
    rw [bindArgument?, htrim, cutAt?_append hcolon]
    simp only [Option.bind_eq_bind, Option.bind_some, hport, hdest,
      Numeral.readInt32?_eq_some_iff.2 hp, Numeral.readInt32?_eq_some_iff.2 hd, Option.pure_def]

/-- The numerals of a binding may have signs, leading zeros and blanks of any kind around them. -/
example : bindArgument? "+05 :\u3000-1".toList = some (5, ⟨-1⟩) := by decide

end Order

end BlockFlow
