import BlockFlow.Json.Decode
import BlockFlow.Json.Printer

/-!
# Reading back what is written as JSON

What is written as JSON is read as the value that it was written for. This is put together from one
lemma for each reader, so that it goes for values as well as for records whose fields are read on
their own.

1. `Reads`: a reader reads a text as something, whatever follows it.
2. `run_string`, `run_numeral_ofInt`: strings and integers.
3. `run_items`, `Folds.run_members`: arrays and objects over any readers of their parts.
4. `Plain`, `Plain.reads`: values without binary64 numbers.
-/

namespace BlockFlow.Json

open Text.Utf8 (Piece ofText)
open Text (Numeral.ofNat Numeral.ofInt)

variable {α β σ : Type} {ps qs rest : List Piece} {cs : List Char}

/-! ## Readers -/

theorem run_bind_of_ok {r : Reader α} {f : α → Reader β} {a : α} (h : r.run ps = .ok (a, qs)) :
    (r >>= f).run ps = (f a).run qs := by
  rw [StateT.run_bind, h]
  rfl

theorem run_map_of_ok {r : Reader α} {f : α → β} {a : α} (h : r.run ps = .ok (a, qs)) :
    (f <$> r).run ps = .ok (f a, qs) := by
  rw [StateT.run_map, h]
  rfl

/-- What may follow a value: nothing, a comma or the end of an array or object. -/
def Follows (rest : List Piece) : Prop :=
  ∀ p, rest.head? = some p → p = .char ',' ∨ p = .char ']' ∨ p = .char '\x7d'

/-- A reader reads a text as something, whatever follows. -/
def Reads (r : Reader α) (cs : List Char) (a : α) : Prop :=
  ∀ rest, Follows rest → r.run (ofText cs ++ rest) = .ok (a, rest)

/-- A text that is read whatever follows is read to its end. -/
theorem Reads.readPieces {reader : Nat → Reader α} {a : α}
    (h : Reads (reader (cs.length + 1)) cs a) : readPieces reader (ofText cs) = .ok a := by
  have hlength : (ofText cs).length = cs.length := List.length_map _
  have hrun := h [] fun p hp => by cases hp
  rw [List.append_nil] at hrun
  unfold Json.readPieces
  rw [hlength, hrun]
  rfl

theorem run_peek {c : Char} (h : isSpace c = false) :
    peek.run (.char c :: ps) = .ok (some c, .char c :: ps) := by
  have hafter : afterSpaces (.char c :: ps) = .char c :: ps := by
    simp [afterSpaces, Piece.shown, h]
  show Except.ok (((afterSpaces (.char c :: ps)).head?.map Piece.shown), afterSpaces _) = _
  rw [hafter]
  rfl

theorem run_skip {p : Piece} : skip.run (p :: ps) = .ok ((), ps) := rfl

theorem run_next {c : Char} : next.run (.char c :: ps) = .ok (c, ps) := rfl

theorem run_colon : colon.run (.char ':' :: ps) = .ok ((), ps) := by
  unfold colon
  rw [run_bind_of_ok (run_peek rfl)]
  rfl

/-! ## Strings -/

theorem value?_digit {n : Nat} (h : n < 16) : Text.Hex.value? (Text.Hex.digit n) = some n := by
  have hall : ∀ n < 16, Text.Hex.value? (Text.Hex.digit n) = some n := by decide
  exact hall n h

/-- How a character is written in a string: by an escape of one letter, by its number, or as it
is. -/
theorem escapeChar_cases (c : Char) :
    (∃ d, escaped? d = some c ∧ escapeChar c = ['\\', d]) ∨
    (c.toNat < 0x20 ∧ escapeChar c =
      ['\\', 'u', '0', '0', Text.Hex.digit (c.toNat / 16), Text.Hex.digit (c.toNat % 16)]) ∨
    (c ≠ '"' ∧ c ≠ '\\' ∧ ¬ c.toNat < 0x20 ∧ escapeChar c = [c]) := by
  unfold escapeChar
  iterate 7
    split
    · next h => exact .inl ⟨_, by rw [h]; rfl, rfl⟩
  split
  · next hlow => exact .inr (.inl ⟨hlow, rfl⟩)
  · next hquote hslash _ _ _ _ _ hlow => exact .inr (.inr ⟨hquote, hslash, hlow, rfl⟩)

theorem stringChars_escaped {c d : Char} (h : escaped? d = some c) (ps : List Piece) :
    stringChars (.char '\\' :: .char d :: ps) = before c (stringChars ps) := by
  have hu : d ≠ 'u' := by
    rintro rfl
    cases h
  simp [stringChars, hu, Piece.shown, h]

/-- A control is read by its number. -/
theorem stringChars_control {c : Char} (h : c.toNat < 0x20) (ps : List Piece) :
    stringChars (.char '\\' :: .char 'u' :: .char '0' :: .char '0' ::
      .char (Text.Hex.digit (c.toNat / 16)) :: .char (Text.Hex.digit (c.toNat % 16)) :: ps) =
      before c (stringChars ps) := by
  have hvalue : hexValue? (.char '0') (.char '0') (.char (Text.Hex.digit (c.toNat / 16)))
      (.char (Text.Hex.digit (c.toNat % 16))) = some c.toNat := by
    have hzero : Text.Hex.value? '0' = some 0 := rfl
    have hupper := value?_digit (n := c.toNat / 16) (by omega)
    have hlower := value?_digit (n := c.toNat % 16) (by omega)
    simp only [hexValue?, Piece.shown, Text.Hex.four?, hzero, hupper, hlower,
      Option.bind_eq_bind, Option.bind_some, Option.pure_def]
    congr 1
    omega
  have hhigh : isHighSurrogate c.toNat = false := by
    simp [isHighSurrogate]
    omega
  have hlow : isLowSurrogate c.toNat = false := by
    simp [isLowSurrogate]
    omega
  simp [stringChars, hvalue, hhigh, hlow]

theorem stringChars_plain {c : Char} (hquote : c ≠ '"') (hslash : c ≠ '\\')
    (hlow : ¬ c.toNat < 0x20) (ps : List Piece) :
    stringChars (.char c :: ps) = before c (stringChars ps) := by
  simp only [stringChars, hslash, hlow, if_false, false_implies, implies_true]

/-- A written character is read as itself. -/
theorem stringChars_escapeChar (c : Char) (ps : List Piece) :
    stringChars (ofText (escapeChar c) ++ ps) = before c (stringChars ps) := by
  rcases escapeChar_cases c with ⟨d, hd, h⟩ | ⟨hlow, h⟩ | ⟨hquote, hslash, hlow, h⟩
  · rw [h]
    exact stringChars_escaped hd ps
  · rw [h]
    exact stringChars_control hlow ps
  · rw [h]
    exact stringChars_plain hquote hslash hlow ps

/-- What is written of a string after its opening quote. -/
theorem stringChars_flatMap (cs : List Char) (ps : List Piece) :
    stringChars (ofText (cs.flatMap escapeChar) ++ .char '"' :: ps) = .ok (cs, ps) := by
  induction cs with
  | nil => simp [ofText, stringChars]
  | cons c cs ih =>
    have hsplit : ofText ((c :: cs).flatMap escapeChar) =
        ofText (escapeChar c) ++ ofText (cs.flatMap escapeChar) := by
      simp [ofText, List.flatMap_cons]
    rw [hsplit, List.append_assoc, stringChars_escapeChar, ih]
    rfl

theorem run_string (s : String) (ps : List Piece) :
    string.run (ofText (s.toList.flatMap escapeChar) ++ .char '"' :: ps) = .ok (s, ps) := by
  have hchars := stringChars_flatMap s.toList ps
  simp only [string, StateT.run, hchars, String.ofList_toList]

/-- The pieces of a written string are its opening quote and what `string` reads. -/
theorem ofText_renderText (cs : List Char) (ps : List Piece) :
    ofText (renderText cs) ++ ps =
      .char '"' :: (ofText (cs.flatMap escapeChar) ++ .char '"' :: ps) := by
  simp [renderText, ofText]

theorem reads_text (s : String) : Reads Reader.text (renderText s.toList) s := by
  intro rest _
  rw [ofText_renderText]
  unfold Reader.text
  rw [run_bind_of_ok (run_peek rfl)]
  show (do skip; string : Reader String).run _ = _
  rw [run_bind_of_ok run_skip, run_string]

/-! ## Integers -/

theorem addDigits_eq {ds : List Char} {n : Nat} (h : Nat.ofDigitChars 10 ds n ≤ maxSignificand) :
    addDigits n ds = (Nat.ofDigitChars 10 ds n, ds.length, 0) := by
  induction ds generalizing n with
  | nil => rfl
  | cons d ds ih =>
    have hwider : n * 10 + digitValue d = 10 * n + (d.toNat - '0'.toNat) := by
      rw [digitValue, Nat.mul_comm]
    have hle : ∀ (ds : List Char) (m : Nat), m ≤ Nat.ofDigitChars 10 ds m := by
      intro ds
      induction ds with
      | nil => exact fun m => Nat.le_refl m
      | cons e es ih =>
        intro m
        rw [Nat.ofDigitChars_cons]
        exact Nat.le_trans (by omega) (ih _)
    rw [Nat.ofDigitChars_cons, ← hwider] at h ⊢
    rw [addDigits, if_pos (Nat.le_trans (hle ds _) h), ih h]
    rfl

/-- A positive number is written without a leading zero. -/
theorem head_ofNat_ne_zero {n : Nat} (h : 0 < n) : (Numeral.ofNat n).head? ≠ some '0' := by
  induction n using Nat.strongRecOn with
  | ind n ih =>
    unfold Numeral.ofNat
    by_cases hlt : n < 10
    · have hall : ∀ n < 10, 0 < n → n.digitChar ≠ '0' := by decide
      rw [Nat.toDigits_of_lt_base hlt]
      simpa using hall n hlt h
    · have hhead := ih (n / 10) (by omega) (by omega)
      obtain ⟨d, ds, hdigits⟩ := List.exists_cons_of_ne_nil
        (Nat.toDigits_ne_nil (n := n / 10) (b := 10))
      rw [Numeral.ofNat, hdigits] at hhead
      rw [Nat.toDigits_of_base_le (by decide) (by omega), hdigits]
      exact hhead

/-- A decimal numeral begins with a digit, which is a zero only if it is the only one. -/
theorem exists_ofNat_eq_cons (n : Nat) :
    ∃ d ds, Numeral.ofNat n = d :: ds ∧ (∀ c ∈ d :: ds, c.isDigit) ∧ (d = '0' → ds = []) := by
  obtain ⟨d, ds, h⟩ := List.exists_cons_of_ne_nil (Nat.toDigits_ne_nil (n := n) (b := 10))
  refine ⟨d, ds, h, fun c hc => ?_, fun hzero => ?_⟩
  · rw [← h] at hc
    exact Nat.isDigit_of_mem_toDigits (by decide) (by decide) hc
  · rcases Nat.eq_zero_or_pos n with rfl | hpos
    · cases h
      rfl
    · refine absurd ?_ (head_ofNat_ne_zero hpos)
      rw [Numeral.ofNat, h, hzero]
      rfl

/-- Digits are taken up to the end of the number. -/
theorem run_takeDigits {ds : List Char} (hds : ∀ c ∈ ds, c.isDigit) (hrest : Follows rest) :
    takeDigits.run (ofText ds ++ rest) = .ok (ds, rest) := by
  have hpos : ∀ p ∈ ofText ds, p.shown.isDigit := fun p hp => by
    obtain ⟨c, hc, rfl⟩ := List.mem_map.1 hp
    exact hds c hc
  have hstop : rest.takeWhile (·.shown.isDigit) = [] ∧ rest.dropWhile (·.shown.isDigit) = rest := by
    cases rest with
    | nil => exact ⟨rfl, rfl⟩
    | cons p ps => rcases hrest p rfl with rfl | rfl | rfl <;> exact ⟨rfl, rfl⟩
  show Except.ok ((List.takeWhile _ _).map Piece.shown, List.dropWhile _ _) = _
  rw [List.takeWhile_append_of_pos hpos, List.dropWhile_append_of_pos hpos, hstop.1, hstop.2,
    List.append_nil]
  simp [ofText, Piece.shown, Function.comp_def]

/-- Neither a decimal point nor an exponent follows. -/
theorem run_peekHere_of_follows (hrest : Follows rest) :
    ∃ c, peekHere.run rest = .ok (c, rest) ∧ c ≠ some '.' ∧ c ≠ some 'e' ∧ c ≠ some 'E' := by
  refine ⟨_, rfl, ?_⟩
  cases rest with
  | nil => simp
  | cons p ps => rcases hrest p rfl with rfl | rfl | rfl <;> simp [Piece.shown]

theorem run_numeral_ofNat {n : Nat} (hn : n ≤ maxSignificand) (negative : Bool)
    (hrest : Follows rest) :
    (numeral negative).run (ofText (Numeral.ofNat n) ++ rest) = (integer negative n).run rest := by
  obtain ⟨d, ds, hds, hdigit, hzero⟩ := exists_ofNat_eq_cons n
  have hvalue : Nat.ofDigitChars 10 ds (digitValue d) = n := by
    have h := Nat.ofDigitChars_ten_toDigits (n := n)
    rw [show Nat.toDigits 10 n = d :: ds from hds, Nat.ofDigitChars_cons, Nat.mul_zero,
      Nat.zero_add] at h
    exact h
  have hadd : addDigits (digitValue d) ds = (n, ds.length, 0) := by
    rw [addDigits_eq (by rw [hvalue]; exact hn), hvalue]
  have hfirst : (d = '0' && !ds.isEmpty) = false := by
    by_cases h : d = '0'
    · simp [hzero h]
    · simp [h]
  obtain ⟨c, hpeek, hpoint, he, hE⟩ := run_peekHere_of_follows hrest
  rw [hds]
  show (numeral negative).run (.char d :: (ofText ds ++ rest)) = _
  unfold numeral
  rw [run_bind_of_ok run_next]
  simp only [hdigit d (.head _), Bool.not_true, Bool.false_eq_true, if_false]
  rw [run_bind_of_ok (run_takeDigits (fun c hc => hdigit c (.tail _ hc)) hrest)]
  simp only [hfirst, Bool.false_eq_true, if_false, hadd, if_true]
  rw [run_bind_of_ok hpeek]
  split <;> simp_all

/-- An integer of 64 bits, signed or not. -/
def IsExact (n : Int) : Prop := -9223372036854775808 ≤ n ∧ n < 18446744073709551616

theorem isExact_toInt (n : Int32) : IsExact n.toInt := by
  have hlow := n.minValue_le_toInt
  have hhigh := n.toInt_lt
  constructor
  · exact Int.le_trans (by decide) hlow
  · exact Int.lt_trans hhigh (by decide)

/-- How a written integer is read: with its sign, or by its digits alone. -/
theorem run_numeral_ofInt {n : Int} (hn : IsExact n) (hrest : Follows rest) :
    (∃ d ds, Numeral.ofInt n = d :: ds ∧ d.isDigit ∧
      (numeral false).run (ofText (d :: ds) ++ rest) = .ok (.integer n, rest)) ∨
    ∃ ds, Numeral.ofInt n = '-' :: ds ∧
      (numeral true).run (ofText ds ++ rest) = .ok (.integer n, rest) := by
  obtain ⟨hlow, hhigh⟩ := hn
  have hmax : maxSignificand = 18446744073709551615 := rfl
  cases n with
  | ofNat m =>
    obtain ⟨d, ds, hds, hdigit, -⟩ := exists_ofNat_eq_cons m
    refine .inl ⟨d, ds, hds, hdigit d (.head _), ?_⟩
    rw [← hds, run_numeral_ofNat (by simp at hhigh; omega) false hrest]
    rfl
  | negSucc m =>
    refine .inr ⟨Numeral.ofNat (m + 1), rfl, ?_⟩
    have hle : m + 1 ≤ UInt64.size / 2 := by
      simp only [UInt64.size]
      omega
    rw [run_numeral_ofNat (by omega) true hrest]
    simp [integer, hle, Int.negSucc_eq]
    rfl

/-! ## Arrays and objects -/

/-- A text that begins as a part of an array or object does. -/
def Opens (cs : List Char) : Prop :=
  ∃ c t, cs = c :: t ∧ isSpace c = false ∧ c ≠ ',' ∧ c ≠ ']' ∧ c ≠ '\x7d'

theorem opens_renderText (cs : List Char) : Opens (renderText cs) :=
  ⟨'"', _, rfl, by decide, by decide, by decide, by decide⟩

/-- Parts with a comma before each, but for the first one of all, and the end. -/
def partsText (close : Char) : (first : Bool) → List (List Char) → List Char
  | _, [] => [close]
  | true, t :: ts => t ++ partsText close false ts
  | false, t :: ts => ',' :: (t ++ partsText close false ts)

/-- The comma before a part that is not the first one. -/
def lead (first : Bool) : List Piece := if first then [] else [.char ',']

theorem ofText_append (as bs : List Char) (ps : List Piece) :
    ofText (as ++ bs) ++ ps = ofText as ++ (ofText bs ++ ps) := by
  simp [ofText]

theorem ofText_partsText_cons (close : Char) (first : Bool) (t : List Char)
    (ts : List (List Char)) (ps : List Piece) :
    ofText (partsText close first (t :: ts)) ++ ps =
      lead first ++ (ofText t ++ (ofText (partsText close false ts) ++ ps)) := by
  cases first <;> simp [partsText, lead, ofText]

/-- There are no more parts than characters. -/
theorem length_partsText (close : Char) (first : Bool) (ts : List (List Char)) :
    ts.length + (lead first).length ≤ (partsText close first ts).length := by
  induction ts generalizing first with
  | nil => cases first <;> simp [partsText, lead]
  | cons t ts ih =>
    have h := ih false
    cases first <;> simp [partsText, lead] at h ⊢ <;> omega

theorem length_le_partsText (close : Char) (first : Bool) {t : List Char} {ts : List (List Char)}
    (h : t ∈ ts) : t.length ≤ (partsText close first ts).length := by
  induction ts generalizing first with
  | nil => cases h
  | cons u ts ih =>
    have hcons : u.length + (partsText close false ts).length ≤
        (partsText close first (u :: ts)).length := by
      cases first
      all_goals
        simp only [partsText, List.length_cons, List.length_append]
        omega
    rcases List.mem_cons.1 h with rfl | h
    · omega
    · have hle := ih false h
      omega

/-- The end of an array or object. -/
def IsClose (close : Char) : Prop := close = ']' ∨ close = '\x7d'

section Parts

variable {close : Char} {t : List Char}

theorem IsClose.isSpace (h : IsClose close) : isSpace close = false := by
  rcases h with rfl | rfl <;> rfl

theorem IsClose.ne_comma (h : IsClose close) : ',' ≠ close := by
  rcases h with rfl | rfl <;> decide

theorem follows_partsText (hclose : IsClose close) (ts : List (List Char)) (ps : List Piece) :
    Follows (ofText (partsText close false ts) ++ ps) := by
  intro p hp
  cases ts with
  | nil =>
    cases hp
    rcases hclose with rfl | rfl <;> simp
  | cons t ts =>
    cases hp
    exact .inl rfl

/-- The end follows. -/
theorem run_another_of_close (hclose : IsClose close) (first : Bool) (ps : List Piece) :
    (another close first).run (.char close :: ps) = .ok (false, .char close :: ps) := by
  unfold another
  rw [run_bind_of_ok (run_peek hclose.isSpace)]
  simp only [if_true]
  rfl

/-- Another part follows, after a comma unless it is the first one. -/
theorem run_another (hclose : IsClose close) (h : Opens t) (first : Bool) (ps : List Piece) :
    (another close first).run (lead first ++ (ofText t ++ ps)) = .ok (true, ofText t ++ ps) := by
  obtain ⟨c, u, rfl, hspace, -, hbracket, hbrace⟩ := h
  have hne : c ≠ close := by
    rcases hclose with rfl | rfl
    · exact hbracket
    · exact hbrace
  have hpeek : peek.run (ofText (c :: u) ++ ps) = .ok (some c, ofText (c :: u) ++ ps) :=
    run_peek hspace
  unfold another
  cases first with
  | true =>
    show (peek >>= _ : Reader Bool).run (ofText (c :: u) ++ ps) = _
    rw [run_bind_of_ok hpeek]
    simp only [if_neg hne, if_true]
    rfl
  | false =>
    show (peek >>= _ : Reader Bool).run (.char ',' :: (ofText (c :: u) ++ ps)) = _
    rw [run_bind_of_ok (run_peek rfl)]
    simp only [if_neg hclose.ne_comma, Bool.false_eq_true, if_false, if_true]
    rw [run_bind_of_ok run_skip, run_bind_of_ok hpeek]
    simp only [if_neg hne]
    rfl

theorem run_closing (hclose : IsClose close) (ps : List Piece) :
    (closing close).run (.char close :: ps) = .ok ((), ps) := by
  unfold closing
  rw [run_bind_of_ok (run_peek hclose.isSpace)]
  simp only [if_true]
  rfl

end Parts

section Items

variable {item : Reader α} {spell : α → List Char} {xs : List α} {n : Nat}

theorem run_itemsFrom (h : ∀ x ∈ xs, Opens (spell x) ∧ Reads item (spell x) x)
    (hn : xs.length < n) (first : Bool) (ps : List Piece) :
    (itemsFrom item n first).run (ofText (partsText ']' first (xs.map spell)) ++ ps) =
      .ok (xs, .char ']' :: ps) := by
  induction xs generalizing n first with
  | nil =>
    obtain ⟨n, rfl⟩ : ∃ m, n = m + 1 := ⟨n - 1, by simp at hn; omega⟩
    unfold itemsFrom
    show (another ']' first >>= _ : Reader (List α)).run (.char ']' :: ps) = _
    rw [run_bind_of_ok (run_another_of_close (.inl rfl) first ps)]
    rfl
  | cons x xs ih =>
    obtain ⟨n, rfl⟩ : ∃ m, n = m + 1 := ⟨n - 1, by simp at hn; omega⟩
    obtain ⟨hopens, hreads⟩ := h x (.head _)
    have hrest := ih (n := n) (fun y hy => h y (.tail _ hy)) (by simpa using hn) false
    unfold itemsFrom
    rw [List.map_cons, ofText_partsText_cons,
      run_bind_of_ok (run_another (.inl rfl) hopens first _)]
    simp only [if_true]
    rw [run_bind_of_ok (hreads _ (follows_partsText (.inl rfl) _ ps)), run_bind_of_ok hrest]
    rfl

/-- The items of an array are read, and its end. -/
theorem run_items (h : ∀ x ∈ xs, Opens (spell x) ∧ Reads item (spell x) x) (hn : xs.length < n)
    (ps : List Piece) :
    (items n item).run (ofText (partsText ']' true (xs.map spell)) ++ ps) = .ok (xs, ps) := by
  unfold items
  rw [run_bind_of_ok (run_itemsFrom h hn true ps), run_bind_of_ok (run_closing (.inl rfl) ps)]
  rfl

end Items

/-- The text of a member: its name, and a text after the colon. -/
def memberText (m : String × List Char) : List Char := renderText m.1.toList ++ ':' :: m.2

theorem opens_memberText (m : String × List Char) : Opens (memberText m) :=
  ⟨'"', _, rfl, by decide, by decide, by decide, by decide⟩

/-- A reader of members goes over members, from what it has read before to what it has read in the
end. -/
inductive Folds (member : σ → String → Reader σ) : σ → List (String × List Char) → σ → Prop
  | nil {s : σ} : Folds member s [] s
  | cons {s t u : σ} {name : String} {cs : List Char} {ms : List (String × List Char)}
    (h : Reads (member s name) (':' :: cs) t) (hrest : Folds member t ms u) :
    Folds member s ((name, cs) :: ms) u

section Members

variable {member : σ → String → Reader σ} {s t u : σ} {ms ms' : List (String × List Char)} {n : Nat}

theorem Folds.append (h : Folds member s ms t) (h' : Folds member t ms' u) :
    Folds member s (ms ++ ms') u := by
  induction h with
  | nil => exact h'
  | cons hreads _ ih => exact .cons hreads (ih h')

theorem run_memberName (m : String × List Char) (first : Bool) (ps : List Piece) :
    (memberName? first).run (lead first ++ (ofText (memberText m) ++ ps)) =
      .ok (some m.1, ofText (':' :: m.2) ++ ps) := by
  unfold memberName?
  rw [run_bind_of_ok (run_another (.inr rfl) (opens_memberText m) first ps)]
  simp only [if_true]
  rw [memberText, ofText_append, ofText_renderText, run_bind_of_ok run_next]
  simp only [if_true]
  exact run_map_of_ok (run_string m.1 _)

/-- Members are read, each with the comma before it. -/
theorem Folds.run_membersFrom (h : Folds member s ms t) (hn : ms.length < n) (first : Bool)
    (ps : List Piece) :
    (membersFrom member n first s).run
      (ofText (partsText '\x7d' first (ms.map memberText)) ++ ps) =
      .ok (t, .char '\x7d' :: ps) := by
  induction h generalizing n first with
  | nil =>
    obtain ⟨n, rfl⟩ : ∃ m, n = m + 1 := ⟨n - 1, by simp at hn; omega⟩
    have hname : (memberName? first).run (.char '\x7d' :: ps) = .ok (none, .char '\x7d' :: ps) := by
      unfold memberName?
      rw [run_bind_of_ok (run_another_of_close (.inr rfl) first ps)]
      rfl
    unfold membersFrom
    show (memberName? first >>= _ : Reader σ).run (.char '\x7d' :: ps) = _
    rw [run_bind_of_ok hname]
    rfl
  | @cons s _ _ name cs ms h _ ih =>
    obtain ⟨n, rfl⟩ : ∃ m, n = m + 1 := ⟨n - 1, by simp at hn; omega⟩
    have hrest := ih (n := n) (by simpa using hn) false
    unfold membersFrom
    rw [List.map_cons, ofText_partsText_cons, run_bind_of_ok (run_memberName _ first _)]
    show (member s name >>= fun s => membersFrom member n false s).run _ = _
    rw [run_bind_of_ok (h _ (follows_partsText (.inr rfl) _ ps)), hrest]

/-- The members of an object are read, and its end. -/
theorem Folds.run_members (h : Folds member s ms t) (hn : ms.length < n) (ps : List Piece) :
    (members n member s).run (ofText (partsText '\x7d' true (ms.map memberText)) ++ ps) =
      .ok (t, ps) := by
  unfold members
  rw [run_bind_of_ok (h.run_membersFrom hn true ps), run_bind_of_ok (run_closing (.inr rfl) ps)]
  rfl

end Members

/-! ## Values -/

theorem partsText_items (xs : List Json) :
    renderItems xs = partsText ']' false (xs.map render) := by
  induction xs with
  | nil => rfl
  | cons x xs ih => rw [renderItems, ih]; rfl

theorem partsText_members (ms : List (String × Json)) :
    renderMembers ms =
      partsText '\x7d' false ((ms.map fun m => (m.1, render m.2)).map memberText) := by
  induction ms with
  | nil => rfl
  | cons m ms ih =>
    rw [renderMembers, ih]
    simp [partsText, memberText]

theorem render_array (xs : List Json) :
    render (.array xs) = '[' :: partsText ']' true (xs.map render) := by
  cases xs with
  | nil => rfl
  | cons x xs => rw [render, partsText_items]; rfl

theorem render_object (ms : List (String × Json)) :
    render (.object ms) =
      '\x7b' :: partsText '\x7d' true ((ms.map fun m => (m.1, render m.2)).map memberText) := by
  cases ms with
  | nil => rfl
  | cons m ms =>
    rw [render, partsText_members]
    simp [partsText, memberText]

/-- An array has fewer items than characters, and each item has no more. -/
theorem length_render_array (xs : List Json) :
    xs.length < (render (.array xs)).length ∧
      ∀ x ∈ xs, (render x).length ≤ (render (.array xs)).length := by
  have hcount := length_partsText ']' true (xs.map render)
  rw [List.length_map] at hcount
  rw [render_array, List.length_cons]
  refine ⟨by omega, fun x hx => ?_⟩
  have hle := length_le_partsText ']' true
    (List.mem_map_of_mem (f := render) hx)
  omega

/-- An object has fewer members than characters, and each value has no more. -/
theorem length_render_object (ms : List (String × Json)) :
    ms.length < (render (.object ms)).length ∧
      ∀ m ∈ ms, (render m.2).length ≤ (render (.object ms)).length := by
  have hcount := length_partsText '\x7d' true
    ((ms.map fun m => (m.1, render m.2)).map memberText)
  rw [List.length_map, List.length_map] at hcount
  rw [render_object, List.length_cons]
  refine ⟨by omega, fun m hm => ?_⟩
  have hmem : memberText (m.1, render m.2) ∈
      (ms.map fun m => (m.1, render m.2)).map memberText :=
    List.mem_map_of_mem (List.mem_map_of_mem (f := fun m => (m.1, render m.2)) hm)
  have hle := length_le_partsText '\x7d' true hmem
  have hvalue : (render m.2).length ≤ (memberText (m.1, render m.2)).length := by
    simp [memberText]
    omega
  omega

/-- Values without binary64 numbers, with at most so many nested arrays and objects. -/
inductive Plain : (depth : Nat) → Json → Prop
  | null {depth : Nat} : Plain depth .null
  | bool {depth : Nat} (b : Bool) : Plain depth (.bool b)
  | integer {depth : Nat} {n : Int} (h : IsExact n) : Plain depth (.ofInt n)
  | text {depth : Nat} (s : String) : Plain depth (.text s)
  | array {depth : Nat} {xs : List Json} (h : ∀ x ∈ xs, Plain depth x) :
    Plain (depth + 1) (.array xs)
  | object {depth : Nat} {ms : List (String × Json)} (h : ∀ m ∈ ms, Plain depth m.2) :
    Plain (depth + 1) (.object ms)

/-- A digit is no character of the frame of a text. -/
theorem isDigit_ne {c : Char} (h : c.isDigit) :
    isSpace c = false ∧ c ≠ ',' ∧ c ≠ ']' ∧ c ≠ '\x7d' := by
  have hne : ∀ d : Char, d.isDigit = false → c ≠ d := by
    rintro d hd rfl
    rw [h] at hd
    cases hd
  simp [isSpace, hne]

/-- A written value begins as a part of an array or object does. -/
theorem Plain.opens {depth : Nat} {v : Json} (h : v.Plain depth) : Opens (render v) := by
  cases h with
  | null => exact ⟨'n', _, rfl, by decide, by decide, by decide, by decide⟩
  | bool b => cases b <;> exact ⟨_, _, rfl, by decide, by decide, by decide, by decide⟩
  | @integer _ n _ =>
    show Opens (Numeral.ofInt n)
    cases n with
    | ofNat m =>
      obtain ⟨d, ds, hds, hdigit, -⟩ := exists_ofNat_eq_cons m
      exact ⟨d, ds, hds, isDigit_ne (hdigit d (.head _))⟩
    | negSucc m => exact ⟨'-', _, rfl, by decide, by decide, by decide, by decide⟩
  | text s => exact opens_renderText s.toList
  | array =>
    rw [render_array]
    exact ⟨'[', _, rfl, by decide, by decide, by decide, by decide⟩
  | object =>
    rw [render_object]
    exact ⟨'\x7b', _, rfl, by decide, by decide, by decide, by decide⟩

section Values

variable {n : Nat} {inner : Option (Reader Json)}

theorem run_valueWith_text (s : String) (ps : List Piece) :
    (valueWith n inner).run (ofText (renderText s.toList) ++ ps) = .ok (.text s, ps) := by
  rw [ofText_renderText]
  unfold valueWith
  rw [run_bind_of_ok (run_peek rfl)]
  show (do skip; return .text (← string) : Reader Json).run _ = _
  rw [run_bind_of_ok run_skip, run_bind_of_ok (run_string s ps)]
  rfl

theorem run_valueWith_integer {k : Int} (hk : IsExact k) (hrest : Follows rest) :
    (valueWith n inner).run (ofText (Numeral.ofInt k) ++ rest) = .ok (.ofInt k, rest) := by
  rcases run_numeral_ofInt hk hrest with ⟨d, ds, hds, hdigit, hrun⟩ | ⟨ds, hds, hrun⟩
  · have hpeek : peek.run (ofText (d :: ds) ++ rest) = .ok (some d, ofText (d :: ds) ++ rest) :=
      run_peek (isDigit_ne hdigit).1
    rw [hds]
    unfold valueWith
    rw [run_bind_of_ok hpeek]
    have hne : ∀ c : Char, c.isDigit = false → d ≠ c := by
      rintro c hc rfl
      rw [hdigit] at hc
      cases hc
    simp only
    split
    all_goals first | exact absurd rfl (hne _ (by decide)) | skip
    simp only [hdigit, if_true]
    rw [run_bind_of_ok hrun]
    rfl
  · rw [hds]
    unfold valueWith
    show (peek >>= _ : Reader Json).run (.char '-' :: (ofText ds ++ rest)) = _
    rw [run_bind_of_ok (run_peek rfl)]
    show (do skip; return .number (← numeral true) : Reader Json).run _ = _
    rw [run_bind_of_ok run_skip, run_bind_of_ok hrun]
    rfl

theorem run_valueWith_array {item : Reader Json} {xs : List Json}
    (h : ∀ x ∈ xs, Opens (render x) ∧ Reads item (render x) x) (hn : xs.length < n)
    (ps : List Piece) :
    (valueWith n (some item)).run (ofText (render (.array xs)) ++ ps) = .ok (.array xs, ps) := by
  rw [render_array]
  unfold valueWith
  show (peek >>= _ : Reader Json).run (.char '[' :: (ofText _ ++ ps)) = _
  rw [run_bind_of_ok (run_peek rfl)]
  show (do skip; return .array (← items n item) : Reader Json).run _ = _
  rw [run_bind_of_ok run_skip, run_bind_of_ok (run_items h hn ps)]
  rfl

/-- The reader of the members of an object keeps them in the order of the text. -/
theorem folds_members {value : Reader Json} {ms : List (String × Json)}
    (h : ∀ m ∈ ms, Reads value (render m.2) m.2) (done : List (String × Json)) :
    Folds (fun (done : List (String × Json)) (name : String) => do
        colon
        return (name, ← value) :: done)
      done (ms.map fun m => (m.1, render m.2)) (ms.reverse ++ done) := by
  induction ms generalizing done with
  | nil => exact .nil
  | cons m ms ih =>
    have hrest := ih (fun p hp => h p (.tail _ hp)) (m :: done)
    rw [List.reverse_cons, List.append_assoc]
    refine .cons (t := m :: done) (fun rest hfollows => ?_) hrest
    show (do colon; return (m.1, ← value) :: done : Reader _).run
      (.char ':' :: (ofText (render m.2) ++ rest)) = _
    rw [run_bind_of_ok run_colon, run_bind_of_ok (h m (.head _) rest hfollows)]
    rfl

theorem run_valueWith_object {value : Reader Json} {ms : List (String × Json)}
    (h : ∀ m ∈ ms, Reads value (render m.2) m.2) (hn : ms.length < n) (ps : List Piece) :
    (valueWith n (some value)).run (ofText (render (.object ms)) ++ ps) =
      .ok (.object ms, ps) := by
  have hmembers := (folds_members h []).run_members (n := n) (by simpa using hn) ps
  rw [render_object]
  unfold valueWith
  show (peek >>= _ : Reader Json).run (.char '\x7b' :: (ofText _ ++ ps)) = _
  rw [run_bind_of_ok (run_peek rfl)]
  show (do
    skip
    return .object (← members n (fun (done : List (String × Json)) (name : String) => do
        colon
        return (name, ← value) :: done) []).reverse : Reader Json).run _ = _
  rw [run_bind_of_ok run_skip, run_bind_of_ok hmembers, List.append_nil, List.reverse_reverse]
  rfl

theorem run_valueWith_null (ps : List Piece) :
    (valueWith n inner).run (ofText (render .null) ++ ps) = .ok (.null, ps) := rfl

theorem run_valueWith_bool (b : Bool) (ps : List Piece) :
    (valueWith n inner).run (ofText (render (.bool b)) ++ ps) = .ok (.bool b, ps) := by
  cases b <;> rfl

theorem value_eq_valueWith (n depth : Nat) : ∃ inner, value n depth = valueWith n inner := by
  cases depth with
  | zero => exact ⟨none, rfl⟩
  | succ depth => exact ⟨some (value n depth), rfl⟩

end Values

/-- A written value is read as itself. -/
theorem Plain.reads {depth n : Nat} {v : Json} (h : v.Plain depth) (hn : (render v).length ≤ n) :
    Reads (value n depth) (render v) v := by
  induction h with
  | @null depth =>
    obtain ⟨inner, hinner⟩ := value_eq_valueWith n depth
    exact fun rest _ => hinner ▸ run_valueWith_null rest
  | @bool depth b =>
    obtain ⟨inner, hinner⟩ := value_eq_valueWith n depth
    exact fun rest _ => hinner ▸ run_valueWith_bool b rest
  | @integer depth k hk =>
    obtain ⟨inner, hinner⟩ := value_eq_valueWith n depth
    exact fun rest hrest => hinner ▸ run_valueWith_integer hk hrest
  | @text depth s =>
    obtain ⟨inner, hinner⟩ := value_eq_valueWith n depth
    exact fun rest _ => hinner ▸ run_valueWith_text s rest
  | @array depth xs h ih =>
    obtain ⟨hcount, hitem⟩ := length_render_array xs
    exact fun rest _ => run_valueWith_array
      (fun x hx => ⟨(h x hx).opens, ih x hx (Nat.le_trans (hitem x hx) hn)⟩) (by omega) rest
  | @object depth ms h ih =>
    obtain ⟨hcount, hvalue⟩ := length_render_object ms
    exact fun rest _ => run_valueWith_object
      (fun m hm => ih m hm (Nat.le_trans (hvalue m hm) hn)) (by omega) rest

end BlockFlow.Json
