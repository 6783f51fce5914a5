import BlockFlow.Proofs.Tokens
import BlockFlow.Proofs.Utf8Exact
import BlockFlow.Proofs.WholeLines

/-!
# The ends of lines

A text is cut into lines at its line feeds, before or after it is written as bytes, with or without
the carriage returns before them. What is left at the end of a line is blank and means nothing.

1. `Line.parse_trimEnd`: a line has the same parts without the blanks at its end.
2. `piecesBy_eq_splitOnP`: lists are cut as the library cuts them, so pieces that are joined and cut
   again are the same.
3. `piecesBy_encode`: the bytes of a text are cut where the text is.
4. `map_trimEnd_lines`: the lines of a text and its pieces, but for blanks at their ends.
-/

namespace BlockFlow

/-! ## Blanks at the end -/

namespace Text

variable {c : Char} {cs : List Char}

theorem trimEnd_cons (c : Char) (cs : List Char) :
    trimEnd (c :: cs) = if isBlank c ∧ trimEnd cs = [] then [] else c :: trimEnd cs := by
  unfold trimEnd
  rw [List.reverse_cons, List.dropWhile_append]
  by_cases hcs : (cs.reverse.dropWhile isBlank) = []
  · cases hc : isBlank c <;> simp [hcs, hc]
  · simp [hcs]

theorem trimEnd_cons_of_not_isBlank (h : isBlank c = false) (cs : List Char) :
    trimEnd (c :: cs) = c :: trimEnd cs := by
  rw [trimEnd_cons, if_neg (by simp [h])]

/-- It makes no difference at which end blanks are left out first. -/
theorem trimStart_trimEnd (cs : List Char) : trimStart (trimEnd cs) = trimEnd (trimStart cs) := by
  induction cs with
  | nil => rfl
  | cons c cs ih =>
    by_cases hc : isBlank c
    · rw [trimStart_cons_of_isBlank hc, ← ih, trimEnd_cons]
      split
      · next h => rw [h.2]
      · exact trimStart_cons_of_isBlank hc _
    · rw [Bool.not_eq_true] at hc
      rw [trimStart_cons_of_not_isBlank hc, trimEnd_cons_of_not_isBlank hc,
        trimStart_cons_of_not_isBlank hc]

theorem trim_trimEnd (cs : List Char) : trim (trimEnd cs) = trim cs := by
  unfold trim
  rw [trimStart_trimEnd]
  exact List.rdropWhile_idempotent isBlank _

theorem isBlankText_trimEnd (cs : List Char) : isBlankText (trimEnd cs) = isBlankText cs := by
  rw [isBlankText, isBlankText, trim_trimEnd]

theorem takeWhile_trimEnd (cs : List Char) :
    (trimEnd cs).takeWhile (!isBlank ·) = cs.takeWhile (!isBlank ·) := by
  induction cs with
  | nil => rfl
  | cons c cs ih =>
    by_cases hc : isBlank c
    · rw [trimEnd_cons]
      split <;> simp [hc]
    · rw [Bool.not_eq_true] at hc
      rw [trimEnd_cons_of_not_isBlank hc]
      simp [hc, ih]

theorem dropWhile_trimEnd (cs : List Char) :
    (trimEnd cs).dropWhile (!isBlank ·) = trimEnd (cs.dropWhile (!isBlank ·)) := by
  induction cs with
  | nil => rfl
  | cons c cs ih =>
    by_cases hc : isBlank c
    · rw [List.dropWhile_cons_of_neg (by simp [hc]), trimEnd_cons]
      split <;> simp [hc]
    · rw [Bool.not_eq_true] at hc
      rw [trimEnd_cons_of_not_isBlank hc]
      simp [hc, ih]

/-- The first token is the same, and what follows it lacks its blanks at the end. -/
theorem token?_trimEnd (cs : List Char) :
    token? (trimEnd cs) = (token? cs).map fun p => (p.1, trimEnd p.2) := by
  unfold token?
  rw [trimStart_trimEnd]
  cases hcs : trimStart cs with
  | nil => rfl
  | cons c r =>
    have hc : isBlank c = false := isBlank_of_trimStart_eq_cons hcs
    rw [trimEnd_cons_of_not_isBlank hc]
    show some (_, _) = some (_, _)
    rw [← trimEnd_cons_of_not_isBlank hc, takeWhile_trimEnd, dropWhile_trimEnd]

/-- A carriage return at the end is a blank at the end. -/
theorem trimEnd_dropReturn (cs : List Char) : trimEnd (dropReturn cs) = trimEnd cs := by
  unfold dropReturn
  split
  · next h =>
    obtain ⟨init, rfl⟩ := List.getLast?_eq_some_iff.1 h
    rw [List.dropLast_concat]
    exact (List.rdropWhile_concat_pos isBlank init '\r' (by decide)).symm
  · rfl

end Text

namespace Line

theorem argument?_trimEnd (cs : List Char) : argument? (Text.trimEnd cs) = argument? cs := by
  rw [argument?, argument?, Text.trim_trimEnd]

theorem numbers?_trimEnd (cs : List Char) :
    numbers? (Text.trimEnd cs) = (numbers? cs).map fun p => (p.1, p.2.1, Text.trimEnd p.2.2) := by
  unfold numbers?
  rw [Text.token?_trimEnd]
  cases Text.token? cs with
  | none => rfl
  | some p =>
    obtain ⟨code, rest⟩ := p
    show (Text.token? (Text.trimEnd rest)).bind _ = _
    rw [Text.token?_trimEnd]
    cases hrest : Text.token? rest with
    | none => simp [hrest]
    | some q =>
      cases hcode : Text.Numeral.readInt32? code <;>
        cases hid : Text.Numeral.readInt32? q.1 <;> simp [hrest, hcode, hid]

/-- A line has the same parts without the blanks at its end. -/
theorem parse_trimEnd (cs : List Char) : parse (Text.trimEnd cs) = parse cs := by
  unfold parse
  rw [numbers?_trimEnd]
  cases numbers? cs with
  | none => rfl
  | some p =>
    obtain ⟨code, id, rest⟩ := p
    simp only [Option.map_some, argument?_trimEnd]

end Line

/-! ## Pieces -/

namespace Text

section Pieces

variable {α : Type} {p : α → Bool} {x : α} {piece xs ys : List α} {pieces : List (List α)}

/-- What stands before a list without a place to cut belongs to its first piece. -/
theorem piecesBy_append_of_forall_not (h : ∀ y ∈ xs, p y = false)
    (hys : piecesBy p ys = piece :: pieces) : piecesBy p (xs ++ ys) = (xs ++ piece) :: pieces := by
  induction xs with
  | nil => exact hys
  | cons x xs ih =>
    obtain ⟨hx, hxs⟩ := List.forall_mem_cons.1 h
    rw [List.cons_append, piecesBy, hx, ih hxs]
    rfl

/-- Where a list is cut at its first element, its first piece is empty. -/
theorem piecesBy_cons_of_pos (hx : p x) (xs : List α) :
    piecesBy p (x :: xs) = [] :: piecesBy p xs := by
  have hnil : ∀ y ∈ ([] : List α), p y = false := nofun
  exact piecesBy_append_cons hnil hx

/-- An element either cuts the list or stands before its first piece. -/
theorem piecesBy_cons_cases (p : α → Bool) (x : α) (xs : List α) :
    (p x ∧ piecesBy p (x :: xs) = [] :: piecesBy p xs) ∨
      (p x = false ∧ ∃ piece pieces, piecesBy p xs = piece :: pieces ∧
        piecesBy p (x :: xs) = (x :: piece) :: pieces) := by
  cases hx : p x with
  | true => exact .inl ⟨rfl, piecesBy_cons_of_pos hx xs⟩
  | false =>
    obtain ⟨piece, pieces, hxs⟩ := List.exists_cons_of_ne_nil (piecesBy_ne_nil p xs)
    have hsingle : ∀ y ∈ [x], p y = false := List.forall_mem_singleton.2 hx
    exact .inr ⟨rfl, piece, pieces, hxs, piecesBy_append_of_forall_not hsingle hxs⟩

theorem not_of_mem_piecesBy (h : piece ∈ piecesBy p xs) : ∀ y ∈ piece, p y = false := by
  induction xs generalizing piece with
  | nil =>
    obtain rfl : piece = [] := List.mem_singleton.1 h
    exact nofun
  | cons x xs ih =>
    rcases piecesBy_cons_cases p x xs with ⟨-, hcons⟩ | ⟨hx, first, rest, hxs, hcons⟩
    · rw [hcons] at h
      rcases List.mem_cons.1 h with rfl | h
      · exact nofun
      · exact ih h
    · rw [hcons] at h
      rw [hxs] at ih
      rcases List.mem_cons.1 h with rfl | h
      · exact List.forall_mem_cons.2 ⟨hx, ih (.head _)⟩
      · exact ih (.tail _ h)

/-- Lists are cut as the library cuts them. -/
theorem piecesBy_eq_splitOnP (p : α → Bool) (xs : List α) : piecesBy p xs = xs.splitOnP p := by
  induction xs with
  | nil => rfl
  | cons x xs ih =>
    rw [List.splitOnP_cons_eq_if_modifyHead, ← ih]
    rcases piecesBy_cons_cases p x xs with ⟨hx, hcons⟩ | ⟨hx, piece, pieces, hxs, hcons⟩
    · rw [hcons, if_pos hx]
    · rw [hcons, hxs, if_neg (by simp [hx]), List.modifyHead_cons]

/-- Pieces that are joined are cut apart where they were joined. -/
theorem piecesBy_intercalate [BEq α] [LawfulBEq α] (x : α) (hne : pieces ≠ [])
    (h : ∀ piece ∈ pieces, x ∉ piece) : piecesBy (· == x) ([x].intercalate pieces) = pieces := by
  rw [piecesBy_eq_splitOnP]
  exact List.splitOn_intercalate x h hne

/-- Pieces that were cut at one element are joined by it again. -/
theorem intercalate_piecesBy [BEq α] [LawfulBEq α] (x : α) (xs : List α) :
    [x].intercalate (piecesBy (· == x) xs) = xs := by
  rw [piecesBy_eq_splitOnP]
  exact List.intercalate_splitOn x

end Pieces

/-! ## Lines as bytes -/

open Utf8 (encode encodeChar)

theorem encode_append (cs ds : List Char) : encode (cs ++ ds) = encode cs ++ encode ds :=
  List.flatMap_append

/-- The byte of a line feed stands for nothing but a line feed. -/
theorem ne_lineFeed_of_mem_encodeChar {c : Char} (hc : c ≠ '\n') {b : UInt8}
    (hb : b ∈ encodeChar c) : b ≠ lineFeed := by
  have hne : c.val.toNat ≠ 10 := fun h => hc (by rw [← Char.ofNat_toNat c, Char.toNat, h])
  rintro rfl
  have hnat : ∀ n : Nat, lineFeed = UInt8.ofNat n → n % 256 = 10 := fun n h => by
    rw [← UInt8.toNat_ofNat', ← h]
    rfl
  unfold encodeChar String.utf8EncodeChar at hb
  simp only at hb
  generalize c.val.toNat = n at hne hb
  split at hb
  · have := hnat n (List.mem_singleton.1 hb)
    omega
  split at hb
  · simp only [List.mem_cons, List.not_mem_nil, or_false] at hb
    rcases hb with hb | hb
    all_goals
      have := hnat _ hb
      omega
  split at hb
  · simp only [List.mem_cons, List.not_mem_nil, or_false] at hb
    rcases hb with hb | hb | hb
    all_goals
      have := hnat _ hb
      omega
  · simp only [List.mem_cons, List.not_mem_nil, or_false] at hb
    rcases hb with hb | hb | hb | hb
    all_goals
      have := hnat _ hb
      omega

/-- The bytes of a text are cut where the text is. -/
theorem piecesBy_encode (cs : List Char) :
    piecesBy (· == lineFeed) (encode cs) = (piecesBy (· == '\n') cs).map encode := by
  induction cs with
  | nil => rfl
  | cons c cs ih =>
    rw [show encode (c :: cs) = encodeChar c ++ encode cs from List.flatMap_cons]
    rcases piecesBy_cons_cases (· == '\n') c cs with ⟨hc, hcons⟩ | ⟨hc, piece, pieces, hcs, hcons⟩
    · obtain rfl : c = '\n' := eq_of_beq hc
      rw [hcons, List.map_cons, ← ih]
      exact piecesBy_cons_of_pos rfl (encode cs)
    · have hnot : ∀ b ∈ encodeChar c, (b == lineFeed) = false := fun b hb =>
        beq_false_of_ne (ne_lineFeed_of_mem_encodeChar (ne_of_beq_false hc) hb)
      rw [hcs, List.map_cons] at ih
      rw [hcons, List.map_cons]
      exact piecesBy_append_of_forall_not hnot ih

theorem encode_intercalate (pieces : List (List Char)) :
    encode (['\n'].intercalate pieces) = [lineFeed].intercalate (pieces.map encode) := by
  induction pieces with
  | nil => rfl
  | cons piece pieces ih =>
    cases pieces with
    | nil => rw [List.intercalate_singleton, List.map_singleton, List.intercalate_singleton]
    | cons piece' pieces =>
      rw [List.intercalate_cons_cons, encode_append, encode_append, ih]
      exact List.intercalate_cons_cons.symm

/-! ## The lines of a text -/

def nonblank (ls : List (List Char)) : List (List Char) := ls.filter (!isBlankText ·)

theorem nonblank_cons (l : List Char) (ls : List (List Char)) :
    nonblank (l :: ls) = if isBlankText l then nonblank ls else l :: nonblank ls := by
  cases h : isBlankText l <;> simp [nonblank, h]

theorem map_trimEnd_nonblank (ls : List (List Char)) :
    (nonblank ls).map trimEnd = nonblank (ls.map trimEnd) := by
  unfold nonblank
  rw [List.filter_map]
  simp only [Function.comp_def, isBlankText_trimEnd]

/-- The lines of a text are its pieces, but for what is blank. -/
theorem map_trimEnd_lines (cs : List Char) :
    (nonblank (lines cs)).map trimEnd = (nonblank (piecesBy (· == '\n') cs)).map trimEnd := by
  have hne := piecesBy_ne_nil (· == '\n') cs
  have hreturn : ∀ ls : List (List Char), (ls.map dropReturn).map trimEnd = ls.map trimEnd := by
    intro ls
    rw [List.map_map]
    exact List.map_congr_left fun l _ => trimEnd_dropReturn l
  have hlines : lines cs = (piecesBy (· == '\n') cs).dropLast.map dropReturn ++
      if ((piecesBy (· == '\n') cs).getLast hne).isEmpty then []
      else [(piecesBy (· == '\n') cs).getLast hne] := rfl
  rw [map_trimEnd_nonblank, map_trimEnd_nonblank, hlines, List.map_append, hreturn]
  conv_rhs => rw [← List.dropLast_append_getLast hne, List.map_append]
  cases (piecesBy (· == '\n') cs).getLast hne with
  | nil => simp [nonblank, isBlankText, trim, trimEnd, trimStart]
  | cons c cs => rfl

end Text

end BlockFlow
