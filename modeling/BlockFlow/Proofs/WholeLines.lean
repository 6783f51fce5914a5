import BlockFlow.Block.Server
import Mathlib.Data.List.Basic

/-!
# Whole lines of bytes

Bytes that come in pieces are cut into whole lines, and what follows the last of these waits for the
next piece. The lines come out the same however the bytes were cut.

1. `Server.AreLines`: what the whole lines of bytes are, told by putting them together again.
2. `AreLines.splitLines_eq`: a server cuts bytes into these lines; `AreLines.unique`: there are no
   others.
3. `AreLines.append`: what was left over goes before the next piece.
-/

namespace BlockFlow

namespace Text

variable {α : Type} {p : α → Bool} {piece xs : List α} {x : α}

theorem piecesBy_of_forall_not (h : ∀ y ∈ piece, p y = false) : piecesBy p piece = [piece] := by
  induction piece with
  | nil => rfl
  | cons y ys ih =>
    rw [piecesBy, h y (.head _), ih fun z hz => h z (.tail _ hz)]

/-- The first piece ends at the first element at which the list is cut. -/
theorem piecesBy_append_cons (h : ∀ y ∈ piece, p y = false) (hx : p x = true) :
    piecesBy p (piece ++ x :: xs) = piece :: piecesBy p xs := by
  induction piece with
  | nil => rw [List.nil_append, piecesBy, hx]
  | cons y ys ih =>
    rw [List.cons_append, piecesBy, h y (.head _), ih fun z hz => h z (.tail _ hz)]

end Text

namespace Server

open Text (lineFeed)

variable {bytes more rest rest' line : List UInt8} {lines lines' : List (List UInt8)}

/-- Bytes are whole lines, each with a line feed at its end, and what follows the last of them. -/
structure AreLines (bytes : List UInt8) (lines : List (List UInt8)) (rest : List UInt8) :
    Prop where
  eq_join : bytes = joinLines lines rest
  not_mem_line : ∀ line ∈ lines, lineFeed ∉ line
  not_mem_rest : lineFeed ∉ rest

/-! ## Putting lines together -/

theorem joinLines_cons (line : List UInt8) (lines : List (List UInt8)) (rest : List UInt8) :
    joinLines (line :: lines) rest = line ++ lineFeed :: joinLines lines rest := by
  unfold joinLines
  simp

theorem joinLines_append (lines lines' : List (List UInt8)) (rest : List UInt8) :
    joinLines (lines ++ lines') rest = joinLines lines (joinLines lines' rest) := by
  unfold joinLines
  rw [List.flatMap_append, List.append_assoc]

theorem joinLines_append_rest (lines : List (List UInt8)) (rest more : List UInt8) :
    joinLines lines rest ++ more = joinLines lines (rest ++ more) := by
  unfold joinLines
  rw [List.append_assoc]

/-! ## Cutting bytes -/

theorem splitLines_of_not_mem (h : lineFeed ∉ rest) : splitLines rest = ([], rest) := by
  have hpieces : Text.piecesBy (· == lineFeed) rest = [rest] :=
    Text.piecesBy_of_forall_not fun b hb => beq_false_of_ne fun heq => h (heq ▸ hb)
  unfold splitLines
  simp only [hpieces]
  rfl

theorem splitLines_append_cons (h : lineFeed ∉ line) (bytes : List UInt8) :
    splitLines (line ++ lineFeed :: bytes) =
      (line :: (splitLines bytes).1, (splitLines bytes).2) := by
  have hpieces : Text.piecesBy (· == lineFeed) (line ++ lineFeed :: bytes) =
      line :: Text.piecesBy (· == lineFeed) bytes :=
    Text.piecesBy_append_cons (fun b hb => beq_false_of_ne fun heq => h (heq ▸ hb))
      (beq_self_eq_true _)
  have hne := Text.piecesBy_ne_nil (· == lineFeed) bytes
  unfold splitLines
  simp only [hpieces, List.dropLast_cons_of_ne_nil hne, List.getLast_cons hne]

namespace AreLines

/-- A server cuts bytes into their whole lines. -/
theorem splitLines_eq (h : AreLines bytes lines rest) : splitLines bytes = (lines, rest) := by
  obtain ⟨rfl, hlines, hrest⟩ := h
  induction lines with
  | nil => exact splitLines_of_not_mem hrest
  | cons line lines ih =>
    rw [joinLines_cons, splitLines_append_cons (hlines line (.head _)),
      ih fun l hl => hlines l (.tail _ hl)]

theorem unique (h : AreLines bytes lines rest) (h' : AreLines bytes lines' rest') :
    lines = lines' ∧ rest = rest' :=
  Prod.mk.inj (h.splitLines_eq.symm.trans h'.splitLines_eq)

/-- Bytes without a line feed are no whole line. -/
theorem of_not_mem (h : lineFeed ∉ rest) : AreLines rest [] rest := ⟨rfl, nofun, h⟩

/-- What was left over goes before the next piece. -/
theorem append (h : AreLines bytes lines rest) (h' : AreLines (rest ++ more) lines' rest') :
    AreLines (bytes ++ more) (lines ++ lines') rest' where
  eq_join := by rw [h.eq_join, joinLines_append_rest, h'.eq_join, joinLines_append]
  not_mem_line := List.forall_mem_append.2 ⟨h.not_mem_line, h'.not_mem_line⟩
  not_mem_rest := h'.not_mem_rest

end AreLines

theorem exists_areLines (bytes : List UInt8) : ∃ lines rest, AreLines bytes lines rest := by
  induction bytes with
  | nil => exact ⟨[], [], .of_not_mem List.not_mem_nil⟩
  | cons b bytes ih =>
    obtain ⟨lines, rest, rfl, hlines, hrest⟩ := ih
    by_cases hb : b = lineFeed
    · subst hb
      refine ⟨[] :: lines, rest, by rw [joinLines_cons, List.nil_append], ?_, hrest⟩
      exact List.forall_mem_cons.2 ⟨List.not_mem_nil, hlines⟩
    · cases lines with
      | nil =>
        have hnot : lineFeed ∉ b :: rest :=
          List.not_mem_cons_of_ne_of_not_mem (Ne.symm hb) hrest
        exact ⟨[], b :: rest, .of_not_mem hnot⟩
      | cons line lines =>
        obtain ⟨hline, hlines⟩ := List.forall_mem_cons.1 hlines
        refine ⟨(b :: line) :: lines, rest, ?_, ?_, hrest⟩
        · rw [joinLines_cons, joinLines_cons, List.cons_append]
        · have hnot : lineFeed ∉ b :: line :=
            List.not_mem_cons_of_ne_of_not_mem (Ne.symm hb) hline
          exact List.forall_mem_cons.2 ⟨hnot, hlines⟩

theorem areLines_splitLines (bytes : List UInt8) :
    AreLines bytes (splitLines bytes).1 (splitLines bytes).2 := by
  obtain ⟨lines, rest, h⟩ := exists_areLines bytes
  rw [h.splitLines_eq]
  exact h

end Server

end BlockFlow
