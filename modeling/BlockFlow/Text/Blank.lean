/-!
# Blank characters and tokens

Lines and configuration entries are cut at blank characters, the code points with the Unicode
property `White_Space`. A token is a longest run without a blank.

1. `isBlank`, `trim`: what counts as blank, and a text without its outer blanks.
2. `token?`: the first token and what follows it; `words`: all tokens.
3. `cutAt?`: a text cut at the first occurrence of a character.
-/

namespace BlockFlow.Text

/-- The code points with the Unicode property `White_Space`. -/
def isBlank (c : Char) : Bool :=
  let n := c.toNat
  (9 ≤ n && n ≤ 13) || n == 0x20 || n == 0x85 || n == 0xA0 || n == 0x1680 ||
    (0x2000 ≤ n && n ≤ 0x200A) || n == 0x2028 || n == 0x2029 || n == 0x202F || n == 0x205F ||
    n == 0x3000

/-- The text from its first character that is not blank. -/
def trimStart (cs : List Char) : List Char := cs.dropWhile isBlank

/-- The text up to its last character that is not blank. -/
def trimEnd (cs : List Char) : List Char := (cs.reverse.dropWhile isBlank).reverse

/-- The text without the blanks around it. -/
def trim (cs : List Char) : List Char := trimEnd (trimStart cs)

def isBlankText (cs : List Char) : Bool := (trim cs).isEmpty

/-- The first token and the text after it; a blank text has none. -/
def token? (cs : List Char) : Option (List Char × List Char) :=
  match trimStart cs with
  | [] => none
  | c :: r => some ((c :: r).takeWhile (!isBlank ·), (c :: r).dropWhile (!isBlank ·))

/-- The pieces of a list between the elements that `p` picks; there is always at least one. -/
def piecesBy {α : Type} (p : α → Bool) : List α → List (List α)
  | [] => [[]]
  | x :: xs =>
    match p x, piecesBy p xs with
    | true, pieces => [] :: pieces
    | false, [] => [[x]]
    | false, piece :: pieces => (x :: piece) :: pieces

theorem piecesBy_ne_nil {α : Type} (p : α → Bool) (xs : List α) : piecesBy p xs ≠ [] := by
  cases xs with
  | nil => simp [piecesBy]
  | cons x xs => rw [piecesBy]; split <;> simp

/-- The tokens of a text, in order. -/
def words (cs : List Char) : List (List Char) := (piecesBy isBlank cs).filter (!·.isEmpty)

/-- The text before the first `c` and the text after it, if there is a `c`. -/
def cutAt? (c : Char) : List Char → Option (List Char × List Char)
  | [] => none
  | x :: xs => if x = c then some ([], xs) else (cutAt? c xs).map fun p => (x :: p.1, p.2)

theorem eq_append_of_cutAt? {c : Char} {cs a b : List Char} (h : cutAt? c cs = some (a, b)) :
    cs = a ++ c :: b := by
  induction cs generalizing a with
  | nil => simp [cutAt?] at h
  | cons x xs ih =>
    rw [cutAt?] at h
    split at h
    · next hx => simp at h; simp [← h.1, ← h.2, hx]
    · obtain ⟨⟨a', b'⟩, hp, he⟩ := Option.map_eq_some_iff.1 h
      obtain ⟨rfl, rfl⟩ := Prod.mk.injEq .. ▸ he
      simp [ih hp]

end BlockFlow.Text
