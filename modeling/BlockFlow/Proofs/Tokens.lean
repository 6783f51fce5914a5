import BlockFlow.Command.Line
import Mathlib.Data.List.DropRight

/-!
# Blanks around tokens

A text is cut at blanks, and blanks around it are left out. This may be done more than once on the
way of an argument to the operation that it is meant for, and nothing comes of it.

1. `trim_trim`: blanks are left out once; `map_fst_token?_trim`: the first token is the same without
   the blanks around the text.
2. `token?_append`: a token before a blank.
3. `Line.argument?`, `Order.ofArgument_argument?`: an argument means the same without its blanks.
-/

namespace BlockFlow

namespace Text

variable {c : Char} {cs bs : List Char}

/-! ## Blanks around a text -/

theorem trimEnd_eq_rdropWhile (cs : List Char) : trimEnd cs = cs.rdropWhile isBlank := rfl

theorem trimStart_cons_of_isBlank (h : isBlank c) (cs : List Char) :
    trimStart (c :: cs) = trimStart cs := by
  simp [trimStart, h]

theorem trimStart_cons_of_not_isBlank (h : isBlank c = false) (cs : List Char) :
    trimStart (c :: cs) = c :: cs := by
  simp [trimStart, h]

/-- What is left of a text at its beginning does not begin with a blank. -/
theorem isBlank_of_trimStart_eq_cons (h : trimStart cs = c :: bs) : isBlank c = false := by
  have hhead := List.head?_dropWhile_not isBlank cs
  rw [show cs.dropWhile isBlank = c :: bs from h] at hhead
  exact hhead

/-- A text that does not begin with a blank does not when it loses blanks at its end. -/
theorem trimStart_trimEnd_of_not_isBlank (h : isBlank c = false) (cs : List Char) :
    trimStart (trimEnd (c :: cs)) = trimEnd (c :: cs) := by
  have hprefix : trimEnd (c :: cs) <+: c :: cs := List.rdropWhile_prefix isBlank _
  cases htrim : trimEnd (c :: cs) with
  | nil => rfl
  | cons d ds =>
    rw [htrim] at hprefix
    obtain rfl : d = c := (List.cons_prefix_cons.1 hprefix).1
    exact trimStart_cons_of_not_isBlank h ds

theorem trimStart_trim (cs : List Char) : trimStart (trim cs) = trim cs := by
  unfold trim
  cases hcs : trimStart cs with
  | nil => rfl
  | cons c bs => exact trimStart_trimEnd_of_not_isBlank (isBlank_of_trimStart_eq_cons hcs) bs

theorem trim_trim (cs : List Char) : trim (trim cs) = trim cs := by
  rw [trim, trimStart_trim]
  exact List.rdropWhile_idempotent isBlank _

theorem trim_cons_of_isBlank (h : isBlank c) (cs : List Char) : trim (c :: cs) = trim cs := by
  rw [trim, trim, trimStart_cons_of_isBlank h]

/-! ## Tokens -/

/-- Blanks at the end of a text do not belong to its first token. -/
theorem takeWhile_append_of_isBlank (h : ∀ b ∈ bs, isBlank b) :
    (cs ++ bs).takeWhile (!isBlank ·) = cs.takeWhile (!isBlank ·) := by
  induction cs with
  | nil =>
    cases bs with
    | nil => rfl
    | cons b bs => simp [h b (.head _)]
  | cons c cs ih => simp [List.takeWhile_cons, ih]

/-- The first token is the same without the blanks around the text. -/
theorem map_fst_token?_trim (cs : List Char) :
    (token? (trim cs)).map (·.1) = (token? cs).map (·.1) := by
  unfold token?
  rw [trimStart_trim, trim]
  cases hcs : trimStart cs with
  | nil => rfl
  | cons c bs =>
    have hc : isBlank c = false := isBlank_of_trimStart_eq_cons hcs
    have hne : trimEnd (c :: bs) ≠ [] := by
      rw [trimEnd_eq_rdropWhile, ne_eq, List.rdropWhile_eq_nil_iff]
      intro hblank
      rw [hblank c (.head _)] at hc
      cases hc
    have htake : (trimEnd (c :: bs)).takeWhile (!isBlank ·) =
        (c :: bs).takeWhile (!isBlank ·) := by
      rw [trimEnd_eq_rdropWhile]
      conv_rhs => rw [← List.rdropWhile_append_rtakeWhile (p := isBlank) (l := c :: bs)]
      exact (takeWhile_append_of_isBlank fun b hb => List.mem_rtakeWhile_imp hb).symm
    cases htrim : trimEnd (c :: bs) with
    | nil => exact absurd htrim hne
    | cons d ds =>
      rw [htrim] at htake
      exact congrArg some htake

/-- A token that ends the text or stands before a blank. -/
theorem token?_append {w rest : List Char} (hne : w ≠ []) (hw : ∀ c ∈ w, isBlank c = false)
    (hrest : ∀ c, rest.head? = some c → isBlank c) : token? (w ++ rest) = some (w, rest) := by
  obtain ⟨c, cs, rfl⟩ := List.exists_cons_of_ne_nil hne
  have hpos : ∀ d ∈ c :: cs, (!isBlank d) = true := fun d hd => by simp [hw d hd]
  have htake : rest.takeWhile (!isBlank ·) = [] := by
    cases rest with
    | nil => rfl
    | cons d ds => simp [hrest d rfl]
  have hdrop : rest.dropWhile (!isBlank ·) = rest := by
    cases rest with
    | nil => rfl
    | cons d ds => simp [hrest d rfl]
  have hstart : trimStart (c :: cs ++ rest) = c :: cs ++ rest :=
    trimStart_cons_of_not_isBlank (hw c (.head _)) _
  unfold token?
  rw [hstart]
  show some ((c :: cs ++ rest).takeWhile _, (c :: cs ++ rest).dropWhile _) = _
  rw [List.takeWhile_append_of_pos hpos, List.dropWhile_append_of_pos hpos, htake, hdrop,
    List.append_nil]

theorem token?_cons_of_isBlank (h : isBlank c) (cs : List Char) :
    token? (c :: cs) = token? cs := by
  rw [token?, token?, trimStart_cons_of_isBlank h]

/-! ## Numerals -/

theorem isBlank_of_isDigit (h : c.isDigit) : isBlank c = false := by
  simp only [Char.isDigit, Bool.and_eq_true, decide_eq_true_eq, UInt32.le_iff_toNat_le] at h
  have hlow : 48 ≤ c.toNat := h.1
  have hhigh : c.toNat ≤ 57 := h.2
  simp only [isBlank, Bool.or_eq_false_iff, Bool.and_eq_false_iff, decide_eq_false_iff_not,
    beq_eq_false_iff_ne]
  omega

theorem isBlank_of_mem_ofNat {n : Nat} (h : c ∈ Numeral.ofNat n) : isBlank c = false :=
  isBlank_of_isDigit (Nat.isDigit_of_mem_toDigits (by decide) (by decide) h)

theorem isBlank_of_mem_ofInt {n : Int} (h : c ∈ Numeral.ofInt n) : isBlank c = false := by
  cases n with
  | ofNat m => exact isBlank_of_mem_ofNat h
  | negSucc m =>
    rcases List.mem_cons.1 h with rfl | h
    · decide
    · exact isBlank_of_mem_ofNat h

theorem ofInt_ne_nil (n : Int) : Numeral.ofInt n ≠ [] := by
  cases n with
  | ofNat m => exact Nat.toDigits_ne_nil
  | negSucc m => exact List.cons_ne_nil _ _

end Text

/-! ## Arguments -/

namespace Line

theorem argument?_cons_of_isBlank {c : Char} (h : Text.isBlank c) (cs : List Char) :
    argument? (c :: cs) = argument? cs := by
  rw [argument?, argument?, Text.trim_cons_of_isBlank h]

/-- An argument is the text without the blanks around it, if anything is left of it. -/
theorem argument?_eq_some {cs : List Char} (h : Text.trim cs ≠ []) :
    argument? cs = some (String.ofList (Text.trim cs)) := by
  unfold argument?
  split
  · next hnil => exact absurd hnil h
  · next hcons => rw [hcons]

theorem argument?_eq_none {cs : List Char} (h : Text.trim cs = []) : argument? cs = none := by
  rw [argument?, h]

end Line

namespace Order

theorem bindArgument?_trim (cs : List Char) : bindArgument? (Text.trim cs) = bindArgument? cs := by
  rw [bindArgument?, bindArgument?, Text.trim_trim]

/-- An argument asks for the same without the blanks around it. One that is to be a binding and is
none is told as it is. -/
theorem ofArgument_argument? (kind : CommandKind) (arg : String)
    (h : kind = .bind → bindArgument? arg.toList ≠ none) :
    ofArgument kind (Line.argument? arg.toList) = ofArgument kind (some arg) := by
  have htoken := Text.map_fst_token?_trim arg.toList
  by_cases hnil : Text.trim arg.toList = []
  · rw [Line.argument?_eq_none hnil]
    rw [hnil] at htoken
    have hnone : Text.token? arg.toList = none := Option.map_eq_none_iff.1 htoken.symm
    cases kind with
    | add => simp [ofArgument, hnone]
    | conf => simp [ofArgument, hnil]
    | bind =>
      refine absurd ?_ (h rfl)
      rw [← bindArgument?_trim, hnil]
      rfl
    | init | start | stop | del => rfl
  · rw [Line.argument?_eq_some hnil]
    cases kind with
    | add =>
      simp only [ofArgument, Option.bind_some, String.toList_ofList]
      cases h' : Text.token? (Text.trim arg.toList) with
      | none =>
        rw [h'] at htoken
        rw [Option.map_eq_none_iff.1 htoken.symm]
      | some p =>
        rw [h'] at htoken
        obtain ⟨q, hq, hfst⟩ := Option.map_eq_some_iff.1 htoken.symm
        rw [hq]
        exact congrArg (fun w => Except.ok (Order.add (String.ofList w))) hfst.symm
    | conf => simp [ofArgument, Text.trim_trim]
    | bind =>
      obtain ⟨p, hp⟩ := Option.ne_none_iff_exists'.1 (h rfl)
      simp [ofArgument, bindArgument?_trim, hp]
    | init | start | stop | del => rfl

end Order

/-! ## Commands as lines -/

theorem Text.trim_of_not_isBlank {cs : List Char} (h : ∀ c ∈ cs, isBlank c = false) :
    trim cs = cs := by
  cases cs with
  | nil => rfl
  | cons c cs =>
    rw [trim, trimStart_cons_of_not_isBlank (h c (.head _)), trimEnd_eq_rdropWhile,
      List.rdropWhile_eq_self_iff]
    intro hne
    simp [h _ (List.getLast_mem hne)]

theorem Text.cutAt?_append {c : Char} {as : List Char} (h : c ∉ as) (bs : List Char) :
    cutAt? c (as ++ c :: bs) = some (as, bs) := by
  induction as with
  | nil => simp [cutAt?]
  | cons a as ih =>
    rw [List.mem_cons, not_or] at h
    simp [cutAt?, Ne.symm h.1, ih h.2]

theorem Text.colon_not_mem_ofInt (n : Int) : ':' ∉ Numeral.ofInt n := by
  have hdigits : ∀ m : Nat, ':' ∉ Numeral.ofNat m := fun m hm => by
    have hdigit := Nat.isDigit_of_mem_toDigits (by decide) (by decide) hm
    exact absurd hdigit (by decide)
  cases n with
  | ofNat m => exact hdigits m
  | negSucc m =>
    rw [Numeral.ofInt, List.mem_cons, not_or]
    exact ⟨by decide, hdigits (m + 1)⟩

theorem toList_textOfInt32 (n : Int32) : (textOfInt32 n).toList = Text.Numeral.ofInt n.toInt :=
  String.toList_ofList

/-- The argument of a binding is read as it was written. -/
theorem Order.bindArgument?_bindArgument (port : Port) (dest : BlockId) :
    bindArgument? (Command.bindArgument port dest).toList = some (port, dest) := by
  have htext : (Command.bindArgument port dest).toList =
      Text.Numeral.ofInt port.toInt ++ ':' :: Text.Numeral.ofInt dest.value.toInt := by
    simp [Command.bindArgument, BlockId.toText, toString, toList_textOfInt32]
  have hblank : ∀ n : Int, ∀ c ∈ Text.Numeral.ofInt n, Text.isBlank c = false := fun n c hc =>
    Text.isBlank_of_mem_ofInt hc
  rw [htext, bindArgument?, Text.trim_of_not_isBlank,
    Text.cutAt?_append (Text.colon_not_mem_ofInt _)]
  · simp [Text.trim_of_not_isBlank (hblank _), Text.Numeral.readInt32?_ofInt]
  · intro c hc
    rcases List.mem_append.1 hc with hc | hc
    · exact hblank _ c hc
    · rcases List.mem_cons.1 hc with rfl | hc
      · decide
      · exact hblank _ c hc

/-- The argument of a command asks for the same without the blanks around it. -/
theorem Order.ofArgument_arg? (c : Command) :
    ofArgument c.kind (c.arg?.bind fun arg => Line.argument? arg.toList) =
      ofArgument c.kind c.arg? := by
  cases c with
  | add id type => exact ofArgument_argument? .add type fun h => by cases h
  | conf id entry => exact ofArgument_argument? .conf entry fun h => by cases h
  | bind id port dest =>
    have hread : bindArgument? (Command.bindArgument port dest).toList ≠ none := by
      rw [bindArgument?_bindArgument]
      exact Option.some_ne_none _
    simp only [Command.kind, Command.arg?, Option.bind_some]
    exact ofArgument_argument? .bind _ fun _ => hread
  | start | stop | del => rfl

end BlockFlow
