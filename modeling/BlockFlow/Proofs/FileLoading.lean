import BlockFlow.Block.Builtin
import BlockFlow.Proofs.CommandForm
import BlockFlow.Proofs.Concur
import BlockFlow.Proofs.LineEnds
import BlockFlow.Proofs.Operations

/-!
# Files and texts

The lines of a file are cut out of its bytes and read one by one, those of a text out of its
characters. The cuts differ: in a file a carriage return stays with its line, and what follows the
last line feed is a line even if it is empty. Both come to the same lines but for blanks at their
ends, and so to the same commands.

1. `Text.intact`, `Text.damaged`: lines that were read, and those that are no text.
2. `Notice.isOfLoading`: the notices in which files and texts differ; `concurs_line`: a line does the
   same without the blanks at its end.
3. `concurs_applyLines`: executing lines is executing those that are not blank, without the blanks
   at their ends; what is no text fails.
4. `files_as_texts`: a file does what the text does that is left of it.
-/

namespace BlockFlow

open Text (lineFeed nonblank trimEnd piecesBy)

variable {K : Kit}

/-! ## Lines that are text -/

namespace Text

open Utf8 (encode decode Damage)

/-- Bytes that some text is written as. -/
def Utf8.IsText (bs : List UInt8) : Prop := ∃ cs, bs = encode cs

theorem Utf8.isText_iff {bs : List UInt8} : IsText bs ↔ (decode bs).isOk = true := by
  constructor
  · rintro ⟨cs, h⟩
    rw [decode_eq_ok_iff.2 h]
    rfl
  · intro h
    cases hbs : decode bs with
    | ok cs => exact ⟨cs, decode_eq_ok_iff.1 hbs⟩
    | error d =>
      rw [hbs] at h
      cases h

instance : DecidablePred Utf8.IsText := fun _ => decidable_of_iff' _ Utf8.isText_iff

def intact (ls : List (Except Damage (List Char))) : List (List Char) :=
  ls.filterMap Except.toOption

def damaged (ls : List (Except Damage (List Char))) : Nat := ls.countP (!·.isOk)

variable {ls : List (Except Damage (List Char))}

@[simp]
theorem intact_cons_ok (cs : List Char) : intact (.ok cs :: ls) = cs :: intact ls := rfl

@[simp]
theorem intact_cons_error (d : Damage) : intact (.error d :: ls) = intact ls := rfl

@[simp]
theorem damaged_cons_ok (cs : List Char) : damaged (.ok cs :: ls) = damaged ls := rfl

@[simp]
theorem damaged_cons_error (d : Damage) : damaged (.error d :: ls) = damaged ls + 1 :=
  List.countP_cons_of_pos rfl

theorem intact_map_ok (css : List (List Char)) : intact (css.map .ok) = css := by
  induction css with
  | nil => rfl
  | cons cs css ih => rw [List.map_cons, intact_cons_ok, ih]

theorem damaged_map_ok (css : List (List Char)) : damaged (css.map .ok) = 0 := by
  induction css with
  | nil => rfl
  | cons cs css ih => rw [List.map_cons, damaged_cons_ok, ih]

theorem decode_map_encode (css : List (List Char)) :
    (css.map encode).map decode = css.map .ok := by
  rw [List.map_map]
  exact List.map_congr_left fun _ _ => Utf8.decode_eq_ok_iff.2 rfl

/-- The lines that are text, as bytes. -/
theorem map_encode_intact (bss : List (List UInt8)) :
    (intact (bss.map decode)).map encode = bss.filter (Utf8.IsText ·) := by
  induction bss with
  | nil => rfl
  | cons bs bss ih =>
    rw [List.map_cons]
    cases hbs : decode bs with
    | ok cs =>
      have htext : Utf8.IsText bs := ⟨cs, Utf8.decode_eq_ok_iff.1 hbs⟩
      rw [intact_cons_ok, List.map_cons, ih, List.filter_cons, if_pos (decide_eq_true htext),
        Utf8.decode_eq_ok_iff.1 hbs]
    | error d =>
      have htext : ¬ Utf8.IsText bs := fun h => by
        rw [Utf8.isText_iff, hbs] at h
        cases h
      rw [intact_cons_error, ih, List.filter_cons, if_neg (by simpa using htext)]

theorem damaged_map_decode (bss : List (List UInt8)) :
    damaged (bss.map decode) = bss.countP (¬ Utf8.IsText ·) := by
  unfold damaged
  rw [List.countP_map]
  refine List.countP_congr fun bs _ => ?_
  simp [Utf8.isText_iff]

end Text

/-! ## One line -/

/-- The notices in which files and texts may differ: the words of a line that is no command, a line
that is no text, and the end of a file. -/
def Notice.isOfLoading : Notice → Bool
  | .lineMalformed _ | .lineNotText .. | .fileApplied _ | .fileRejected .. => true
  | _ => false

namespace Run

variable {s s' : Machine K}

theorem blind_exec (n : Nat) (kind : CommandKind) (id : BlockId) (arg : Option String) :
    (exec (K := K) (callHook n) kind id arg).Blind :=
  (operates_exec kind id arg).made.blind (blind_callHook n)

/-- A line does the same without the blanks at its end, but for the words of what it tells. -/
theorem concurs_line (n : Nat) (cs : List Char)
    (hs : s.hushed Notice.isOfLoading = s'.hushed Notice.isOfLoading) :
    (line (callHook n) cs).Concurs Notice.isOfLoading (fun x y => x.isOk = y.isOk) s
      (line (callHook n) (trimEnd cs)) s' := by
  unfold line
  rw [Line.parse_trimEnd]
  cases Line.parse cs with
  | error fault =>
    cases fault with
    | malformed =>
      have hnotice {l l' : String} :=
        ((Machine.hushed_notice (n := .lineMalformed l) rfl s).trans hs).trans
          (Machine.hushed_notice (n := .lineMalformed l') rfl s').symm
      exact ⟨.ok rfl hnotice, rfl⟩
    | unknownCode code =>
      exact ((blind_refuse _ _).concurs hs).mono fun x y hxy => by rw [hxy]
  | ok parts =>
    exact ((blind_exec n parts.1 parts.2.1 parts.2.2).concurs hs).mono fun x y hxy => by rw [hxy]

/-! ## Lines -/

theorem count_congr {x y : Except CommandError Unit} (h : x.isOk = y.isOk) (tally : Tally) :
    tally.count x = tally.count y := by
  cases x with
  | ok => cases y with
    | ok => rfl
    | error => cases h
  | error => cases y with
    | ok => cases h
    | error => rfl

/-- Lines are executed as those are that are not blank, without the blanks at their ends; those that
are no text fail. -/
theorem concurs_applyLines (n number : Nat) (tally : Tally)
    (ls : List (Except Text.Utf8.Damage (List Char)))
    (hs : s.hushed Notice.isOfLoading = s'.hushed Notice.isOfLoading) :
    (applyLines (callHook n) number tally ls).Concurs Notice.isOfLoading
      (fun tally' results => tally' =
        ⟨tally.failed + (failures results + Text.damaged ls),
          tally.total + ((nonblank (Text.intact ls)).length + Text.damaged ls)⟩) s
      (((nonblank (Text.intact ls)).map trimEnd).mapM (line (callHook n))) s' := by
  induction ls generalizing number tally s s' with
  | nil => exact concurs_pure rfl hs
  | cons l ls ih =>
    cases l with
    | error damage =>
      refine .after_notice rfl hs fun t ht => (ih _ _ ht).mono fun tally' results h => ?_
      rw [h, Text.damaged_cons_error, Text.intact_cons_error]
      simp only [Tally.count, Tally.mk.injEq]
      omega
    | ok cs =>
      unfold applyLines
      rw [Text.intact_cons_ok, Text.damaged_cons_ok, Text.nonblank_cons]
      by_cases hblank : Text.isBlankText cs
      · rw [if_pos hblank, if_pos hblank]
        exact ih _ _ hs
      · rw [if_neg hblank, if_neg hblank, List.map_cons, List.mapM_cons]
        refine (concurs_line n cs hs).bind fun x y t t' hxy ht => ?_
        rw [← bind_pure (applyLines _ _ _ _)]
        refine (ih _ _ ht).bind fun tally' results u u' htally hu => concurs_pure ?_ hu
        obtain ⟨hfailed, htotal⟩ := count_failures tally y results
        rw [htally, count_congr hxy, List.length_cons, htotal]
        simp only [Tally.mk.injEq]
        omega

/-! ## Texts and files -/

def applyFile (call : Call K) (path : String) (content : List UInt8) :
    Run K (Except CommandError Unit) := do
  let tally ← applyLines call 1 {} ((piecesBy (· == lineFeed) content).map Text.Utf8.decode)
  match tally.result with
  | .ok () => notify (.fileApplied path)
  | .error cause => notify (.fileRejected path cause)
  return tally.result

theorem Concurs.of_applyFile {p : Notice → Bool} {α : Type} {Q : α → Except CommandError Unit → Prop}
    {r : Run K α} {call : Call K} {path : String} {content : List UInt8}
    (h : r.Concurs p Q s (applyFile call path content) s')
    (hread : s'.host.files.read path = .ok content) :
    r.Concurs p Q s (loadFile call path) s' := by
  unfold loadFile
  refine .before_host ?_
  rw [hread]
  exact h

/-- The number of lines of a text that are executed. -/
def entries (text : String) : Nat := (nonblank (Text.lines text.toList)).length

/-- What the results of a text and of a file tell: so many lines have failed out of all lines of the
text, and so many more lines of the file are no text. -/
def BothTell (total damaged : Nat) (x y : Except CommandError Unit) : Prop :=
  ∃ failed, x = Tally.result ⟨failed, total⟩ ∧
    y = Tally.result ⟨failed + damaged, total + damaged⟩

/-- A file does what a text does that has the same lines, but for those that are no text. -/
theorem concurs_loadFile {path : String} {content : List UInt8}
    (hread : s.host.files.read path = .ok content) {text : String}
    {ls : List (Except Text.Utf8.Damage (List Char))}
    (hls : (piecesBy (· == lineFeed) content).map Text.Utf8.decode = ls)
    (htext : nonblank (piecesBy (· == '\n') text.toList) = nonblank (Text.intact ls)) (n : Nat) :
    (loadText (callHook n) text).Concurs Notice.isOfLoading
      (BothTell (entries text) (Text.damaged ls)) s (loadFile (callHook n) path) s := by
  have hlines := Text.map_trimEnd_lines text.toList
  rw [htext] at hlines
  have hlength : entries text = (nonblank (Text.intact ls)).length := by
    have := congrArg List.length hlines
    rwa [List.length_map, List.length_map] at this
  have hofText := concurs_applyLines n 1 {} ((Text.lines text.toList).map .ok) (Eq.refl (s.hushed _))
  rw [Text.intact_map_ok, Text.damaged_map_ok, hlines] at hofText
  have hofFile := (concurs_applyLines n 1 {} ls (Eq.refl (s.hushed _))).symm
  refine Concurs.of_applyFile ?_ hread
  unfold applyFile
  rw [hls]
  refine (hofText.trans hofFile).bind fun tally tally' t t' htallies ht => ?_
  obtain ⟨results, htally, htally'⟩ := htallies
  have hend : ∀ (note : Notice) (y : Except CommandError Unit), Notice.isOfLoading note →
      tally'.result = y → (pure tally.result : Run K _).Concurs Notice.isOfLoading
        (BothTell (entries text) (Text.damaged ls)) t (notify note >>= fun _ => pure y) t' := by
    rintro note _ hnote rfl
    refine (Concurs.after_notice hnote ht.symm fun u hu => ?_).symm
    refine concurs_pure ⟨failures results, ?_, ?_⟩ hu
    · rw [htally, ← entries]
      simp
    · rw [htally', hlength]
      simp
  cases hresult : tally'.result with
  | ok u => exact hend (.fileApplied path) (.ok u) rfl hresult
  | error cause => exact hend (.fileRejected path cause) (.error cause) rfl hresult

end Run

open Run

/-! ## Every file is a text, but for lines that are none -/

/-- What is left of bytes that are cut into lines is a text of the lines that are texts. -/
theorem Text.nonblank_piecesBy_intercalate {css : List (List Char)}
    (h : ∀ cs ∈ css, '\n' ∉ cs) :
    nonblank (piecesBy (· == '\n') (['\n'].intercalate css)) = nonblank css := by
  by_cases hnil : css = []
  · rw [hnil]
    decide
  · rw [piecesBy_intercalate '\n' hnil h]

theorem Text.newline_not_mem_intact {content : List UInt8} {cs : List Char}
    (h : cs ∈ intact ((piecesBy (· == lineFeed) content).map Utf8.decode)) : '\n' ∉ cs := by
  intro hmem
  have hencode : Utf8.encode cs ∈ (intact ((piecesBy (· == lineFeed) content).map Utf8.decode)).map
      Utf8.encode := List.mem_map_of_mem h
  rw [map_encode_intact] at hencode
  have hnot := not_of_mem_piecesBy (List.mem_of_mem_filter hencode) lineFeed
    (List.mem_flatMap.2 ⟨'\n', hmem, by decide⟩)
  exact absurd hnot (by decide)

/-- **Files do what their texts do.** Let a file be cut into pieces at the line feeds among its
bytes, and let some of the pieces be no text. The other ones, with line feeds between them, are a
text. Executing the file is executing this text: the same hooks are called, and the same machine is
left but for notices about lines and files; each piece that is no text counts as one more line that
has failed. So a file that is written from a text does just what the text does, whatever the ends
of its lines are. -/
theorem files_as_texts {s : Machine K} {path : String} {content : List UInt8}
    (hread : s.host.files.read path = .ok content) (n : Nat) :
    (∃ text : String,
      bytesOf text = [lineFeed].intercalate
        ((piecesBy (· == lineFeed) content).filter (Text.Utf8.IsText ·)) ∧
      (loadText (callHook n) text).Concurs Notice.isOfLoading
        (BothTell (entries text) ((piecesBy (· == lineFeed) content).countP (¬ Text.Utf8.IsText ·)))
        s (loadFile (callHook n) path) s) ∧
    ∀ text : String, content = bytesOf text →
      (loadText (callHook n) text).Concurs Notice.isOfLoading Eq s
        (loadFile (callHook n) path) s := by
  constructor
  · refine ⟨String.ofList (['\n'].intercalate
      (Text.intact ((piecesBy (· == lineFeed) content).map Text.Utf8.decode))), ?_, ?_⟩
    · rw [bytesOf, String.toList_ofList, Text.encode_intercalate, Text.map_encode_intact]
    · rw [← Text.damaged_map_decode]
      refine concurs_loadFile hread rfl ?_ n
      rw [String.toList_ofList]
      exact Text.nonblank_piecesBy_intercalate fun cs hcs => Text.newline_not_mem_intact hcs
  · rintro text rfl
    have hls : (piecesBy (· == lineFeed) (bytesOf text)).map Text.Utf8.decode =
        (piecesBy (· == '\n') text.toList).map .ok := by
      rw [bytesOf, Text.piecesBy_encode, Text.decode_map_encode]
    refine (concurs_loadFile hread hls (by rw [Text.intact_map_ok]) n).mono fun x y hxy => ?_
    obtain ⟨failed, rfl, rfl⟩ := hxy
    rw [Text.damaged_map_ok]
    rfl

/-- Lines with different ends, one of them no text and one of them no command. -/
def mixedLines : List UInt8 :=
  bytesOf "0 1 hello\r\n" ++ [0xFF, lineFeed] ++ bytesOf "what\r\n\n4 1\r"

/-- An engine without blocks, on a host with a file. -/
def mixedFile : Machine Builtin.kit :=
  let way := Host.Files.freshWork ++ [['c']]
  { manager := { (.fresh {} : Manager Builtin.kit) with
      factories := Keyed.empty.insert "hello" .hello }
    host := { Host.manual with files := Host.Files.fresh.put way (.file mixedLines) } }

/-- A block is added and started, by a file and by the text that is left of it. -/
theorem files_as_texts_mixed : ∃ text : String,
    bytesOf text = [lineFeed].intercalate
      ((piecesBy (· == lineFeed) mixedLines).filter (Text.Utf8.IsText ·)) ∧
    (loadText (callHook 3) text).Concurs Notice.isOfLoading
      (BothTell (entries text) ((piecesBy (· == lineFeed) mixedLines).countP (¬ Text.Utf8.IsText ·)))
      mixedFile (loadFile (callHook 3) "c") mixedFile := by
  have hread : mixedFile.host.files.read "c" = .ok mixedLines := by decide
  exact (files_as_texts hread 3).1

end BlockFlow
