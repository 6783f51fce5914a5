import BlockFlow.Proofs.FileLoading
import BlockFlow.Proofs.Refusal

/-!
# Lines that fail

A line that fails might as well not have been there. Its command looks first whether it can be
carried out, and if it cannot, it does nothing but tell so; and as the record is never read, the
lines after it do what they would have done without it. So a text does the same without the lines
of it that fail.

1. `Run.IsInert`: a run that, where it fails, does no more than fail; `isInert_line`: lines do so.
2. `Text.fullLines`: the lines of a text with their ends; `AreFull.lines_flatten`: lines that are put
   together are cut apart again. `Run.pruned`: a text without the lines that have failed.
3. `loadText_eq`: what is done for a text; `failing_lines_are_inert`: what fails counts for nothing.
-/

namespace BlockFlow

open Text (nonblank)

variable {K : Kit} {ε α β : Type}

def Notice.isAny : Notice → Bool := fun _ => true

namespace Run

/-! ## Runs that fail -/

/-- Wherever the run is done, it does the same as failing at once but for notices, or it does not
fail. -/
def IsInert (r : Run K (Except ε α)) : Prop :=
  ∀ s : Machine K, (∃ e, r.Concurs Notice.isAny Eq s (pure (.error e)) s) ∨
    ∀ e t, s.run? r ≠ some (.ok (.error e), t)

theorem isInert_refuse (n : Notice) (e : ε) : (refuse n e : Run K (Except ε α)).IsInert :=
  fun _ => .inl ⟨e, .after_notice rfl rfl fun _ ht => concurs_pure rfl ht⟩

theorem Succeeds.isInert {r : Run K (Except ε α)} (h : r.Succeeds) : r.IsInert :=
  fun s => .inr fun e _ hrun => (h s).result hrun e rfl

namespace IsInert

theorem after_manager {f : Manager K → Run K (Except ε α)} (h : ∀ m, (f m).IsInert) :
    (do f (← manager) : Run K (Except ε α)).IsInert := by
  intro s
  rcases h s.manager s with ⟨e, he⟩ | hne
  · exact .inl ⟨e, he.result, he.moments⟩
  · exact .inr hne

theorem after_notice {r : Run K (Except ε α)} (h : r.IsInert) (n : Notice) :
    (do notify n; r : Run K (Except ε α)).IsInert := by
  intro s
  have hnotice := Machine.hushed_notice (p := Notice.isAny) (n := n) rfl s
  rcases h { s with events := .notice n :: s.events } with ⟨e, he⟩ | hne
  · have hpure := he.trans (concurs_pure (Q := Eq) rfl hnotice)
    refine .inl ⟨e, (?_ : Concurs ..)⟩
    exact ⟨(hpure.mono fun _ _ ⟨_, h, h'⟩ => h.trans h').result, hpure.moments⟩
  · exact .inr hne

theorem mapError {r : Run K (Except ε α)} (h : r.IsInert) {ε' : Type} (f : ε → ε') :
    (do return (← r).mapError f : Run K (Except ε' α)).IsInert := by
  intro s
  rcases h s with ⟨e, he⟩ | hne
  · have hmap : (do return (← r).mapError f : Run K (Except ε' α)).Concurs Notice.isAny Eq s
        (pure (.error e) >>= fun x : Except ε α => pure (x.mapError f)) s :=
      he.bind fun x y t t' hxy ht => concurs_pure (by rw [hxy]) ht
    exact .inl ⟨f e, hmap⟩
  · refine .inr fun e t hrun => ?_
    obtain ⟨x, u, hx, hpure⟩ := exists_of_run?_bind hrun
    cases x with
    | ok a => cases hpure
    | error e' => exact hne e' u hx

theorem withIdle {id : BlockId} {f : Entry K → K.Contents → Run K (Except EngineError α)}
    (h : ∀ entry contents, (f entry contents).IsInert) : (withIdle id f).IsInert := by
  unfold Run.withIdle
  refine .after_manager fun m => ?_
  cases m.blocks.get? id with
  | none => exact isInert_refuse _ _
  | some entry =>
    dsimp only
    cases entry.contents with
    | none => exact isInert_refuse _ _
    | some contents => exact h entry contents

end IsInert

theorem OnIdle.isInert {id : BlockId} {r : Run K (Except EngineError α)} (h : r.OnIdle id) :
    r.IsInert := by
  obtain ⟨f, rfl, hf⟩ := h
  exact .withIdle fun entry contents => (hf entry contents).isInert

/-! ## Lines -/

/-- A factory that builds nothing leaves the host as it is, so that nothing later depends on it. -/
def FailsCleanly (K : Kit) : Prop :=
  ∀ (factory : K.Factory) (h : Host), (K.build factory h).1 = none → (K.build factory h).2 = h

theorem isInert_add (hK : FailsCleanly K) (id : BlockId) (type : String) :
    (add id type : Run K _).IsInert := by
  unfold add
  refine .after_manager fun m => ?_
  split
  · exact isInert_refuse _ _
  split
  · exact isInert_refuse _ _
  split
  · exact isInert_refuse _ _
  next factory _ =>
  intro s
  cases hmade : (K.build factory s.host).1 with
  | none =>
    refine .inl ⟨.constructionFailed type, .after_onHost ?_⟩
    rw [hmade, hK factory s.host hmade]
    exact .after_notice rfl rfl fun _ ht => concurs_pure rfl ht
  | some contents =>
    refine .inr fun e t hrun => ?_
    obtain ⟨made, u, hbuild, hrest⟩ := exists_of_run?_bind hrun
    obtain rfl : (K.build factory s.host).1 = made := Except.ok.inj (congrArg Prod.fst
      (Option.some.inj hbuild))
    rw [hmade] at hrest
    refine Abides.result (T := .free) (Q := fun x _ => ∀ e, x ≠ .error e) ?_ hrest e rfl
    exact Succeeds.after (fun _ => .after (fun _ => .after (fun _ => succeeds_ok _) _) _) _ u

theorem isInert_bind (call : Call K) (id : BlockId) (port : Port) (dest : BlockId) :
    (bind call id port dest).IsInert := by
  obtain ⟨r, hr, heq⟩ := bind_eq call id port dest
  rw [heq]
  refine .after_manager fun m => ?_
  split
  · exact hr.isInert
  · exact isInert_refuse _ _

theorem isInert_del (id : BlockId) : (del id : Run K _).IsInert := by
  refine .withIdle fun entry contents => ?_
  cases entry.state with
  | started => exact isInert_refuse _ _
  | stopped =>
    refine .after_manager fun m => ?_
    split
    · exact isInert_refuse _ _
    · refine Succeeds.isInert ?_
      exact .after (fun _ =>
        .after (fun _ => .after (fun _ => .after (fun _ => succeeds_ok _) _) _) _) _

theorem isInert_obey (hK : FailsCleanly K) (call : Call K) (id : BlockId) (order : Order) :
    (obey call id order).IsInert := by
  cases order with
  | add type => exact isInert_add hK id type
  | init =>
    refine .after_manager fun m => ?_
    split
    · exact (Succeeds.after (fun _ => succeeds_ok _) _).isInert
    · exact isInert_refuse _ _
  | conf entry => exact (onIdle_conf call id entry).isInert
  | bind port dest => exact isInert_bind call id port dest
  | start => exact (onIdle_start call id).isInert
  | stop => exact (onIdle_stop call id).isInert
  | del => exact isInert_del id

/-- A line that fails does no more than fail. -/
theorem isInert_line (hK : FailsCleanly K) (call : Call K) (cs : List Char) :
    (line call cs).IsInert := by
  unfold line
  split
  · exact isInert_refuse _ _
  · exact isInert_refuse _ _
  unfold exec
  refine IsInert.after_notice ?_ _
  split
  · exact isInert_refuse _ _
  split
  · exact isInert_refuse _ _
  · exact isInert_refuse _ _
  · exact (isInert_obey hK call _ _).mapError _

end Run

/-! ## Lines with their ends -/

namespace Text

/-- Pieces with the line feeds that follow them; an empty last piece is no line. -/
def fullPieces : List (List Char) → List (List Char)
  | [] => []
  | [last] => if last.isEmpty then [] else [last]
  | piece :: pieces => (piece ++ ['\n']) :: fullPieces pieces

/-- The lines of a text with their ends. -/
def fullLines (cs : List Char) : List (List Char) := fullPieces (piecesBy (· == '\n') cs)

/-- A line without its end. -/
def lineOf (l : List Char) : List Char :=
  if l.getLast? = some '\n' then dropReturn l.dropLast else l

/-- Lines with their ends: only the last one may lack its line feed. -/
inductive AreFull : List (List Char) → Prop
  | nil : AreFull []
  | last {l : List Char} (hne : l ≠ []) (h : '\n' ∉ l) : AreFull [l]
  | cons {l : List Char} {ls : List (List Char)} (h : '\n' ∉ l) (hls : AreFull ls) :
    AreFull ((l ++ ['\n']) :: ls)

variable {l cs : List Char} {ls ls' pieces : List (List Char)}

theorem AreFull.sublist (h : AreFull ls) (hsub : ls'.Sublist ls) : AreFull ls' := by
  induction h generalizing ls' with
  | nil =>
    rw [List.sublist_nil.1 hsub]
    exact .nil
  | last hne hl =>
    rcases List.sublist_singleton.1 hsub with rfl | rfl
    · exact .nil
    · exact .last hne hl
  | cons hl _ ih =>
    cases hsub with
    | cons _ hsub => exact ih hsub
    | cons_cons _ hsub => exact .cons hl (ih hsub)

theorem areFull_fullPieces (h : ∀ piece ∈ pieces, '\n' ∉ piece) : AreFull (fullPieces pieces) := by
  induction pieces with
  | nil => exact .nil
  | cons piece pieces ih =>
    obtain ⟨hpiece, hpieces⟩ := List.forall_mem_cons.1 h
    cases pieces with
    | nil =>
      rw [fullPieces]
      split
      · exact .nil
      · next hne => exact .last (by simpa using hne) hpiece
    | cons piece' pieces => exact .cons hpiece (ih hpieces)

theorem flatten_fullPieces (pieces : List (List Char)) :
    (fullPieces pieces).flatten = ['\n'].intercalate pieces := by
  induction pieces with
  | nil => rfl
  | cons piece pieces ih =>
    cases pieces with
    | nil => cases piece <;> simp [fullPieces]
    | cons piece' pieces =>
      rw [fullPieces, List.flatten_cons, ih, List.intercalate_cons_cons]
      exact nofun

theorem areFull_fullLines (cs : List Char) : AreFull (fullLines cs) :=
  areFull_fullPieces fun _ hpiece hmem =>
    absurd (not_of_mem_piecesBy hpiece '\n' hmem) (by decide)

/-- The lines with their ends are all there is to a text. -/
theorem flatten_fullLines (cs : List Char) : (fullLines cs).flatten = cs := by
  rw [fullLines, flatten_fullPieces, intercalate_piecesBy]

theorem lines_append_cons (h : '\n' ∉ l) (cs : List Char) :
    lines (l ++ '\n' :: cs) = dropReturn l :: lines cs := by
  have hpieces : piecesBy (· == '\n') (l ++ '\n' :: cs) = l :: piecesBy (· == '\n') cs :=
    piecesBy_append_cons (fun c hc => beq_false_of_ne fun heq => h (heq ▸ hc))
      (beq_self_eq_true '\n')
  have hne := piecesBy_ne_nil (· == '\n') cs
  unfold lines
  simp only [hpieces, List.dropLast_cons_of_ne_nil hne, List.getLast_cons hne, List.map_cons,
    List.cons_append]

/-- Full lines that are put together are cut apart again. -/
theorem AreFull.lines_flatten (h : AreFull ls) : lines ls.flatten = ls.map lineOf := by
  induction h with
  | nil => rfl
  | @last l hne hl =>
    have hpieces : piecesBy (· == '\n') l = [l] :=
      piecesBy_of_forall_not fun c hc => beq_false_of_ne fun heq => hl (heq ▸ hc)
    have hlast : l.getLast? ≠ some '\n' := fun h => hl (List.mem_of_getLast? h)
    rw [List.flatten_singleton, List.map_singleton, lineOf, if_neg hlast]
    unfold lines
    simp [hpieces, hne]
  | @cons l ls hl _ ih =>
    have hlast : (l ++ ['\n']).getLast? = some '\n' := List.getLast?_concat
    rw [List.flatten_cons, List.append_assoc, List.singleton_append, lines_append_cons hl, ih,
      List.map_cons, lineOf, if_pos hlast, List.dropLast_concat]

/-- The lines of a text are its full lines without their ends. -/
theorem lines_eq (cs : List Char) : lines cs = (fullLines cs).map lineOf := by
  rw [← (areFull_fullLines cs).lines_flatten, flatten_fullLines]

end Text

/-! ## A text without the lines that fail -/

namespace Run

/-- Full lines without those that have failed; blank ones have no result. -/
def successful : List (Except CommandError Unit) → List (List Char) → List (List Char)
  | _, [] => []
  | results, l :: ls =>
    if Text.isBlankText (Text.lineOf l) then l :: successful results ls
    else
      match results with
      | [] => l :: successful [] ls
      | .ok _ :: results => l :: successful results ls
      | .error _ :: results => successful results ls

/-- A text without the lines that have failed. -/
def pruned (results : List (Except CommandError Unit)) (text : String) : String :=
  String.ofList (successful results (Text.fullLines text.toList)).flatten

theorem successful_sublist (results : List (Except CommandError Unit)) (ls : List (List Char)) :
    (successful results ls).Sublist ls := by
  induction ls generalizing results with
  | nil => exact List.nil_sublist _
  | cons l ls ih =>
    unfold successful
    split
    · exact (ih _).cons_cons _
    split
    · exact (ih _).cons_cons _
    · exact (ih _).cons_cons _
    · exact (ih _).cons _

theorem lines_pruned (results : List (Except CommandError Unit)) (text : String) :
    Text.lines (pruned results text).toList =
      (successful results (Text.fullLines text.toList)).map Text.lineOf := by
  rw [pruned, String.toList_ofList]
  exact ((Text.areFull_fullLines _).sublist (successful_sublist _ _)).lines_flatten

/-! ## What is done for a text -/

/-- Lines are executed one after the other if they are not blank, and counted. -/
theorem applyLines_map_ok (call : Call K) (number : Nat) (tally : Tally) (css : List (List Char)) :
    applyLines call number tally (css.map .ok) = do
      let results ← (nonblank css).mapM (line call)
      return ⟨tally.failed + failures results, tally.total + (nonblank css).length⟩ := by
  induction css generalizing number tally with
  | nil => simp [applyLines, nonblank, failures]
  | cons cs css ih =>
    rw [List.map_cons, applyLines, Text.nonblank_cons]
    by_cases hblank : Text.isBlankText cs
    · rw [if_pos hblank, if_pos hblank, ih]
    · rw [if_neg hblank, if_neg hblank, List.mapM_cons, bind_assoc]
      refine bind_congr fun x => ?_
      rw [ih, bind_assoc]
      refine bind_congr fun results => ?_
      obtain ⟨hfailed, htotal⟩ := count_failures tally x results
      rw [hfailed, htotal, pure_bind, List.length_cons, Nat.add_assoc, Nat.add_comm 1]

/-- A text is executed line by line, and its result counts the failures. -/
theorem loadText_eq (call : Call K) (text : String) :
    loadText call text = do
      let results ← (nonblank (Text.lines text.toList)).mapM (line call)
      return if failures results = 0 then .ok ()
        else .error (.rejected (failures results) (entries text)) := by
  rw [loadText, applyLines_map_ok, bind_assoc]
  simp only [pure_bind, Nat.zero_add, Tally.result, entries]

theorem blind_line (n : Nat) (cs : List Char) : (line (K := K) (callHook n) cs).Blind :=
  (operates_line cs).made.blind (blind_callHook n)

/-- The lines that have not failed do the same without those that have, and do not fail either. By
induction on the lines: the machine without those that have failed is the same but for notices. -/
theorem concurs_successful (hK : FailsCleanly K) (n : Nat) {ls : List (List Char)}
    {results : List (Except CommandError Unit)} {s s' t : Machine K}
    (hs : s.hushed Notice.isAny = s'.hushed Notice.isAny)
    (hrun : s.run? ((nonblank (ls.map Text.lineOf)).mapM (line (callHook n))) =
      some (.ok results, t)) :
    ((nonblank (ls.map Text.lineOf)).mapM (line (callHook n))).Concurs Notice.isAny
      (fun _ results' => failures results' = 0) s
      ((nonblank ((successful results ls).map Text.lineOf)).mapM (line (callHook n))) s' := by
  induction ls generalizing results s s' t with
  | nil => exact concurs_pure rfl hs
  | cons l ls ih =>
    rw [List.map_cons, Text.nonblank_cons] at hrun ⊢
    unfold successful
    by_cases hblank : Text.isBlankText (Text.lineOf l)
    · rw [if_pos hblank] at hrun ⊢
      rw [if_pos hblank, List.map_cons, Text.nonblank_cons, if_pos hblank]
      exact ih hs hrun
    · rw [if_neg hblank, List.mapM_cons] at hrun ⊢
      rw [if_neg hblank]
      obtain ⟨x, u, hx, hrest⟩ := exists_of_run?_bind hrun
      obtain ⟨xs, v, hxs, hpure⟩ := exists_of_run?_bind hrest
      obtain rfl : results = x :: xs := (Except.ok.inj (congrArg Prod.fst
        (Option.some.inj hpure))).symm
      cases x with
      | ok a =>
        dsimp only
        rw [List.map_cons, Text.nonblank_cons, if_neg hblank, List.mapM_cons]
        refine ((blind_line n _).concurs hs).bind_of_run? fun y y' w w' hw hy hu => ?_
        cases hx.symm.trans hw
        refine (ih hu hxs).bind fun ys ys' z z' hys hz => concurs_pure ?_ hz
        rw [← hy]
        exact hys
      | error e =>
        dsimp only
        rcases isInert_line hK (callHook n) (Text.lineOf l) s with ⟨e', he⟩ | hne
        · -- What has failed is done as nothing at all.
          have hnothing := he.trans (concurs_pure (Q := Eq) rfl hs)
          show Concurs _ _ _ s (pure (.error e' : Except CommandError Unit) >>= fun _ =>
            (nonblank ((successful xs ls).map Text.lineOf)).mapM (line (callHook n))) s'
          refine hnothing.bind_of_run? fun y y' w w' hw _ hu => ?_
          cases hx.symm.trans hw
          rw [← bind_pure ((nonblank ((successful xs ls).map Text.lineOf)).mapM _)]
          exact (ih hu hxs).bind fun ys ys' z z' hys hz => concurs_pure hys hz
        · exact absurd hx (hne e u)

end Run

open Run

/-- **Lines that fail are inert.** To execute a text is to execute each of its lines that is not
blank, in order; the result tells whether all of them succeed, or how many fail out of how many.
Whenever the lines come to their results, the text without just those that fail succeeds from the
same machine: the same hooks are called, at the same machines, and the same machine is left, but for
notices. This is so for all hooks, and for factories that leave nothing behind when they fail. -/
theorem failing_lines_are_inert (hK : FailsCleanly K) (n : Nat) (text : String) :
    loadText (callHook n) text = (do
      let results ← (nonblank (Text.lines text.toList)).mapM (line (K := K) (callHook n))
      return if failures results = 0 then .ok ()
        else .error (.rejected (failures results) (entries text))) ∧
    ∀ (s t : Machine K) (results : List (Except CommandError Unit)),
      s.run? ((nonblank (Text.lines text.toList)).mapM (line (callHook n))) =
        some (.ok results, t) →
      ∃ t', s.run? (loadText (callHook n) (pruned results text)) = some (.ok (.ok ()), t') ∧
        t'.hushed Notice.isAny = t.hushed Notice.isAny ∧
        ((loadText (callHook n) (pruned results text)).moments s).map (·.hushed Notice.isAny) =
          ((loadText (callHook n) text).moments s).map (·.hushed Notice.isAny) := by
  refine ⟨loadText_eq _ text, fun s t results hresults => ?_⟩
  have hlines := hresults
  rw [Text.lines_eq] at hlines
  have hconcurs := concurs_successful hK n (Eq.refl (s.hushed _)) hlines
  rw [← lines_pruned, ← Text.lines_eq] at hconcurs
  have hload : (loadText (callHook n) text).Concurs Notice.isAny (fun _ y => y = .ok ()) s
      (loadText (callHook n) (pruned results text)) s := by
    rw [loadText_eq, loadText_eq]
    refine hconcurs.bind fun xs ys v v' hys hv => concurs_pure ?_ hv
    rw [if_pos hys]
  have hend := hload.result
  rw [loadText_eq, run?_bind, hresults] at hend
  obtain ⟨y, t', hrun', rfl, ht⟩ := hend.exists_of_some
  exact ⟨t', hrun', ht.symm, hload.moments.symm⟩

/-- A text with a blank line, a line that is no command, and a block that is not there. -/
def faultyText : String := "0 1 hello\r\n\nwhat\n4 2\n4 1"

/-- A block is added and started, whether the lines between that fail are there or not. -/
theorem failing_lines_are_inert_faultyText :
    FailsCleanly Builtin.kit ∧
      ∃ results t t',
        mixedFile.run? (loadText (callHook 3) faultyText) =
          some (.ok (.error (.rejected 2 4)), t) ∧
        pruned results faultyText = "0 1 hello\r\n\n4 1" ∧
        mixedFile.run? (loadText (callHook 3) (pruned results faultyText)) =
          some (.ok (.ok ()), t') ∧
        t'.hushed Notice.isAny = t.hushed Notice.isAny := by
  have hclean : FailsCleanly Builtin.kit := fun _ _ h => nomatch h
  have hlines : (mixedFile.run? ((nonblank (Text.lines faultyText.toList)).mapM
      (line (callHook 3)))).map (·.1) = some (.ok [.ok (), .error (.malformedLine "what"),
        .error (.engine (.blockNotFound ⟨2⟩)), .ok ()]) := by rfl
  obtain ⟨⟨_, t⟩, hresults, rfl⟩ := Option.map_eq_some_iff.1 hlines
  obtain ⟨heq, hinert⟩ := failing_lines_are_inert hclean 3 faultyText
  obtain ⟨t', hrun', hsame, -⟩ := hinert mixedFile t _ hresults
  refine ⟨hclean, _, t, t', ?_, by decide, hrun', hsame⟩
  rw [heq, run?_bind, hresults]
  rfl

end BlockFlow
