import BlockFlow.Proofs.JsonForm
import BlockFlow.Settings

/-!
# Settings in their JSON form

Settings are written as an object with a member for each field. Whatever members are left out, and
in whatever order the others come, what is written is read as the settings with defaults for the
fields that are missing; and these are accepted if they leave room for a descriptor and a hop.

1. `Reads.bind_pure`, `reads_int32`, `reads_uint64`, `Reads.nullable`: readers of simple values.
2. `Settings.excerpt`, `Settings.keeping`: some fields of settings, in JSON and as settings.
3. `Field.reads`, `folds_excerpt`, `reads_excerpt`: a field, all members, and the object.
4. `Settings.Judged`, `judged_check`: which settings are accepted; `written_settings`: all together.
-/

namespace BlockFlow

/-! ## Simple values -/

namespace Json

open Reader
open Text.Utf8 (Piece ofText)
open Text (Numeral.ofInt)

variable {α β : Type} {r : Reader α} {c : Char} {cs : List Char} {a : α}

/-- Something is made of what is read. -/
theorem Reads.bind_pure (h : Reads r cs a) (f : α → β) :
    Reads (r >>= fun a => pure (f a)) cs (f a) := by
  intro rest hrest
  rw [run_bind_of_ok (h rest hrest)]
  rfl

theorem reads_intBetween {lower upper n : Int} (hn : IsExact n) (hlower : lower ≤ n)
    (hupper : n ≤ upper) : Reads (intBetween lower upper) (Numeral.ofInt n) n := by
  intro rest hrest
  unfold intBetween
  rcases run_numeral_ofInt hn hrest with ⟨d, ds, hds, hdigit, hrun⟩ | ⟨ds, hds, hrun⟩
  · have hpeek : peek.run (ofText (d :: ds) ++ rest) = .ok (some d, ofText (d :: ds) ++ rest) :=
      run_peek (isDigit_ne hdigit).1
    rw [hds, run_bind_of_ok hpeek]
    dsimp only
    split
    · next heq =>
      cases heq
      cases hdigit
    · next c heq hc =>
      cases hc
      rw [if_pos hdigit, run_bind_of_ok hrun]
      simp only [hlower, hupper, and_self, if_true]
      rfl
    · next heq => cases heq
  · rw [hds]
    show (peek >>= _ : Reader Int).run (.char '-' :: (ofText ds ++ rest)) = _
    rw [run_bind_of_ok (run_peek rfl)]
    show (skip >>= fun _ => numeral true >>= _ : Reader Int).run _ = _
    rw [run_bind_of_ok run_skip, run_bind_of_ok hrun]
    simp only [hlower, hupper, and_self, if_true]
    rfl

theorem reads_int32 (n : Int32) : Reads int32 (render (.ofInt n.toInt)) n := by
  have hread : Reads (intBetween (-2147483648) 2147483647) (Numeral.ofInt n.toInt) n.toInt :=
    reads_intBetween (isExact_toInt n) n.le_toInt (Int.le_of_lt_add_one n.toInt_lt)
  intro rest hrest
  unfold int32
  refine (run_map_of_ok (hread rest hrest)).trans ?_
  rw [Int32.ofInt_toInt]

theorem reads_uint64 (n : UInt64) : Reads uint64 (render (.ofNat n.toNat)) n := by
  have hlt := n.toNat_lt
  have hint : Reads (intBetween 0 18446744073709551615) (Numeral.ofInt n.toNat) n.toNat :=
    reads_intBetween ⟨by omega, by omega⟩ (by omega) (by omega)
  have hread := hint.bind_pure fun i => UInt64.ofNat i.toNat
  rwa [Int.toNat_natCast, UInt64.ofNat_toNat] at hread

theorem reads_bool (b : Bool) : Reads Reader.bool (render (.bool b)) b := by
  intro rest _
  cases b <;> rfl

theorem reads_nullable_null (r : Reader α) : Reads (nullable r) (render .null) none :=
  fun _ _ => rfl

/-- What does not begin as `null` does is read as a value. -/
theorem Reads.nullable (h : Reads r (c :: cs) a) (hspace : isSpace c = false) (hc : c ≠ 'n') :
    Reads (nullable r) (c :: cs) (some a) := by
  have hpeek (rest : List Piece) :
      peek.run (ofText (c :: cs) ++ rest) = .ok (some c, ofText (c :: cs) ++ rest) :=
    run_peek hspace
  intro rest hrest
  unfold Reader.nullable
  rw [run_bind_of_ok (hpeek rest)]
  split
  · next heq => exact absurd (Option.some.inj heq) hc
  · exact run_map_of_ok (h rest hrest)

theorem reads_nullable_uint64 (n : UInt64) :
    Reads (nullable uint64) (render (.ofNat n.toNat)) (some n) := by
  obtain ⟨d, ds, hds, hdigit, -⟩ := exists_ofNat_eq_cons n.toNat
  have hread : Reads uint64 (d :: ds) n := by
    have h := reads_uint64 n
    rwa [show render (.ofNat n.toNat) = d :: ds from hds] at h
  have hne : d ≠ 'n' := by
    rintro rfl
    exact absurd (hdigit 'n' (.head _)) (by decide)
  rw [show render (.ofNat n.toNat) = d :: ds from hds]
  exact hread.nullable (isDigit_ne (hdigit d (.head _))).1 hne

end Json

namespace Settings

open Json Reader
open Text.Utf8 (Piece)

variable {s : Settings} {f : Field} {fs gs done : List Field} {n : Nat}

/-! ## Some of the fields -/

/-- Some fields of settings, in this order, as an object. -/
def excerpt (s : Settings) (fs : List Field) : Json :=
  .object (fs.map fun f => (f.name, f.toJson s))

/-- Settings with some of their fields, and defaults for the others. -/
def keeping (s : Settings) (fs : List Field) : Settings where
  pollMillis := if .pollMillis ∈ fs then s.pollMillis else ({} : Settings).pollMillis
  maxFd := if .maxFd ∈ fs then s.maxFd else ({} : Settings).maxFd
  maxHops := if .maxHops ∈ fs then s.maxHops else ({} : Settings).maxHops
  strictBind := if .strictBind ∈ fs then s.strictBind else ({} : Settings).strictBind
  logLevel := if .logLevel ∈ fs then s.logLevel else ({} : Settings).logLevel

def Field.copy (s t : Settings) : Field → Settings
  | .pollMillis => { t with pollMillis := s.pollMillis }
  | .maxFd => { t with maxFd := s.maxFd }
  | .maxHops => { t with maxHops := s.maxHops }
  | .strictBind => { t with strictBind := s.strictBind }
  | .logLevel => { t with logLevel := s.logLevel }

@[simp]
theorem keeping_nil (s : Settings) : s.keeping [] = {} := by
  simp [keeping]

theorem keeping_cons (s : Settings) (f : Field) (fs : List Field) :
    s.keeping (f :: fs) = f.copy s (s.keeping fs) := by
  cases f <;> simp [keeping, Field.copy]

theorem keeping_congr (h : ∀ f, f ∈ fs ↔ f ∈ gs) : s.keeping fs = s.keeping gs := by
  simp only [keeping, h]

theorem keeping_of_perm (h : fs.Perm Field.all) : s.keeping fs = s := by
  have hmem : ∀ f, f ∈ fs := by
    intro f
    rw [h.mem_iff]
    cases f <;> decide
  simp only [keeping, hmem, if_true]

/-! ## Reading -/

namespace Field

theorem named?_name (f : Field) : named? f.name = some f := by
  cases f <;> decide

/-- What is written of a field is read as its value. -/
theorem reads (s t : Settings) (f : Field) :
    Reads (f.read t) (render (f.toJson s)) (f.copy s t) := by
  cases f with
  | pollMillis => exact (reads_uint64 s.pollMillis).bind_pure _
  | maxFd => exact (reads_int32 s.maxFd).bind_pure _
  | maxHops =>
    unfold toJson read copy
    cases s.maxHops with
    | none => exact (reads_nullable_null uint64).bind_pure fun hops => { t with maxHops := hops }
    | some n => exact (reads_nullable_uint64 n).bind_pure fun hops => { t with maxHops := hops }
  | strictBind => exact (reads_bool s.strictBind).bind_pure _
  | logLevel => exact (reads_text s.logLevel).bind_pure _

end Field

/-- The member of a field that has not been read before is read into the settings. -/
theorem reads_member (s t : Settings) (hf : f ∉ done) :
    Reads (readMember n (t, done) f.name) (':' :: render (f.toJson s)) (f.copy s t, f :: done) := by
  intro rest hrest
  have hnew : done.contains f = false := by simpa using hf
  unfold readMember
  rw [Field.named?_name]
  dsimp only
  rw [hnew, if_neg Bool.false_ne_true]
  show (colon >>= fun _ => f.read t >>= _ : Reader _).run
    (.char ':' :: (Text.Utf8.ofText (render (f.toJson s)) ++ rest)) = _
  rw [run_bind_of_ok run_colon, run_bind_of_ok (f.reads s t rest hrest)]
  rfl

/-- Members of different fields are read one after the other. -/
theorem folds_excerpt (h : (fs ++ done).Nodup) : Folds (readMember n) (s.keeping done, done)
    (fs.map fun f => (f.name, render (f.toJson s)))
    (s.keeping (fs.reverse ++ done), fs.reverse ++ done) := by
  induction fs generalizing done with
  | nil => exact .nil
  | cons f fs ih =>
    obtain ⟨hf, hfs⟩ := List.nodup_cons.1 (List.cons_append ▸ h)
    have hnext : (fs ++ f :: done).Nodup :=
      List.perm_middle.nodup_iff.2 (List.nodup_cons.2 ⟨hf, hfs⟩)
    have hrest := ih hnext
    rw [keeping_cons] at hrest
    rw [List.reverse_cons, List.append_assoc]
    exact .cons (reads_member s _ fun hdone => hf (List.mem_append_right _ hdone)) hrest

/-- Some fields of settings are read as the settings with defaults for the others. -/
theorem reads_excerpt (h : fs.Nodup) (hn : (render (s.excerpt fs)).length ≤ n) :
    Reads (read n) (render (s.excerpt fs)) (s.keeping fs) := by
  have hcount := (length_render_object (fs.map fun f => (f.name, f.toJson s))).1
  have hfold : Folds (readMember n) ({}, [])
      ((fs.map fun f => (f.name, f.toJson s)).map fun m => (m.1, render m.2))
      (s.keeping fs.reverse, fs.reverse) := by
    have hfields : Folds (readMember n) (s.keeping [], [])
        (fs.map fun f => (f.name, render (f.toJson s)))
        (s.keeping (fs.reverse ++ []), fs.reverse ++ []) :=
      folds_excerpt (by rwa [List.append_nil])
    rw [List.append_nil, keeping_nil] at hfields
    rwa [List.map_map]
  have hkeep : s.keeping fs.reverse = s.keeping fs := keeping_congr fun f => List.mem_reverse
  intro rest _
  have hmembers := hfold.run_members (n := n) (by
    rw [List.length_map]
    exact Nat.lt_of_lt_of_le hcount hn) rest
  unfold excerpt
  rw [render_object]
  unfold Settings.read
  show (peek >>= _ : Reader Settings).run (.char '\x7b' :: (Text.Utf8.ofText _ ++ rest)) = _
  rw [run_bind_of_ok (run_peek rfl)]
  show (skip >>= fun _ => members n (readMember n) ({}, []) >>= _ : Reader Settings).run _ = _
  rw [run_bind_of_ok run_skip, run_bind_of_ok hmembers, ← hkeep]
  rfl

/-! ## Which settings are accepted -/

/-- What becomes of settings that are read: they are accepted if there is room for a descriptor and,
where hops are limited, for a hop; otherwise it is told what there is no room for. -/
inductive Judged (s : Settings) : Except Problem Settings → Prop
  | accepted (hfd : 1 ≤ s.maxFd.toInt) (hhops : s.maxHops ≠ some 0) : Judged s (.ok s)
  | withoutDescriptors (hfd : s.maxFd.toInt < 1) : Judged s (.error (.maxFdNotPositive s.maxFd))
  | withoutHops (hfd : 1 ≤ s.maxFd.toInt) (hhops : s.maxHops = some 0) : Judged s (.error .noHops)

theorem judged_check (s : Settings) : s.Judged s.check := by
  have hzero : (0 : Int32).toInt = 0 := rfl
  unfold check
  split
  · next hfd =>
    rw [Int32.le_iff_toInt_le, hzero] at hfd
    exact .withoutDescriptors (by omega)
  · next hfd =>
    rw [Int32.le_iff_toInt_le, hzero] at hfd
    split
    · next hhops => exact .withoutHops (by omega) hhops
    · next hhops => exact .accepted (by omega) hhops

/-- Some fields of settings are read, and it is looked at what they make with the defaults. -/
theorem judged_excerpt (s : Settings) (h : fs.Nodup) :
    (s.keeping fs).Judged (ofText (render (s.excerpt fs))) := by
  have hread : readAll read (render (s.excerpt fs)) = .ok (s.keeping fs) :=
    (reads_excerpt h (Nat.le_succ _)).readPieces
  unfold ofText
  rw [hread]
  exact judged_check _

end Settings

/-- **Written settings are the settings, if they can be used.** The JSON form of settings, its
members in any order, is read as the settings if they leave room for a descriptor and a hop, and is
refused otherwise. If members are left out, it is the same for the settings that have defaults in
their place. -/
theorem written_settings (s : Settings) :
    s.toJson = s.excerpt Settings.Field.all ∧
    (∀ fs : List Settings.Field, fs.Perm Settings.Field.all →
      s.Judged (Settings.ofText (Json.render (s.excerpt fs)))) ∧
    ∀ fs : List Settings.Field, fs.Nodup →
      (s.keeping fs).Judged (Settings.ofText (Json.render (s.excerpt fs))) := by
  refine ⟨rfl, fun fs h => ?_, fun fs h => s.judged_excerpt h⟩
  have hnodup : fs.Nodup := h.nodup_iff.2 (by decide)
  have hjudged := s.judged_excerpt hnodup
  rwa [Settings.keeping_of_perm h] at hjudged

/-- Settings of extreme values, without room for any descriptor or hop. -/
def Settings.cramped : Settings :=
  ⟨18446744073709551615, -2147483648, some 0, true, "\"\\\u0007\né𝄞"⟩

/-- They are read with their members from the last to the first, and without those of the
descriptors and the hops. -/
theorem written_settings_cramped :
    (Settings.Field.all.reverse.Perm Settings.Field.all ∧ Settings.cramped.Judged
      (Settings.ofText (Json.render (Settings.cramped.excerpt Settings.Field.all.reverse)))) ∧
    ([.logLevel, .strictBind, .pollMillis] : List Settings.Field).Nodup ∧
    (Settings.cramped.keeping [.logLevel, .strictBind, .pollMillis]).Judged
      (Settings.ofText (Json.render
        (Settings.cramped.excerpt [.logLevel, .strictBind, .pollMillis]))) := by
  obtain ⟨-, hwhole, hpart⟩ := written_settings Settings.cramped
  have hperm : Settings.Field.all.reverse.Perm Settings.Field.all := List.reverse_perm _
  have hnodup : ([.logLevel, .strictBind, .pollMillis] : List Settings.Field).Nodup := by decide
  exact ⟨⟨hperm, hwhole _ hperm⟩, hnodup, hpart _ hnodup⟩

end BlockFlow
