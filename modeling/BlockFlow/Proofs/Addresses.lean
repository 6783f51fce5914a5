import BlockFlow.Proofs.WholeLines

/-!
# Addresses in the tree of files

The address of a listener is a file that is made when the listener is opened. A path leads to it for
as long as the directories on the way stay, whatever else is made or removed.

1. `find?_put`, `find?_without`: the entries after an operation.
2. `walk_congr`, `locate_congr`: a path leads to the same place if only the entry there changes.
3. `listenerAt_of_makeSocket`: a listener is found at the address that was made for it.
4. `Loses`, `loses_remove`: a tree without the file at a path.
-/

namespace BlockFlow

theorem Text.exists_piecesBy_append_singleton {α : Type} {p : α → Bool} {x : α} (hx : p x = false)
    (xs : List α) : ∃ pieces piece, piecesBy p (xs ++ [x]) = pieces ++ [piece ++ [x]] := by
  induction xs with
  | nil =>
    refine ⟨[], [], ?_⟩
    rw [List.nil_append, piecesBy, hx]
    rfl
  | cons y ys ih =>
    obtain ⟨pieces, piece, h⟩ := ih
    rw [List.cons_append, piecesBy, h]
    cases p y with
    | true => exact ⟨[] :: pieces, piece, rfl⟩
    | false =>
      cases pieces with
      | nil => exact ⟨[], y :: piece, rfl⟩
      | cons q qs => exact ⟨(y :: q) :: qs, piece, rfl⟩

namespace Host.Files

/-- What succeeds has succeeded in each of its steps. -/
theorem exists_of_bind_eq_ok {α β : Type} {x : Except Failure α} {f : α → Except Failure β} {b : β}
    (h : x >>= f = .ok b) : ∃ a, x = .ok a ∧ f a = .ok b := by
  cases x with
  | error e => cases h
  | ok a => exact ⟨a, rfl, h⟩

variable {t t' : Files} {way here : Way} {names : List (List Char)} {node : Node}
  {o : Option Node} {path : String}

/-! ## Entries -/

def without (t : Files) (way : Way) : Files := { t with entries := t.entries.filter (·.1 ≠ way) }

theorem find?_entries_without (t : Files) (way way' : Way) :
    (t.without way).entries.find? (·.1 = way') =
      if way = way' then none else t.entries.find? (·.1 = way') := by
  unfold without
  rw [List.find?_filter]
  split
  · next h =>
    subst h
    simp
  · next h =>
    congr 1
    funext p
    by_cases hp : p.1 = way' <;> simp [hp, Ne.symm h]

theorem find?_without (t : Files) (hway : way ≠ []) (way' : Way) :
    (t.without way).find? way' = if way = way' then none else t.find? way' := by
  unfold find?
  rw [find?_entries_without]
  by_cases hway' : way' = []
  · subst hway'
    simp [hway]
  · simp only [List.isEmpty_iff, hway', if_false]
    split <;> rfl

theorem find?_put (t : Files) (hway : way ≠ []) (node : Node) (way' : Way) :
    (t.put way node).find? way' = if way = way' then some node else t.find? way' := by
  have hentries : (t.put way node).entries = (t.without way).entries ++ [(way, node)] := rfl
  unfold find?
  rw [hentries, List.find?_append, find?_entries_without]
  by_cases hway' : way' = []
  · subst hway'
    simp [hway]
  · simp only [List.isEmpty_iff, hway', if_false]
    split
    · next h => simp [h]
    · next h => simp [h]

theorem ne_nil_of_find? (h : t.find? way = o) (ho : o ≠ some .directory) : way ≠ [] := by
  rintro rfl
  exact ho h.symm

/-! ## Places -/

def Place.at (here : Way) : Option Node → Place
  | some node => .found here node
  | none => .vacant here

theorem Place.at_inj {here here' : Way} {o o' : Option Node} :
    Place.at here o = .at here' o' ↔ here = here' ∧ o = o' := by
  cases o <;> cases o' <;> simp [Place.at]

/-- The last name of a path leads to a place whatever is there. -/
theorem walk_last {name : List Char} (hlong : ¬ maxName < (Text.Utf8.encode name).length)
    (hstay : ¬ (name = [] || name = ['.'])) (hup : ¬ name = ['.', '.']) :
    t.walk way [name] = .ok (.at (way ++ [name]) (t.find? (way ++ [name]))) := by
  unfold walk
  rw [if_neg hlong, if_neg hstay, if_neg hup]
  cases h : t.find? (way ++ [name]) with
  | none =>
    simp only [h]
    rfl
  | some node =>
    simp only [h]
    rfl

/-- Any other name leads on through a directory. -/
theorem walk_on {name next : List Char} {p : Place}
    (hlong : ¬ maxName < (Text.Utf8.encode name).length)
    (hstay : ¬ (name = [] || name = ['.'])) (hup : ¬ name = ['.', '.']) :
    t.walk way (name :: next :: names) = .ok p ↔
      t.find? (way ++ [name]) = some .directory ∧
        t.walk (way ++ [name]) (next :: names) = .ok p := by
  rw [walk, if_neg hlong, if_neg hstay, if_neg hup]
  cases h : t.find? (way ++ [name]) with
  | none => simp [h]
  | some node => cases node <;> simp [h]

/-- Names lead to the same place in another tree, if the entries are the same but for the one at
that place. -/
theorem walk_congr (hsame : ∀ way, way ≠ here → t'.find? way = t.find? way)
    (ho : o ≠ some .directory) (hwalk : t.walk way names = .ok (.at here o)) :
    t.find? here = o ∧ t'.walk way names = .ok (.at here (t'.find? here)) := by
  induction names generalizing way with
  | nil =>
    have hplace : Place.at way (some .directory) = .at here o := Except.ok.inj hwalk
    exact absurd (Place.at_inj.1 hplace).2.symm ho
  | cons name names ih =>
    by_cases hlong : maxName < (Text.Utf8.encode name).length
    · rw [walk, if_pos hlong] at hwalk
      cases hwalk
    by_cases hstay : name = [] || name = ['.']
    · rw [walk, if_neg hlong, if_pos hstay] at hwalk ⊢
      exact ih hwalk
    by_cases hup : name = ['.', '.']
    · rw [walk, if_neg hlong, if_neg hstay, if_pos hup] at hwalk ⊢
      exact ih hwalk
    cases names with
    | nil =>
      rw [walk_last hlong hstay hup] at hwalk ⊢
      obtain ⟨rfl, hfind⟩ := Place.at_inj.1 (Except.ok.inj hwalk)
      exact ⟨hfind, rfl⟩
    | cons next names =>
      -- The way goes on, so it goes through a directory, which is not at its end.
      obtain ⟨hfind, hwalk⟩ := (walk_on hlong hstay hup).1 hwalk
      obtain ⟨hhere, hwalk'⟩ := ih hwalk
      have hne : way ++ [name] ≠ here := by
        rintro rfl
        exact ho (hhere.symm.trans hfind)
      exact ⟨hhere, (walk_on hlong hstay hup).2 ⟨(hsame _ hne).trans hfind, hwalk'⟩⟩

/-- A path leads to the same place in another tree, if the entries are the same but for the one at
that place. -/
theorem locate_congr (hwork : t'.work = t.work)
    (hsame : ∀ way, way ≠ here → t'.find? way = t.find? way) (ho : o ≠ some .directory)
    (hlocate : t.locate path = .ok (.at here o)) :
    t.find? here = o ∧ t'.locate path = .ok (.at here (t'.find? here)) := by
  have horigin : t'.origin path = t.origin path := by
    unfold origin
    rw [hwork]
  unfold locate at hlocate ⊢
  cases hcheck : checkPath path with
  | error f =>
    rw [hcheck] at hlocate
    cases hlocate
  | ok _ =>
    rw [hcheck] at hlocate
    rw [horigin]
    exact walk_congr hsame ho hlocate

theorem find?_of_locate (ho : o ≠ some .directory) (h : t.locate path = .ok (.at here o)) :
    t.find? here = o := (locate_congr rfl (fun _ _ => rfl) ho h).1

/-! ## Addresses -/

/-- A path that does not end in a slash leads to the same place as without the slashes there. -/
theorem locateBare_eq (h : path.toList.getLast? ≠ some '/') :
    t.locateBare path = t.locate path := by
  unfold locateBare locate
  rcases List.eq_nil_or_concat path.toList with hnil | ⟨cs, c, hconcat⟩
  · obtain rfl : path = "" := String.toList_eq_nil_iff.1 hnil
    rfl
  have hc : (c == '/') = false := by
    rw [hconcat] at h
    simpa using h
  obtain ⟨pieces, piece, hpieces⟩ := Text.exists_piecesBy_append_singleton (p := (· == '/')) hc cs
  have hnames : namesOf path = pieces ++ [piece ++ [c]] := by
    unfold namesOf
    rw [hconcat, List.concat_eq_append, hpieces]
  have hbare : ((namesOf path).reverse.dropWhile (·.isEmpty)).reverse = namesOf path := by
    rw [hnames, List.reverse_append]
    simp
  rw [hbare]

/-- An address is made where nothing was. -/
theorem of_makeSocket {listener : Nat} (h : t.makeSocket path listener = .ok t') :
    checkAddress path = .ok () ∧
      ∃ way, t.locate path = .ok (.vacant way) ∧ t' = t.put way (.socket listener) := by
  unfold makeSocket at h
  obtain ⟨_, haddress, h⟩ := exists_of_bind_eq_ok h
  obtain ⟨place, hplace, h⟩ := exists_of_bind_eq_ok h
  cases place with
  | found way node => cases h
  | vacant way =>
    change (if _ then _ else _) = _ at h
    split at h
    · cases h
    · next hslash =>
      cases h
      exact ⟨haddress, way, locateBare_eq hslash ▸ hplace, rfl⟩

/-- A listener is found at the address that was made for it. -/
theorem listenerAt_of_makeSocket {listener : Nat} (h : t.makeSocket path listener = .ok t') :
    t'.listenerAt path = .ok listener := by
  obtain ⟨haddress, way, hplace, rfl⟩ := of_makeSocket h
  have hnone : (none : Option Node) ≠ some .directory := (Option.some_ne_none _).symm
  have hway : way ≠ [] := ne_nil_of_find? (find?_of_locate hnone hplace) hnone
  have hsame (way' : Way) (hne : way' ≠ way) :
      (t.put way (.socket listener)).find? way' = t.find? way' := by
    rw [find?_put t hway, if_neg (Ne.symm hne)]
  have hwork : (t.put way (.socket listener)).work = t.work := rfl
  obtain ⟨-, hlocate⟩ := locate_congr hwork hsame hnone hplace
  rw [find?_put t hway, if_pos rfl] at hlocate
  have hne : path.isEmpty = false := by
    by_contra hempty
    obtain rfl : path = "" := String.isEmpty_iff.1 (by simpa using hempty)
    cases hplace
  unfold listenerAt
  rw [haddress, hlocate, hne]
  rfl

/-! ## Removing a file -/

/-- A path leads to a file: an entry that is no directory. -/
def IsFile (t : Files) (path : String) (way : Way) : Prop :=
  ∃ node, t.locate path = .ok (.found way node) ∧ node ≠ .directory

theorem isFile_of_listenerAt {listener : Nat} (h : t.listenerAt path = .ok listener) :
    ∃ way, t.IsFile path way := by
  unfold listenerAt at h
  obtain ⟨_, -, h⟩ := exists_of_bind_eq_ok h
  dsimp only at h
  split at h
  · cases h
  obtain ⟨place, hplace, h⟩ := exists_of_bind_eq_ok h
  cases place with
  | vacant way => cases h
  | found way node =>
    cases node with
    | directory | file => cases h
    | socket => exact ⟨way, _, hplace, by simp⟩

/-- From one tree to another the file at a path is gone, if there is a path and a file at it, and
every other entry is as it was. -/
structure Loses (t t' : Files) (path : Option String) : Prop where
  work : t'.work = t.work
  gone {p : String} {way : Way} (hpath : path = some p) (hfile : t.IsFile p way) :
    t'.locate p = .ok (.vacant way)
  kept {way : Way} (h : ∀ p, path = some p → ¬ t.IsFile p way) : t'.find? way = t.find? way

theorem loses_none (t : Files) : t.Loses t none where
  work := rfl
  gone hpath := absurd hpath.symm (Option.some_ne_none _)
  kept _ := rfl

theorem of_remove (h : t.remove path = .ok t') :
    ∃ way node, t.locate path = .ok (.found way node) ∧ node ≠ .directory ∧ t' = t.without way := by
  unfold remove at h
  obtain ⟨place, hplace, h⟩ := exists_of_bind_eq_ok h
  cases place with
  | vacant way => cases h
  | found way node =>
    cases node with
    | directory => cases h
    | file | socket =>
      cases h
      exact ⟨way, _, hplace, by simp, rfl⟩

/-- A file that is removed is gone, and nothing else is. -/
theorem loses_remove (h : t.remove path = .ok t') : t.Loses t' (some path) := by
  obtain ⟨way, node, hplace, hnode, rfl⟩ := of_remove h
  have hdir : some node ≠ some .directory := fun heq => hnode (Option.some.inj heq)
  have hway : way ≠ [] := ne_nil_of_find? (find?_of_locate hdir hplace) hdir
  refine ⟨rfl, fun hpath hfile => ?_, fun hnot => ?_⟩
  · cases hpath
    obtain ⟨node', hplace', -⟩ := hfile
    cases hplace.symm.trans hplace'
    have hsame (way' : Way) (hne : way' ≠ way) : (t.without way).find? way' = t.find? way' := by
      rw [find?_without t hway, if_neg (Ne.symm hne)]
    have hwork : (t.without way).work = t.work := rfl
    obtain ⟨-, hlocate⟩ := locate_congr hwork hsame hdir hplace
    rwa [find?_without t hway, if_pos rfl] at hlocate
  · rw [find?_without t hway, if_neg]
    rintro rfl
    exact hnot path rfl ⟨node, hplace, hnode⟩

/-- If nothing can be removed, there is no file at the path. -/
theorem loses_of_remove_error {f : Failure} (h : t.remove path = .error f) :
    t.Loses t (some path) := by
  refine ⟨rfl, fun hpath hfile => ?_, fun _ => rfl⟩
  cases hpath
  obtain ⟨node, hplace, hnode⟩ := hfile
  unfold remove at h
  rw [hplace] at h
  cases node with
  | directory => exact absurd rfl hnode
  | file | socket => cases h

end Host.Files

end BlockFlow
