import BlockFlow.CommandLine
import BlockFlow.Proofs.LineEnds
import BlockFlow.Proofs.Vacancy

/-!
# The address of the server of the command line

The path that a server is asked for at is written into an entry of its configuration, and there a
blank ends an entry. So the path is the address of the server if there is no blank in it. If there
is one, the address is what the last of the words names that begin as entries do.

1. `Text.not_isBlank_of_mem_words`, `Text.words_of_forall_not_isBlank`: words and blanks.
2. `Server.Names`, `Server.LastNamed`: the words that name an address, and the last of them.
3. `addressAfter_addressEntry`: the paths that come through their entry as they are.
4. `parse_listen`, `start?_listen`: the arguments and the machine; `served_address`: all together.
-/

namespace BlockFlow

open Run CommandLine

/-! ## Words -/

theorem Text.not_isBlank_of_mem_words {cs w : List Char} (h : w ∈ words cs) :
    ∀ c ∈ w, isBlank c = false :=
  not_of_mem_piecesBy (List.mem_filter.1 h).1

/-- A text without blanks is a single word. -/
theorem Text.words_of_forall_not_isBlank {cs : List Char} (hne : cs ≠ [])
    (h : ∀ c ∈ cs, isBlank c = false) : words cs = [cs] := by
  unfold words
  rw [piecesBy_of_forall_not h]
  simp [hne]

/-! ## Words that name an address -/

namespace Server

/-- A word names an address. -/
def Names (w : List Char) (address : String) : Prop :=
  address ≠ "" ∧ w = (addressEntry address).toList

/-- Of some words, the last one that names an address names this one; if there is none, no word
names an address. -/
inductive LastNamed : List (List Char) → Option String → Prop
  | nowhere {words : List (List Char)} (h : ∀ w ∈ words, ∀ a, ¬ Names w a) : LastNamed words none
  | named {before after : List (List Char)} {w : List Char} {a : String} (hw : Names w a)
    (h : ∀ w' ∈ after, ∀ a', ¬ Names w' a') : LastNamed (before ++ w :: after) (some a)

theorem LastNamed.mem {words : List (List Char)} {a : String} (h : LastNamed words (some a)) :
    (addressEntry a).toList ∈ words := by
  cases h with
  | named hw => exact hw.2 ▸ List.mem_append_right _ (.head _)

/-- A word that names nothing changes nothing. -/
theorem LastNamed.concat {words : List (List Char)} {address : Option String} {w : List Char}
    (h : LastNamed words address) (hw : ∀ a, ¬ Names w a) : LastNamed (words ++ [w]) address := by
  have hlast {ws : List (List Char)} (hws : ∀ w' ∈ ws, ∀ a, ¬ Names w' a) :
      ∀ w' ∈ ws ++ [w], ∀ a, ¬ Names w' a :=
    List.forall_mem_append.2 ⟨hws, List.forall_mem_singleton.2 hw⟩
  cases h with
  | nowhere h => exact .nowhere (hlast h)
  | named hnamed h =>
    rw [List.append_assoc, List.cons_append]
    exact .named hnamed (hlast h)

theorem toList_addressEntry (path : String) :
    (addressEntry path).toList = "path".toList ++ '=' :: path.toList := by
  simp [addressEntry, toString]

theorem address?_eq_some_iff {w value : List Char} :
    address? w = some value ↔ value ≠ [] ∧ w = "path".toList ++ '=' :: value := by
  unfold address?
  constructor
  · intro h
    split at h
    · next key value' hcut =>
      split at h
      · next hkey =>
        cases h
        simp only [Bool.and_eq_true, decide_eq_true_eq, Bool.not_eq_true',
          List.isEmpty_eq_false_iff] at hkey
        obtain ⟨rfl, hne⟩ := hkey
        exact ⟨hne, Text.eq_append_of_cutAt? hcut⟩
      · cases h
    · cases h
  · rintro ⟨hne, rfl⟩
    rw [Text.cutAt?_append (by decide)]
    simp [hne]

theorem names_iff {w : List Char} {a : String} :
    Names w a ↔ (address? w).map String.ofList = some a := by
  unfold Names
  rw [toList_addressEntry, Option.map_eq_some_iff]
  constructor
  · rintro ⟨hne, rfl⟩
    exact ⟨a.toList, address?_eq_some_iff.2 ⟨by simpa using hne, rfl⟩, String.ofList_toList⟩
  · rintro ⟨value, hvalue, rfl⟩
    obtain ⟨hne, rfl⟩ := address?_eq_some_iff.1 hvalue
    exact ⟨by simpa using hne, by simp only [String.toList_ofList]⟩

/-- The address of a server without one is, after a configuration, the last one that is named. -/
theorem lastNamed_addressAfter (conf : String) :
    LastNamed (Text.words conf.toList) (addressAfter none conf) := by
  unfold addressAfter
  -- The words are taken from the last one on, since an entry overrides those before it.
  induction Text.words conf.toList using List.reverseRecOn with
  | nil => exact .nowhere nofun
  | append_singleton words w ih =>
    rw [List.foldl_append, List.foldl_cons, List.foldl_nil]
    cases hw : (address? w).map String.ofList with
    | some a => exact .named (names_iff.2 hw) nofun
    | none =>
      refine ih.concat fun a ha => ?_
      rw [names_iff, hw] at ha
      cases ha

/-- A path comes through its entry as it is, if there is no blank in it, and not otherwise. -/
theorem addressAfter_addressEntry {path : String} (hne : path ≠ "") :
    addressAfter none (addressEntry path) = some path ↔
      ∀ c ∈ path.toList, Text.isBlank c = false := by
  constructor
  · intro h c hc
    have hnamed := lastNamed_addressAfter (addressEntry path)
    rw [h] at hnamed
    refine Text.not_isBlank_of_mem_words hnamed.mem c ?_
    rw [toList_addressEntry]
    exact List.mem_append_right _ (.tail _ hc)
  · intro h
    have hentry : ∀ c ∈ (addressEntry path).toList, Text.isBlank c = false := by
      rw [toList_addressEntry]
      exact List.forall_mem_append.2 ⟨by simp [Text.isBlank], List.forall_mem_cons.2 ⟨rfl, h⟩⟩
    have hnames : Names (addressEntry path).toList path := ⟨hne, rfl⟩
    unfold addressAfter
    rw [Text.words_of_forall_not_isBlank (by simp [toList_addressEntry]) hentry,
      List.foldl_cons, names_iff.1 hnames]
    rfl

example : addressAfter none (addressEntry "a path=b c") = some "b" := by decide +kernel

end Server

/-! ## The machine that is started -/

namespace CommandLine

def Invocation.firstCommands (i : Invocation) : Run Builtin.kit Unit :=
  match i.conf with
  | some path => discard (Run.loadFile (Run.callHook fuel) path)
  | none => pure ()

/-- The first commands are given to an engine that is ready otherwise. -/
theorem prepare_eq (i : Invocation) :
    prepare i = prepare { i with conf := none } >>= fun _ => i.firstCommands := by
  unfold prepare Invocation.firstCommands
  simp only [bind_assoc]
  cases i.listen with
  | none => rfl
  | some path =>
    simp only [bind_assoc]
    rfl

/-- Every path can be asked for in a single argument. -/
theorem parse_listen {path : String} (hne : path ≠ "") :
    parse ["--listen=" ++ path] = .run { listen := some path } := by
  have hcut : Text.cutAt? '=' ("listen".toList ++ '=' :: path.toList) =
      some ("listen".toList, path.toList) := Text.cutAt?_append (by decide) _
  have harg : ("--listen=" ++ path).toList =
      '-' :: '-' :: ("listen".toList ++ '=' :: path.toList) := by simp
  have hlong : Setting.ofLong? "listen".toList = some .listen := rfl
  have hgive : ({} : Invocation).give? .listen path.toList = some { listen := some path } := by
    simp [Invocation.give?, Invocation.get, Invocation.put, hne]
  unfold parse
  rw [List.map_singleton, harg, parseFrom, hcut]
  · dsimp only
    rw [hlong, Option.bind_some, hgive]
    rfl
  · nofun
  · nofun

end CommandLine

namespace Run

theorem ends_register {K : Kit} {s : Machine K} (type : String) (factory : K.Factory) :
    (register type factory).Abides .total (fun _ t =>
      t.manager = { s.manager with factories := s.manager.factories.insert type factory }) s := by
  unfold register
  rw [abides_bind, abides_manager]
  split
  · exact rfl
  · exact rfl

variable {s : Machine Builtin.kit}

/-- The server can be built, and no block is added. -/
theorem ends_registerAll : (Builtin.registerAll (K := Builtin.kit) id).Abides .total (fun _ t =>
    t.manager.factories.get? BuiltinKind.server.typeName = some BuiltinKind.server ∧
      t.manager.blocks = s.manager.blocks) s := by
  unfold Builtin.registerAll
  rw [abides_bind]
  refine (ends_register _ _).mono fun _ t ht => (ends_register _ _).mono fun _ u hu => ?_
  rw [hu, ht]
  refine ⟨?_, rfl⟩
  dsimp only
  rw [Keyed.get?_insert, if_pos rfl]
  rfl

theorem ends_add_ok {id : BlockId} {type : String} (hsink : id.isSink = false)
    (hfree : s.manager.blocks.contains id = false)
    (hserver : s.manager.factories.get? type = some .server) :
    (add id type).Abides .total (fun x _ => x = .ok ()) s := by
  unfold add
  rw [abides_bind, abides_manager, hsink, hfree, hserver]
  rfl

/-- The server is added, configured and started. -/
theorem ends_addServer (path : String) (hfree : s.manager.blocks.contains serverId = false)
    (hserver : s.manager.factories.get? BuiltinKind.server.typeName = some .server) :
    (addServer path).Abides .total (fun _ t => ∃ sv, t.HasServer serverId sv .started ∧
      sv.path = Server.addressAfter none (addressEntry path)) s := by
  unfold addServer
  simp only [abides_bind, abides_discard]
  refine ((ends_add_ok rfl hfree hserver).and (ends_add_server hserver)).mono fun _ t ht => ?_
  have hadded := ht.2 ht.1
  refine (ends_conf_server hadded 999999 _).mono fun _ t ht => ?_
  obtain ⟨-, sv, hconf, hpath⟩ := ht
  refine (ends_start_server hconf 999999).mono fun _ t ht => ?_
  obtain ⟨-, ⟨sv', hstarted, hpath'⟩, -⟩ := ht
  exact ⟨sv', hstarted, hpath'.trans hpath⟩

theorem ends_prepare {i : Invocation} {path : String} (hlisten : i.listen = some path)
    (hfree : s.manager.blocks.contains serverId = false) :
    (prepare { i with conf := none }).Abides .total (fun _ t =>
      ∃ sv, t.HasServer serverId sv .started ∧ sv.path = Server.addressAfter none (addressEntry path)) s := by
  unfold prepare
  rw [abides_bind]
  refine ends_registerAll.mono fun _ t ht => ?_
  obtain ⟨hserver, hblocks⟩ := ht
  dsimp only
  rw [hlisten]
  dsimp only
  rw [bind_pure]
  exact ends_addServer path (hblocks ▸ hfree) hserver

end Run

/-- The server of the command line is started, with the address that its entry names. -/
theorem start?_listen (settings : Settings) (host : Host) {i : Invocation} {path : String}
    (hlisten : i.listen = some path) : ∃ t sv,
      start? settings host { i with conf := none } = some t ∧
      start? settings host i = (t.run? i.firstCommands).map (·.2) ∧
      t.HasServer serverId sv .started ∧
      sv.path = Server.addressAfter none (addressEntry path) := by
  let s : Machine Builtin.kit := { manager := .fresh settings, host }
  obtain ⟨_, t, hrun, sv, hserver, hpath⟩ := abides_total_iff.1 (ends_prepare (s := s) hlisten rfl)
  refine ⟨t, sv, ?_, ?_, hserver, hpath⟩
  · unfold start?
    dsimp only
    rw [hrun]
    rfl
  · unfold start?
    dsimp only
    rw [prepare_eq, run?_bind, hrun]
    dsimp only
    cases t.run? i.firstCommands with
    | none => rfl
    | some p => rfl

/-! ## The address of the server -/

/-- **The server of the command line.** Every path can be asked for, and whatever the path, a
started server is there before the first commands are given. Of the words of its entry, the last one
that names an address names its address. That is the path if there is no blank in it; otherwise it is
another address, or none. -/
theorem served_address (settings : Settings) (host : Host) {i : Invocation} {path : String}
    (hlisten : i.listen = some path) :
    (path ≠ "" → parse ["--listen=" ++ path] = .run { listen := some path }) ∧
    ∃ t sv, start? settings host { i with conf := none } = some t ∧
      start? settings host i = (t.run? i.firstCommands).map (·.2) ∧
      t.HasServer serverId sv .started ∧
      Server.LastNamed (Text.words (addressEntry path).toList) sv.path ∧
      (path ≠ "" → (sv.path = some path ↔ ∀ c ∈ path.toList, Text.isBlank c = false)) := by
  obtain ⟨t, sv, hstart, hcommands, hserver, hpath⟩ := start?_listen settings host hlisten
  refine ⟨parse_listen, t, sv, hstart, hcommands, hserver, ?_, fun hne => ?_⟩
  · rw [hpath]
    exact Server.lastNamed_addressAfter _
  · rw [hpath]
    exact Server.addressAfter_addressEntry hne

/-- A path that looks like an entry comes through. -/
theorem served_address_entryLike :
    parse ["--listen=path=a:b"] = .run { listen := some "path=a:b" } ∧
    ∃ t sv, start? {} .manual { listen := some "path=a:b" } = some t ∧
      t.HasServer serverId sv .started ∧ sv.path = some "path=a:b" := by
  obtain ⟨hparse, t, sv, hstart, -, hserver, -, hiff⟩ :=
    served_address {} .manual (i := { listen := some "path=a:b" }) rfl
  have hne : "path=a:b" ≠ "" := by decide
  have hblank : ∀ c ∈ "path=a:b".toList, Text.isBlank c = false := by simp [Text.isBlank]
  exact ⟨hparse hne, t, sv, hstart, hserver, (hiff hne).2 hblank⟩

/-- The server of the command line has the path that was asked for as its address. -/
def CommandLine.ServesWhereAsked : Prop :=
  ∀ (settings : Settings) (host : Host) (path : String), path ≠ "" →
    ∃ t sv st, start? settings host { listen := some path } = some t ∧
      t.HasServer serverId sv st ∧ sv.path = some path

/-- With a space in the path, the address is what stands before it. -/
theorem not_servesWhereAsked : ¬ ServesWhereAsked := by
  intro h
  obtain ⟨t, sv, st, hstart, ⟨e, hget, hcontents, -⟩, hpath⟩ := h {} .manual "a b" (by decide)
  obtain ⟨t', sv', hstart', -, ⟨e', hget', hcontents', -⟩, hpath'⟩ :=
    start?_listen {} .manual (i := { listen := some "a b" }) rfl
  obtain rfl : t = t' := Option.some.inj (hstart.symm.trans hstart')
  obtain rfl : e = e' := Option.some.inj (hget.symm.trans hget')
  obtain rfl : sv = sv' := by simpa using hcontents.symm.trans hcontents'
  have haddress : Server.addressAfter none (addressEntry "a b") = some "a" := by decide +kernel
  rw [hpath', haddress] at hpath
  exact absurd hpath (by decide)

end BlockFlow
