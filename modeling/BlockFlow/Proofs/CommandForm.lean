import BlockFlow.Block.Builtin
import BlockFlow.Engine.Perform
import BlockFlow.Proofs.JsonForm
import BlockFlow.Proofs.Utf8Form
import Mathlib.Data.List.Forall2

/-!
# Structured commands in their JSON form

A command is written as an object, whose members may come in any order, and is read as itself, on
its own and in a batch. An array of written commands is read as the batch of them, and never as one
command.

1. `Command.WrittenAs`: the values that a command is written as.
2. `ofMembers?_of_perm`, `ofValue?_of_writtenAs`: the fields of a command in any order.
3. `ofText_of_writtenAs`, `ofBytes_one`, `ofBytes_many`: commands and batches as they are read.
4. `Run.failures`, `applyCommands_eq`: what comes of a batch; `written_commands`: all together.
-/

namespace BlockFlow

open Json Reader
open Text.Utf8 (Piece)

namespace Command

/-! ## Members in any order -/

/-- A value is the JSON form of a command, with its members in any order. -/
def WrittenAs (c : Command) (v : Json) : Prop :=
  ∃ ms, v = .object ms ∧ ms.Perm ((tagMember, .text c.tag.name) :: c.fieldsToJson)

theorem writtenAs_toJson (c : Command) : c.WrittenAs c.toJson := ⟨_, rfl, .refl _⟩

theorem only?_of_perm {name : String} {ms ms' : List (String × Json)} {v : Json}
    (h : ms.Perm ms') (hv : ms'.filter (·.1 = name) = [(name, v)]) : only? name ms = some v := by
  have hfilter : ms.filter (·.1 = name) = [(name, v)] :=
    List.perm_singleton.1 (hv ▸ h.filter _)
  rw [only?, hfilter]

theorem int32?_ofInt (n : Int32) : int32? (.ofInt n.toInt) = some n := by
  have hlow := n.minValue_le_toInt
  have hhigh := n.toInt_lt
  have hfits : Text.Numeral.fitsInt32 n.toInt = true := by
    simp only [Text.Numeral.fitsInt32, Bool.and_eq_true, decide_eq_true_eq]
    exact ⟨hlow, by omega⟩
  simp [int32?, ofInt, hfits]

theorem id?_idToJson (id : BlockId) : id? (idToJson id) = some id := by
  simp [id?, idToJson, int32?_ofInt]

/-- The fields of a command, in any order, make the command. -/
theorem ofMembers?_of_perm {c : Command} {ms : List (String × Json)}
    (h : ms.Perm c.fieldsToJson) : ofMembers? c.tag ms = some c := by
  have honly : ∀ (name : String) (v : Json), c.fieldsToJson.filter (·.1 = name) = [(name, v)] →
      only? name ms = some v := fun _ _ hv => only?_of_perm h hv
  cases c with
  | add id type =>
    have hid := honly "id" (idToJson id) rfl
    have htype := honly "type" (.text type) rfl
    simp [ofMembers?, tag, fieldNames, hid, htype, ofValues?, id?_idToJson, text?]
  | start id | stop id | del id =>
    have hid := honly "id" (idToJson id) rfl
    simp [ofMembers?, tag, fieldNames, hid, ofValues?, id?_idToJson]
  | conf id entry =>
    have hid := honly "id" (idToJson id) rfl
    have hentry := honly "conf" (.text entry) rfl
    simp [ofMembers?, tag, fieldNames, hid, hentry, ofValues?, id?_idToJson, text?]
  | bind id port dest =>
    have hid := honly "id" (idToJson id) rfl
    have hport := honly "port" (.ofInt port.toInt) rfl
    have hdest := honly "dest" (idToJson dest) rfl
    simp [ofMembers?, tag, fieldNames, hid, hport, hdest, ofValues?, id?_idToJson, int32?_ofInt]

theorem Tag.named?_name (tag : Tag) : named? tag.name = some tag := by
  cases tag <;> decide

theorem fieldsToJson_ne_tagMember (c : Command) : ∀ m ∈ c.fieldsToJson, m.1 ≠ tagMember := by
  cases c <;> simp [fieldsToJson, tagMember]

theorem filter_perm_fieldsToJson {c : Command} {ms : List (String × Json)}
    (h : ms.Perm ((tagMember, .text c.tag.name) :: c.fieldsToJson)) :
    (ms.filter (·.1 ≠ tagMember)).Perm c.fieldsToJson := by
  have hself : c.fieldsToJson.filter (·.1 ≠ tagMember) = c.fieldsToJson :=
    List.filter_eq_self.2 fun m hm => decide_eq_true (c.fieldsToJson_ne_tagMember m hm)
  have hfilter := h.filter (·.1 ≠ tagMember)
  rwa [List.filter_cons_of_neg (by simp), hself] at hfilter

theorem ofValue?_of_writtenAs {c : Command} {v : Json} (h : c.WrittenAs v) :
    ofValue? v = some c := by
  obtain ⟨ms, rfl, hperm⟩ := h
  have htag : only? tagMember ms = some (.text c.tag.name) := by
    refine only?_of_perm hperm ?_
    rw [List.filter_cons_of_pos (by simp), List.filter_eq_nil_iff.2]
    exact fun m hm => by simpa using c.fieldsToJson_ne_tagMember m hm
  have hfields := ofMembers?_of_perm (filter_perm_fieldsToJson hperm)
  simpa [ofValue?, htag, Tag.ofValue?, Tag.named?_name] using hfields

theorem tagOfValue?_of_writtenAs {c : Command} {v : Json} (h : c.WrittenAs v) :
    Tag.ofValue? v = none := by
  obtain ⟨ms, rfl, -⟩ := h
  rfl

theorem batchOfValue?_array {cs : List Command} {vs : List Json}
    (h : List.Forall₂ WrittenAs cs vs) : Batch.ofValue? (.array vs) = some (.many cs) := by
  have hmapM : vs.mapM ofValue? = some cs := by
    induction h with
    | nil => rfl
    | cons hv _ ih => simp [ofValue?_of_writtenAs hv, ih]
  have hnone : ofValue? (.array vs) = none := by
    cases h with
    | nil => rfl
    | cons hv _ => simp [ofValue?, tagOfValue?_of_writtenAs hv]
  simp [Batch.ofValue?, hnone, hmapM]

/-! ## Reading what is written -/

/-- The members of a written command are texts and integers. -/
theorem plain_of_mem {c : Command} {m : String × Json}
    (h : m ∈ (tagMember, .text c.tag.name) :: c.fieldsToJson) (depth : Nat) : m.2.Plain depth := by
  have hint : ∀ n : Int32, (Json.ofInt n.toInt).Plain depth := fun n => .integer (isExact_toInt n)
  rcases List.mem_cons.1 h with rfl | h
  · exact .text _
  cases c with
  | add id type | conf id type =>
    rcases List.mem_cons.1 h with rfl | h
    · exact hint _
    · cases List.mem_singleton.1 h
      exact .text _
  | start id | stop id | del id =>
    cases List.mem_singleton.1 h
    exact hint _
  | bind id port dest =>
    simp only [fieldsToJson, List.mem_cons, List.not_mem_nil, or_false] at h
    rcases h with rfl | rfl | rfl <;> exact hint _

theorem plain_of_writtenAs {c : Command} {v : Json} (h : c.WrittenAs v) (depth : Nat) :
    v.Plain (depth + 1) := by
  obtain ⟨ms, rfl, hperm⟩ := h
  exact .object fun m hm => plain_of_mem (hperm.mem_iff.1 hm) depth

/-- The members before the one of the tag, and those after it. -/
theorem WrittenAs.exists_split {c : Command} {v : Json} (h : c.WrittenAs v) :
    ∃ pre post, v = .object (pre ++ (tagMember, .text c.tag.name) :: post) ∧
      (pre ++ post).Perm c.fieldsToJson := by
  obtain ⟨ms, rfl, hperm⟩ := h
  obtain ⟨pre, post, rfl⟩ := List.append_of_mem (hperm.mem_iff.2 (.head _))
  exact ⟨pre, post, rfl, (List.perm_middle.symm.trans hperm).cons_inv⟩

section Read

variable {n : Nat} {ms : List (String × Json)}

theorem folds_fields (h : ∀ m ∈ ms, m.1 ≠ tagMember ∧ Reads (readInner n) (render m.2) m.2)
    (known : Option Tag) (done : List (String × Json)) :
    Folds (readMember n) (known, done) (ms.map fun m => (m.1, render m.2))
      (known, ms.reverse ++ done) := by
  induction ms generalizing done with
  | nil => exact .nil
  | cons m ms ih =>
    obtain ⟨hname, hreads⟩ := h m (.head _)
    have hrest := ih (fun p hp => h p (.tail _ hp)) (m :: done)
    rw [List.reverse_cons, List.append_assoc]
    refine .cons (fun rest hfollows => ?_) hrest
    simp only [readMember, if_neg hname]
    show (do colon; return (known, (m.1, ← readInner n) :: done) : Reader _).run
      (.char ':' :: (Text.Utf8.ofText (render m.2) ++ rest)) = _
    rw [run_bind_of_ok run_colon, run_bind_of_ok (hreads rest hfollows)]
    rfl

theorem run_readTag (tag : Tag) {rest : List Piece} (hfollows : Follows rest) :
    readTag.run (Text.Utf8.ofText (renderText tag.name.toList) ++ rest) = .ok (tag, rest) := by
  unfold readTag
  rw [run_bind_of_ok (reads_text tag.name rest hfollows), Tag.named?_name]
  rfl

theorem reads_tagMember (tag : Tag) (done : List (String × Json)) :
    Reads (readMember n (none, done) tagMember) (':' :: renderText tag.name.toList)
      (some tag, done) := by
  intro rest hfollows
  have honce : (once none readTag).run
      (.char ':' :: (Text.Utf8.ofText (renderText tag.name.toList) ++ rest)) =
      .ok (some tag, rest) := by
    show (colon >>= fun _ => some <$> readTag : Reader (Option Tag)).run _ = _
    rw [run_bind_of_ok run_colon, run_map_of_ok (run_readTag tag hfollows)]
  simp only [readMember, if_true]
  show (once none readTag >>= fun known => pure (known, done) : Reader _).run
    (.char ':' :: (Text.Utf8.ofText (renderText tag.name.toList) ++ rest)) = _
  rw [run_bind_of_ok honce]
  rfl

/-- The members of a command are read to its tag and its fields, from the last one to the first. -/
theorem folds_split {pre post : List (String × Json)}
    (h : ∀ m ∈ pre ++ post, m.1 ≠ tagMember ∧ Reads (readInner n) (render m.2) m.2) (tag : Tag) :
    Folds (readMember n) (none, [])
      ((pre ++ (tagMember, .text tag.name) :: post).map fun m => (m.1, render m.2))
      (some tag, (pre ++ post).reverse) := by
  have hpre : Folds (readMember n) (none, []) (pre.map fun m => (m.1, render m.2))
      (none, pre.reverse ++ []) :=
    folds_fields (fun m hm => h m (List.mem_append_left _ hm)) _ _
  have hpost : Folds (readMember n) (some tag, pre.reverse ++ [])
      (post.map fun m => (m.1, render m.2)) (some tag, post.reverse ++ (pre.reverse ++ [])) :=
    folds_fields (fun m hm => h m (List.mem_append_right _ hm)) _ _
  rw [List.map_append, List.map_cons, List.reverse_append, ← List.append_nil pre.reverse]
  exact hpre.append (.cons (reads_tagMember tag _) hpost)

/-- A written command is read as the command, whatever follows. -/
theorem reads_of_writtenAs {c : Command} {v : Json} (h : c.WrittenAs v)
    (hn : (render v).length ≤ n) : Reads (read n) (render v) c := by
  obtain ⟨pre, post, rfl, hperm⟩ := h.exists_split
  obtain ⟨hcount, hvalue⟩ := length_render_object (pre ++ (tagMember, .text c.tag.name) :: post)
  have hfields : ∀ m ∈ pre ++ post, m.1 ≠ tagMember ∧ Reads (readInner n) (render m.2) m.2 := by
    intro m hm
    have hfield := hperm.mem_iff.1 hm
    have hmem : m ∈ pre ++ (tagMember, .text c.tag.name) :: post :=
      List.perm_middle.mem_iff.2 (.tail _ hm)
    exact ⟨c.fieldsToJson_ne_tagMember m hfield,
      (plain_of_mem (.tail _ hfield) _).reads (Nat.le_trans (hvalue m hmem) hn)⟩
  have hcommand : ofMembers? c.tag (pre ++ post).reverse = some c :=
    ofMembers?_of_perm ((List.reverse_perm _).trans hperm)
  intro rest _
  have hmembers := (folds_split hfields c.tag).run_members (n := n)
    (by rw [List.length_map]; omega) rest
  rw [render_object]
  unfold Command.read
  show (peek >>= _ : Reader Command).run (.char '\x7b' :: (Text.Utf8.ofText _ ++ rest)) = _
  rw [run_bind_of_ok (run_peek rfl)]
  show (skip >>= fun _ => members n (readMember n) (none, []) >>= _ : Reader Command).run _ = _
  rw [run_bind_of_ok run_skip, run_bind_of_ok hmembers]
  show (required (ofMembers? c.tag (pre ++ post).reverse) : Reader Command).run rest = _
  rw [hcommand]
  rfl

/-- A written command is read as itself. -/
theorem ofText_of_writtenAs {c : Command} {v : Json} (h : c.WrittenAs v) :
    ofText (render v) = .ok c :=
  (reads_of_writtenAs h (Nat.le_succ _)).readPieces

end Read

/-! ## Batches -/

theorem ofBytes_of_ofValue? {v : Json} {b : Batch} (h : v.Plain maxNesting)
    (hb : Batch.ofValue? v = some b) : Batch.ofBytes (Text.Utf8.encode (render v)) = .ok b := by
  rw [Batch.ofBytes, readBytes, Text.Utf8.pieces_encode]
  refine Reads.readPieces fun rest hfollows => ?_
  unfold Batch.read
  rw [run_bind_of_ok (h.reads (Nat.le_succ _) rest hfollows), hb]
  rfl

/-- A written command is read as a batch of one command. -/
theorem ofBytes_one {c : Command} {v : Json} (h : c.WrittenAs v) :
    Batch.ofBytes (Text.Utf8.encode (render v)) = .ok (.one c) :=
  ofBytes_of_ofValue? (plain_of_writtenAs h _)
    (by simp only [Batch.ofValue?, ofValue?_of_writtenAs h])

/-- An array of written commands is read as the batch of them. -/
theorem ofBytes_many {cs : List Command} {vs : List Json} (h : List.Forall₂ WrittenAs cs vs) :
    Batch.ofBytes (Text.Utf8.encode (render (.array vs))) = .ok (.many cs) := by
  refine ofBytes_of_ofValue? (.array fun v hv => ?_) (batchOfValue?_array h)
  obtain ⟨i, hi, rfl⟩ := List.getElem_of_mem hv
  exact plain_of_writtenAs (h.get (h.length_eq ▸ hi) hi) _

end Command

/-! ## What is done for a batch -/

namespace Run

variable {K : Kit}

def failures (results : List (Except CommandError Unit)) : Nat := results.countP (!·.isOk)

/-- A command more is counted before the rest of its batch, or together with it. -/
theorem count_failures (tally : Tally) (result : Except CommandError Unit)
    (results : List (Except CommandError Unit)) :
    (tally.count result).failed + failures results = tally.failed + failures (result :: results) ∧
      (tally.count result).total = tally.total + 1 := by
  have hcons : failures (result :: results) =
      failures results + if !result.isOk then 1 else 0 := List.countP_cons
  cases result with
  | ok => exact ⟨rfl, rfl⟩
  | error e =>
    rw [hcons]
    exact ⟨by simp [Tally.count, Except.isOk, Except.toBool]; omega, rfl⟩

/-- All commands of a batch are executed, and those that fail are counted. -/
theorem applyCommands_eq (call : Call K) (tally : Tally) (cs : List Command) :
    applyCommands call tally cs = do
      let results ← cs.mapM (command call)
      return ⟨tally.failed + failures results, tally.total + cs.length⟩ := by
  induction cs generalizing tally with
  | nil => simp [applyCommands, failures]
  | cons c cs ih =>
    rw [applyCommands, List.mapM_cons, bind_assoc]
    refine bind_congr fun result => ?_
    rw [ih, bind_assoc]
    refine bind_congr fun results => ?_
    obtain ⟨hfailed, htotal⟩ := count_failures tally result results
    rw [hfailed, htotal, pure_bind, List.length_cons, Nat.add_assoc, Nat.add_comm 1]

/-- A batch succeeds if none of its commands fails. -/
theorem loadBytes_of_many {call : Call K} {bytes : List UInt8} {cs : List Command}
    (h : Command.Batch.ofBytes bytes = .ok (.many cs)) :
    loadBytes call bytes = do
      let results ← cs.mapM (command call)
      return if failures results = 0 then .ok ()
        else .error (.rejected (failures results) cs.length) := by
  rw [loadBytes, h]
  simp only [applyCommands_eq, bind_assoc, pure_bind, Nat.zero_add, Tally.result]

theorem loadBytes_of_one {call : Call K} {bytes : List UInt8} {c : Command}
    (h : Command.Batch.ofBytes bytes = .ok (.one c)) : loadBytes call bytes = command call c := by
  rw [loadBytes, h]

end Run

open Run

variable {K : Kit}

/-- **Written commands are the commands.** The JSON form of a command, its members in any order, is
read as the command, and loading it is executing the command. An array of such forms is read as the
batch of the commands; loading it executes each of them, in order, and the result is how many of
them failed, if any did. -/
theorem written_commands (call : Call K) :
    (∀ c : Command, c.WrittenAs c.toJson) ∧
    (∀ (c : Command) (v : Json), c.WrittenAs v →
      Command.ofText (render v) = .ok c ∧
      loadBytes call (Text.Utf8.encode (render v)) = command call c) ∧
    ∀ (cs : List Command) (vs : List Json), List.Forall₂ Command.WrittenAs cs vs →
      Command.Batch.ofBytes (Text.Utf8.encode (render (.array vs))) = .ok (.many cs) ∧
      loadBytes call (Text.Utf8.encode (render (.array vs))) = do
        let results ← cs.mapM (command call)
        return if failures results = 0 then .ok ()
          else .error (.rejected (failures results) cs.length) := by
  refine ⟨Command.writtenAs_toJson, fun c v h => ?_, fun cs vs h => ?_⟩
  · exact ⟨Command.ofText_of_writtenAs h, loadBytes_of_one (Command.ofBytes_one h)⟩
  · exact ⟨Command.ofBytes_many h, loadBytes_of_many (Command.ofBytes_many h)⟩

/-- A batch of one command, which has its tag last and an entry that needs escapes. -/
theorem written_commands_escapes :
    loadBytes (callHook (K := Builtin.kit) 3) (Text.Utf8.encode (render (.array [
      .object [("conf", .text "\"\\\u0007\né𝄞"), ("id", .ofInt (-2147483648)),
        ("cmd", .text "conf")]]))) = (do
      let results ← [Command.conf ⟨-2147483648⟩ "\"\\\u0007\né𝄞"].mapM (command (callHook 3))
      return if failures results = 0 then .ok () else .error (.rejected (failures results) 1)) :=
  ((written_commands (callHook (K := Builtin.kit) 3)).2.2 _ _
    (.cons ⟨_, rfl, List.reverse_perm [_, _, _]⟩ .nil)).2

end BlockFlow
