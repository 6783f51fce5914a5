import BlockFlow.Block.Builtin
import BlockFlow.Engine.Commands
import BlockFlow.Proofs.Terms
import BlockFlow.Proofs.LineForm

/-!
# What the records of all live blocks tell

The records of all live blocks are written one right after the other, and a type may have semicolons
and digits in it, so a text of records cannot be cut at the semicolons. It is read from its front: a
number and a type end where the first space is, and what follows them has no semicolon but the last
one.

1. `Listed`, `Manager.listing`: what is told of each live block; `toList_dump`: how it is written.
2. `Listed.text_append_inj`, `flatMap_text_inj`: one record, and all of them.
3. `Run.AsksToAdd`, `AsksToAdd.ends`: the types of blocks that are added by commands.
4. `ends_dumpInto`: the records in a buffer; `unambiguous_dump`: all together.
-/

namespace BlockFlow

open Text (Numeral.ofNat Numeral.ofInt)

variable {K : Kit}

/-! ## Records -/

/-- What is told of a live block in its record. -/
@[ext]
structure Listed where
  id : BlockId
  type : String
  state : State
  deriving DecidableEq

namespace Listed

def text (b : Listed) : List Char :=
  Numeral.ofInt b.id.value.toInt ++ ' ' :: (b.type.toList ++ ' ' ::
    (Numeral.ofNat b.state.code ++ [';']))

def IsSolid (b : Listed) : Prop := ' ' ∉ b.type.toList

instance (b : Listed) : Decidable b.IsSolid := inferInstanceAs (Decidable (' ' ∉ _))

end Listed

namespace Manager

/-- What is told of all live blocks, in the order of their numbers. -/
def listing (m : Manager K) : List Listed :=
  m.blocks.toList.map fun p => ⟨p.1, p.2.type, p.2.state⟩

def IsSolid (m : Manager K) : Prop := ∀ b ∈ m.listing, b.IsSolid

instance (m : Manager K) : Decidable m.IsSolid := inferInstanceAs (Decidable (∀ b ∈ _, _))

theorem listing_ascending (m : Manager K) : m.listing.Pairwise fun a b => a.id < b.id :=
  List.pairwise_map.2 m.blocks.ascending

end Manager

theorem toList_record (e : Entry K) (id : BlockId) :
    (e.record id).toList = Listed.text ⟨id, e.type, e.state⟩ := by
  simp [Entry.record, Listed.text, BlockId.toText, textOfNat, toString, toList_textOfInt32]

theorem toList_dump (m : Manager K) : m.dump.toList = m.listing.flatMap Listed.text := by
  unfold Manager.dump Manager.listing
  rw [String.toList_join, List.flatMap_map, List.flatMap_map]
  exact List.flatMap_congr fun p _ => toList_record p.2 p.1

/-! ## Numerals and codes -/

theorem Text.Numeral.ofInt_inj {i j : Int} : ofInt i = ofInt j ↔ i = j := by
  constructor
  · intro h
    have hread := readInt?_ofInt i
    rw [h, readInt?_ofInt] at hread
    exact (Option.some.inj hread).symm
  · exact congrArg ofInt

theorem Text.Numeral.ofNat_inj {m n : Nat} : ofNat m = ofNat n ↔ m = n := by
  constructor
  · intro h
    have hread := readNat?_ofNat m
    rw [h, readNat?_ofNat] at hread
    exact (Option.some.inj hread).symm
  · exact congrArg ofNat

theorem State.code_inj {s t : State} : s.code = t.code ↔ s = t := by
  cases s <;> cases t <;> simp [State.code]

theorem Text.space_not_mem_ofInt (n : Int) : ' ' ∉ Numeral.ofInt n := by
  intro h
  exact absurd (isBlank_of_mem_ofInt h) (by decide)

theorem Text.semicolon_not_mem_ofNat (n : Nat) : ';' ∉ Numeral.ofNat n := by
  intro h
  have hdigit := Nat.isDigit_of_mem_toDigits (by decide) (by decide) h
  exact absurd hdigit (by decide)

/-- What stands before and after the first occurrence of a character. -/
theorem Text.append_cons_inj {c : Char} {as as' bs bs' : List Char} (has : c ∉ as) (has' : c ∉ as')
    (h : as ++ c :: bs = as' ++ c :: bs') : as = as' ∧ bs = bs' := by
  have hcut := cutAt?_append has bs
  rw [h, cutAt?_append has' bs'] at hcut
  obtain ⟨hfront, hback⟩ := Prod.mk.inj (Option.some.inj hcut)
  exact ⟨hfront.symm, hback.symm⟩

/-! ## Records one after the other -/

namespace Listed

variable {a b : Listed} {as bs : List Listed} {cs ds : List Char}

theorem text_ne_nil (b : Listed) : b.text ≠ [] := by simp [text]

/-- A record is told apart from whatever follows it. -/
theorem text_append_inj (ha : a.IsSolid) (hb : b.IsSolid) (h : a.text ++ cs = b.text ++ ds) :
    a = b ∧ cs = ds := by
  simp only [text, List.append_assoc, List.cons_append, List.nil_append] at h
  -- The number ends at the first space, the type at the next one, the code at the next semicolon.
  obtain ⟨hid, h⟩ :=
    Text.append_cons_inj (Text.space_not_mem_ofInt _) (Text.space_not_mem_ofInt _) h
  obtain ⟨htype, h⟩ := Text.append_cons_inj ha hb h
  obtain ⟨hcode, hrest⟩ :=
    Text.append_cons_inj (Text.semicolon_not_mem_ofNat _) (Text.semicolon_not_mem_ofNat _) h
  have hvalue : a.id.value = b.id.value := Int32.toInt_inj.1 (Text.Numeral.ofInt_inj.1 hid)
  have hstate : a.state = b.state := State.code_inj.1 (Text.Numeral.ofNat_inj.1 hcode)
  exact ⟨Listed.ext (congrArg BlockId.mk hvalue) (String.toList_inj.1 htype) hstate, hrest⟩

/-- Records that were written one after the other are told apart. -/
theorem flatMap_text_inj (has : ∀ a ∈ as, a.IsSolid) (hbs : ∀ b ∈ bs, b.IsSolid)
    (h : as.flatMap text = bs.flatMap text) : as = bs := by
  induction as generalizing bs with
  | nil =>
    cases bs with
    | nil => rfl
    | cons b bs =>
      rw [List.flatMap_nil, List.flatMap_cons] at h
      exact absurd (List.append_eq_nil_iff.1 h.symm).1 b.text_ne_nil
  | cons a as ih =>
    cases bs with
    | nil =>
      rw [List.flatMap_nil, List.flatMap_cons] at h
      exact absurd (List.append_eq_nil_iff.1 h).1 a.text_ne_nil
    | cons b bs =>
      rw [List.flatMap_cons, List.flatMap_cons] at h
      obtain ⟨rfl, hrest⟩ := text_append_inj (has a (.head _)) (hbs b (.head _)) h
      rw [ih (fun c hc => has c (.tail _ hc)) (fun c hc => hbs c (.tail _ hc)) hrest]

end Listed

/-! ## Blocks that are added by commands -/

/-- The type that a command asks for is a word. -/
theorem Order.space_not_mem_of_ofArgument {kind : CommandKind} {arg : Option String}
    {type : String} (h : ofArgument kind arg = .ok (.add type)) : ' ' ∉ type.toList := by
  unfold ofArgument at h
  cases kind with
  | add =>
    dsimp only at h
    split at h
    · next w rest hw =>
      cases h
      obtain ⟨text, -, htoken⟩ := Option.bind_eq_some_iff.1 hw
      unfold Text.token? at htoken
      split at htoken
      · cases htoken
      · cases htoken
        rw [String.toList_ofList]
        intro hspace
        exact absurd (List.mem_takeWhile_imp hspace) (by decide)
    · cases h
  | conf =>
    dsimp only at h
    split at h <;> cases h
  | bind =>
    dsimp only at h
    split at h
    · cases h
    · split at h <;> cases h
  | init | start | stop | del => cases h

namespace Run

variable {call : Call K} {s : Machine K}

/-- A command, in any of its forms, by which a block is to be added. -/
inductive AsksToAdd (call : Call K) (id : BlockId) : Run K (Except CommandError Unit) → Prop
  | exec (arg : Option String) : AsksToAdd call id (exec call .add id arg)
  | line {cs : List Char} {arg : Option String} (h : Line.parse cs = .ok (.add, id, arg)) :
    AsksToAdd call id (line call cs)
  | command (type : String) : AsksToAdd call id (command call (.add id type))

/-- A block is added with its type, or nothing happens to the live blocks. -/
theorem ends_add_blocks (id : BlockId) (type : String) : (add id type).Abides .total (fun x t =>
    (∃ e, x = .error e) ∧ t.manager.blocks = s.manager.blocks ∨
      x = .ok () ∧ ∃ e, e.type = type ∧ t.manager.blocks = s.manager.blocks.insert id e) s := by
  unfold add
  rw [abides_bind, abides_manager]
  split
  · exact .inl ⟨⟨_, rfl⟩, rfl⟩
  split
  · exact .inl ⟨⟨_, rfl⟩, rfl⟩
  cases s.manager.factories.get? type with
  | none => exact .inl ⟨⟨_, rfl⟩, rfl⟩
  | some factory =>
    dsimp only
    rw [abides_bind, abides_onHost]
    cases (K.build factory s.host).1 with
    | none => exact .inl ⟨⟨_, rfl⟩, rfl⟩
    | some c => exact .inr ⟨rfl, _, rfl, rfl⟩

/-- From one machine to another nothing happens to the live blocks, or a block is added whose type
has no space in it; the result tells which. -/
def AddsSolid (s : Machine K) (id : BlockId) (x : Except CommandError Unit) (t : Machine K) :
    Prop :=
  (∃ e, x = .error e) ∧ t.manager.blocks = s.manager.blocks ∨
    x = .ok () ∧ ∃ e, ' ' ∉ e.type.toList ∧ t.manager.blocks = s.manager.blocks.insert id e

theorem ends_exec_add (id : BlockId) (arg : Option String) :
    (exec call .add id arg).Abides .total (AddsSolid s id) s := by
  rw [exec_eq, abides_bind, abides_notify]
  unfold carryOut
  split
  · exact .inl ⟨⟨_, rfl⟩, rfl⟩
  cases horder : Order.ofArgument .add arg with
  | error fault => cases fault <;> exact .inl ⟨⟨_, rfl⟩, rfl⟩
  | ok order =>
    dsimp only
    rw [abides_bind]
    obtain ⟨type, rfl⟩ : ∃ type, order = .add type := by
      unfold Order.ofArgument at horder
      dsimp only at horder
      split at horder
      · cases horder
        exact ⟨_, rfl⟩
      · cases horder
    have htype := Order.space_not_mem_of_ofArgument horder
    refine (ends_add_blocks id type).mono fun x t hx => ?_
    rcases hx with ⟨⟨e, rfl⟩, hblocks⟩ | ⟨rfl, e, he, hblocks⟩
    · exact .inl ⟨⟨_, rfl⟩, hblocks⟩
    · exact .inr ⟨rfl, e, he ▸ htype, hblocks⟩

/-- A block that is added by a command has no space in its type. -/
theorem AsksToAdd.ends {id : BlockId} {r : Run K (Except CommandError Unit)}
    (h : AsksToAdd call id r) : r.Abides .total (AddsSolid s id) s := by
  cases h with
  | exec arg => exact ends_exec_add id arg
  | line hparse =>
    unfold Run.line
    rw [hparse]
    exact ends_exec_add id _
  | command type => exact ends_exec_add id (some type)

/-! ## Records in a buffer -/

/-- As much of the records as fits is written to the front of a buffer. -/
theorem ends_dumpInto (buffer : List UInt8) : (dumpInto buffer).Abides .total (fun p t =>
    p = Buffer.write buffer (bytesOf s.manager.dump) ∧
      t.manager = s.manager ∧ t.host = s.host) s := by
  unfold dumpInto
  rw [abides_bind, abides_manager]
  dsimp only
  split
  · rw [abides_bind, abides_notify]
    exact ⟨rfl, rfl, rfl⟩
  · exact ⟨rfl, rfl, rfl⟩

end Run

open Run

/-- **The records of live blocks tell them.** Two managers without a space in the types of their
live blocks have the same records only if they have the same blocks, with the same types and states;
these are told in ascending order of their numbers. Blocks that are added by commands have no spaces
in their types. In a buffer there are as many bytes of the records as fit, and behind them the
buffer is as it was. -/
theorem unambiguous_dump {K K' : Kit} :
    (∀ (m : Manager K) (m' : Manager K'), m.IsSolid → m'.IsSolid → m.dump = m'.dump →
      m.listing = m'.listing) ∧
    (∀ m : Manager K, m.listing.Pairwise fun a b => a.id < b.id) ∧
    (∀ (call : Call K) (id : BlockId) (r : Run K (Except CommandError Unit)) (s : Machine K),
      AsksToAdd call id r → r.Abides .total (AddsSolid s id) s) ∧
    ∀ (s : Machine K) (buffer : List UInt8), (dumpInto buffer).Abides .total (fun (n, after) t =>
      n = min (bytesOf s.manager.dump).length buffer.length ∧
        after.take n = (bytesOf s.manager.dump).take n ∧ after.drop n = buffer.drop n ∧
        after.length = buffer.length ∧ t.manager = s.manager ∧ t.host = s.host) s := by
  refine ⟨fun m m' hm hm' h => ?_, Manager.listing_ascending, fun call id r s h => h.ends,
    fun s buffer => ?_⟩
  · rw [← String.toList_inj, toList_dump, toList_dump] at h
    exact Listed.flatMap_text_inj hm hm' h
  · refine (ends_dumpInto buffer).mono fun p t ⟨hp, hmanager, hhost⟩ => ?_
    subst hp
    exact ⟨rfl, Buffer.take_write _ _, Buffer.drop_write _ _, Buffer.length_write _ _, hmanager,
      hhost⟩

/-- A manager with live blocks of some types and states. -/
def peopled (bs : List Listed) (serial : Nat) : Manager Builtin.kit :=
  { (.fresh {} : Manager Builtin.kit) with
    blocks := bs.foldl (fun blocks b => blocks.insert b.id
      { serial, type := b.type, state := b.state, contents := none }) Keyed.empty }

/-- Blocks whose types look like ends of records. -/
def lookalikes : List Listed := [⟨⟨-1⟩, "a;0", .stopped⟩, ⟨⟨2⟩, "1;2", .started⟩]

/-- Two managers to which the same blocks were added in two orders, and a command with a type that
looks like the end of a record. -/
theorem unambiguous_dump_lookalikes :
    ((peopled lookalikes 0).IsSolid ∧ (peopled lookalikes.reverse 7).IsSolid ∧
      (peopled lookalikes 0).dump = (peopled lookalikes.reverse 7).dump ∧
      (peopled lookalikes 0).listing = (peopled lookalikes.reverse 7).listing) ∧
    Line.parse "0 3 ;0; 4".toList = .ok (.add, ⟨3⟩, some ";0; 4") ∧
    (line (callHook 1) "0 3 ;0; 4".toList).Abides .total (AddsSolid ⟨peopled [] 0, .manual, []⟩ ⟨3⟩)
      ⟨peopled [] 0, .manual, []⟩ := by
  obtain ⟨hdump, -, hadds, -⟩ := @unambiguous_dump Builtin.kit Builtin.kit
  have hsolid : (peopled lookalikes 0).IsSolid := by decide
  have hsolid' : (peopled lookalikes.reverse 7).IsSolid := by decide
  have hsame : (peopled lookalikes 0).dump = (peopled lookalikes.reverse 7).dump := by
    decide +kernel
  have hparse : Line.parse "0 3 ;0; 4".toList = .ok (.add, ⟨3⟩, some ";0; 4") := by decide
  exact ⟨⟨hsolid, hsolid', hsame, hdump _ _ hsolid hsolid' hsame⟩, hparse,
    hadds _ _ _ _ (.line hparse)⟩

/-- With a space in a type, one block has the records of two. -/
example : (peopled [⟨⟨1⟩, "a 0;2 b", .started⟩] 0).dump =
    (peopled [⟨⟨1⟩, "a", .stopped⟩, ⟨⟨2⟩, "b", .started⟩] 0).dump := by
  decide +kernel

end BlockFlow
