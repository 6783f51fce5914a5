import BlockFlow.Proofs.LineForm
import BlockFlow.Proofs.LineWords

/-!
# Which lines are obeyed

A line is obeyed if it is written as it should be; otherwise there is one error for each way in
which it is not, and the first of them in a fixed order is told. A line that is obeyed does what an
operation of the engine does, for the block and with the argument that are written in it, whatever
blanks stand around them.

1. `Machine.Fails`: a run that ends with an error; `fails_exec`: the errors of a command.
2. `CommandKind.ofCode?_eq_some_iff`, `Order.Reading`: what a code and an argument stand for.
3. `Machine.Relays`, `Line.Asks`: the operation that a line asks for is done, and its result told.
4. `Line.Answers`, `Line.Grammar`, `grammar_line`: what each line comes to.
-/

namespace BlockFlow

open Text

variable {K : Kit} {ε α : Type}

/-! ## Errors of runs -/

/-- A run ends with an error for its result. -/
def Machine.Fails (s : Machine K) (r : Run K (Except ε α)) (e : ε) : Prop :=
  ∃ t, s.run? r = some (.ok (.error e), t)

def Machine.told (s : Machine K) (n : Notice) : Machine K :=
  { s with events := .notice n :: s.events }

@[simp]
theorem Machine.told_manager (s : Machine K) (n : Notice) : (s.told n).manager = s.manager := rfl

namespace Run

variable {call : Call K} {s : Machine K} {kind : CommandKind} {id : BlockId} {arg : Option String}
  {e e' : CommandError}

theorem fails_refuse {n : Notice} :
    s.Fails (refuse n e : Run K (Except CommandError α)) e' ↔ e' = e := by
  constructor
  · rintro ⟨t, ht⟩
    cases ht
    rfl
  · rintro rfl
    exact ⟨s.told n, rfl⟩

theorem fails_notify {n : Notice} {r : Run K (Except ε α)} {e : ε} :
    s.Fails (notify n >>= fun _ => r) e ↔ (s.told n).Fails r e := Iff.rfl

theorem exists_engine_of_fails {r : Run K (Except EngineError α)}
    (h : s.Fails (r >>= fun x => pure (x.mapError CommandError.engine)) e) :
    ∃ c, e = .engine c := by
  obtain ⟨t, ht⟩ := h
  obtain ⟨x, u, hx, hpure⟩ := exists_of_run?_bind ht
  cases x with
  | ok a => cases hpure
  | error c =>
    cases hpure
    exact ⟨c, rfl⟩

/-! ## The errors of a command -/

theorem fails_exec_of_isSink (h : id.isSink) :
    s.Fails (exec call kind id arg) e ↔ e = .forbiddenId id := by
  rw [exec_eq, fails_notify, carryOut, if_pos h, fails_refuse]

/-- The errors that a command for a block has by itself. -/
theorem fails_exec (h : id.isSink = false) (he : ∀ c, e ≠ .engine c) :
    s.Fails (exec call kind id arg) e ↔
      Order.ofArgument kind arg = .error .missing ∧ e = .missingArgument kind ∨
      ∃ x, Order.ofArgument kind arg = .error (.notABinding x) ∧ e = .invalidBind x := by
  rw [exec_eq, fails_notify, carryOut, if_neg (by rw [h]; exact Bool.false_ne_true)]
  cases Order.ofArgument kind arg with
  | ok order =>
    constructor
    · intro hfails
      obtain ⟨c, hc⟩ := exists_engine_of_fails hfails
      exact absurd hc (he c)
    · rintro (⟨h, -⟩ | ⟨x, h, -⟩) <;> cases h
  | error fault =>
    cases fault with
    | missing =>
      refine fails_refuse.trans ⟨fun he => .inl ⟨rfl, he⟩, ?_⟩
      rintro (⟨-, he⟩ | ⟨x, h, -⟩)
      · exact he
      · cases h
    | notABinding x =>
      refine fails_refuse.trans ⟨fun he => .inr ⟨x, rfl, he⟩, ?_⟩
      rintro (⟨h, -⟩ | ⟨y, h, he⟩)
      · cases h
      · cases h
        exact he

theorem cases_of_fails_exec (he : ∀ c, e ≠ .engine c) (h : s.Fails (exec call kind id arg) e) :
    e = .forbiddenId id ∨ e = .missingArgument kind ∨ ∃ x, e = .invalidBind x := by
  cases hid : id.isSink with
  | true => exact .inl ((fails_exec_of_isSink hid).1 h)
  | false =>
    rcases (fails_exec hid he).1 h with ⟨-, he⟩ | ⟨x, -, he⟩
    · exact .inr (.inl he)
    · exact .inr (.inr ⟨x, he⟩)

theorem exec_of_order {order : Order} (h : id.isSink = false)
    (horder : Order.ofArgument kind arg = .ok order) :
    exec call kind id arg = notify (.commandGiven id kind (arg.getD "")) >>= fun _ =>
      obey call id order >>= fun x => pure (x.mapError .engine) := by
  rw [exec_eq, carryOut, if_neg (by rw [h]; exact Bool.false_ne_true), horder]

end Run

/-! ## Codes and arguments -/

theorem CommandKind.ofCode?_eq_some_iff {code : Int32} {kind : CommandKind} :
    ofCode? code = some kind ↔ code.toInt = kind.code := by
  constructor
  · intro h
    unfold ofCode? at h
    split at h
    · cases h
    · next hneg =>
      rw [Int32.lt_iff_toInt_lt, Int32.toInt_zero, Int.not_lt] at hneg
      have hcode : ∀ (n : Nat) (k : CommandKind), all[n]? = some k → n = k.code := by
        intro n k hk
        obtain ⟨hlt, rfl⟩ := List.getElem?_eq_some_iff.1 hk
        revert n
        decide
      have := hcode _ _ h
      omega
  · intro h
    have hcode : code = Int32.ofNat kind.code := by
      rw [← Int32.toInt_inj, h]
      cases kind <;> rfl
    rw [hcode, ofCode?_code]

theorem CommandKind.ofCode?_eq_none_iff {code : Int32} :
    ofCode? code = none ↔ code < 0 ∨ 6 < code := by
  have hsix : (6 : Int32).toInt = 6 := rfl
  unfold ofCode?
  split
  · next hneg => exact ⟨fun _ => .inl hneg, fun _ => rfl⟩
  · next hneg =>
    rw [List.getElem?_eq_none_iff, or_iff_right hneg, Int32.lt_iff_toInt_lt, hsix]
    show 7 ≤ code.toInt.toNat ↔ _
    omega

/-- The kinds of command that are nothing without an argument. -/
def CommandKind.TakesArgument (kind : CommandKind) : Prop := kind ∈ [.add, .conf, .bind]

instance (kind : CommandKind) : Decidable kind.TakesArgument :=
  inferInstanceAs (Decidable (kind ∈ _))

theorem Text.IsTrimmed.argument?_eq {a : List Char} (ha : IsTrimmed a) (hne : a ≠ []) :
    Line.argument? a = some (String.ofList a) := by
  rw [Line.argument?_eq_some (ha.trim_eq.symm ▸ hne), ha.trim_eq]

namespace Order

variable {kind : CommandKind} {a w : List Char} {x : String} {port : Port} {dest : BlockId}

/-- What an argument is for a kind of command: something is wrong with it, or it is asked for
something. -/
inductive Reading (a : List Char) : CommandKind → Except Fault Order → Prop
  | missing {kind : CommandKind} (h : kind.TakesArgument) (hnil : a = []) :
    Reading a kind (.error .missing)
  | notABinding (hne : a ≠ []) (h : ∀ port dest, ¬ Pair a port dest) :
    Reading a .bind (.error (.notABinding (String.ofList a)))
  | add {w : List Char} (h : FirstWord a w) : Reading a .add (.ok (.add (String.ofList w)))
  | conf (hne : a ≠ []) : Reading a .conf (.ok (.conf (String.ofList a)))
  | bind {port : Port} {dest : BlockId} (h : Pair a port dest) :
    Reading a .bind (.ok (.bind port dest))
  | init : Reading a .init (.ok .init)
  | start : Reading a .start (.ok .start)
  | stop : Reading a .stop (.ok .stop)
  | del : Reading a .del (.ok .del)

variable {x : Except Fault Order}

theorem exists_reading (ha : IsTrimmed a) (kind : CommandKind) : ∃ x, Reading a kind x := by
  by_cases hnil : a = []
  · cases kind with
    | add | conf | bind => exact ⟨_, .missing (by decide) hnil⟩
    | init => exact ⟨_, .init⟩
    | start => exact ⟨_, .start⟩
    | stop => exact ⟨_, .stop⟩
    | del => exact ⟨_, .del⟩
  · cases kind with
    | add =>
      obtain ⟨w, hw⟩ := exists_firstWord ha hnil
      exact ⟨_, .add hw⟩
    | conf => exact ⟨_, .conf hnil⟩
    | bind =>
      by_cases hpair : ∃ port dest, Pair a port dest
      · obtain ⟨port, dest, hpair⟩ := hpair
        exact ⟨_, .bind hpair⟩
      · exact ⟨_, .notABinding hnil fun port dest h => hpair ⟨port, dest, h⟩⟩
    | init => exact ⟨_, .init⟩
    | start => exact ⟨_, .start⟩
    | stop => exact ⟨_, .stop⟩
    | del => exact ⟨_, .del⟩

theorem Reading.ofArgument_eq (h : Reading a kind x) (ha : IsTrimmed a) :
    ofArgument kind (Line.argument? a) = x := by
  have hsome := @IsTrimmed.argument?_eq a ha
  cases h with
  | missing h hnil =>
    subst hnil
    cases kind with
    | add | conf | bind => rfl
    | init | start | stop | del => exact absurd h (by decide)
  | notABinding hne h =>
    have hnone : bindArgument? a = none :=
      Option.eq_none_iff_forall_ne_some.2 fun p hp => h p.1 p.2 (bindArgument?_eq_some_iff.1 hp)
    simp only [hsome hne, ofArgument, String.toList_ofList, hnone]
  | add h =>
    obtain ⟨rest, htoken⟩ := firstWord_iff.1 h
    simp only [hsome h.ne_nil, ofArgument, Option.bind_some, String.toList_ofList, htoken]
  | conf hne =>
    obtain ⟨c, cs, rfl⟩ := List.exists_cons_of_ne_nil hne
    simp only [hsome hne, ofArgument, Option.map_some, String.toList_ofList, ha.trim_eq]
  | bind h =>
    simp only [hsome h.ne_nil, ofArgument, String.toList_ofList, bindArgument?_eq_some_iff.2 h]
  | init | start | stop | del => rfl

theorem ofArgument_eq_missing_iff (ha : IsTrimmed a) :
    ofArgument kind (Line.argument? a) = .error .missing ↔ kind.TakesArgument ∧ a = [] := by
  constructor
  · intro h
    obtain ⟨x, hx⟩ := exists_reading ha kind
    rw [hx.ofArgument_eq ha] at h
    subst h
    cases hx with
    | missing h hnil => exact ⟨h, hnil⟩
  · rintro ⟨h, hnil⟩
    exact (Reading.missing h hnil).ofArgument_eq ha

theorem ofArgument_eq_notABinding_iff (ha : IsTrimmed a) {t : String} :
    ofArgument kind (Line.argument? a) = .error (.notABinding t) ↔
      (kind = .bind ∧ a ≠ [] ∧ ∀ port dest, ¬ Pair a port dest) ∧ t = String.ofList a := by
  constructor
  · intro h
    obtain ⟨x, hx⟩ := exists_reading ha kind
    rw [hx.ofArgument_eq ha] at h
    subst h
    cases hx with
    | notABinding hne h => exact ⟨⟨rfl, hne, h⟩, rfl⟩
  · rintro ⟨⟨rfl, hne, h⟩, rfl⟩
    exact (Reading.notABinding hne h).ofArgument_eq ha

end Order

/-! ## Lines -/

/-- A run tells a notice and then does what another does, with the same result but for what its
errors are called. -/
def Machine.Relays (s : Machine K) (n : Notice) (r : Run K (Except CommandError α))
    (r' : Run K (Except EngineError α)) : Prop :=
  Option.Rel (fun p p' => p.1 = p'.1.map (·.mapError .engine) ∧ p.2.manager = p'.2.manager ∧
      p.2.host = p'.2.host ∧
      ∃ es, p.2.events = es ++ .notice n :: s.events ∧ p'.2.events = es ++ s.events)
    (s.run? r) (s.run? r')

theorem Run.Blind.relays {r : Run K (Except EngineError α)} (h : r.Blind) (s : Machine K)
    (n : Notice) :
    s.Relays n (notify n >>= fun _ => r >>= fun x => pure (x.mapError .engine)) r := by
  obtain ⟨u, hu⟩ : ∃ u : Machine K, u = { s with events := [] } := ⟨_, rfl⟩
  have hs : s = u.onto s.events := by rw [hu]; rfl
  have htold : s.told n = u.onto (.notice n :: s.events) := by rw [hu]; rfl
  show Option.Rel _ ((s.told n).run? (r >>= fun x => pure (x.mapError CommandError.engine))) _
  rw [run?_bind, htold, h.result]
  conv => arg 3; rw [hs, h.result]
  cases u.run? r with
  | none => exact .none
  | some p =>
    obtain ⟨x, t⟩ := p
    cases x with
    | ok x => exact .some ⟨rfl, rfl, rfl, t.events, rfl, rfl⟩
    | error b => exact .some ⟨rfl, rfl, rfl, t.events, rfl, rfl⟩

namespace Line

/-- The operation that a line asks for, by its kind, its block and its argument. -/
inductive Asks (n : Nat) (id : BlockId) (a : List Char) :
    CommandKind → Run K (Except EngineError Unit) → Prop
  | add {w : List Char} (h : FirstWord a w) : Asks n id a .add (Run.add id (String.ofList w))
  | conf (hne : a ≠ []) : Asks n id a .conf (Run.conf (Run.callHook n) id (String.ofList a))
  | bind {port : Port} {dest : BlockId} (h : Order.Pair a port dest) :
    Asks n id a .bind (Run.bind (Run.callHook n) id port dest)
  | start : Asks n id a .start (Run.start (Run.callHook n) id)
  | stop : Asks n id a .stop (Run.stop (Run.callHook n) id)
  | del : Asks n id a .del (Run.del id)

variable {n : Nat} {s : Machine K} {line c i a : List Char} {code id : Int32} {kind : CommandKind}

theorem Asks.exists_order {block : BlockId} {r : Run K (Except EngineError Unit)}
    (h : Asks n block a kind r) : ∃ order, Order.Reading a kind (.ok order) ∧
      Run.obey (Run.callHook n) block order = r := by
  cases h with
  | add h => exact ⟨_, .add h, rfl⟩
  | conf hne => exact ⟨_, .conf hne, rfl⟩
  | bind h => exact ⟨_, .bind h, rfl⟩
  | start => exact ⟨_, .start, rfl⟩
  | stop => exact ⟨_, .stop, rfl⟩
  | del => exact ⟨_, .del, rfl⟩

/-- There is something asked for, unless the argument is missing or is no binding. -/
theorem exists_asks (block : BlockId) (ha : IsTrimmed a) (hinit : kind ≠ .init)
    (hmissing : ¬ (kind.TakesArgument ∧ a = []))
    (hbind : kind = .bind → ∃ port dest, Order.Pair a port dest) :
    ∃ r : Run K (Except EngineError Unit), Asks n block a kind r := by
  obtain ⟨x, hx⟩ := Order.exists_reading ha kind
  cases hx with
  | missing h hnil => exact absurd ⟨h, hnil⟩ hmissing
  | notABinding hne h =>
    obtain ⟨port, dest, hpair⟩ := hbind rfl
    exact absurd hpair (h port dest)
  | add h => exact ⟨_, .add h⟩
  | conf hne => exact ⟨_, .conf hne⟩
  | bind h => exact ⟨_, .bind h⟩
  | init => exact absurd rfl hinit
  | start => exact ⟨_, .start⟩
  | stop => exact ⟨_, .stop⟩
  | del => exact ⟨_, .del⟩

/-- What comes of a line that has a code, a block number and an argument. -/
structure Answers (n : Nat) (s : Machine K) (line : List Char) (code id : Int32) (a : List Char) :
    Prop where
  /-- There is no kind of command for the code. -/
  unknown : ∀ x, s.Fails (Run.line (Run.callHook n) line) (.unknownCommand x) ↔
    (code < 0 ∨ 6 < code) ∧ x = code
  /-- There is one, but the number is that of the sink. -/
  forbidden : ∀ kind : CommandKind, code.toInt = kind.code → ∀ x,
    s.Fails (Run.line (Run.callHook n) line) (.forbiddenId x) ↔ id = 0 ∧ x = ⟨id⟩
  /-- It is not, but an argument is missing. -/
  missing : ∀ kind : CommandKind, code.toInt = kind.code → id ≠ 0 → ∀ x,
    s.Fails (Run.line (Run.callHook n) line) (.missingArgument x) ↔
      (kind.TakesArgument ∧ a = []) ∧ x = kind
  /-- There is one, but it is no binding. -/
  notABinding : ∀ kind : CommandKind, code.toInt = kind.code → id ≠ 0 → ∀ x,
    s.Fails (Run.line (Run.callHook n) line) (.invalidBind x) ↔
      (kind = .bind ∧ a ≠ [] ∧ ∀ port dest, ¬ Order.Pair a port dest) ∧ x = String.ofList a
  /-- In any other case an operation is asked for, unless there is nothing to do. -/
  asks : ∀ kind : CommandKind, code.toInt = kind.code → kind ≠ .init →
    ¬ (kind.TakesArgument ∧ a = []) → (kind = .bind → ∃ port dest, Order.Pair a port dest) →
    ∃ r : Run K (Except EngineError Unit), Asks n ⟨id⟩ a kind r
  /-- It is done, and its result is that of the line. -/
  relays : ∀ kind : CommandKind, code.toInt = kind.code → id ≠ 0 → ∀ r, Asks n ⟨id⟩ a kind r →
    s.Relays (.commandGiven ⟨id⟩ kind (String.ofList a)) (Run.line (Run.callHook n) line) r
  /-- The command without effect succeeds for a live block. -/
  init : code.toInt = CommandKind.init.code → id ≠ 0 → s.manager.blocks.contains ⟨id⟩ →
    s.run? (Run.line (Run.callHook n) line) = some (.ok (.ok ()),
      (s.told (.commandGiven ⟨id⟩ .init (String.ofList a))).told (.initIgnored ⟨id⟩))
  /-- For any other it fails. -/
  initLost : code.toInt = CommandKind.init.code → id ≠ 0 →
    s.manager.blocks.contains ⟨id⟩ = false →
    s.run? (Run.line (Run.callHook n) line) = some (.ok (.error (.engine (.blockNotFound ⟨id⟩))),
      (s.told (.commandGiven ⟨id⟩ .init (String.ofList a))).told (.notFound ⟨id⟩))

/-- What comes of a line. -/
structure Grammar (n : Nat) (s : Machine K) (line : List Char) : Prop where
  /-- The line does not begin with two numerals. -/
  malformed : ∀ x, s.Fails (Run.line (Run.callHook n) line) (.malformedLine x) ↔
    (¬ ∃ c i a, ∃ code id : Int32, Parts line c i a ∧ Numeral.Spells c code.toInt ∧
      Numeral.Spells i id.toInt) ∧ x = String.ofList line
  /-- A line has parts in one way only. -/
  unique : ∀ c i a c' i' a', Parts line c i a → Parts line c' i' a' → c = c' ∧ i = i' ∧ a = a'
  /-- The line begins with two numerals. -/
  answers : ∀ c i a, ∀ code id : Int32, Parts line c i a → Numeral.Spells c code.toInt →
    Numeral.Spells i id.toInt → Answers n s line code id a
  /-- Then nothing depends on the blanks between its parts. -/
  spacing : ∀ c i a line', ∀ code id : Int32, Parts line c i a → Parts line' c i a →
    Numeral.Spells c code.toInt → Numeral.Spells i id.toInt →
    Run.line (K := K) (Run.callHook n) line' = Run.line (Run.callHook n) line

end Line

namespace Run

variable {call : Call K} {s : Machine K} {n : Nat} {line rest a : List Char} {code id : Int32}
  {kind : CommandKind}

theorem line_of_none (h : Line.numbers? line = none) : Run.line call line =
    refuse (.lineMalformed (String.ofList line)) (.malformedLine (String.ofList line)) := by
  rw [Run.line, Line.parse, h]

theorem line_of_code_none (h : Line.numbers? line = some (code, id, rest))
    (hcode : CommandKind.ofCode? code = none) :
    Run.line call line = refuse (.codeUnknown code) (.unknownCommand code) := by
  rw [Run.line, Line.parse, h]
  simp only [hcode]

theorem line_of_code (h : Line.numbers? line = some (code, id, rest)) (ha : trim rest = a)
    (hcode : CommandKind.ofCode? code = some kind) :
    Run.line call line = exec call kind ⟨id⟩ (Line.argument? a) := by
  have hargument : Line.argument? rest = Line.argument? a := by
    rw [Line.argument?, Line.argument?, ← ha, trim_trim]
  rw [Run.line, Line.parse, h, ← hargument]
  simp only [hcode]

end Run

open Run

/-- Lines with the same parts are the same command. -/
theorem line_congr {call : Call K} {line line' c i a : List Char} {code id : Int32}
    (h : Line.Parts line c i a) (h' : Line.Parts line' c i a) (hc : Numeral.Spells c code.toInt)
    (hi : Numeral.Spells i id.toInt) : Run.line call line' = Run.line call line := by
  obtain ⟨rest, hnumbers, ha⟩ := Line.numbers?_of_parts h hc hi
  obtain ⟨rest', hnumbers', ha'⟩ := Line.numbers?_of_parts h' hc hi
  cases hcode : CommandKind.ofCode? code with
  | none => rw [line_of_code_none hnumbers hcode, line_of_code_none hnumbers' hcode]
  | some kind => rw [line_of_code hnumbers ha hcode, line_of_code hnumbers' ha' hcode]

theorem argument?_getD {a : List Char} (ha : IsTrimmed a) :
    (Line.argument? a).getD "" = String.ofList a := by
  by_cases hnil : a = []
  · rw [hnil]
    rfl
  · rw [ha.argument?_eq hnil]
    rfl

theorem isSink_iff {id : Int32} : (⟨id⟩ : BlockId).isSink = true ↔ id = 0 := by
  rw [BlockId.isSink, decide_eq_true_iff]
  exact ⟨fun h => BlockId.mk.inj h, fun h => h ▸ rfl⟩

theorem isSink_of_ne {id : Int32} (h : id ≠ 0) : (⟨id⟩ : BlockId).isSink = false :=
  Bool.eq_false_iff.2 fun hsink => h (isSink_iff.1 hsink)

namespace Line

variable {call : Call K} {n : Nat} {s : Machine K} {line a rest : List Char} {code id : Int32}
  {kind : CommandKind}

theorem fails_unknown_iff (h : numbers? line = some (code, id, rest)) {x : Int32} :
    s.Fails (Run.line call line) (.unknownCommand x) ↔ (code < 0 ∨ 6 < code) ∧ x = code := by
  cases hcode : CommandKind.ofCode? code with
  | none =>
    rw [line_of_code_none h hcode, fails_refuse, CommandError.unknownCommand.injEq]
    exact (and_iff_right (CommandKind.ofCode?_eq_none_iff.1 hcode)).symm
  | some kind =>
    have hrange : ¬ (code < 0 ∨ 6 < code) := fun hrange => by
      rw [CommandKind.ofCode?_eq_none_iff.2 hrange] at hcode
      cases hcode
    rw [line_of_code h rfl hcode]
    refine ⟨fun hfails => ?_, fun hx => absurd hx.1 hrange⟩
    rcases cases_of_fails_exec (fun _ h => by cases h) hfails with he | he | ⟨y, he⟩ <;> cases he

theorem fails_malformed_iff {x : String} :
    s.Fails (Run.line call line) (.malformedLine x) ↔
      (¬ ∃ c i a, ∃ code id : Int32, Parts line c i a ∧ Numeral.Spells c code.toInt ∧
        Numeral.Spells i id.toInt) ∧ x = String.ofList line := by
  cases hnumbers : numbers? line with
  | none =>
    rw [line_of_none hnumbers, fails_refuse, CommandError.malformedLine.injEq]
    refine (and_iff_right ?_).symm
    rintro ⟨c, i, a, code, id, h, hc, hi⟩
    obtain ⟨rest, hsome, -⟩ := numbers?_of_parts h hc hi
    rw [hnumbers] at hsome
    cases hsome
  | some p =>
    obtain ⟨code, id, rest⟩ := p
    obtain ⟨c, i, hparts⟩ := exists_parts_of_numbers? hnumbers
    refine ⟨fun hfails => ?_, fun hx => absurd ⟨c, i, _, code, id, hparts⟩ hx.1⟩
    cases hcode : CommandKind.ofCode? code with
    | none =>
      rw [line_of_code_none hnumbers hcode, fails_refuse] at hfails
      cases hfails
    | some kind =>
      rw [line_of_code hnumbers rfl hcode] at hfails
      rcases cases_of_fails_exec (fun _ h => by cases h) hfails with he | he | ⟨y, he⟩ <;> cases he

theorem fails_forbidden_iff {arg : Option String} {x : BlockId} :
    s.Fails (exec call kind ⟨id⟩ arg) (.forbiddenId x) ↔ id = 0 ∧ x = ⟨id⟩ := by
  by_cases hid : id = 0
  · rw [fails_exec_of_isSink (isSink_iff.2 hid), CommandError.forbiddenId.injEq, and_iff_right hid]
  · rw [fails_exec (isSink_of_ne hid) (fun _ h => by cases h)]
    refine ⟨?_, fun hx => absurd hx.1 hid⟩
    rintro (⟨-, he⟩ | ⟨y, -, he⟩) <;> cases he

theorem fails_missing_iff (ha : IsTrimmed a) (hid : id ≠ 0) {x : CommandKind} :
    s.Fails (exec call kind ⟨id⟩ (argument? a)) (.missingArgument x) ↔
      (kind.TakesArgument ∧ a = []) ∧ x = kind := by
  rw [fails_exec (isSink_of_ne hid) (fun _ h => by cases h), Order.ofArgument_eq_missing_iff ha,
    CommandError.missingArgument.injEq]
  refine or_iff_left ?_
  rintro ⟨y, -, he⟩
  cases he

theorem fails_notABinding_iff (ha : IsTrimmed a) (hid : id ≠ 0) {x : String} :
    s.Fails (exec call kind ⟨id⟩ (argument? a)) (.invalidBind x) ↔
      (kind = .bind ∧ a ≠ [] ∧ ∀ port dest, ¬ Order.Pair a port dest) ∧ x = String.ofList a := by
  rw [fails_exec (isSink_of_ne hid) (fun _ h => by cases h),
    ← Order.ofArgument_eq_notABinding_iff ha]
  constructor
  · rintro (⟨-, he⟩ | ⟨y, hy, he⟩)
    · cases he
    · cases he
      exact hy
  · exact fun hx => .inr ⟨x, hx, rfl⟩

theorem exec_of_reading {order : Order} (ha : IsTrimmed a) (hid : id ≠ 0)
    (h : Order.Reading a kind (.ok order)) : exec call kind ⟨id⟩ (argument? a) =
      notify (.commandGiven ⟨id⟩ kind (String.ofList a)) >>= fun _ =>
        obey call ⟨id⟩ order >>= fun x => pure (x.mapError .engine) := by
  rw [exec_of_order (isSink_of_ne hid) (h.ofArgument_eq ha), argument?_getD ha]

theorem run?_exec_init (ha : IsTrimmed a) (hid : id ≠ 0)
    (h : s.manager.blocks.contains ⟨id⟩ = true) :
    s.run? (exec call .init ⟨id⟩ (argument? a)) = some (.ok (.ok ()),
      (s.told (.commandGiven ⟨id⟩ .init (String.ofList a))).told (.initIgnored ⟨id⟩)) := by
  rw [exec_of_reading ha hid .init]
  show (s.told _).run? (obey call ⟨id⟩ .init >>= _) = _
  rw [obey, run?_bind, run?_manager, Machine.told_manager, if_pos h]
  rfl

theorem run?_exec_init_of_not (ha : IsTrimmed a) (hid : id ≠ 0)
    (h : s.manager.blocks.contains ⟨id⟩ = false) :
    s.run? (exec call .init ⟨id⟩ (argument? a)) =
      some (.ok (.error (.engine (.blockNotFound ⟨id⟩))),
        (s.told (.commandGiven ⟨id⟩ .init (String.ofList a))).told (.notFound ⟨id⟩)) := by
  rw [exec_of_reading ha hid .init]
  show (s.told _).run? (obey call ⟨id⟩ .init >>= _) = _
  rw [obey, run?_bind, run?_manager, Machine.told_manager, h, if_neg Bool.false_ne_true]
  rfl

theorem answers_of_numbers? (h : numbers? line = some (code, id, rest)) (ha : trim rest = a) :
    Answers n s line code id a := by
  have htrimmed : IsTrimmed a := ha ▸ isTrimmed_trim rest
  have hexec : ∀ kind : CommandKind, code.toInt = kind.code →
      Run.line (K := K) (callHook n) line = exec (callHook n) kind ⟨id⟩ (argument? a) :=
    fun kind hcode => line_of_code h ha (CommandKind.ofCode?_eq_some_iff.2 hcode)
  refine
    { unknown := fun x => fails_unknown_iff h
      forbidden := fun kind hcode x => hexec kind hcode ▸ fails_forbidden_iff
      missing := fun kind hcode hid x => hexec kind hcode ▸ fails_missing_iff htrimmed hid
      notABinding := fun kind hcode hid x => hexec kind hcode ▸ fails_notABinding_iff htrimmed hid
      asks := fun kind _ hinit hmissing hbind => exists_asks ⟨id⟩ htrimmed hinit hmissing hbind
      relays := fun kind hcode hid r hasks => ?_
      init := fun hcode hid hlive => hexec .init hcode ▸ run?_exec_init htrimmed hid hlive
      initLost := fun hcode hid hlive =>
        hexec .init hcode ▸ run?_exec_init_of_not htrimmed hid hlive }
  obtain ⟨order, hreading, rfl⟩ := hasks.exists_order
  rw [hexec kind hcode, exec_of_reading htrimmed hid hreading]
  exact ((operates_obey ⟨id⟩ order).made.blind fun id hook => blind_callHook n id hook).relays s _

end Line

/-- **Lines are obeyed by their grammar.** For every manager and every line, whatever the hooks do,
there is one error for each way in which the line is not written as it should be, the first of them
in their order, and otherwise the operation that is written in it is done with the same result. No
blank matters but inside of the argument. -/
theorem grammar_line (n : Nat) (s : Machine K) (line : List Char) : Line.Grammar n s line where
  malformed x := Line.fails_malformed_iff
  unique c i a c' i' a' := Line.Parts.unique
  answers c i a code id h hc hi := by
    obtain ⟨rest, hnumbers, ha⟩ := Line.numbers?_of_parts h hc hi
    exact Line.answers_of_numbers? hnumbers ha
  spacing c i a line' code id h h' hc hi := line_congr h h' hc hi

end BlockFlow
