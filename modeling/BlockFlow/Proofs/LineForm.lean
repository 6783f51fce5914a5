import BlockFlow.Proofs.Blind
import BlockFlow.Proofs.Tokens

/-!
# Commands as lines

A structured command can be written as a line. The line goes another way to the operation that it
is meant for, on which its argument is cut and read more than once, and the same comes of it.

1. `Command.IsLine`: a text that writes a command as a line; `Command.IsLine.parse`: how it is read.
2. `Run.carryOut`: what is done for a command once it has been told of.
3. `line_sameBut`: a line does the same as its command.
-/

namespace BlockFlow

variable {K : Kit}

/-! ## Lines of commands -/

/-- A text has the code of a command, its block and its argument, set apart by blanks. If there is
no argument, the last blank may be missing. -/
def Command.IsLine (c : Command) (text : String) : Prop :=
  text = Line.render c.kind c.id c.arg? ∨ c.arg? = none ∧ text = Line.render c.kind c.id (some "")

namespace Line

/-- A line is read as the two numbers that it begins with and what follows them. -/
theorem parse_append (kind : CommandKind) (id : BlockId) {rest : List Char}
    (hrest : ∀ c, rest.head? = some c → Text.isBlank c) :
    parse (Text.Numeral.ofNat kind.code ++ ' ' :: (Text.Numeral.ofInt id.value.toInt ++ rest)) =
      .ok (kind, id, argument? rest) := by
  have hid : Text.token? (Text.Numeral.ofInt id.value.toInt ++ rest) =
      some (Text.Numeral.ofInt id.value.toInt, rest) :=
    Text.token?_append (Text.ofInt_ne_nil _) (fun c hc => Text.isBlank_of_mem_ofInt hc) hrest
  have hcode : Text.token? (Text.Numeral.ofNat kind.code ++
      ' ' :: (Text.Numeral.ofInt id.value.toInt ++ rest)) =
      some (Text.Numeral.ofNat kind.code, ' ' :: (Text.Numeral.ofInt id.value.toInt ++ rest)) :=
    Text.token?_append Nat.toDigits_ne_nil (fun c hc => Text.isBlank_of_mem_ofNat hc)
      (fun c hc => by cases hc; rfl)
  have hread : Text.Numeral.readInt32? (Text.Numeral.ofNat kind.code) =
      some (Int32.ofNat kind.code) := by
    cases kind <;> decide
  have hnumbers : numbers? (Text.Numeral.ofNat kind.code ++
      ' ' :: (Text.Numeral.ofInt id.value.toInt ++ rest)) =
      some (Int32.ofNat kind.code, id.value, rest) := by
    simp [numbers?, hcode, Text.token?_cons_of_isBlank (c := ' ') rfl, hid, hread,
      Text.Numeral.readInt32?_ofInt]
  rw [parse, hnumbers]
  simp only [CommandKind.ofCode?_code]

theorem toList_render (kind : CommandKind) (id : BlockId) (arg : Option String) :
    (render kind id arg).toList =
      Text.Numeral.ofNat kind.code ++ ' ' :: (Text.Numeral.ofInt id.value.toInt ++
        (arg.elim [] fun arg => ' ' :: arg.toList)) := by
  cases arg <;>
    simp [render, textOfNat, BlockId.toText, toString, toList_textOfInt32]

/-- A rendered line is read as its parts, the argument without the blanks around it. -/
theorem parse_render (kind : CommandKind) (id : BlockId) (arg : Option String) :
    parse (render kind id arg).toList =
      .ok (kind, id, arg.bind fun arg => argument? arg.toList) := by
  rw [toList_render, parse_append]
  · cases arg with
    | none => rfl
    | some arg => rw [Option.elim_some, argument?_cons_of_isBlank rfl]; rfl
  · cases arg with
    | none => exact fun c hc => by cases hc
    | some arg => exact fun c hc => by cases hc; rfl

end Line

/-- A line of a command is read as its parts, the argument without the blanks around it. -/
theorem Command.IsLine.parse {c : Command} {text : String} (h : c.IsLine text) :
    Line.parse text.toList =
      .ok (c.kind, c.id, c.arg?.bind fun arg => Line.argument? arg.toList) := by
  rcases h with rfl | ⟨hnone, rfl⟩
  · exact Line.parse_render c.kind c.id c.arg?
  · rw [Line.parse_render, hnone]
    rfl

/-! ## What is done for a command -/

namespace Run

/-- What is done for a command once it has been told of. -/
def carryOut (call : Call K) (kind : CommandKind) (id : BlockId) (arg : Option String) :
    Run K (Except CommandError Unit) :=
  if id.isSink then refuse (.commandForbidden kind) (.forbiddenId id)
  else
    match Order.ofArgument kind arg with
    | .error .missing => refuse (.argumentMissing id kind) (.missingArgument kind)
    | .error (.notABinding arg) => refuse (.bindInvalid id arg) (.invalidBind arg)
    | .ok order => return (← obey call id order).mapError .engine

theorem exec_eq (call : Call K) (kind : CommandKind) (id : BlockId) (arg : Option String) :
    exec call kind id arg =
      notify (.commandGiven id kind (arg.getD "")) >>= fun _ => carryOut call kind id arg := rfl

theorem blind_carryOut (n : Nat) (kind : CommandKind) (id : BlockId) (arg : Option String) :
    (carryOut (K := K) (callHook n) kind id arg).Blind := by
  unfold carryOut
  split
  · exact blind_refuse _ _
  split
  · exact blind_refuse _ _
  · exact blind_refuse _ _
  · exact ((operates_obey id _).made.blind fun id hook => blind_callHook n id hook).bind fun _ =>
      blind_pure _

end Run

open Run

/-- **Lines and commands agree.** For every manager and whatever the hooks do, a line that writes a
command has the same result as the command, the same hooks are called, and the same manager is left:
only the argument that is told of may lack blanks around it. -/
theorem line_sameBut {c : Command} {text : String} (h : c.IsLine text) (s : Machine K) (n : Nat) :
    s.SameBut
      (.commandGiven c.id c.kind ((c.arg?.bind fun arg => Line.argument? arg.toList).getD ""))
      (.commandGiven c.id c.kind (c.arg?.getD ""))
      (line (callHook n) text.toList) (command (callHook n) c) := by
  have hline : line (K := K) (callHook n) text.toList =
      exec (callHook n) c.kind c.id (c.arg?.bind fun arg => Line.argument? arg.toList) := by
    rw [line, h.parse]
  have hcarry : carryOut (K := K) (callHook n) c.kind c.id
      (c.arg?.bind fun arg => Line.argument? arg.toList) =
      carryOut (callHook n) c.kind c.id c.arg? := by
    rw [carryOut, carryOut, Order.ofArgument_arg?]
  rw [hline, command, exec_eq, exec_eq, hcarry]
  exact (blind_carryOut n c.kind c.id c.arg?).sameBut s _ _

def greeter : Machine Builtin.kit :=
  { manager := { (.fresh {} : Manager Builtin.kit) with
      blocks := Keyed.empty.insert ⟨-1⟩
        { serial := 0, type := "hello", contents := some (.hello {}) } }
    host := .manual }

/-- The block is configured by an entry of several lines with blanks around it. -/
theorem line_sameBut_padded :
    greeter.SameBut (.commandGiven ⟨-1⟩ .conf "a\nb") (.commandGiven ⟨-1⟩ .conf "\u3000 a\nb ")
      (line (callHook 3) "2 -1 \u3000 a\nb ".toList)
      (command (callHook 3) (.conf ⟨-1⟩ "\u3000 a\nb ")) :=
  line_sameBut (c := .conf ⟨-1⟩ "\u3000 a\nb ") (.inl (by decide)) greeter 3

end BlockFlow
