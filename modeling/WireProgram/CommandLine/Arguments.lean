/-
**The grammar of the command line.**

There are three commands. Arguments are read from left to right, and the first one that asks for
help or breaks the grammar decides. An option that there is not and an operand too many do not
decide at once: the command line is refused in the end, but help may still be asked for behind them.

Long options may be cut short, may stand anywhere after the command, and may have their value behind
an equals sign; after a mark of two dashes nothing is an option. The main definitions:

* `Command`, what a command line asks for;
* `classify`, the part that an argument plays;
* `Grammar.sort`, the operands and options of a command;
* `Command.parse`, the command of a list of arguments, or `Rejection`.
-/

import WireProgram.Examples
import WireProgram.Fault
import WireProgram.Text.DecimalDigit

namespace WireProgram.CommandLine

/-- What a command line asks for. -/
inductive Command where
  /--
  Decodes a file with a program. The input and the way of reading may be left without a value by the
  mark that ends the options.
  -/
  | decode (program : String) (input : Option String) (mode : Option Execution) (trace : Bool)
  /-- Checks the register discipline of a program. -/
  | validate (program : String)
  /-- Shows one of the programs to start from. -/
  | sample (name : String)
  deriving Inhabited

/-- Why a command line is not carried out. -/
inductive Rejection where
  /-- It does not follow the grammar. -/
  | malformed
  /-- It asks for help. -/
  | help
  deriving DecidableEq, Inhabited

/-! ### The parts that arguments play -/

/-- A long option: its name, and the values of which it takes one. -/
structure LongOption where
  name : String
  /-- An option without values is given by its name alone. -/
  values : List String := []
  deriving DecidableEq, Inhabited

/-- The part that an argument plays. -/
inductive Role where
  | positional
  /-- A known option, perhaps with a value that belongs to the same argument. -/
  | known (option : LongOption) (value : Option String)
  /-- An option that there is not. -/
  | unknown
  /-- More than one option could be meant. -/
  | ambiguous
  /-- The mark after which nothing is an option. -/
  | endOfOptions
  deriving DecidableEq, Inhabited

/-- The option of every command. -/
def helpOption : LongOption := { name := "--help" }

/-- The mark after which nothing is an option. -/
def endMark : String := "--"

/-- Whether a text is a negative number, as only arguments can be. A line feed may end it. -/
def isNegativeNumber (text : List Char) : Bool :=
  let isDigit := fun c : Char => (Text.digitValue? c).isSome
  match if text.getLast? = some '\n' then text.dropLast else text with
  | '-' :: rest =>
    let whole := rest.takeWhile isDigit
    match rest.dropWhile isDigit with
    | [] => !whole.isEmpty
    | '.' :: fraction => !fraction.isEmpty && fraction.all isDigit
    | _ => false
  | _ => false

/-- Splits a text at its first equals sign. -/
def splitEquals (text : String) : String × Option String :=
  let before := text.toList.takeWhile (· ≠ '=')
  match text.toList.drop before.length with
  | [] => (text, none)
  | _ :: after => (String.ofList before, some (String.ofList after))

/--
The part of an argument that starts with the short option for help. The option may be repeated, also
behind an equals sign; anything else behind it is a value, which it does not take.
-/
def classifyShortHelp (rest : List Char) : Role :=
  let repeated := match rest with
    | '=' :: after => !after.isEmpty && after.all (· = 'h')
    | _ => rest.all (· = 'h')
  .known helpOption (if repeated then none else some (String.ofList rest))

/-- The part that an argument plays among given options. -/
def classify (options : List LongOption) (text : String) : Role :=
  match text.toList with
  | ['-', '-'] => .endOfOptions
  | '-' :: 'h' :: rest => classifyShortHelp rest
  | '-' :: c :: _ =>
    let (name, value) := splitEquals text
    let meant := options.filter fun option =>
      c = '-' && name.toList.isPrefixOf option.name.toList
    match meant with
    | [option] => .known option value
    | _ :: _ :: _ => .ambiguous
    | [] =>
      if isNegativeNumber text.toList || text.toList.contains ' ' then .positional
      else .unknown
  | _ => .positional

/-! ### Options and operands -/

/-- What the arguments of a command hold: its operands, and its options with their values. -/
structure Sorted where
  operands : List (Option String) := []
  options : List (LongOption × Option String) := []
  deriving Inhabited

/-- Puts an option in front. -/
def Sorted.withOption (sorted : Sorted) (option : LongOption) (value : Option String) : Sorted :=
  { sorted with options := (option, value) :: sorted.options }

/-- What a command takes: its options, and the number and the form of its operands. -/
structure Grammar where
  options : List LongOption
  operands : Nat
  /-- Whether a text can be an operand. -/
  admits : String → Bool := fun _ => true

/-- The result if there is something that nothing takes: only the rejections remain. -/
def spoiled {α : Type} : Except Rejection α → Except Rejection α
  | .ok _ => .error .malformed
  | .error rejection => .error rejection

/-- An operand after the mark that ends the options; one more mark leaves it without a text. -/
def operandAfterMark (text : String) : Option String :=
  if text = endMark then none else some text

/--
The operands after the mark that ends the options. The mark belongs to the operand right before it,
or else to the one after it, which then is taken as it is; it cannot stand without an operand.
-/
def Grammar.literals (grammar : Grammar) (missing : Nat) (afterOperand : Bool)
    (texts : List String) : Except Rejection (List (Option String)) :=
  let operands := match texts with
    | first :: rest =>
      (if afterOperand then operandAfterMark first else some first) :: rest.map operandAfterMark
    | [] => []
  if operands.length = missing && (afterOperand || missing ≠ 0) &&
      operands.all fun operand => operand.all grammar.admits then
    .ok operands
  else .error .malformed

/--
Sorts arguments into operands and options, if a number of operands is missing and an operand may
stand right before them. An option with values takes the next argument if it has none with it; two
dashes behind an equals sign leave it without a value.
-/
def Grammar.sortFrom (grammar : Grammar) (missing : Nat) (afterOperand : Bool) :
    List String → Except Rejection Sorted
  | [] => if missing = 0 then .ok {} else .error .malformed
  | text :: rest =>
    match classify grammar.options text with
    | .positional =>
      if missing = 0 then spoiled (grammar.sortFrom 0 false rest)
      else if grammar.admits text then do
        let sorted ← grammar.sortFrom (missing - 1) true rest
        return { sorted with operands := some text :: sorted.operands }
      else .error .malformed
    | .endOfOptions => do
      return { operands := ← grammar.literals missing afterOperand rest }
    | .unknown => spoiled (grammar.sortFrom missing false rest)
    | .ambiguous => .error .malformed
    | .known option value =>
      if option.values.isEmpty then
        if value.isSome then .error .malformed
        else if option = helpOption then .error .help
        else do return (← grammar.sortFrom missing false rest).withOption option none
      else
        match value, rest with
        | some value, rest =>
          if value = endMark then do
            return (← grammar.sortFrom missing false rest).withOption option none
          else if option.values.contains value then do
            return (← grammar.sortFrom missing false rest).withOption option (some value)
          else .error .malformed
        | none, value :: rest =>
          if option.values.contains value then do
            return (← grammar.sortFrom missing false rest).withOption option (some value)
          else .error .malformed
        | none, [] => .error .malformed

/--
Sorts the arguments of a command into operands and options. An argument that could mean more than
one option is refused before all else.
-/
def Grammar.sort (grammar : Grammar) (arguments : List String) : Except Rejection Sorted :=
  if (arguments.takeWhile (· ≠ endMark)).any fun text =>
      classify grammar.options text = .ambiguous then
    .error .malformed
  else grammar.sortFrom grammar.operands false arguments

/-! ### Commands -/

/-- The option that names the way of reading. -/
def modeOption : LongOption :=
  { name := "--mode", values := [Execution.blocking.name, Execution.suspending.name] }

/-- The option that shows the trace. -/
def traceOption : LongOption := { name := "--trace" }

/-- What decoding takes: a program and an input. -/
def decodeGrammar : Grammar :=
  { options := [helpOption, modeOption, traceOption], operands := 2 }

/-- What a check takes: a program. -/
def validateGrammar : Grammar :=
  { options := [helpOption], operands := 1 }

/-- What showing a program takes: its name. -/
def sampleGrammar : Grammar :=
  { options := [helpOption]
    operands := 1
    admits := fun name => (Examples.programs.lookup name).isSome }

/--
The way of reading that options ask for; the last one counts, and without any it is the blocking
one. An option without a value asks for none.
-/
def chosenMode (options : List (LongOption × Option String)) : Option Execution :=
  match (options.filter fun entry => entry.1 = modeOption).getLast? with
  | none => some .blocking
  | some (_, value) => value.bind Execution.ofName?

/-- The command of the arguments after its name. -/
def parseCommand (name : String) (arguments : List String) : Except Rejection Command :=
  if name = "decode" then do
    let sorted ← decodeGrammar.sort arguments
    match sorted.operands with
    | [some program, input] =>
      return .decode program input (chosenMode sorted.options)
        (sorted.options.any fun entry => entry.1 = traceOption)
    | _ => throw .malformed
  else if name = "validate" then do
    match (← validateGrammar.sort arguments).operands with
    | [some program] => return .validate program
    | _ => throw .malformed
  else if name = "example" then do
    match (← sampleGrammar.sort arguments).operands with
    | [some sample] => return .sample sample
    | _ => throw .malformed
  else .error .malformed

/-- The command of a command line. Before its name there is only the option for help. -/
def Command.parse : List String → Except Rejection Command
  | [] => .error .malformed
  | text :: rest =>
    match classify [helpOption] text with
    | .positional => parseCommand text rest
    | .unknown => spoiled (Command.parse rest)
    | .known _ none => .error .help
    | .known _ (some _) | .ambiguous | .endOfOptions => .error .malformed

end WireProgram.CommandLine
