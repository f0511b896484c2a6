/-!
Arguments of a command line. Limits may stand before and after operands; an option's value is the
next argument or is attached to the option; `--` ends the options, and `-` is an operand. A command
line is read from left to right, and the first thing wrong with it counts.
-/

namespace TurtleScript

namespace CommandLine

/-- An option that a program knows. -/
structure OptionForm where
  long : String
  short : Option Char
  takesValue : Bool
  deriving DecidableEq, Repr

inductive Argument where
  | operand (text : String)
  | option (name : String) (value : Option String)
  /-- Something that no program understands. -/
  | faulty
  deriving DecidableEq, Repr

/-- Why a program is not run. -/
inductive Refusal where
  | wrongUsage
  | helpWanted
  deriving DecidableEq, Repr

namespace Argument

/-- Whether an argument that follows an option can be its value. -/
def canBeValue (text : String) : Bool :=
  text == "-" || text.toList.head? != some '-'

/-- The name of a long option, and the value attached to it. -/
def splitLong (text : List Char) : String × Option String :=
  let name := String.ofList (text.takeWhile fun c => c != '=')
  match text.dropWhile fun c => c != '=' with
  | [] => (name, none)
  | _ :: value => (name, some (String.ofList value))

/-- An option with a value that is not attached to it, and how many of the arguments after it are
taken for the value. -/
def withNext (form : OptionForm) : List String → Argument × Nat
  | value :: _ => if canBeValue value then (.option form.long (some value), 1) else (.faulty, 0)
  | [] => (.faulty, 0)

/-- An argument that starts with two dashes, without them. -/
def ofLong (forms : List OptionForm) (text : List Char) (rest : List String) : Argument × Nat :=
  let (name, value) := splitLong text
  match forms.find? fun form => form.long == name, value with
  | none, _ => (.faulty, 0)
  | some form, some attached =>
      if form.takesValue then (.option form.long (some attached), 0) else (.faulty, 0)
  | some form, none =>
      if form.takesValue then withNext form rest else (.option form.long none, 0)

/-- An argument that starts with one dash, without it: flags, of which the last may be an option
with a value. -/
def ofShort (forms : List OptionForm) (rest : List String) : List Char → List Argument × Nat
  | [] => ([], 0)
  | c :: cs =>
      match forms.find? fun form => form.short == some c with
      | none => ([.faulty], 0)
      | some form =>
          if form.takesValue then
            match cs with
            | [] => let (argument, taken) := withNext form rest; ([argument], taken)
            | '=' :: value => ([.option form.long (some (String.ofList value))], 0)
            | value => ([.option form.long (some (String.ofList value))], 0)
          else
            let (arguments, taken) := ofShort forms rest cs
            (.option form.long none :: arguments, taken)

/-- The arguments that the first word of a command line stands for, and how many of the words after
it belong to it. -/
def ofWord (forms : List OptionForm) (word : String) (rest : List String) :
    List Argument × Nat :=
  match word.toList with
  | '-' :: '-' :: text => let (argument, taken) := ofLong forms text rest; ([argument], taken)
  | '-' :: c :: cs => ofShort forms rest (c :: cs)
  | _ => ([.operand word], 0)

def ofWords (forms : List OptionForm) : List String → List Argument
  | [] => []
  | word :: rest =>
      if word = "--" then rest.map .operand
      else
        let (arguments, taken) := ofWord forms word rest
        arguments ++ ofWords forms (rest.drop taken)
termination_by words => words.length
decreasing_by
  simp only [List.length_drop, List.length_cons]
  omega

end Argument

/-- The name of the flag that asks how a program is used. -/
def helpFlag : OptionForm := ⟨"help", some 'h', false⟩

/-- Reads arguments one by one into a request. Both `operand` and `option` tell what a request
becomes, or refuse; no option may be given twice. -/
def gather {ρ : Type} (operand : ρ → String → Option ρ)
    (option : ρ → String → Option String → Option ρ) (request : ρ) (seen : List String) :
    List Argument → Except Refusal ρ
  | [] => .ok request
  | .faulty :: _ => .error .wrongUsage
  | .operand text :: rest =>
      match operand request text with
      | some request => gather operand option request seen rest
      | none => .error .wrongUsage
  | .option name value :: rest =>
      if name = helpFlag.long then .error .helpWanted
      else if seen.contains name then .error .wrongUsage
      else
        match option request name value with
        | some request => gather operand option request (name :: seen) rest
        | none => .error .wrongUsage

/-- Paths on a command line are not empty. -/
def path? (text : String) : Option String :=
  if text.isEmpty then none else some text

/-- How a program ends: its status and what it has printed. -/
structure Ending where
  status : Nat
  output : String
  errors : String
  deriving DecidableEq, Repr

def Refusal.ending (usage : String) : Refusal → Ending
  | wrongUsage => ⟨2, "", usage⟩
  | helpWanted => ⟨0, usage, ""⟩

end CommandLine

end TurtleScript
