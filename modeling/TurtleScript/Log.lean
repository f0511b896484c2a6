/-!
Messages about the progress of a run, and their lines on the error stream. The lines are lined up:
the part of the program that speaks is padded to the longest one printed so far.
-/

namespace TurtleScript

namespace Log

inductive Level where
  | error
  | warning
  | info
  | debug
  | trace
  deriving DecidableEq, Repr

namespace Level

/-- The less grave, the greater. -/
def rank : Level → Nat
  | error => 1
  | warning => 2
  | info => 3
  | debug => 4
  | trace => 5

def label : Level → String
  | error => "ERROR"
  | warning => "WARN"
  | info => "INFO"
  | debug => "DEBUG"
  | trace => "TRACE"

end Level

/-- The part of the program that speaks. -/
inductive Speaker where
  | scripts
  | drawing
  | commandLine
  deriving DecidableEq, Repr

def Speaker.label : Speaker → String
  | scripts => "turtlelogo_host::script"
  | drawing => "turtlelogo_host"
  | commandLine => "turtlelogo_render"

structure Record where
  level : Level
  speaker : Speaker
  message : String
  deriving DecidableEq, Repr

namespace Record

/-- A record on its own, without its speaker. -/
def text (r : Record) : String :=
  r.level.label ++ " " ++ r.message

end Record

/-- The least grave level that is printed; none if nothing is. -/
abbrev Threshold := Option Level

/-- Only errors are printed unless something else is asked for. -/
def Threshold.standard : Threshold := some .error

/-- The threshold that a word asks for. Unknown words ask for nothing. -/
def Threshold.ofText (word : String) : Threshold :=
  match word.toLower with
  | "off" => none
  | "error" => some .error
  | "warn" => some .warning
  | "info" => some .info
  | "debug" => some .debug
  | "trace" => some .trace
  | _ => .standard

def Threshold.admits (threshold : Threshold) (level : Level) : Bool :=
  match threshold with
  | some least => level.rank ≤ least.rank
  | none => false

def padRight (width : Nat) (text : String) : String :=
  text ++ String.ofList (List.replicate (width - text.length) ' ')

/-- The lines of the records after others whose longest speaker had the given width. -/
def linesFrom (width : Nat) : List Record → String
  | [] => ""
  | r :: rs =>
      let width := max width r.speaker.label.length
      " " ++ padRight 5 r.level.label ++ " " ++ padRight width r.speaker.label ++ " > " ++
        r.message ++ "\n" ++ linesFrom width rs

/-- What the error stream shows of the records. -/
def lines (threshold : Threshold) (records : List Record) : String :=
  linesFrom 0 (records.filter fun r => threshold.admits r.level)

end Log

end TurtleScript
