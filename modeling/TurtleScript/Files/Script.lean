import TurtleScript.Files.FileTree

/-!
Script files. A script file is the text of the script and nothing else.
-/

namespace TurtleScript

namespace Script

def extension : String := "logocode"

/-- The name that scripts are saved under when they have none. -/
def defaultName : String := "turtle_path"

def isScriptPath (path : String) : Bool :=
  Path.extension? path == some extension

/-- Why no text comes out of a file. -/
inductive ReadError where
  | refused (reason : FileError)
  | notText
  deriving DecidableEq, Repr

def ReadError.message : ReadError → String
  | refused reason => reason.message
  | notText => "stream did not contain valid UTF-8"

/-- Why a script cannot be loaded. -/
inductive LoadError where
  | notScript (path : String)
  | unreadable (path : String) (reason : ReadError)
  deriving DecidableEq, Repr

def LoadError.message : LoadError → String
  | notScript path => path ++ " is not a ." ++ extension ++ " file"
  | unreadable path reason => "failed to read " ++ path ++ ": " ++ reason.message

/-- The text that bytes stand for. -/
def decode (bytes : ByteArray) : Except ReadError String :=
  match String.fromUTF8? bytes with
  | some text => .ok text
  | none => .error .notText

/-- The text of what was read from a file. -/
def textOf : Except FileError ByteArray → Except ReadError String
  | .ok bytes => decode bytes
  | .error reason => .error (.refused reason)

/-- A text is read exactly where its bytes are. -/
theorem textOf_eq_ok_iff {contents : Except FileError ByteArray} {text : String} :
    textOf contents = .ok text ↔ contents = .ok text.toUTF8 := by
  cases contents with
  | error reason => simp [textOf]
  | ok bytes =>
      rw [textOf, decode, String.fromUTF8?, String.toUTF8_eq_toByteArray]
      by_cases hvalid : bytes.IsValidUTF8
      · have hbytes : (String.fromUTF8 bytes hvalid).toByteArray = bytes := rfl
        simp [hvalid, ← String.toByteArray_inj, hbytes]
      · have hne : bytes ≠ text.toByteArray := by
          rintro rfl
          exact hvalid text.isValidUTF8
        simp [hvalid, hne]

/-- The script at a path, given what is read from there. -/
def loaded (path : String) (contents : Except FileError ByteArray) :
    Except LoadError String :=
  if isScriptPath path then
    match textOf contents with
    | .ok text => .ok text
    | .error reason => .error (.unreadable path reason)
  else .error (.notScript path)

def load (tree : FileTree) (path : String) : Except LoadError String :=
  loaded path (tree.read path)

/-- Where a script without a name is saved. -/
def savePath (directory : String) : String :=
  Path.join directory (defaultName ++ "." ++ extension)

/-- A carriage return in front of a newline is dropped. -/
def dropReturns : List Char → List Char
  | [] => []
  | '\r' :: '\n' :: rest => '\n' :: dropReturns rest
  | c :: rest => c :: dropReturns rest

/-- Turns line ends with carriage returns and tabs into plain newlines and spaces. Scripts only
separate words with spaces and newlines, so others need this before they are run. -/
def plainSpacing (text : String) : String :=
  String.ofList ((dropReturns text.toList).map fun c => if c = '\t' || c = '\r' then ' ' else c)

end Script

end TurtleScript
