/-!
Paths as texts. Segments are divided by slashes, of which several count as one; `.` stands for the
directory it is in and `..` for the one above.
-/

namespace TurtleScript

namespace Path

/-- Whether a path starts at the root of the file system. -/
def isAbsolute (path : String) : Bool :=
  path.toList.head? == some '/'

/-- Whether a path ends in a slash, and so can only name a directory. -/
def endsInSlash (path : String) : Bool :=
  path.toList.getLast? == some '/'

/-- The stretches between the slashes of a text. -/
def splitSlashes : List Char → List (List Char)
  | [] => [[]]
  | c :: cs =>
      if c = '/' then [] :: splitSlashes cs
      else
        match splitSlashes cs with
        | [] => [[c]]
        | s :: rest => (c :: s) :: rest

def segments (path : String) : List String :=
  ((splitSlashes path.toList).filter fun s => !s.isEmpty).map String.ofList

/-- A path inside a directory. An absolute path stays as it is. -/
def join (directory path : String) : String :=
  if isAbsolute path then path
  else if directory.isEmpty || endsInSlash directory then directory ++ path
  else directory ++ "/" ++ path

/-- The segments that lead somewhere else. -/
def steps (path : String) : List String :=
  (segments path).filter fun s => s != "."

/-- A path and the paths of the directories on the way to it, the nearest first. The empty path
leads nowhere. -/
def ways (path : String) : List String :=
  if path.isEmpty then []
  else
    let root := if isAbsolute path then "/" else ""
    let between := (List.range ((steps path).length - 1)).reverse
    path :: between.map fun n => root ++ "/".intercalate ((steps path).take (n + 1))

/-- The last segment that is not `.`, unless it is `..`. -/
def fileName? (path : String) : Option String :=
  (steps path).getLast?.filter fun s => s != ".."

/-- A file name cut at its last dot, unless that is its first character. -/
def splitName (name : String) : String × Option String :=
  let reversed := name.toList.reverse
  match reversed.dropWhile fun c => c != '.' with
  | _ :: c :: cs =>
      (String.ofList (c :: cs).reverse,
        some (String.ofList (reversed.takeWhile fun c => c != '.').reverse))
  | _ => (name, none)

/-- The file name without its extension. -/
def stem? (path : String) : Option String :=
  (fileName? path).map fun name => (splitName name).1

def extension? (path : String) : Option String :=
  (fileName? path).bind fun name => (splitName name).2

end Path

end TurtleScript
