import TurtleScript.Files.Path

/-!
Files and directories, seen from the directory in which a program is started. Reading, writing and
making directories follow the rules of the operating system: all directories on the way to a file
must exist, only directories can be looked into, and names and paths are bounded in length.
-/

namespace TurtleScript

/-- Why the operating system refuses to do something with a path. -/
inductive FileError where
  | notFound
  | alreadyThere
  | notDirectory
  | isDirectory
  | nameTooLong
  /-- A path is handed over with a NUL behind it, so it cannot have one in it. -/
  | nulInPath
  /-- Anything else, in the words of the operating system. A file tree never reports it. -/
  | other (message : String)
  deriving DecidableEq, Repr

def FileError.message : FileError → String
  | notFound => "No such file or directory (os error 2)"
  | alreadyThere => "File exists (os error 17)"
  | notDirectory => "Not a directory (os error 20)"
  | isDirectory => "Is a directory (os error 21)"
  | nameTooLong => "File name too long (os error 36)"
  | nulInPath => "file name contained an unexpected NUL byte"
  | other message => message

/-- The place of a file or directory: the names on the way to it from the start directory, the last
one first. Places outside the start directory begin with `..`, once for every directory up, or
with `/`. -/
abbrev Location := List String

namespace Location

def start : Location := []

def root : Location := ["/"]

/-- The most bytes that a name may have. -/
def longestName : Nat := 255

/-- The most bytes that a whole path may have. -/
def longestPath : Nat := 4095

/-- Where a path begins. This is refused before any name of the path is looked up. -/
def origin (path : String) : Except FileError Location :=
  if path.toList.contains '\x00' then .error .nulInPath
  else if path.utf8ByteSize > longestPath then .error .nameTooLong
  else if path.isEmpty then .error .notFound
  else .ok (if Path.isAbsolute path then root else start)

/-- Directories that exist whatever the tree holds: the start directory and those above it. -/
def isAnchor (l : Location) : Bool :=
  l == root || l.all fun name => name == ".."

/-- The directory that holds a place. -/
def above (l : Location) : Location :=
  if l = root then root
  else if l.isAnchor then ".." :: l
  else l.tail

/-- The place that a segment of a path leads to. -/
def follow (l : Location) (segment : String) : Location :=
  if segment = "." then l
  else if segment = ".." then l.above
  else segment :: l

end Location

inductive Entry where
  | directory
  | file (contents : ByteArray)

instance : DecidableEq Entry
  | .directory, .directory => isTrue rfl
  | .directory, .file _ => isFalse nofun
  | .file _, .directory => isFalse nofun
  | .file x, .file y =>
      match ByteArray.instDecidableEq x y with
      | isTrue h => isTrue (congrArg Entry.file h)
      | isFalse h => isFalse fun e => h (Entry.file.inj e)

/-- What stands at the places of a file system. Of two entries for a place the first one counts. -/
structure FileTree where
  entries : List (Location × Entry)

namespace FileTree

def empty : FileTree := ⟨[]⟩

def get? (tree : FileTree) (place : Location) : Option Entry :=
  if place.isAnchor then some .directory else tree.entries.lookup place

def insert (tree : FileTree) (place : Location) (entry : Entry) : FileTree :=
  ⟨(place, entry) :: tree.entries.filter fun e => e.1 != place⟩

theorem get?_insert_self (tree : FileTree) {place : Location} (entry : Entry)
    (h : place.isAnchor = false) : (tree.insert place entry).get? place = some entry := by
  simp [get?, insert, h]

/-- Inserting changes nothing anywhere else. -/
theorem get?_insert_of_ne (tree : FileTree) {place other : Location} (entry : Entry)
    (h : other ≠ place) : (tree.insert place entry).get? other = tree.get? other := by
  have same : (tree.entries.filter fun e => e.1 != place).lookup other =
      tree.entries.lookup other := by
    induction tree.entries with
    | nil => rfl
    | cons e rest ih =>
        obtain ⟨key, value⟩ := e
        by_cases here : key = place
        · have away : (other == key) = false := by simp [here, h]
          rw [List.lookup_cons, away]
          simpa [here] using ih
        · simp only [bne_iff_ne, ne_eq, here, not_false_eq_true, List.filter_cons_of_pos,
            List.lookup_cons, ih]
  have away : (other == place) = false := by simp [h]
  simp [get?, insert, List.lookup_cons, away, same]

/-- Looks a segment up in a place, which must be a directory. What it leads to need not exist. -/
def step (tree : FileTree) (place : Location) (segment : String) : Except FileError Location :=
  match tree.get? place with
  | some .directory =>
      if segment.utf8ByteSize > Location.longestName then .error .nameTooLong
      else .ok (place.follow segment)
  | some (.file _) => .error .notDirectory
  | none => .error .notFound

/-- Follows the segments of a path one after the other. -/
def follow (tree : FileTree) (place : Location) : List String → Except FileError Location
  | [] => .ok place
  | segment :: rest => do tree.follow (← tree.step place segment) rest

/-- The place that a path names. -/
def locate (tree : FileTree) (path : String) : Except FileError Location := do
  tree.follow (← Location.origin path) (Path.segments path)

/-- The directory in which the last segment of a path is looked up. Following `.` fails where there
is none. -/
def holder (tree : FileTree) (path : String) : Except FileError Location := do
  tree.follow (← Location.origin path) ((Path.segments path).dropLast ++ ["."])

def isDirectory (tree : FileTree) (path : String) : Bool :=
  match tree.locate path with
  | .ok place => tree.get? place == some .directory
  | .error _ => false

def read (tree : FileTree) (path : String) : Except FileError ByteArray := do
  match tree.get? (← tree.locate path) with
  | some (.file contents) =>
      if Path.endsInSlash path then .error .notDirectory else .ok contents
  | some .directory => .error .isDirectory
  | none => .error .notFound

/-- Makes a file or replaces its contents. A slash at the end is refused before the last segment is
looked up. -/
def write (tree : FileTree) (path : String) (contents : ByteArray) :
    Except FileError FileTree := do
  let _ ← tree.holder path
  if Path.endsInSlash path then .error .isDirectory
  else
    let place ← tree.locate path
    if tree.get? place == some .directory then .error .isDirectory
    else .ok (tree.insert place (.file contents))

/-- Makes one directory, whose parent must exist. -/
def makeDirectory (tree : FileTree) (path : String) : Except FileError FileTree := do
  let place ← tree.locate path
  match tree.get? place with
  | some _ => .error .alreadyThere
  | none => .ok (tree.insert place .directory)

/-- Makes the first directory of a list of paths, each of which leads to the one before it, and
before that the others if it cannot be made without them. What was made stays when a later one
cannot be made. -/
def makeAlong (tree : FileTree) : List String → FileTree × Option FileError
  | [] => (tree, none)
  | path :: outer =>
      match tree.makeDirectory path with
      | .ok made => (made, none)
      | .error .notFound =>
          match tree.makeAlong outer with
          | (made, some e) => (made, some e)
          | (made, none) =>
              match made.makeDirectory path with
              | .ok full => (full, none)
              | .error e => (made, if made.isDirectory path then none else some e)
      | .error e => (tree, if tree.isDirectory path then none else some e)

/-- Makes a directory and all the directories on the way to it that are missing. -/
def makeDirectories (tree : FileTree) (path : String) : FileTree × Option FileError :=
  tree.makeAlong (Path.ways path)

/-- The path of a place inside the start directory. -/
def pathOf? (place : Location) : Option String :=
  if place.getLast? == some ".." || place.getLast? == some "/" then none
  else some ("/".intercalate place.reverse)

/-- Everything in the start directory: files with their contents, and directories, whose paths end
in a slash. -/
def listing (tree : FileTree) : List (String × Option ByteArray) :=
  tree.entries.filterMap fun (place, entry) =>
    (pathOf? place).map fun path =>
      match entry with
      | .directory => (path ++ "/", none)
      | .file contents => (path, some contents)

/-- Adds what a listing names, with the directories on the way to it. -/
def addListed (tree : FileTree) (listed : String × Option ByteArray) : FileTree :=
  let (path, contents) := listed
  match contents with
  | none => (tree.makeDirectories path).1
  | some bytes =>
      let made := (tree.makeAlong (Path.ways path).tail).1
      (made.write path bytes).toOption.getD made

def ofListing (listing : List (String × Option ByteArray)) : FileTree :=
  listing.foldl addListed empty

end FileTree

end TurtleScript
