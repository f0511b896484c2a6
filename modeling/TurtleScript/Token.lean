/-!
Tokens of a script, and how a text is cut into them. Only spaces and newlines separate words, a
bracket is a token of its own wherever it stands, and every other character belongs to a word:
tabs and carriage returns too. There are no quotes and no comments, so every text has tokens.
-/

namespace TurtleScript

/-- A word or a bracket of a script. A token does not know where it stood: the interpreter
addresses tokens by their index. -/
structure Token where
  text : String
  deriving DecidableEq, Repr, Inhabited

namespace Token

def isSeparator (c : Char) : Bool :=
  c == ' ' || c == '\n'

def isBracketChar (c : Char) : Bool :=
  c == '[' || c == ']'

def isWordChar (c : Char) : Bool :=
  !(isSeparator c || isBracketChar c)

def opening : Token := ⟨"["⟩

def closing : Token := ⟨"]"⟩

def isBracket (t : Token) : Bool :=
  t == opening || t == closing

/-- The token at the very start of a text, and the text after it. There is none exactly when the
text is empty or starts with a separator. -/
def first? : List Char → Option (Token × List Char)
  | [] => none
  | c :: cs =>
      if isSeparator c then none
      else if isBracketChar c then some (⟨String.singleton c⟩, cs)
      else some (⟨String.ofList (c :: cs.takeWhile isWordChar)⟩, cs.dropWhile isWordChar)

theorem length_dropWhile_le {α : Type} (p : α → Bool) (l : List α) :
    (l.dropWhile p).length ≤ l.length :=
  (List.dropWhile_sublist p).length_le

theorem length_lt_of_first? {cs rest : List Char} {t : Token}
    (h : first? cs = some (t, rest)) : rest.length < cs.length := by
  cases cs with
  | nil => simp [first?] at h
  | cons c cs =>
      have drop := length_dropWhile_le isWordChar cs
      simp only [first?] at h
      split at h
      · cases h
      · split at h <;> cases h <;> simp only [List.length_cons] <;> omega

/-- The tokens of a text that starts with no separator, and the text left where no further token
starts. -/
def scan (cs : List Char) : List Token × List Char :=
  match _h : first? cs with
  | none => ([], cs)
  | some (t, rest) =>
      let (ts, left) := scan (rest.dropWhile isSeparator)
      (t :: ts, left)
termination_by cs.length
decreasing_by
  exact Nat.lt_of_le_of_lt (length_dropWhile_le _ _) (length_lt_of_first? _h)

/-- The tokens of any text, and the text left after the last of them. -/
def split (text : String) : List Token × List Char :=
  scan (text.toList.dropWhile isSeparator)

/-- The tokens of a script. -/
def tokenize (text : String) : List Token :=
  (split text).1

end Token

end TurtleScript
