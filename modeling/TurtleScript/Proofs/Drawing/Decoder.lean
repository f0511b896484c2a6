import Mathlib.Data.List.Basic
import TurtleScript.Drawing.Markup
import TurtleScript.Proofs.Token.Spelling

/-!
Reading documents back. The reader knows nothing of what a document may say: it takes a value to end
at the quote that it began with, whatever stands in between, and everything outside of values to be
markup. Values are written without escapes, so nothing but the choice of the quote keeps a value from
ending early and the rest of it from being read as markup.

The main statement is that every document is read back from its text, all but the attributes that
cannot be written because their values have quotes of both kinds. Only the names of tags and attributes
have to be names.
-/

namespace TurtleScript

namespace Markup

/-- Something that can be read at the start of a text, and the text after it. -/
abbrev Reader (α : Type) := List Char → Option (α × List Char)

/-- Names are made of letters, digits and hyphens. -/
def isNameChar (c : Char) : Bool :=
  c.isAlphanum || c == '-'

def name? : Reader String := fun cs =>
  if cs.takeWhile isNameChar = [] then none
  else some (String.ofList (cs.takeWhile isNameChar), cs.dropWhile isNameChar)

/-- A value in quotes. It ends at the next quote of the kind that it began with. -/
def value? : Reader String
  | [] => none
  | quote :: cs =>
      if quote = '"' ∨ quote = '\'' then
        match cs.dropWhile fun c => c != quote with
        | [] => none
        | _ :: rest => some (String.ofList (cs.takeWhile fun c => c != quote), rest)
      else none

def attribute? : Reader Attribute := fun cs => do
  let named ← cs.dropPrefix? [' ']
  let (name, valued) ← name? named
  let quoted ← valued.dropPrefix? ['=']
  let (value, rest) ← value? quoted
  return (⟨name, value⟩, rest)

/-- As much as can be read of one kind, and the text after it. -/
def many {α : Type} (read : Reader α) (cs : List Char) : List α × List Char :=
  match read cs with
  | none => ([], cs)
  | some (a, rest) =>
      if rest.length < cs.length then (a :: (many read rest).1, (many read rest).2)
      else ([], cs)
termination_by cs.length

/-- The inside of a tag. -/
def inside? : Reader Tag := fun cs => do
  let (name, rest) ← name? cs
  return (⟨name, (many attribute? rest).1⟩, (many attribute? rest).2)

/-- A tag that closes itself, on a line of its own. -/
def child? : Reader Tag := fun cs => do
  let opened ← cs.dropPrefix? ['<']
  let (tag, closed) ← inside? opened
  let rest ← closed.dropPrefix? ['/', '>', '\n']
  return (tag, rest)

/-- A document that is the whole text. -/
def Document.decode? (text : String) : Option Document := do
  let opened ← text.toList.dropPrefix? ['<']
  let (root, entered) ← inside? opened
  let body ← entered.dropPrefix? ['>', '\n']
  let closing := ("</" ++ root.name ++ ">").toList
  if (many child? body).2 = closing then some ⟨root, (many child? body).1⟩ else none

/-- Texts that are read as something wherever they stand. -/
def Reads {α : Type} (read : Reader α) (text : List Char) (a : α) : Prop :=
  ∀ rest, read (text ++ rest) = some (a, rest)

section

variable {α β : Type} {rest : List Char}

theorem dropPrefix?_append (start rest : List Char) :
    (start ++ rest).dropPrefix? start = some rest :=
  List.dropPrefix?_append_of_beq rest (beq_self_eq_true start)

/-- Texts of one kind are read one after the other, up to something that is none. -/
theorem many_append {read : Reader β} {write : α → List Char} {value : α → β} {items : List α}
    (hread : ∀ a ∈ items, Reads read (write a) (value a)) (hne : ∀ a ∈ items, write a ≠ [])
    (hstop : read rest = none) :
    many read (items.flatMap write ++ rest) = (items.map value, rest) := by
  induction items with
  | nil =>
      rw [List.flatMap_nil, List.nil_append, many, hstop]
      rfl
  | cons a items ih =>
      obtain ⟨hfirst, hothers⟩ := List.forall_mem_cons.mp hread
      obtain ⟨hlong, hlonger⟩ := List.forall_mem_cons.mp hne
      have hshorter : (items.flatMap write ++ rest).length <
          (write a ++ (items.flatMap write ++ rest)).length := by
        have hpos := List.length_pos_of_ne_nil hlong
        simp only [List.length_append]
        omega
      rw [List.flatMap_cons, List.append_assoc, many, hfirst]
      simp only [if_pos hshorter, ih hothers hlonger]
      rfl

end

/-- Names that can be told from the markup around them. -/
def IsName (name : String) : Prop :=
  name.toList ≠ [] ∧ ∀ c ∈ name.toList, isNameChar c = true

instance (name : String) : Decidable (IsName name) :=
  decidable_of_iff ((!name.toList.isEmpty && name.toList.all isNameChar) = true)
    (by simp [IsName])

theorem name?_append {name : String} {rest : List Char} (hname : IsName name)
    (hrest : ∀ c ∈ rest.head?, isNameChar c = false) :
    name? (name.toList ++ rest) = some (name, rest) := by
  obtain ⟨hne, hchars⟩ := hname
  obtain ⟨htake, hdrop⟩ := Token.span_of_stop hchars hrest
  rw [name?, htake, hdrop, if_neg hne, String.ofList_toList]

/-- A value between quotes that do not stand in it is read as it is. -/
theorem reads_value {quote : Char} {value : String} (hquote : quote = '"' ∨ quote = '\'')
    (hvalue : quote ∉ value.toList) :
    Reads value? (quote :: (value.toList ++ [quote])) value := by
  intro rest
  have hchars : ∀ c ∈ value.toList, (c != quote) = true := by
    intro c hc
    rw [bne_iff_ne]
    rintro rfl
    exact hvalue hc
  have htext : quote :: (value.toList ++ [quote]) ++ rest =
      quote :: (value.toList ++ quote :: rest) := by simp
  rw [htext, value?, if_pos hquote, List.dropWhile_append_of_pos hchars,
    List.takeWhile_append_of_pos hchars]
  simp

namespace Attribute

/-- Attributes that cannot be written, since their values have quotes of both kinds. -/
def hasBothQuotes (a : Attribute) : Bool :=
  a.value.toList.contains '"' && a.value.toList.contains '\''

theorem quote?_eq_none_iff {a : Attribute} : quote? a.value = none ↔ a.hasBothQuotes = true := by
  unfold quote? hasBothQuotes
  cases hdouble : a.value.toList.contains '"' with
  | false => simp
  | true =>
      cases hsingle : a.value.toList.contains '\'' with
      | false => simp
      | true => simp

/-- A quote that a value stands in is not in the value. -/
theorem not_mem_of_quote? {value : String} {quote : Char} (h : quote? value = some quote) :
    (quote = '"' ∨ quote = '\'') ∧ quote ∉ value.toList := by
  unfold quote? at h
  split at h
  · rename_i hdouble
    cases h
    exact ⟨Or.inl rfl, by simpa using hdouble⟩
  · split at h
    · rename_i hsingle
      cases h
      exact ⟨Or.inr rfl, by simpa using hsingle⟩
    · cases h

/-- An attribute that can be written stands after a blank, with its value in quotes that are not in
it. -/
theorem exists_toList_text {a : Attribute} (h : a.hasBothQuotes = false) :
    ∃ quote, (quote = '"' ∨ quote = '\'') ∧ quote ∉ a.value.toList ∧
      a.text.toList =
        [' '] ++ (a.name.toList ++ (['='] ++ (quote :: (a.value.toList ++ [quote])))) := by
  cases hquote : quote? a.value with
  | none =>
      rw [quote?_eq_none_iff.mp hquote] at h
      cases h
  | some quote =>
      obtain ⟨hkind, hvalue⟩ := not_mem_of_quote? hquote
      refine ⟨quote, hkind, hvalue, ?_⟩
      rw [text, hquote]
      simp

/-- Wherever an attribute stands that can be written, it is read. -/
theorem reads_text {a : Attribute} (hname : IsName a.name) (hquotes : a.hasBothQuotes = false) :
    Reads attribute? a.text.toList a := by
  intro rest
  obtain ⟨quote, hkind, hvalue, htext⟩ := exists_toList_text hquotes
  have hequals : ∀ c ∈ (['='] ++ (quote :: (a.value.toList ++ [quote]) ++ rest)).head?,
      isNameChar c = false := by
    intro c hc
    cases hc
    decide
  simp only [htext, List.append_assoc, attribute?, dropPrefix?_append, name?_append hname hequals,
    reads_value hkind hvalue rest, Option.bind_eq_bind, Option.bind_some]
  rfl

theorem text_ne_nil {a : Attribute} (h : a.hasBothQuotes = false) : a.text.toList ≠ [] := by
  obtain ⟨quote, -, -, htext⟩ := exists_toList_text h
  rw [htext]
  exact List.cons_ne_nil _ _

theorem text_of_hasBothQuotes {a : Attribute} (h : a.hasBothQuotes = true) : a.text = "" := by
  rw [text, quote?_eq_none_iff.mpr h]

end Attribute

namespace Tag

/-- A tag whose name and attributes can be told from the markup around them. -/
def WellNamed (t : Tag) : Prop :=
  IsName t.name ∧ ∀ a ∈ t.attributes, IsName a.name

/-- What is left of a tag once it is written: the attributes that can be, in the order of their
names. -/
def kept (t : Tag) : Tag where
  name := t.name
  attributes := t.sorted.filter fun a => !a.hasBothQuotes

variable {t : Tag} {rest : List Char}

theorem toList_inside (t : Tag) :
    t.inside.toList =
      t.name.toList ++ t.kept.attributes.flatMap fun a => a.text.toList := by
  have hkept (list : List Attribute) : list.flatMap (fun a => a.text.toList) =
      (list.filter fun a => !a.hasBothQuotes).flatMap fun a => a.text.toList := by
    induction list with
    | nil => rfl
    | cons a list ih =>
        cases hquotes : a.hasBothQuotes with
        | true => simp [hquotes, ih, Attribute.text_of_hasBothQuotes hquotes]
        | false => simp [hquotes, ih]
  rw [inside, String.toList_append, String.toList_join, List.flatMap_map, hkept]
  rfl

/-- The inside of a tag is read up to the end of the tag. -/
theorem inside?_append (ht : t.WellNamed) (hrest : ∀ c ∈ rest.head?, c = '>' ∨ c = '/') :
    inside? (t.inside.toList ++ rest) = some (t.kept, rest) := by
  obtain ⟨hname, hattributes⟩ := ht
  have hstop : attribute? rest = none := by
    cases rest with
    | nil => rfl
    | cons c cs => rcases hrest c rfl with rfl | rfl <;> rfl
  have hkept : ∀ a ∈ t.kept.attributes, IsName a.name ∧ a.hasBothQuotes = false := by
    intro a ha
    obtain ⟨hmem, hquotes⟩ := List.mem_filter.mp ha
    exact ⟨hattributes a (List.mem_mergeSort.mp hmem), by simpa using hquotes⟩
  have hmany : many attribute? ((t.kept.attributes.flatMap fun a => a.text.toList) ++ rest) =
      (t.kept.attributes.map id, rest) := by
    apply many_append _ _ hstop
    · intro a ha
      exact Attribute.reads_text (hkept a ha).1 (hkept a ha).2
    · intro a ha
      exact Attribute.text_ne_nil (hkept a ha).2
  -- A name ends at the blank of the first attribute, or else at the end of the tag.
  have hend : ∀ c ∈ ((t.kept.attributes.flatMap fun a => a.text.toList) ++ rest).head?,
      isNameChar c = false := by
    cases hlist : t.kept.attributes with
    | nil =>
        intro c hc
        rcases hrest c hc with rfl | rfl <;> decide
    | cons a list =>
        intro c hc
        obtain ⟨quote, -, -, htext⟩ := Attribute.exists_toList_text (hkept a (by simp [hlist])).2
        rw [List.flatMap_cons, htext] at hc
        cases hc
        decide
  rw [toList_inside, List.append_assoc]
  simp only [inside?, name?_append hname hend, hmany, List.map_id, Option.bind_eq_bind,
    Option.bind_some]
  rfl

/-- A tag as a child. -/
def line (t : Tag) : List Char :=
  ['<'] ++ (t.inside.toList ++ ['/', '>', '\n'])

theorem reads_line (ht : t.WellNamed) : Reads child? t.line t.kept := by
  intro rest
  have htext : t.line ++ rest = ['<'] ++ (t.inside.toList ++ (['/', '>', '\n'] ++ rest)) := by
    simp only [line, List.append_assoc]
  have hslash : ∀ c ∈ (['/', '>', '\n'] ++ rest).head?, c = '>' ∨ c = '/' := by
    intro c hc
    cases hc
    exact Or.inr rfl
  simp only [htext, child?, dropPrefix?_append, inside?_append ht hslash, Option.bind_eq_bind,
    Option.bind_some]
  rfl

end Tag

namespace Document

/-- A closing tag is no child. -/
theorem child?_closing (cs : List Char) : child? ('<' :: '/' :: cs) = none := by
  have hname : name? ('/' :: cs) = none := by simp [name?, isNameChar]
  simp [child?, inside?, List.dropPrefix?, hname]

theorem toList_text (d : Document) :
    d.text.toList = ['<'] ++ (d.root.inside.toList ++ (['>', '\n'] ++
      (d.children.flatMap Tag.line ++ ("</" ++ d.root.name ++ ">").toList))) := by
  have hline (t : Tag) : ("<" ++ t.inside ++ "/>\n").toList = t.line := by simp [Tag.line]
  have hlines : (String.join (d.children.map fun t => "<" ++ t.inside ++ "/>\n")).toList =
      d.children.flatMap Tag.line := by
    rw [String.toList_join, List.flatMap_map]
    simp only [hline]
  simp [Document.text, hlines]

/-- Every document with proper names is read back from its text, all but the attributes that cannot
be written. -/
theorem decode?_text (d : Document) (hroot : d.root.WellNamed)
    (hchildren : ∀ t ∈ d.children, t.WellNamed) :
    decode? d.text = some ⟨d.root.kept, d.children.map Tag.kept⟩ := by
  have hend : ∀ c ∈ (['>', '\n'] ++ (d.children.flatMap Tag.line ++
      ("</" ++ d.root.name ++ ">").toList)).head?, c = '>' ∨ c = '/' := by
    intro c hc
    cases hc
    exact Or.inl rfl
  have hmany : many child? (d.children.flatMap Tag.line ++ ("</" ++ d.root.name ++ ">").toList) =
      (d.children.map Tag.kept, ("</" ++ d.root.name ++ ">").toList) := by
    apply many_append
    · intro t ht
      exact Tag.reads_line (hchildren t ht)
    · intro t _
      exact List.cons_ne_nil _ _
    · simpa using child?_closing (d.root.name.toList ++ ['>'])
  simp only [decode?, toList_text, dropPrefix?_append, Tag.inside?_append hroot hend,
    Option.bind_eq_bind, Option.bind_some, hmany]
  exact if_pos rfl

end Document

end Markup

end TurtleScript
