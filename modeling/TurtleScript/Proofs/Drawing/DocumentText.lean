import TurtleScript.Proofs.Drawing.Canvas
import TurtleScript.Proofs.Drawing.Decoder
import TurtleScript.Proofs.Number.ReadBack

/-!
What the document of a drawing says. Colours are the only texts in it that are not of its own making:
the background comes from the script and the stroke from the style, and both may be any text. Reading
the document back shows that neither can do more than give one attribute a value, or be left out if it
has quotes of both kinds. All other values are numbers, path data and fixed words, which have no double
quotes.
-/

namespace TurtleScript

open Markup

/-- Texts that can stand in double quotes. -/
def Unquoted (text : String) : Prop :=
  '"' ∉ text.toList

theorem Unquoted.append {a b : String} (ha : Unquoted a) (hb : Unquoted b) : Unquoted (a ++ b) := by
  simp only [Unquoted, String.toList_append, List.mem_append, not_or]
  exact ⟨ha, hb⟩

theorem unquoted_intercalate {separator : String} (hseparator : Unquoted separator)
    {texts : List String} (htexts : ∀ text ∈ texts, Unquoted text) :
    Unquoted (separator.intercalate texts) := by
  induction texts with
  | nil => simp [Unquoted]
  | cons text rest ih =>
      obtain ⟨hfirst, hrest⟩ := List.forall_mem_cons.mp htexts
      cases rest with
      | nil => simpa [String.intercalate_singleton] using hfirst
      | cons second others =>
          rw [String.intercalate_cons_cons]
          exact (hfirst.append hseparator).append (ih hrest)

theorem Number.unquoted_text (x : Float) : Unquoted (Number.text x) := by
  have hdecimal (y : Decimal) : '"' ∉ y.digits := by
    intro hmem
    rcases Decimal.isDigit_or_point_of_mem_digits hmem with hdigit | hpoint
    · exact absurd hdigit (by decide)
    · exact absurd hpoint (by decide)
  have hdigits : '"' ∉ (if Binary64.magnitude x = 0 then "0".toList
      else if Binary64.magnitude x < Binary64.infinity then
        (Decimal.shortest (Binary64.magnitude x)).digits
      else "inf".toList) := by
    split
    · decide
    · split
      · exact hdecimal _
      · decide
  unfold Unquoted Number.text
  simp only
  split
  · decide
  · split
    · rw [String.toList_ofList, List.mem_cons, not_or]
      exact ⟨by decide, hdigits⟩
    · rw [String.toList_ofList]
      exact hdigits

theorem Point.unquoted_text (p : Point) : Unquoted p.text := by
  have hcomma : Unquoted "," := by simp [Unquoted]
  exact ((Number.unquoted_text p.x).append hcomma).append (Number.unquoted_text p.y)

theorem Polyline.unquoted_text (line : Polyline) : Unquoted line.text := by
  apply unquoted_intercalate (by simp [Unquoted])
  intro text htext
  rcases List.mem_cons.mp htext with rfl | hmem
  · exact Unquoted.append (by simp [Unquoted]) line.start.unquoted_text
  · obtain ⟨p, -, rfl⟩ := List.mem_map.mp hmem
    exact Unquoted.append (by simp [Unquoted]) p.unquoted_text

namespace Markup

namespace Attribute

/-- An attribute, or nothing if its value has quotes of both kinds. -/
def unlessBothQuotes (a : Attribute) : List Attribute :=
  if '"' ∈ a.value.toList ∧ '\'' ∈ a.value.toList then [] else [a]

theorem hasBothQuotes_iff {a : Attribute} :
    a.hasBothQuotes = true ↔ '"' ∈ a.value.toList ∧ '\'' ∈ a.value.toList := by
  simp [hasBothQuotes]

theorem hasBothQuotes_of_unquoted {a : Attribute} (h : Unquoted a.value) :
    a.hasBothQuotes = false := by
  rw [Bool.eq_false_iff]
  intro hquotes
  exact h (hasBothQuotes_iff.mp hquotes).1

theorem filter_of_unquoted {list : List Attribute} (h : ∀ a ∈ list, Unquoted a.value) :
    list.filter (fun a => !a.hasBothQuotes) = list := by
  rw [List.filter_eq_self]
  intro a ha
  rw [hasBothQuotes_of_unquoted (h a ha)]
  rfl

theorem filter_cons (a : Attribute) (list : List Attribute) :
    (a :: list).filter (fun a => !a.hasBothQuotes) =
      a.unlessBothQuotes ++ list.filter fun a => !a.hasBothQuotes := by
  unfold unlessBothQuotes
  by_cases hquotes : a.hasBothQuotes = true
  · rw [List.filter_cons_of_neg (by simp [hquotes]), if_pos (hasBothQuotes_iff.mp hquotes)]
    rfl
  · rw [List.filter_cons_of_pos (by simp [hquotes]), if_neg (mt hasBothQuotes_iff.mpr hquotes)]
    rfl

end Attribute

namespace Tag

variable {t : Tag} {after : List Attribute}

/-- Whether names are proper can be told from the names alone. -/
theorem wellNamed_of_names (names : List String)
    (hnames : t.name :: t.attributes.map Attribute.name = names) (h : ∀ name ∈ names, IsName name) :
    t.WellNamed := by
  subst hnames
  obtain ⟨hname, hattributes⟩ := List.forall_mem_cons.mp h
  exact ⟨hname, fun a ha => hattributes a.name (List.mem_map_of_mem ha)⟩

theorem kept_of_unquoted {list : List Attribute} (hsorted : t.sorted = list)
    (h : ∀ a ∈ list, Unquoted a.value) : t.kept = ⟨t.name, list⟩ := by
  rw [kept, hsorted, Attribute.filter_of_unquoted h]

/-- A tag with one attribute of which nothing is known. -/
theorem kept_of_sorted (before : List Attribute) {a : Attribute}
    (hsorted : t.sorted = before ++ a :: after)
    (hbefore : ∀ b ∈ before, Unquoted b.value) (hafter : ∀ b ∈ after, Unquoted b.value) :
    t.kept = ⟨t.name, before ++ (a.unlessBothQuotes ++ after)⟩ := by
  rw [kept, hsorted, List.filter_append, Attribute.filter_cons,
    Attribute.filter_of_unquoted hbefore, Attribute.filter_of_unquoted hafter]

end Tag

end Markup

namespace Picture

variable (p : Picture)

theorem kept_root :
    p.root.kept = ⟨"svg",
      [⟨"height", Number.text p.style.height⟩,
       ⟨"viewBox", " ".intercalate ([p.left, p.top, p.style.width, p.style.height].map Number.text)⟩,
       ⟨"width", Number.text p.style.width⟩,
       ⟨"xmlns", "http://www.w3.org/2000/svg"⟩]⟩ := by
  apply Tag.kept_of_unquoted
  · simp [Tag.sorted, root, List.mergeSort, List.MergeSort.Internal.splitInTwo]
  · have hbox : Unquoted (" ".intercalate
        ([p.left, p.top, p.style.width, p.style.height].map Number.text)) := by
      apply unquoted_intercalate (by simp [Unquoted])
      intro text htext
      obtain ⟨x, -, rfl⟩ := List.mem_map.mp htext
      exact Number.unquoted_text x
    simp only [List.forall_mem_cons]
    exact ⟨Number.unquoted_text _, hbox, Number.unquoted_text _, by simp [Unquoted], nofun⟩

theorem kept_backdrop :
    p.backdrop.kept = ⟨"rect",
      Attribute.unlessBothQuotes ⟨"fill", Colour.ofWord p.background⟩ ++
        [⟨"height", Number.text p.style.height⟩,
         ⟨"width", Number.text p.style.width⟩,
         ⟨"x", Number.text p.left⟩,
         ⟨"y", Number.text p.top⟩]⟩ := by
  apply Tag.kept_of_sorted []
  · simp [Tag.sorted, backdrop, List.mergeSort, List.MergeSort.Internal.splitInTwo]
  · exact nofun
  · simp only [List.forall_mem_cons]
    exact ⟨Number.unquoted_text _, Number.unquoted_text _, Number.unquoted_text _,
      Number.unquoted_text _, nofun⟩

theorem kept_stretch (line : Polyline) :
    (p.stretch line).kept = ⟨"path",
      [⟨"d", line.text⟩, ⟨"fill", "none"⟩] ++
        (Attribute.unlessBothQuotes ⟨"stroke", p.style.stroke⟩ ++
          [⟨"stroke-linecap", "round"⟩,
           ⟨"stroke-linejoin", "round"⟩,
           ⟨"stroke-width", Number.text p.style.strokeWidth⟩])⟩ := by
  apply Tag.kept_of_sorted [⟨"d", line.text⟩, ⟨"fill", "none"⟩]
  · simp [Tag.sorted, stretch, List.mergeSort, List.MergeSort.Internal.splitInTwo]
  · simp only [List.forall_mem_cons]
    exact ⟨line.unquoted_text, by simp [Unquoted], nofun⟩
  · simp only [List.forall_mem_cons]
    exact ⟨by simp [Unquoted], by simp [Unquoted], Number.unquoted_text _, nofun⟩

theorem wellNamed_root : p.root.WellNamed :=
  Tag.wellNamed_of_names ["svg", "xmlns", "viewBox", "width", "height"] rfl (by decide)

theorem wellNamed_backdrop : p.backdrop.WellNamed :=
  Tag.wellNamed_of_names ["rect", "x", "y", "width", "height", "fill"] rfl (by decide)

theorem wellNamed_stretch (line : Polyline) : (p.stretch line).WellNamed :=
  Tag.wellNamed_of_names
    ["path", "fill", "stroke", "stroke-width", "stroke-linecap", "stroke-linejoin", "d"] rfl
    (by decide)

/-- The document of a picture is read back from its text. -/
theorem decode?_text :
    Document.decode? p.text =
      some ⟨p.root.kept, p.backdrop.kept :: p.lines.map fun line => (p.stretch line).kept⟩ := by
  have hchildren : ∀ t ∈ p.document.children, t.WellNamed := by
    intro t ht
    rcases List.mem_cons.mp ht with rfl | hline
    · exact p.wellNamed_backdrop
    · obtain ⟨line, -, rfl⟩ := List.mem_map.mp hline
      exact p.wellNamed_stretch line
  rw [text, Document.decode?_text p.document p.wellNamed_root hchildren]
  simp [document]

end Picture

namespace Canvas

theorem style_endLine (c : Canvas) : c.endLine.style = c.style := by
  unfold endLine
  split
  · split <;> rfl
  · rfl

theorem style_obey (c : Canvas) (command : Command) : (c.obey command).style = c.style := by
  cases command with
  | penUp => exact c.style_endLine
  | home => exact c.style_endLine
  | _ => rfl

theorem style_drawn (style : Style) (commands : List Command) :
    (drawn style commands).style = style := by
  have hfold (c : Canvas) : (commands.foldl obey c).style = c.style := by
    induction commands generalizing c with
    | nil => rfl
    | cons command commands ih => rw [List.foldl_cons, ih, style_obey]
  exact hfold (.new style)

/-- No colour can put markup into a drawing. Whatever the style and the commands are, one reader gets
back from the text of the document: the root; one rectangle, filled with the background unless that has
quotes of both kinds; one path for each line, in order, with the stroke unless that has quotes of both
kinds; and nothing else. -/
theorem document_decodes (style : Style) (commands : List Command) :
    let canvas := drawn style commands
    let left := Number.text (-style.width / 2)
    let top := Number.text (-style.height / 2)
    let width := Number.text style.width
    let height := Number.text style.height
    Document.decode? canvas.picture.text = some
      { root := ⟨"svg",
          [⟨"height", height⟩,
           ⟨"viewBox", " ".intercalate [left, top, width, height]⟩,
           ⟨"width", width⟩,
           ⟨"xmlns", "http://www.w3.org/2000/svg"⟩]⟩
        children :=
          ⟨"rect",
            Attribute.unlessBothQuotes ⟨"fill", Colour.ofWord canvas.background⟩ ++
              [⟨"height", height⟩, ⟨"width", width⟩, ⟨"x", left⟩, ⟨"y", top⟩]⟩ ::
          canvas.lines.map fun line => ⟨"path",
            [⟨"d", line.text⟩, ⟨"fill", "none"⟩] ++
              (Attribute.unlessBothQuotes ⟨"stroke", style.stroke⟩ ++
                [⟨"stroke-linecap", "round"⟩,
                 ⟨"stroke-linejoin", "round"⟩,
                 ⟨"stroke-width", Number.text style.strokeWidth⟩])⟩ } := by
  intro canvas left top width height
  have hstyle : canvas.picture.style = style := style_drawn style commands
  rw [Picture.decode?_text, Picture.kept_root, Picture.kept_backdrop]
  simp only [Picture.kept_stretch, Picture.left, Picture.top, hstyle]
  rfl

end Canvas

end TurtleScript
