import TurtleScript.Drawing.Colour
import TurtleScript.Drawing.Markup
import TurtleScript.Drawing.Polyline
import TurtleScript.Drawing.Style

/-!
Pictures, and the vector graphics document that shows one: a rectangle in the background colour
and the lines over it. The origin is the middle of the picture.
-/

namespace TurtleScript

structure Picture where
  style : Style
  /-- The background as the script wrote it. -/
  background : String
  lines : List Polyline

namespace Picture

open Markup

def left (p : Picture) : Float :=
  -p.style.width / 2

def top (p : Picture) : Float :=
  -p.style.height / 2

def root (p : Picture) : Tag where
  name := "svg"
  attributes :=
    [⟨"xmlns", "http://www.w3.org/2000/svg"⟩,
     ⟨"viewBox", " ".intercalate ([p.left, p.top, p.style.width, p.style.height].map Number.text)⟩,
     ⟨"width", Number.text p.style.width⟩,
     ⟨"height", Number.text p.style.height⟩]

def backdrop (p : Picture) : Tag where
  name := "rect"
  attributes :=
    [⟨"x", Number.text p.left⟩,
     ⟨"y", Number.text p.top⟩,
     ⟨"width", Number.text p.style.width⟩,
     ⟨"height", Number.text p.style.height⟩,
     ⟨"fill", Colour.ofWord p.background⟩]

def stretch (p : Picture) (line : Polyline) : Tag where
  name := "path"
  attributes :=
    [⟨"fill", "none"⟩,
     ⟨"stroke", p.style.stroke⟩,
     ⟨"stroke-width", Number.text p.style.strokeWidth⟩,
     ⟨"stroke-linecap", "round"⟩,
     ⟨"stroke-linejoin", "round"⟩,
     ⟨"d", line.text⟩]

def document (p : Picture) : Document where
  root := p.root
  children := p.backdrop :: p.lines.map p.stretch

/-- The text of the document that shows a picture. -/
def text (p : Picture) : String :=
  p.document.text

end Picture

end TurtleScript
