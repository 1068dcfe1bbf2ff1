/-
  Sketchwork.Export.Markup — trees of elements and their text.

  Attributes are written in ascending order of their names, every child on lines of its
  own.
-/

namespace Sketchwork

abbrev Attribute := String × String

inductive Markup where
  | element (name : String) (attributes : List Attribute) (children : List Markup)
  | text (content : String)
  deriving Repr, Inhabited

namespace Markup

def escape (c : Char) : List Char :=
  if c == '&' then "&amp;".toList
  else if c == '<' then "&lt;".toList
  else if c == '>' then "&gt;".toList
  else [c]

/-- Inside an attribute quotes are escaped as well. -/
def escapeQuoted (c : Char) : List Char :=
  if c == '"' then "&quot;".toList
  else if c == '\'' then "&apos;".toList
  else escape c

def attributeText (a : Attribute) : String :=
  " " ++ a.1 ++ "=\"" ++ String.ofList (a.2.toList.flatMap escapeQuoted) ++ "\""

def attributesText (attributes : List Attribute) : String :=
  "".intercalate ((attributes.mergeSort fun a b => !decide (b.1 < a.1)).map attributeText)

mutual

def render : Markup → String
  | .text content => String.ofList (content.toList.flatMap escape)
  | .element name attributes [] => "<" ++ name ++ attributesText attributes ++ "/>"
  | .element name attributes (child :: children) =>
    "<" ++ name ++ attributesText attributes ++ ">" ++
      renderAll (child :: children) ++ "\n</" ++ name ++ ">"

/-- Every child behind a line break. -/
def renderAll : List Markup → String
  | [] => ""
  | child :: children => "\n" ++ render child ++ renderAll children

end

end Markup

end Sketchwork
