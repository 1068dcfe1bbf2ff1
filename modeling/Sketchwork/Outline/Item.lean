/-
  Sketchwork.Outline.Item — the tree of a document before it is given a meaning.

  Scalars, lists and maps, each with the range of text it was read from. A map keeps its
  entries in the order they were written.
-/
import Sketchwork.Span

namespace Sketchwork

inductive Item where
  | null (span : Span)
  | bool (value : Bool) (span : Span)
  | number (value : Float) (span : Span)
  | text (value : String) (quoted : Bool) (span : Span)
  | seq (items : List Item) (span : Span)
  | map (entries : List (Spanned String × Item)) (span : Span)
  deriving Repr, Inhabited

abbrev Item.Entry := Spanned String × Item

namespace Item

def span : Item → Span
  | null s | bool _ s | number _ s | text _ _ s | seq _ s | map _ s => s

/-- The offset of the first character of a scalar's content. -/
def contentStart : Item → Nat
  | text _ true s => s.start + 1
  | item => item.span.start

end Item

/-- The value of the first entry with a key. -/
def Item.Entry.find? (key : String) (entries : List Item.Entry) : Option Item :=
  (entries.find? fun e => e.1.value == key).map (·.2)

end Sketchwork
