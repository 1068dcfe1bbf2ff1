/-
  Sketchwork.Text.Place — positions in a text while it is read.
-/
import Sketchwork.Text.Blank

namespace Sketchwork

/-- A byte offset and the text from there on. -/
structure Place where
  pos : Nat
  rest : List Char
  deriving Repr

namespace Place

/-- The place after the leading characters that satisfy `p`. -/
def skipWhile (p : Char → Bool) (at_ : Place) : Place :=
  ⟨at_.pos + Text.width (at_.rest.takeWhile p), at_.rest.dropWhile p⟩

/-- The place after the spaces and tabs here. -/
def skipSpaces (at_ : Place) : Place :=
  at_.skipWhile fun c => c == ' ' || c == '\t'

/-- The place one character further on, or the same one at the end. -/
def skip (at_ : Place) : Place :=
  match at_.rest with
  | [] => at_
  | c :: cs => ⟨at_.pos + c.utf8Size, cs⟩

/-- The offset where the text ends. -/
def stop (at_ : Place) : Nat :=
  at_.pos + Text.width at_.rest

theorem skip_length_lt {p : Place} {n : Nat} (hn : 0 < n) (h : p.rest.length ≤ n) : p.skip.rest.length < n := by
  unfold skip
  split
  · rename_i heq; simpa [heq] using hn
  · rename_i heq; rw [heq] at h; exact Nat.lt_of_succ_le h

theorem skipWhile_length_le (p : Char → Bool) (at_ : Place) : (at_.skipWhile p).rest.length ≤ at_.rest.length := by
  have dropWhile_le : ∀ l : List Char, (l.dropWhile p).length ≤ l.length := by
    intro l
    induction l with
    | nil => simp
    | cons c cs ih =>
      rw [List.dropWhile_cons]
      split
      · simp only [List.length_cons]; omega
      · exact Nat.le_refl _
  exact dropWhile_le _

end Place

end Sketchwork
