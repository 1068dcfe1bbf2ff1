/-
  Sketchwork.Proofs.Outline.Distinct — trees whose maps name no key twice.

  Proved: nothing is reported about the keys of such a tree (`repeatedKeys_eq_nil`).
-/
import Mathlib.Data.List.Nodup
import Sketchwork.Outline.Flow
import Sketchwork.Document.Reader

namespace Sketchwork

mutual

/-- No map in a tree has a key twice. -/
def Literal.Distinct : Literal → Prop
  | .list items => AllDistinct items
  | .map entries => (entries.map (·.1)).Nodup ∧ EntriesDistinct entries
  | _ => True

def Literal.AllDistinct : List Literal → Prop
  | [] => True
  | item :: items => item.Distinct ∧ AllDistinct items

def Literal.EntriesDistinct : List (String × Literal) → Prop
  | [] => True
  | (_, value) :: entries => value.Distinct ∧ EntriesDistinct entries

end

namespace Flow

/-- A key that comes next among distinct ones was not there before. -/
theorem not_mem_seen {seen : List (Spanned String)} {name : String} {more : List String}
    (h : (seen.map (·.value) ++ name :: more).Nodup) : name ∉ seen.map (·.value) :=
  fun hmem => List.disjoint_of_nodup_append h hmem List.mem_cons_self

theorem duplicate?_eq_none {seen : List (Spanned String)} {key : Spanned String}
    (h : key.value ∉ seen.map (·.value)) : duplicate? seen key = none := by
  have hfind : (seen.find? fun k => k.value == key.value) = none := by
    rw [List.find?_eq_none]
    intro k hk he
    exact h (List.mem_map.mpr ⟨k, hk, eq_of_beq he⟩)
  rw [duplicate?, hfind]
  rfl

mutual

theorem repeatedKeys_eq_nil : ∀ item : Item, item.literal.Distinct → repeatedKeys item = []
  | .null _, _ | .bool _ _, _ | .number _ _, _ | .text _ _ _, _ => rfl
  | .seq items _, h => by
    rw [repeatedKeys]
    exact repeatedInItems_eq_nil items h
  | .map entries _, h => by
    rw [repeatedKeys]
    exact repeatedInEntries_eq_nil [] entries h.2 h.1

theorem repeatedInItems_eq_nil : ∀ items : List Item, Literal.AllDistinct (Item.literal.literals items) →
    repeatedInItems items = []
  | [], _ => rfl
  | item :: items, h => by
    rw [repeatedInItems, repeatedKeys_eq_nil item h.1, repeatedInItems_eq_nil items h.2]
    rfl

theorem repeatedInEntries_eq_nil (seen : List (Spanned String)) : ∀ entries : List Item.Entry,
    Literal.EntriesDistinct (Item.literal.literalEntries entries) →
    (seen.map (·.value) ++ (Item.literal.literalEntries entries).map (·.1)).Nodup → repeatedInEntries seen entries = []
  | [], _, _ => rfl
  | (key, value) :: entries, h, hn => by
    rw [repeatedInEntries, duplicate?_eq_none (not_mem_seen hn), repeatedKeys_eq_nil value h.1,
      repeatedInEntries_eq_nil (seen ++ [key]) entries h.2 (by simpa [Item.literal.literalEntries] using hn)]
    rfl

end

end Flow

end Sketchwork
