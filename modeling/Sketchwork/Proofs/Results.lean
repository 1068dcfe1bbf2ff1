/-
  Sketchwork.Proofs.Results — what results that may be errors are made of.
-/
import Mathlib.Data.List.Basic

namespace Sketchwork

/-- A sequence of two readers succeeds when both do. -/
theorem exists_of_bind_eq_ok {ε α β : Type} {x : Except ε α} {f : α → Except ε β} {b : β}
    (h : x >>= f = .ok b) : ∃ a, x = .ok a ∧ f a = .ok b := by
  cases x with
  | error => cases h
  | ok a => exact ⟨a, rfl, h⟩

/-- A sequence of two readers fails when one of them does. -/
theorem cases_of_bind_eq_error {ε α β : Type} {x : Except ε α} {f : α → Except ε β} {e : ε}
    (h : x >>= f = .error e) : x = .error e ∨ ∃ a, x = .ok a ∧ f a = .error e := by
  cases x with
  | error e' => cases h; exact .inl rfl
  | ok a => exact .inr ⟨a, rfl, h⟩

/-- Going over two lists gives the same when the items give the same. -/
theorem mapM_congr {ε α α' β : Type} {f : α → Except ε β} {g : α' → Except ε β} {l : List α} {l' : List α'}
    (h : List.Forall₂ (fun a a' => g a' = f a) l l') : l'.mapM g = l.mapM f := by
  induction h with
  | nil => rfl
  | cons ha _ ih => rw [List.mapM_cons, List.mapM_cons, ha, ih]

section

variable {ε α β : Type} {f : α → Except ε β} {before : List α} {a : α} {values : List β} {e : ε}

/-- Going over a list stops at the first failure. -/
theorem mapM_eq_error_of_item (hb : before.mapM f = .ok values) (ha : f a = .error e) (after : List α) :
    (before ++ a :: after).mapM f = .error e := by
  rw [List.mapM_append, hb, List.mapM_cons, ha]
  rfl

/-- Going over a list succeeds with the values of its items, in order. -/
theorem forall₂_of_mapM_eq_ok {l : List α} (h : l.mapM f = .ok values) :
    List.Forall₂ (fun a value => f a = .ok value) l values := by
  induction l generalizing values with
  | nil => cases h; exact .nil
  | cons a l ih =>
    rw [List.mapM_cons] at h
    obtain ⟨value, ha, h⟩ := exists_of_bind_eq_ok h
    obtain ⟨rest, hl, h⟩ := exists_of_bind_eq_ok h
    cases h
    exact .cons ha (ih hl)

/-- Every value comes from an item. -/
theorem exists_of_mem_mapM {l : List α} (h : l.mapM f = .ok values) {value : β} (hv : value ∈ values) :
    ∃ a ∈ l, f a = .ok value := by
  induction l generalizing values with
  | nil => cases h; cases hv
  | cons a l ih =>
    rw [List.mapM_cons] at h
    obtain ⟨first, ha, h⟩ := exists_of_bind_eq_ok h
    obtain ⟨rest, hl, h⟩ := exists_of_bind_eq_ok h
    cases h
    rcases List.mem_cons.mp hv with rfl | hv
    · exact ⟨a, List.mem_cons_self, ha⟩
    · obtain ⟨b, hb, hfb⟩ := ih hl hv
      exact ⟨b, List.mem_cons_of_mem _ hb, hfb⟩

theorem exists_of_mapM_eq_error : ∀ {l : List α}, l.mapM f = .error e →
    ∃ before a after values, l = before ++ a :: after ∧ before.mapM f = .ok values ∧ f a = .error e
  | [], h => by cases h
  | a :: l, h => by
    rw [List.mapM_cons] at h
    obtain h | ⟨value, ha, h⟩ := cases_of_bind_eq_error h
    · exact ⟨[], a, l, [], rfl, rfl, h⟩
    obtain h | ⟨_, -, h⟩ := cases_of_bind_eq_error h
    · obtain ⟨before, b, after, values, rfl, hb, h⟩ := exists_of_mapM_eq_error h
      refine ⟨a :: before, b, after, value :: values, rfl, ?_, h⟩
      rw [List.mapM_cons, ha, hb]
      rfl
    · cases h

end

end Sketchwork
