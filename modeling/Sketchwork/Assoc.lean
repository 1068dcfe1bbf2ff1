/-
  Sketchwork.Assoc — maps that keep their keys in order of insertion.

  A key that is set again keeps its place. What is set is read back and nothing else changes
  (`get?_insert_self`, `get?_insert_of_ne`); keys stay distinct (`insert_keys_nodup`).
-/

namespace Sketchwork

abbrev Assoc (α : Type) := List (String × α)

namespace Assoc

variable {α β : Type}

def keys (m : Assoc α) : List String :=
  m.map (·.1)

def get? (m : Assoc α) (key : String) : Option α :=
  (m.find? fun e => e.1 == key).map (·.2)

def has (m : Assoc α) (key : String) : Bool :=
  m.any fun e => e.1 == key

/-- Sets a key: in place when it is there, else at the end. -/
def insert (key : String) (value : α) : Assoc α → Assoc α
  | [] => [(key, value)]
  | e :: m => if e.1 = key then (key, value) :: m else e :: insert key value m

def erase (m : Assoc α) (key : String) : Assoc α :=
  m.filter fun e => e.1 != key

/-- Entries set one after the other: the first place and the last value of every key. -/
def ofEntries (entries : List (String × α)) : Assoc α :=
  entries.foldl (fun m e => insert e.1 e.2 m) []

theorem mem_keys_insert {m : Assoc α} {key k : String} {value : α} :
    k ∈ keys (insert key value m) ↔ k = key ∨ k ∈ keys m := by
  induction m with
  | nil => simp [insert, keys]
  | cons e m ih =>
    unfold insert
    split
    · rename_i h; simp [keys, ← h]
    · simp only [keys, List.map_cons, List.mem_cons] at ih ⊢
      rw [ih]
      exact ⟨fun h => h.elim (fun h => .inr (.inl h)) (fun h => h.elim .inl (fun h => .inr (.inr h))),
        fun h => h.elim (fun h => .inr (.inl h)) (fun h => h.elim .inl (fun h => .inr (.inr h)))⟩

@[simp]
theorem get?_insert_self (key : String) (value : α) (m : Assoc α) :
    get? (insert key value m) key = some value := by
  unfold get?
  induction m with
  | nil => simp [insert]
  | cons e m ih =>
    by_cases h : e.1 = key
    · simp [insert, h]
    · simpa [insert, h] using ih

theorem get?_insert_of_ne {key k : String} (h : k ≠ key) (value : α) (m : Assoc α) :
    get? (insert key value m) k = get? m k := by
  unfold get?
  induction m with
  | nil => simp [insert, h.symm]
  | cons e m ih =>
    by_cases he : e.1 = key
    · simp [insert, he, h.symm]
    · by_cases hk : e.1 = k <;> simp_all [insert]

theorem insert_keys_nodup {m : Assoc α} {key : String} {value : α} (h : (keys m).Nodup) :
    (keys (insert key value m)).Nodup := by
  induction m with
  | nil => simp [insert, keys]
  | cons e m ih =>
    simp only [keys, List.map_cons, List.nodup_cons] at h
    unfold insert
    split
    · rename_i he; simpa [keys, ← he] using h
    · rename_i he
      refine List.nodup_cons.mpr ⟨?_, ih h.2⟩
      show e.1 ∉ keys (insert key value m)
      rw [mem_keys_insert]
      exact fun hk => hk.elim he h.1

end Assoc

end Sketchwork
