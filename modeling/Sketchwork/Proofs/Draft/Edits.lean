/-
  Sketchwork.Proofs.Draft.Edits — what edits make of a draft.

  A draft is seen from outside by its names in order and by what stands under each of them, a
  `Catalog`. Edits of a catalog are said without searching any list: a name that is set keeps
  its place or goes to the end, one that is dropped leaves it. To rename is to drop and to set,
  so a source that is renamed to its own name moves to the end, and one that is renamed to the
  name of another takes that one's place.

  Proved: an edit fails exactly for a text that is no document and for a name that is not there
  (`edit_eq_error_iff`); an edit of a draft is the edit of its catalog (`view_after`), and keeps
  every document the reading of its text (`parsed_after`); so after any edits the draft is the
  list that the same edits make of the empty catalog, with no name twice, and an edit that fails
  changes nothing of it (`editAll_eq_catalog`).
-/
import Mathlib
import Sketchwork.Proofs.Draft.Calls

namespace Sketchwork

/-! ## Catalogs -/

/-- Names in order, and what stands under each. -/
@[ext]
structure Catalog where
  names : List String
  content : String → Option Source

namespace Catalog

def empty : Catalog :=
  ⟨[], fun _ => none⟩

/-- A name that is there keeps its place, another one goes to the end. -/
def set (c : Catalog) (name : String) (source : Source) : Catalog where
  names := if name ∈ c.names then c.names else c.names ++ [name]
  content n := if n = name then some source else c.content n

def drop (c : Catalog) (name : String) : Catalog where
  names := c.names.filter (· ≠ name)
  content n := if n = name then none else c.content n

/-- Edits that a catalog refuses, and why. -/
inductive Refuses (c : Catalog) : Draft.Edit → Failure → Prop
  | malformed {name text : String} {ds : List Diagnostic} (h : Document.read text = .error ds) :
      Refuses c (.document name text) (.malformed name text ds)
  | unknownRenamed {name new : String} (h : name ∉ c.names) : Refuses c (.rename name new) (.unknownSource name)
  | unknownRemoved {name : String} (h : name ∉ c.names) : Refuses c (.remove name) (.unknownSource name)

/-- The catalog after an edit; one that is refused changes nothing. -/
def after (c : Catalog) : Draft.Edit → Catalog
  | .document name text =>
    match Document.read text with
    | .ok d => c.set name (.document text d)
    | .error _ => c
  | .moves name ps ms => c.set name (.moves ps ms)
  | .rename name new =>
    match c.content name with
    | some source => (c.drop name).set new source
    | none => c
  | .remove name => if name ∈ c.names then c.drop name else c

/-- The list that a catalog stands for. -/
def entries (c : Catalog) : List (String × Source) :=
  c.names.filterMap fun name => (c.content name).map (name, ·)

example : ((set ⟨["a", "b"], fun _ => none⟩ "a" (.moves [] [])).after (.rename "a" "a")).names = ["b", "a"] := by rfl

end Catalog

/-! ## Keys of maps -/

namespace Assoc

variable {α : Type} {m : Assoc α} {key : String}

theorem get?_isSome_iff : (get? m key).isSome = true ↔ key ∈ m.keys := by
  rw [get?, Option.isSome_map, List.find?_isSome, keys, List.mem_map]
  simp only [beq_iff_eq]

theorem get?_eq_none_iff : get? m key = none ↔ key ∉ m.keys := by
  rw [← get?_isSome_iff, Bool.not_eq_true, Option.isSome_eq_false_iff, Option.isNone_iff_eq_none]

theorem keys_insert (value : α) (m : Assoc α) :
    keys (insert key value m) = if key ∈ m.keys then m.keys else m.keys ++ [key] := by
  induction m with
  | nil => rfl
  | cons e m ih =>
    unfold insert
    by_cases he : e.1 = key
    · have hmem : key ∈ keys (e :: m) := List.mem_cons.mpr (.inl he.symm)
      rw [if_pos he, if_pos hmem]
      exact congrArg (· :: keys m) he.symm
    · have hmem : key ∈ keys (e :: m) ↔ key ∈ keys m := List.mem_cons.trans (or_iff_right (Ne.symm he))
      rw [if_neg he, if_congr hmem rfl rfl]
      refine (congrArg (e.1 :: ·) ih).trans ?_
      split <;> rfl

theorem keys_erase (m : Assoc α) (key : String) : keys (erase m key) = m.keys.filter (· ≠ key) := by
  rw [keys, keys, erase, List.filter_map]
  congr 1
  refine List.filter_congr fun e _ => ?_
  by_cases he : e.1 = key <;> simp [he]

theorem get?_erase (m : Assoc α) (key k : String) : get? (erase m key) k = if k = key then none else get? m k := by
  split
  · rename_i h
    rw [get?_eq_none_iff, keys_erase]
    simp [h]
  · rename_i h
    rw [get?, erase, List.find?_filter, get?]
    congr 2
    funext e
    by_cases hk : e.1 = k <;> simp [hk, h]

theorem mem_of_mem_insert {value : α} {e : String × α} (h : e ∈ insert key value m) : e = (key, value) ∨ e ∈ m := by
  induction m with
  | nil => exact .inl (List.mem_singleton.mp h)
  | cons first m ih =>
    unfold insert at h
    split at h
    · exact (List.mem_cons.mp h).imp id (List.mem_cons_of_mem first)
    · rcases List.mem_cons.mp h with rfl | h
      · exact .inr List.mem_cons_self
      · exact (ih h).imp id (List.mem_cons_of_mem first)

/-- A map is known by its keys in order and by what is read under them. -/
theorem filterMap_keys_get? (h : m.keys.Nodup) : (m.keys.filterMap fun key => (get? m key).map (key, ·)) = m := by
  induction m with
  | nil => rfl
  | cons e m ih =>
    obtain ⟨absent, hnd⟩ := List.nodup_cons.mp h
    have later : ∀ key ∈ keys m, (get? (e :: m) key).map (key, ·) = (get? m key).map (key, ·) := by
      intro key hkey
      rw [get?_cons, if_neg]
      rintro rfl
      exact absent hkey
    have head : keys (e :: m) = e.1 :: keys m := rfl
    rw [head, List.filterMap_cons, get?_cons, if_pos rfl, List.filterMap_congr later, ih hnd]
    rfl

end Assoc

/-! ## Edits -/

namespace Draft

variable {draft draft' : Draft} {name : String} {e : Edit} {failure : Failure}

/-- What is seen of a draft. -/
def view (draft : Draft) : Catalog :=
  ⟨draft.names, draft.sources.get?⟩

/-- The draft after an edit, which may fail. -/
def after (draft : Draft) (e : Edit) : Draft :=
  (draft.edit e).toOption.getD draft

theorem editAll_append (draft : Draft) (edits : List Edit) (e : Edit) :
    draft.editAll (edits ++ [e]) = (draft.editAll edits).after e :=
  List.foldl_concat _ _ _ _

theorem after_of_ok (h : draft.edit e = .ok draft') : draft.after e = draft' := by
  rw [after, h]
  rfl

theorem after_of_error (h : draft.edit e = .error failure) : draft.after e = draft := by
  rw [after, h]
  rfl

theorem source_of_get?_some {source : Source} (h : draft.sources.get? name = some source) :
    draft.source name = .ok source := by
  unfold Draft.source
  rw [h]

theorem source_of_get?_none (h : draft.sources.get? name = none) : draft.source name = .error (.unknownSource name) := by
  unfold source
  rw [h]

theorem view_put (draft : Draft) (name : String) (source : Source) :
    (draft.put name source).view = draft.view.set name source := by
  refine Catalog.ext (Assoc.keys_insert source draft.sources) (funext fun n => ?_)
  exact Assoc.get?_insert name source draft.sources n

theorem view_erase (draft : Draft) (name : String) :
    ({ draft with sources := draft.sources.erase name } : Draft).view = draft.view.drop name := by
  refine Catalog.ext (Assoc.keys_erase draft.sources name) (funext fun n => ?_)
  exact Assoc.get?_erase draft.sources name n

/-- An edit fails for a text that is no document and for a name that is not there. -/
theorem edit_eq_error_iff : draft.edit e = .error failure ↔ draft.view.Refuses e failure := by
  have unknown (name : String) (h : name ∉ draft.view.names) : draft.source name = .error (.unknownSource name) :=
    source_of_get?_none (Assoc.get?_eq_none_iff.mpr h)
  constructor
  · intro h
    cases e with
    | document name text =>
      rw [edit] at h
      split at h
      · cases h
      · rename_i ds hread
        cases h
        exact .malformed hread
    | moves name ps ms => cases h
    | rename name new =>
      cases hs : draft.sources.get? name with
      | some source =>
        rw [edit, source_of_get?_some hs] at h
        cases h
      | none =>
        rw [edit, source_of_get?_none hs] at h
        cases h
        exact .unknownRenamed (Assoc.get?_eq_none_iff.mp hs)
    | remove name =>
      cases hs : draft.sources.get? name with
      | some source =>
        rw [edit, source_of_get?_some hs] at h
        cases h
      | none =>
        rw [edit, source_of_get?_none hs] at h
        cases h
        exact .unknownRemoved (Assoc.get?_eq_none_iff.mp hs)
  · intro h
    cases h with
    | malformed hread => rw [edit, hread]
    | unknownRenamed hname => rw [edit, unknown _ hname]; rfl
    | unknownRemoved hname => rw [edit, unknown _ hname]; rfl

/-- An edit of a draft is the edit of its catalog. -/
theorem view_after (draft : Draft) (e : Edit) : (draft.after e).view = draft.view.after e := by
  cases e with
  | document name text =>
    rw [Catalog.after]
    cases hread : Document.read text with
    | ok d =>
      have h : draft.edit (.document name text) = .ok (draft.put name (.document text d)) := by rw [edit, hread]
      rw [after_of_ok h, view_put]
    | error ds => rw [after_of_error (edit_eq_error_iff.mpr (.malformed hread))]
  | moves name ps ms => exact view_put draft name (.moves ps ms)
  | rename name new =>
    rw [Catalog.after]
    cases hs : draft.sources.get? name with
    | some source =>
      have h : draft.edit (.rename name new) =
          .ok (({ draft with sources := draft.sources.erase name } : Draft).put new source) := by
        rw [edit, source_of_get?_some hs]
        rfl
      rw [after_of_ok h, view_put, view_erase, show draft.view.content name = some source from hs]
    | none =>
      rw [after_of_error (edit_eq_error_iff.mpr (.unknownRenamed (Assoc.get?_eq_none_iff.mp hs))),
        show draft.view.content name = none from hs]
  | remove name =>
    rw [Catalog.after]
    cases hs : draft.sources.get? name with
    | some source =>
      have h : draft.edit (.remove name) = .ok { draft with sources := draft.sources.erase name } := by
        rw [edit, source_of_get?_some hs]
        rfl
      have hname : name ∈ draft.view.names := Assoc.get?_isSome_iff.mp (Option.isSome_of_eq_some hs)
      rw [after_of_ok h, view_erase, if_pos hname]
    | none =>
      have hname : name ∉ draft.view.names := Assoc.get?_eq_none_iff.mp hs
      rw [after_of_error (edit_eq_error_iff.mpr (.unknownRemoved hname)), if_neg hname]

theorem view_editAll (draft : Draft) (edits : List Edit) :
    (draft.editAll edits).view = edits.foldl Catalog.after draft.view := by
  induction edits generalizing draft with
  | nil => rfl
  | cons e edits ih => exact (ih (draft.after e)).trans (by rw [view_after]; rfl)

/-! ## Documents and their texts -/

/-- Every document is the reading of the text it is stored with. -/
def Parsed (draft : Draft) : Prop :=
  ∀ name text d, (name, .document text d) ∈ draft.sources → Document.read text = .ok d

theorem Parsed.put (h : draft.Parsed) {source : Source}
    (hs : ∀ text d, source = .document text d → Document.read text = .ok d) : (draft.put name source).Parsed := by
  intro n text d hmem
  rcases Assoc.mem_of_mem_insert hmem with heq | hmem
  · exact hs text d (congrArg Prod.snd heq).symm
  · exact h n text d hmem

theorem Parsed.erase (h : draft.Parsed) (name : String) :
    ({ draft with sources := draft.sources.erase name } : Draft).Parsed :=
  fun n text d hmem => h n text d (List.mem_of_mem_filter hmem)

theorem parsed_after (h : draft.Parsed) (e : Edit) : (draft.after e).Parsed := by
  cases he : draft.edit e with
  | error failure => rwa [after_of_error he]
  | ok draft' =>
    rw [after_of_ok he]
    cases e with
    | document name text =>
      rw [edit] at he
      split at he
      · rename_i d hread
        cases he
        refine h.put fun _ _ heq => ?_
        cases heq
        exact hread
      · cases he
    | moves name ps ms =>
      cases he
      refine h.put fun _ _ heq => ?_
      cases heq
    | rename name new =>
      cases hs : draft.sources.get? name with
      | none =>
        rw [edit, source_of_get?_none hs] at he
        cases he
      | some source =>
        rw [edit, source_of_get?_some hs] at he
        cases he
        refine (h.erase name).put ?_
        rintro text d rfl
        exact h name text d (Assoc.mem_of_get? hs)
    | remove name =>
      obtain ⟨source, -, he⟩ := exists_of_bind_eq_ok he
      cases he
      exact h.erase name

theorem parsed_editAll (h : draft.Parsed) (edits : List Edit) : (draft.editAll edits).Parsed := by
  induction edits generalizing draft with
  | nil => exact h
  | cons e edits ih => exact ih (parsed_after h e)

theorem config_after (draft : Draft) (e : Edit) : (draft.after e).config = draft.config := by
  cases he : draft.edit e with
  | error failure => rw [after_of_error he]
  | ok draft' =>
    rw [after_of_ok he]
    cases e with
    | document name text =>
      rw [edit] at he
      split at he <;> cases he
      rfl
    | moves name ps ms => cases he; rfl
    | rename name new | remove name =>
      obtain ⟨source, -, he⟩ := exists_of_bind_eq_ok he
      cases he
      rfl

theorem config_editAll (draft : Draft) (edits : List Edit) : (draft.editAll edits).config = draft.config := by
  induction edits generalizing draft with
  | nil => rfl
  | cons e edits ih => exact (ih (draft.after e)).trans (config_after draft e)

/-! ## Whole histories -/

/-- A draft whose names are distinct holds what is seen of it and nothing else. -/
theorem entries_view (h : draft.names.Nodup) : draft.view.entries = draft.sources :=
  Assoc.filterMap_keys_get? h

theorem nodup_names_made (config : Config) (edits : List Edit) : ((empty config).editAll edits).names.Nodup :=
  nodup_names_editAll (show (empty config).names.Nodup from List.nodup_nil) edits

/-- After any edits a draft is the list that they make of the empty catalog: no name is there
    twice, every document is the reading of its text, and an edit fails for the reasons that its
    catalog has to refuse it, and then changes nothing. -/
theorem editAll_eq_catalog (config : Config) (edits : List Edit) :
    (empty config).editAll edits = ⟨config, (edits.foldl Catalog.after .empty).entries⟩ ∧
      ((empty config).editAll edits).view = edits.foldl Catalog.after .empty ∧
      ((empty config).editAll edits).names.Nodup ∧
      (∀ name text d, ((empty config).editAll edits).sources.get? name = some (.document text d) →
        Document.read text = .ok d) ∧
      ∀ e failure,
        (((empty config).editAll edits).edit e = .error failure ↔
          (edits.foldl Catalog.after .empty).Refuses e failure) ∧
        (((empty config).editAll edits).edit e = .error failure →
          (empty config).editAll (edits ++ [e]) = (empty config).editAll edits) := by
  have view : ((empty config).editAll edits).view = edits.foldl Catalog.after .empty := view_editAll (empty config) edits
  have nodup := nodup_names_made config edits
  refine ⟨?list, view, nodup, ?documents, fun e failure => ⟨?refused, fun h => ?unchanged⟩⟩
  case list =>
    rw [← view, entries_view nodup]
    exact congrArg (Draft.mk · ((empty config).editAll edits).sources) (config_editAll (empty config) edits)
  case documents =>
    intro name text d h
    exact parsed_editAll (show (empty config).Parsed from nofun) edits name text d (Assoc.mem_of_get? h)
  case refused => rw [edit_eq_error_iff, view]
  case unchanged => rw [editAll_append, after_of_error h]

theorem read_emptyChain : Document.read "sketch:\n" = .ok ⟨[], [], ⟨[], .point 7⟩⟩ := by
  cbv

/-- A document is renamed into the slot of a list of moves, and a text that is no document is then
    refused under its name. -/
theorem renamed_source_survives_malformed_text :
    let edits : List Edit := [.document "disc" "sketch:\n", .moves "hole" [] [.probe], .moves "plate" [] [],
      .rename "disc" "hole"]
    ((empty .default).editAll edits).names = ["hole", "plate"] ∧
      ((empty .default).editAll edits).text? "hole" = some "sketch:\n" ∧
      ∃ failure, ((empty .default).editAll edits).edit (.document "hole" "") = .error failure ∧
        (empty .default).editAll (edits ++ [.document "hole" ""]) = (empty .default).editAll edits := by
  intro edits
  obtain ⟨-, view, -, -, failing⟩ := editAll_eq_catalog .default edits
  have readNothing : Document.read "" = .error [⟨.notSections, .point 0⟩] := by cbv
  have catalog : (edits.foldl Catalog.after .empty).names = ["hole", "plate"] ∧
      ((edits.foldl Catalog.after .empty).content "hole").bind Source.text? = some "sketch:\n" := by
    simp only [edits, List.foldl, Catalog.after, read_emptyChain]
    exact ⟨rfl, rfl⟩
  rw [← view] at catalog
  obtain ⟨refused, unchanged⟩ := failing (.document "hole" "") _
  have fails := refused.mpr (.malformed readNothing)
  exact ⟨catalog.1, catalog.2, _, fails, unchanged fails⟩

end Draft

end Sketchwork
