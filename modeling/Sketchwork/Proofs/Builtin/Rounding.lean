/-
  Sketchwork.Proofs.Builtin.Rounding — rounding all curves of a scene.

  The entities of a scene are changed one after the other, in the order of a walk, and the first
  that cannot be changed stops it all.

  Proved: what is changed goes entity by entity (`Node.forall₂_of_mapEntitiesM`), and a failure is
  that of an entity (`Node.exists_of_mapEntitiesM_eq_error`). So `fillet` gives a scene with every
  curve rounded, or fails when one of the curves cannot be (`Curves.fillet_rounds`).
-/
import Sketchwork.Builtin.Curves
import Sketchwork.Proofs.Geometry.Rounding
import Sketchwork.Proofs.Scene.Levels

namespace Sketchwork

/-! ## Changing all entities -/

namespace Node

theorem subtreeEntities_eq_append (node : Node) :
    node.subtreeEntities .pre = node.entities ++ node.children.flatMap (·.subtreeEntities .pre) := by
  have hnodes (node : Node) : node.subtreeEntities .pre = node.nodes.flatMap (·.entities) := by
    rw [subtreeEntities, traverse_pre]
  rw [hnodes, nodes_eq, List.flatMap_cons, List.flatMap_assoc]
  simp only [hnodes]

theorem subtreeEntities_holding (id : NodeId) (entities : List Entity) :
    (holding id entities).subtreeEntities .pre = entities := by
  rw [subtreeEntities_eq_append]
  exact List.append_nil entities

variable {change : Entity → Except Error Entity}

mutual

theorem forall₂_of_mapEntitiesM : ∀ {node out : Node}, node.mapEntitiesM (List.mapM change) = .ok out →
    List.Forall₂ (fun e e' => change e = .ok e') (node.subtreeEntities .pre) (out.subtreeEntities .pre)
  | ⟨_, _, _, _, _, _, entities, _, children⟩, out, h => by
    obtain ⟨entities', hentities, h⟩ := exists_of_bind_eq_ok h
    obtain ⟨children', hchildren, h⟩ := exists_of_bind_eq_ok h
    cases h
    rw [subtreeEntities_eq_append, subtreeEntities_eq_append]
    exact List.rel_append (forall₂_of_mapM_eq_ok hentities) (forall₂_of_mapNodesM hchildren)

theorem forall₂_of_mapNodesM : ∀ {nodes outs : List Node}, mapNodesM (List.mapM change) nodes = .ok outs →
    List.Forall₂ (fun e e' => change e = .ok e') (nodes.flatMap (·.subtreeEntities .pre))
      (outs.flatMap (·.subtreeEntities .pre))
  | [], outs, h => by
    cases h
    exact .nil
  | node :: nodes, outs, h => by
    obtain ⟨out, hnode, h⟩ := exists_of_bind_eq_ok h
    obtain ⟨outs', hnodes, h⟩ := exists_of_bind_eq_ok h
    cases h
    exact List.rel_append (forall₂_of_mapEntitiesM hnode) (forall₂_of_mapNodesM hnodes)

end

mutual

theorem exists_of_mapEntitiesM_eq_error {err : Error} : ∀ {node : Node},
    node.mapEntitiesM (List.mapM change) = .error err → ∃ e ∈ node.subtreeEntities .pre, change e = .error err
  | ⟨_, _, _, _, _, _, entities, _, children⟩, h => by
    rw [subtreeEntities_eq_append]
    obtain h | ⟨_, -, h⟩ := cases_of_bind_eq_error h
    · obtain ⟨before, e, after, _, rfl, -, he⟩ := exists_of_mapM_eq_error h
      exact ⟨e, by simp, he⟩
    obtain h | ⟨_, -, h⟩ := cases_of_bind_eq_error h
    · obtain ⟨e, hmem, he⟩ := exists_of_mapNodesM_eq_error h
      exact ⟨e, List.mem_append_right _ hmem, he⟩
    · cases h

theorem exists_of_mapNodesM_eq_error {err : Error} : ∀ {nodes : List Node},
    mapNodesM (List.mapM change) nodes = .error err →
      ∃ e ∈ nodes.flatMap (·.subtreeEntities .pre), change e = .error err
  | [], h => by cases h
  | node :: nodes, h => by
    rw [List.flatMap_cons]
    obtain h | ⟨_, -, h⟩ := cases_of_bind_eq_error h
    · obtain ⟨e, hmem, he⟩ := exists_of_mapEntitiesM_eq_error h
      exact ⟨e, List.mem_append_left _ hmem, he⟩
    obtain h | ⟨_, -, h⟩ := cases_of_bind_eq_error h
    · obtain ⟨e, hmem, he⟩ := exists_of_mapNodesM_eq_error h
      exact ⟨e, List.mem_append_right _ hmem, he⟩
    · cases h

end

end Node

/-! ## Rounding -/

namespace Curves

variable {radius : Float} {e e' : Entity} {err : Error}

/-- What becomes of an entity: a curve of three vertices or more is rounded, anything else stays. -/
inductive RoundedEntity (radius : Float) : Entity → Entity → Prop
  | rounded {curve out : Polycurve} {arcs : List (Option (Fillet Float))} : 3 ≤ curve.vertices.length →
      curve.RoundedBy radius arcs out → RoundedEntity radius (.polycurve curve) (.polycurve out)
  | short {curve : Polycurve} : curve.vertices.length < 3 → RoundedEntity radius (.polycurve curve) (.polycurve curve)
  | other {e : Entity} : isPolycurve e = false → RoundedEntity radius e e

theorem roundedEntity_of_roundEntity (h : roundEntity radius e = .ok e') : RoundedEntity radius e e' := by
  cases e with
  | polycurve curve =>
    simp only [roundEntity] at h
    split at h
    · rename_i out hout
      cases h
      by_cases hlong : 3 ≤ curve.vertices.length
      · obtain ⟨arcs, hrounded⟩ := Polycurve.exists_roundedBy hlong hout
        exact .rounded hlong hrounded
      · cases (Polycurve.rounded_of_short (not_le.mp hlong)).symm.trans hout
        exact .short (not_le.mp hlong)
    · cases h
  | point | segment | circle | arc | polyface | text =>
    cases h
    exact .other rfl

/-- Only a curve fails, and with what stands against rounding it. -/
theorem exists_of_roundEntity_eq_error (h : roundEntity radius e = .error err) :
    (∃ fault, err = .fillet fault) ∧
      ∃ curve, e = .polycurve curve ∧ 3 ≤ curve.vertices.length ∧ curve.Unroundable radius := by
  cases e with
  | polycurve curve =>
    simp only [roundEntity] at h
    split at h
    · cases h
    · rename_i fault hfault
      cases h
      have hlong : 3 ≤ curve.vertices.length := by
        by_contra hshort
        cases (Polycurve.rounded_of_short (not_le.mp hshort)).symm.trans hfault
      exact ⟨⟨fault, rfl⟩, curve, rfl, hlong, (Polycurve.exists_fault_iff hlong).mp ⟨fault, hfault⟩⟩
  | point | segment | circle | arc | polyface | text => cases h

theorem roundEntity_of_unroundable {curve : Polycurve} (hlong : 3 ≤ curve.vertices.length)
    (h : curve.Unroundable radius) : ∃ fault, roundEntity radius (.polycurve curve) = .error (.fillet fault) := by
  obtain ⟨fault, hfault⟩ := (Polycurve.exists_fault_iff hlong).mpr h
  refine ⟨fault, ?_⟩
  rw [roundEntity, hfault]

variable {node out : Node} {args : Args}

theorem entities_of_fillet (hradius : args.number 0 = .ok radius) (h : fillet node args = .ok out) :
    List.Forall₂ (RoundedEntity radius) (node.subtreeEntities .pre) (out.subtreeEntities .pre) := by
  obtain ⟨radius', hradius', h⟩ := exists_of_bind_eq_ok h
  cases hradius.symm.trans hradius'
  obtain ⟨rounded, hrounded, h⟩ := exists_of_bind_eq_ok h
  split at h
  · cases h
    exact (Node.forall₂_of_mapEntitiesM hrounded).imp fun _ _ => roundedEntity_of_roundEntity
  · cases h

theorem fillet_fails_iff (hradius : args.number 0 = .ok radius) :
    (∃ fault, fillet node args = .error (.fillet fault)) ↔
      ∃ curve, .polycurve curve ∈ node.subtreeEntities .pre ∧ 3 ≤ curve.vertices.length ∧ curve.Unroundable radius := by
  have hfillet : fillet node args = node.mapEntitiesM (List.mapM (roundEntity radius)) >>= fun rounded =>
      if (node.subtreeEntities .pre).any isPolycurve then return rounded else throw .emptyShape := by
    rw [fillet, hradius]
    rfl
  constructor
  · rintro ⟨fault, h⟩
    rw [hfillet] at h
    obtain h | ⟨rounded, -, h⟩ := cases_of_bind_eq_error h
    · obtain ⟨e, hmem, he⟩ := Node.exists_of_mapEntitiesM_eq_error h
      obtain ⟨-, curve, rfl, hlong, hcurve⟩ := exists_of_roundEntity_eq_error he
      exact ⟨curve, hmem, hlong, hcurve⟩
    · split at h <;> cases h
  · rintro ⟨curve, hmem, hlong, hcurve⟩
    cases hrounded : node.mapEntitiesM (List.mapM (roundEntity radius)) with
    | error err =>
      obtain ⟨e, -, he⟩ := Node.exists_of_mapEntitiesM_eq_error hrounded
      obtain ⟨⟨fault, rfl⟩, -⟩ := exists_of_roundEntity_eq_error he
      exact ⟨fault, by rw [hfillet, hrounded]; rfl⟩
    | ok rounded =>
      obtain ⟨fault, hfault⟩ := roundEntity_of_unroundable hlong hcurve
      obtain ⟨i, hi, hget⟩ := List.getElem_of_mem hmem
      have hpairs := List.forall₂_iff_get.mp (Node.forall₂_of_mapEntitiesM hrounded)
      have hok := hpairs.2 i hi (hpairs.1 ▸ hi)
      rw [List.get_eq_getElem, hget, hfault] at hok
      cases hok

/-- Rounded curves are the curves with arcs at their straight corners, and a scene is rounded as a
    whole or not at all. -/
theorem fillet_rounds (radius : Float) :
    (∀ {curve out : Polycurve}, 3 ≤ curve.vertices.length → curve.rounded radius = .ok out →
        ∃ arcs, curve.RoundedBy radius arcs out) ∧
      ∀ {node : Node} {args : Args}, args.number 0 = .ok radius →
        (∀ {out : Node}, fillet node args = .ok out →
          List.Forall₂ (RoundedEntity radius) (node.subtreeEntities .pre) (out.subtreeEntities .pre)) ∧
        ((∃ fault, fillet node args = .error (.fillet fault)) ↔
          ∃ curve, .polycurve curve ∈ node.subtreeEntities .pre ∧ 3 ≤ curve.vertices.length ∧
            curve.Unroundable radius) :=
  ⟨Polycurve.exists_roundedBy, fun hradius => ⟨entities_of_fillet hradius, fillet_fails_iff hradius⟩⟩

/-- A curve of arcs keeps all its corners. -/
def arched : Polycurve :=
  .ofBulges [⟨0.0, 0.0⟩, ⟨1.0, 0.0⟩, ⟨2.0, 0.0⟩] [1.0, 1.0, 1.0] true

/-- The first two vertices are the same. -/
def stutter : Polycurve :=
  .straight [⟨0.0, 0.0⟩, ⟨0.0, 0.0⟩, ⟨1.0, 0.0⟩] true

theorem fillet_rounds_arched_not_stutter :
    (∃ arcs, arched.RoundedBy 1.0 arcs arched) ∧
      List.Forall₂ (RoundedEntity 1.0) ((Node.holding ⟨0⟩ [.polycurve arched]).subtreeEntities .pre)
        ((Node.holding ⟨0⟩ [.polycurve arched]).subtreeEntities .pre) ∧
      ∃ fault, fillet (.holding ⟨0⟩ [.polycurve stutter]) ⟨"fillet", [.number 1.0]⟩ = .error (.fillet fault) := by
  have harched : arched.rounded 1.0 = .ok arched := by rfl
  have hradius : Args.number ⟨"fillet", [.number 1.0]⟩ 0 = .ok 1.0 := by rfl
  have hfillet : fillet (.holding ⟨0⟩ [.polycurve arched]) ⟨"fillet", [.number 1.0]⟩ =
      .ok (.holding ⟨0⟩ [.polycurve arched]) := by
    rw [fillet, Node.subtreeEntities_holding]
    rfl
  have hcorner : stutter.CornerAt 0 ⟨1.0, 0.0⟩ ⟨0.0, 0.0⟩ ⟨0.0, 0.0⟩ := ⟨rfl, rfl, rfl⟩
  have hempty : Fillet.corner ⟨1.0, 0.0⟩ ⟨0.0, 0.0⟩ ⟨0.0, 0.0⟩ (1.0 : Float) = .error .emptySide := by rfl
  have hstuck : stutter.StuckAt 1.0 0 := .intro (by decide) hcorner hempty
  have hmem : .polycurve stutter ∈ (Node.holding ⟨0⟩ [.polycurve stutter]).subtreeEntities .pre := by
    rw [Node.subtreeEntities_holding]
    exact List.mem_singleton_self _
  refine ⟨(fillet_rounds 1.0).1 (by decide) harched, ((fillet_rounds 1.0).2 hradius).1 hfillet, ?_⟩
  exact ((fillet_rounds 1.0).2 hradius).2.mpr ⟨stutter, hmem, by decide, .corner (by decide) hstuck⟩

end Curves

end Sketchwork
