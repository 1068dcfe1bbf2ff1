/-
  Sketchwork.Proofs.Builtin.WellFormed — built-in features draw well-formed curves.

  An entity is well formed when its curves are, and a region when it also has a loop and closes
  all of them. A scene is when all its entities are, a value when all entities and scenes in it
  are. Features read curves from scenes and from arguments, so both have to be.

  Proved: one lemma for every shape and every change of entities; a built-in feature takes a
  well-formed scene and well-formed arguments to a well-formed scene (`Builtin.wellFormed_of_run`).
-/
import Sketchwork.Proofs.Builtin.Framing
import Sketchwork.Proofs.Geometry.WellFormed
import Sketchwork.Proofs.Scene.Walks

namespace Sketchwork

/-! ## Entities, scenes and values -/

def Entity.WellFormed : Entity → Prop
  | .polycurve curve => curve.WellFormed
  | .polyface loops => loops ≠ [] ∧ ∀ curve ∈ loops, curve.WellFormed ∧ curve.closed = true
  | .point _ | .segment _ _ | .circle _ _ | .arc _ | .text _ => True

def Node.WellFormed (node : Node) : Prop :=
  node.Every Entity.WellFormed

inductive Value.WellFormed : Value → Prop
  | null : WellFormed .null
  | bool (b : Bool) : WellFormed (.bool b)
  | number (x : Float) : WellFormed (.number x)
  | text (s : String) : WellFormed (.text s)
  | list {items : List Value} : (∀ v ∈ items, WellFormed v) → WellFormed (.list items)
  | map {entries : List (String × Value)} : (∀ entry ∈ entries, WellFormed entry.2) → WellFormed (.map entries)
  | entity {e : Entity} : e.WellFormed → WellFormed (.entity e)
  | sketch {node : Node} : node.WellFormed → WellFormed (.sketch node)

namespace Entity

variable {e out : Entity}

theorem WellFormed.transform (h : e.WellFormed) (t : Similarity Float) : (e.transform t).WellFormed := by
  cases e with
  | polycurve curve => exact Polycurve.WellFormed.transform h t
  | polyface loops =>
    refine ⟨by simpa [Entity.transform] using h.1, fun curve hc => ?_⟩
    obtain ⟨loop, hl, rfl⟩ := List.mem_map.mp hc
    exact ⟨(h.2 loop hl).1.transform t, (h.2 loop hl).2⟩
  | point | segment | circle | arc | text => trivial

theorem wellFormed_face {loops : List Polycurve} (hne : loops ≠ []) (h : ∀ curve ∈ loops, curve.WellFormed) :
    (face loops).WellFormed := by
  refine ⟨by simpa using hne, fun curve hc => ?_⟩
  obtain ⟨loop, hl, rfl⟩ := List.mem_map.mp hc
  exact ⟨(h loop hl).close, rfl⟩

theorem WellFormed.of_mem_outlines (h : e.WellFormed) {curve : Polycurve} (hc : curve ∈ Shapes.outlines e) :
    curve.WellFormed := by
  cases e with
  | polycurve => cases List.mem_singleton.mp hc; exact h
  | polyface loops => exact (h.2 curve hc).1
  | point | segment | circle | arc | text => cases hc

theorem WellFormed.of_mem_pieces (h : e.WellFormed) {piece : Entity} (hp : piece ∈ Curves.pieces e) :
    piece.WellFormed := by
  cases e with
  | polycurve curve =>
    obtain ⟨edge, -, rfl⟩ := List.mem_map.mp hp
    unfold Curves.edgeEntity
    split <;> trivial
  | point | segment | circle | arc | polyface | text => cases List.mem_singleton.mp hp; exact h

/-- What can be joined is open and has an edge, whatever the entity. -/
theorem open_of_joinable? {curve : Polycurve} (hc : Curves.joinable? e = some curve) :
    curve.WellFormed ∧ curve.closed = false := by
  unfold Curves.joinable? at hc
  split at hc
  · cases hc
    exact ⟨Polycurve.wellFormed_straight (by simp) _, rfl⟩
  · dsimp only at hc
    split at hc
    · cases hc
    · cases hc
      exact ⟨Polycurve.wellFormed_ofBulges (by simp) _ _, rfl⟩
  · split at hc
    · rename_i hopen
      cases hc
      simp only [Bool.and_eq_true, Bool.not_eq_true', decide_eq_true_eq] at hopen
      exact ⟨.of_corners hopen.2, hopen.1⟩
    · cases hc
  · cases hc

theorem WellFormed.of_roundEntity (h : e.WellFormed) {radius : Float} (ho : Curves.roundEntity radius e = .ok out) :
    out.WellFormed := by
  unfold Curves.roundEntity at ho
  split at ho
  · rename_i curve
    split at ho
    · rename_i rounded hrounded
      cases ho
      exact Polycurve.WellFormed.of_rounded h hrounded
    · cases ho
  · cases ho
    exact h

end Entity

/-! ## Arguments -/

theorem Args.mem_of_get? {args : Args} {i : Nat} {v : Value} (h : args.get? i = some v) : v ∈ args.values :=
  List.mem_of_getElem? (Option.filter_eq_some_iff.mp h).1

/-! ## Shapes -/

namespace Shapes

variable {args : Args} {e : Entity}

theorem wellFormed_point (h : point args = .ok e) : e.WellFormed := by
  obtain ⟨_, -, h⟩ := exists_of_bind_eq_ok h
  cases h
  trivial

theorem wellFormed_segment (h : segment args = .ok e) : e.WellFormed := by
  obtain ⟨_, -, h⟩ := exists_of_bind_eq_ok h
  obtain ⟨_, -, h⟩ := exists_of_bind_eq_ok h
  cases h
  trivial

theorem wellFormed_circle (h : circle args = .ok e) : e.WellFormed := by
  obtain ⟨_, -, h⟩ := exists_of_bind_eq_ok h
  obtain ⟨_, -, h⟩ := exists_of_bind_eq_ok h
  cases h
  trivial

theorem wellFormed_arc (h : arc args = .ok e) : e.WellFormed := by
  obtain ⟨_, -, h⟩ := exists_of_bind_eq_ok h
  obtain ⟨_, -, h⟩ := exists_of_bind_eq_ok h
  obtain ⟨_, -, h⟩ := exists_of_bind_eq_ok h
  obtain ⟨_, -, h⟩ := exists_of_bind_eq_ok h
  cases h
  trivial

theorem wellFormed_text (h : text args = .ok e) : e.WellFormed := by
  have hrest {position : Position} {content : String} (h : (do
      let size ← args.orElse 2 textSize Args.positive
      let rotation ← args.orElse 3 0.0 Args.number
      return Entity.text ⟨position, content, size, Real64.radians rotation⟩) = .ok e) : e.WellFormed := by
    obtain ⟨_, -, h⟩ := exists_of_bind_eq_ok h
    obtain ⟨_, -, h⟩ := exists_of_bind_eq_ok h
    cases h
    trivial
  obtain ⟨position, -, h⟩ := exists_of_bind_eq_ok h
  dsimp only at h
  split at h
  · exact hrest h
  · obtain ⟨content, -, h⟩ := exists_of_bind_eq_ok h
    exact hrest h

theorem wellFormed_polycurve (h : polycurve args = .ok e) : e.WellFormed := by
  obtain ⟨vertices, -, h⟩ := exists_of_bind_eq_ok h
  split at h
  · cases h
  · rename_i hfew
    cases h
    exact Polycurve.wellFormed_straight (Nat.le_of_not_lt hfew) _

theorem wellFormed_rectangle (h : rectangle args = .ok e) : e.WellFormed := by
  obtain ⟨_, -, h⟩ := exists_of_bind_eq_ok h
  obtain ⟨_, -, h⟩ := exists_of_bind_eq_ok h
  obtain ⟨_, -, h⟩ := exists_of_bind_eq_ok h
  cases h
  exact Polycurve.wellFormed_straight (by simp) _

theorem wellFormed_bbox {node : Node} (h : bbox node = .ok e) : e.WellFormed := by
  unfold bbox at h
  dsimp only at h
  split at h
  · cases h
  · cases h
    exact Polycurve.wellFormed_straight (by simp [Bounds.corners]) _

theorem wellFormed_loops (hv : ∀ v ∈ args.values, v.WellFormed) {i : Nat} {found : List Polycurve}
    (h : loops args i = .ok found) : ∀ curve ∈ found, curve.WellFormed := by
  unfold loops at h
  split at h
  · cases h
    nofun
  · rename_i node hget
    cases h
    intro curve hc
    obtain ⟨e, he, hc⟩ := List.mem_flatMap.mp hc
    cases hv _ (Args.mem_of_get? hget) with
    | sketch hnode => exact (Node.Every.of_mem_subtreeEntities hnode he).of_mem_outlines hc
  · rename_i curve hget
    cases h
    intro c hc
    cases List.mem_singleton.mp hc
    cases hv _ (Args.mem_of_get? hget) with
    | entity he => exact he
  · rename_i loops hget
    cases h
    intro curve hc
    cases hv _ (Args.mem_of_get? hget) with
    | entity he => exact (he.2 curve hc).1
  · split at h
    · cases h
    · split at h
      · cases h
      · split at h
        · cases h
        · rename_i points _ hlong
          cases h
          intro curve hc
          cases List.mem_singleton.mp hc
          exact Polycurve.wellFormed_straight (by omega) _
  · cases h

theorem wellFormed_polyface (hv : ∀ v ∈ args.values, v.WellFormed) (h : polyface args = .ok e) : e.WellFormed := by
  obtain ⟨found, hfound, h⟩ := exists_of_bind_eq_ok h
  have heach : ∀ loops ∈ found, loops ≠ [] ∧ ∀ curve ∈ loops, curve.WellFormed := by
    intro loops hl
    obtain ⟨i, -, hi⟩ := exists_of_mem_mapM hfound hl
    obtain ⟨read, hread, hi⟩ := exists_of_bind_eq_ok hi
    split at hi
    · cases hi
    · rename_i hne
      cases hi
      exact ⟨by simpa using hne, wellFormed_loops hv hread⟩
  split at h
  · cases h
  · rename_i hne
    cases h
    refine Entity.wellFormed_face ?_ ?_
    · intro hflat
      obtain ⟨first, rest, rfl⟩ := List.exists_cons_of_ne_nil (by simpa using hne : found ≠ [])
      exact (heach first List.mem_cons_self).1 (List.flatten_eq_nil_iff.mp hflat first List.mem_cons_self)
    · intro curve hc
      obtain ⟨loops, hl, hc⟩ := List.mem_flatten.mp hc
      exact (heach loops hl).2 curve hc

end Shapes

/-! ## Features -/

namespace Builtin

variable {fresh : NodeId} {node out : Node} {args : Args} {values : List Value}

theorem wellFormed_of_draw (hn : node.WellFormed) {shape : Except Error Entity}
    (hs : ∀ e, shape = .ok e → e.WellFormed) (h : draw fresh node shape = .ok out) : out.WellFormed := by
  obtain ⟨e, he, h⟩ := exists_of_bind_eq_ok h
  cases h
  refine Node.Every.add hn fun child hc => ?_
  cases List.mem_singleton.mp hc
  exact Node.every_holding fresh (List.forall_mem_singleton.mpr (hs e he))

theorem wellFormed_of_restyle (hn : node.WellFormed) {change : Style → Except Error Style}
    (h : restyle node change = .ok out) : out.WellFormed := by
  obtain ⟨style, -, h⟩ := exists_of_bind_eq_ok h
  cases h
  exact Node.Every.congr hn rfl rfl

theorem wellFormed_of_move (hn : node.WellFormed) {motion : Except Error (Similarity Float)}
    (h : move node motion = .ok out) : out.WellFormed := by
  obtain ⟨t, -, h⟩ := exists_of_bind_eq_ok h
  cases h
  refine Node.Every.mapEntities hn fun es hes e he => ?_
  obtain ⟨old, ho, rfl⟩ := List.mem_map.mp he
  exact (hes old ho).transform t

theorem wellFormed_of_sketches (hv : ∀ v ∈ args.values, v.WellFormed) {nodes : List Node}
    (h : sketches args = .ok nodes) : ∀ n ∈ nodes, n.WellFormed := by
  intro n hn
  have hmem : Value.sketch n ∈ args.values.filter (!·.isNull) := by
    rw [filter_eq_of_sketches h]
    exact List.mem_map_of_mem hn
  cases hv _ (List.mem_filter.mp hmem).1 with
  | sketch hnode => exact hnode

theorem wellFormed_close (hn : node.WellFormed) : (Curves.close node).WellFormed := by
  refine Node.Every.mapEntities hn fun es hes e he => ?_
  obtain ⟨old, ho, rfl⟩ := List.mem_map.mp he
  have hold := hes old ho
  cases old with
  | polycurve curve => exact Polycurve.WellFormed.close hold
  | point | segment | circle | arc | polyface | text => exact hold

theorem wellFormed_explode (hn : node.WellFormed) : (Curves.explode node).WellFormed := by
  refine Node.Every.mapEntities hn fun es hes e he => ?_
  obtain ⟨old, ho, he⟩ := List.mem_flatMap.mp he
  exact (hes old ho).of_mem_pieces he

theorem wellFormed_of_fillet (hn : node.WellFormed) (h : Curves.fillet node args = .ok out) : out.WellFormed := by
  obtain ⟨radius, -, h⟩ := exists_of_bind_eq_ok h
  obtain ⟨rounded, hr, h⟩ := exists_of_bind_eq_ok h
  split at h
  · cases h
    refine Node.Every.of_mapEntitiesM (fun es es' hes hall e he => ?_) hn hr
    obtain ⟨old, ho, hround⟩ := exists_of_mem_mapM hes he
    exact (hall old ho).of_roundEntity hround
  · cases h

/-- The pieces that a scene has for joining. -/
theorem wellFormed_of_mem_joinable (node : Node) (order : Node.Order) :
    ∀ curve ∈ (node.subtreeEntities order).filterMap Curves.joinable?, curve.WellFormed := by
  intro curve hc
  obtain ⟨e, -, hc⟩ := List.mem_filterMap.mp hc
  exact (Entity.open_of_joinable? hc).1

theorem wellFormed_of_join (hn : node.WellFormed) (h : Curves.join fresh node = .ok out) : out.WellFormed := by
  unfold Curves.join at h
  dsimp only at h
  split at h
  · cases h
  · cases h
    have hleft := Node.Every.mapEntities hn fun es hes e he =>
      hes e (List.mem_of_mem_filter (p := fun entity => (Curves.joinable? entity).isNone) he)
    refine Node.Every.add hleft fun child hc => ?_
    cases List.mem_singleton.mp hc
    refine Node.every_holding fresh fun e he => ?_
    obtain ⟨curve, hcurve, rfl⟩ := List.mem_map.mp he
    exact Polycurve.wellFormed_of_mem_join (wellFormed_of_mem_joinable node .pre) curve hcurve

theorem wellFormed_of_run {b : Builtin} (hn : node.WellFormed) (hv : ∀ v ∈ values, v.WellFormed)
    (h : b.run fresh node values = .ok out) : out.WellFormed := by
  unfold run at h
  cases b with
  | point => exact wellFormed_of_draw hn (fun _ => Shapes.wellFormed_point) h
  | segment => exact wellFormed_of_draw hn (fun _ => Shapes.wellFormed_segment) h
  | circle => exact wellFormed_of_draw hn (fun _ => Shapes.wellFormed_circle) h
  | arc => exact wellFormed_of_draw hn (fun _ => Shapes.wellFormed_arc) h
  | polycurve => exact wellFormed_of_draw hn (fun _ => Shapes.wellFormed_polycurve) h
  | rectangle => exact wellFormed_of_draw hn (fun _ => Shapes.wellFormed_rectangle) h
  | polyface => exact wellFormed_of_draw hn (fun _ => Shapes.wellFormed_polyface hv) h
  | text => exact wellFormed_of_draw hn (fun _ => Shapes.wellFormed_text) h
  | bbox => exact wellFormed_of_draw hn (fun _ => Shapes.wellFormed_bbox) h
  | stroke | fill | linestyle | opacity | style => exact wellFormed_of_restyle hn h
  | translate | rotate | scale | transform | orient | snap => exact wellFormed_of_move hn h
  | name | z =>
    obtain ⟨_, -, h⟩ := exists_of_bind_eq_ok h
    cases h
    exact Node.Every.congr hn rfl rfl
  | hide | unhide => cases h; exact Node.Every.congr hn rfl rfl
  | tag =>
    obtain ⟨attributes, rfl⟩ := exists_of_tag h
    exact Node.Every.congr hn rfl rfl
  | add =>
    obtain ⟨nodes, hs, h⟩ := exists_of_bind_eq_ok h
    cases h
    exact Node.Every.add hn (wellFormed_of_sketches hv hs)
  | new => cases h; exact Node.every_empty fresh
  | close => cases h; exact wellFormed_close hn
  | explode => cases h; exact wellFormed_explode hn
  | fillet => exact wellFormed_of_fillet hn h
  | join => exact wellFormed_of_join hn h

end Builtin

end Sketchwork
