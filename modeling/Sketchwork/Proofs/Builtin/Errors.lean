/-
  Sketchwork.Proofs.Builtin.Errors — built-in features never fail as calls do.

  Proved: a built-in feature calls no other, so its error is never that of a call
  (`Builtin.callFree_run`); one lemma for every reader of arguments and every feature.
-/
import Sketchwork.Builtin.Table
import Sketchwork.Proofs.Evaluation.Errors

namespace Sketchwork

/-! ## Arguments -/

namespace Args

variable (args : Args) (i : Nat)

theorem callFree_read {α : Type} (wanted : Wanted) (read? : Value → Option α) : CallFree (args.read i wanted read?) := by
  unfold read
  split
  · exact .ok _
  · exact .error rfl

theorem callFree_orElse {α : Type} (default : α) {read : Args → Nat → Except Error α}
    (h : ∀ args i, CallFree (read args i)) : CallFree (args.orElse i default read) := by
  unfold orElse
  split
  · exact h _ _
  · exact .ok _

theorem callFree_number : CallFree (args.number i) := callFree_read _ _ _ _

theorem callFree_text : CallFree (args.text i) := callFree_read _ _ _ _

theorem callFree_boolean : CallFree (args.boolean i) := callFree_read _ _ _ _

theorem callFree_point : CallFree (args.point i) := callFree_read _ _ _ _

theorem callFree_sketch : CallFree (args.sketch i) := callFree_read _ _ _ _

theorem callFree_positive : CallFree (args.positive i) :=
  (args.callFree_number i).bind fun _ => .ite (.ok _) (.error rfl)

theorem callFree_nonNegative : CallFree (args.nonNegative i) :=
  (args.callFree_number i).bind fun _ => .ite (.ok _) (.error rfl)

theorem callFree_unitInterval : CallFree (args.unitInterval i) :=
  (args.callFree_number i).bind fun _ => .ite (.ok _) (.error rfl)

theorem callFree_place : CallFree (args.place i) := by
  unfold place
  split
  · exact (args.callFree_number _).bind fun _ => (args.callFree_number _).bind fun _ => .ok _
  · exact (args.callFree_point _).bind fun _ => .ok _

end Args

/-! ## Shapes -/

namespace Shapes

variable (args : Args)

theorem callFree_point : CallFree (point args) :=
  (args.callFree_place 0).bind fun _ => .ok _

theorem callFree_segment : CallFree (segment args) :=
  (args.callFree_place 0).bind fun _ => (args.callFree_place _).bind fun _ => .ok _

theorem callFree_circle : CallFree (circle args) :=
  (args.callFree_place 0).bind fun _ => (args.callFree_positive _).bind fun _ => .ok _

theorem callFree_arc : CallFree (arc args) :=
  (args.callFree_place 0).bind fun _ => (args.callFree_positive _).bind fun _ =>
    (args.callFree_number _).bind fun _ => (args.callFree_number _).bind fun _ => .ok _

theorem callFree_polycurve : CallFree (polycurve args) := by
  unfold polycurve
  refine (CallFree.mapM (fun i => Args.callFree_point _ i) _).bind fun _ => ?_
  split
  · exact (CallFree.error rfl).bind fun _ => .ok _
  · exact .ok _

theorem callFree_rectangle : CallFree (rectangle args) :=
  (args.callFree_place 0).bind fun _ => (args.callFree_number _).bind fun _ =>
    (args.callFree_number _).bind fun _ => .ok _

theorem callFree_loops (i : Nat) : CallFree (loops args i) := by
  unfold loops
  split
  case h_5 =>
    refine .ite (.error rfl) ?_
    split
    · exact .error rfl
    · exact .ite (.error rfl) (.ok _)
  case h_6 => exact .error rfl
  all_goals exact .ok _

theorem callFree_polyface : CallFree (polyface args) := by
  have houtline (i : Nat) : CallFree (do
      let found ← loops args i
      if found.isEmpty then throw (args.fault i .noOutline)
      return found) := by
    refine (callFree_loops args i).bind fun _ => ?_
    split
    · exact (CallFree.error rfl).bind fun _ => .ok _
    · exact .ok _
  refine (CallFree.mapM houtline _).bind fun _ => ?_
  split
  · exact (CallFree.error rfl).bind fun _ => .ok _
  · exact .ok _

theorem callFree_text : CallFree (text args) := by
  refine (args.callFree_point 0).bind fun position => ?_
  have hrest (content : String) : CallFree (do
      let size ← args.orElse 2 textSize Args.positive
      let rotation ← args.orElse 3 0.0 Args.number
      return Entity.text ⟨position, content, size, Real64.radians rotation⟩) :=
    (args.callFree_orElse 2 _ Args.callFree_positive).bind fun _ =>
      (args.callFree_orElse 3 _ Args.callFree_number).bind fun _ => .ok _
  dsimp only
  split
  · exact hrest _
  · exact (args.callFree_text 1).bind hrest

theorem callFree_bbox (node : Node) : CallFree (bbox node) :=
  .ite (.error rfl) (.ok _)

end Shapes

/-! ## Motions -/

namespace Motions

variable (args : Args)

theorem callFree_translate : CallFree (translate args) :=
  (args.callFree_place 0).bind fun _ => .ok _

theorem callFree_rotate : CallFree (rotate args) :=
  (args.callFree_number 0).bind fun _ => (args.callFree_orElse 1 _ Args.callFree_point).bind fun _ => .ok _

theorem callFree_scale : CallFree (scale args) :=
  (args.callFree_positive 0).bind fun _ => (args.callFree_orElse 1 _ Args.callFree_point).bind fun _ => .ok _

theorem callFree_transform : CallFree (transform args) :=
  (args.callFree_place 0).bind fun _ => (args.callFree_orElse _ _ Args.callFree_number).bind fun _ =>
    (args.callFree_orElse _ _ Args.callFree_positive).bind fun _ => .ok _

theorem callFree_carry (s0 s1 d0 d1 : Position) : CallFree (carry s0 s1 d0 d1) := by
  unfold carry
  split
  · exact .ok _
  · exact .error rfl

theorem callFree_orient : CallFree (orient args) :=
  (args.callFree_point 0).bind fun _ => (args.callFree_point 1).bind fun _ =>
    (args.callFree_point 2).bind fun _ => (args.callFree_point 3).bind fun _ => callFree_carry _ _ _ _

theorem callFree_snap : CallFree (snap args) := by
  refine (args.callFree_orElse 2 _ Args.callFree_number).bind fun _ => ?_
  split
  · exact (callFree_carry _ _ _ _).bind fun _ => .ok _
  · exact (args.callFree_point 0).bind fun _ => (args.callFree_point 1).bind fun _ => .ok _

end Motions

/-! ## Styles -/

namespace Styling

variable (args : Args)

theorem callFree_color (i : Nat) : CallFree (color args i) := by
  refine (args.callFree_text i).bind fun _ => ?_
  split
  · exact .ok _
  · exact .error rfl

theorem callFree_pattern (i : Nat) : CallFree (pattern args i) := by
  refine (args.callFree_text i).bind fun _ => ?_
  split
  · exact .ok _
  · exact .error rfl

theorem callFree_optional {α : Type} (i : Nat) {read : Args → Nat → Except Error α}
    (h : ∀ args i, CallFree (read args i)) : CallFree (optional args i read) :=
  args.callFree_orElse i _ fun args i => (h args i).map _

theorem callFree_stroke (style : Style) : CallFree (stroke style args) :=
  (callFree_color args 0).bind fun _ => (callFree_optional args 1 Args.callFree_nonNegative).bind fun _ => .ok _

theorem callFree_fill (style : Style) : CallFree (fill style args) :=
  (callFree_color args 0).bind fun _ => (callFree_optional args 1 Args.callFree_unitInterval).bind fun _ => .ok _

theorem callFree_linestyle (style : Style) : CallFree (linestyle style args) :=
  (callFree_pattern args 0).bind fun _ => .ok _

theorem callFree_opacity (style : Style) : CallFree (opacity style args) :=
  (args.callFree_unitInterval 0).bind fun _ => .ok _

theorem callFree_strokeProperty (s : Stroke) (entry : String × Value) : CallFree (strokeProperty s entry) := by
  unfold strokeProperty
  dsimp only
  split
  case h_1 => exact (callFree_color _ 0).bind fun _ => .ok _
  case h_2 => exact (Args.callFree_nonNegative _ 0).bind fun _ => .ok _
  case h_3 => exact (callFree_pattern _ 0).bind fun _ => .ok _
  case h_4 => exact (Args.callFree_unitInterval _ 0).bind fun _ => .ok _
  case h_5 => exact (Args.callFree_orElse _ 0 _ Args.callFree_boolean).bind fun _ => .ok _
  case h_6 => exact .error rfl

theorem callFree_strokeOf (v : Value) : CallFree (strokeOf v) := by
  unfold strokeOf
  split
  · exact (callFree_color _ 0).bind fun _ => .ok _
  · exact .foldlM callFree_strokeProperty _ _
  · exact .error rfl

theorem callFree_fillProperty (f : Fill) (entry : String × Value) : CallFree (fillProperty f entry) := by
  unfold fillProperty
  dsimp only
  split
  · exact (callFree_color _ 0).bind fun _ => .ok _
  · exact (Args.callFree_unitInterval _ 0).bind fun _ => .ok _
  · exact .error rfl

theorem callFree_fillOf (v : Value) : CallFree (fillOf v) := by
  unfold fillOf
  split
  · exact (callFree_color _ 0).bind fun _ => .ok _
  · exact .foldlM callFree_fillProperty _ _
  · exact .error rfl

theorem callFree_styleProperty (s : Style) (entry : String × Value) : CallFree (styleProperty args s entry) := by
  unfold styleProperty
  split
  · exact (callFree_strokeOf _).bind fun _ => .ok _
  · exact (callFree_fillOf _).bind fun _ => .ok _
  · exact (Args.callFree_unitInterval _ 0).bind fun _ => .ok _
  · exact .error rfl

theorem callFree_style (current : Style) : CallFree (style current args) := by
  unfold style
  split
  · exact (CallFree.foldlM (callFree_styleProperty args) _ _).bind fun _ => .ok _
  · exact .error rfl

end Styling

/-! ## Labels and curves -/

theorem Labels.callFree_tag (node : Node) (args : Args) : CallFree (Labels.tag node args) := by
  unfold Labels.tag
  split
  · exact .ok _
  · exact (args.callFree_text 0).bind fun _ => .ok _

namespace Curves

theorem callFree_roundEntity (radius : Float) (entity : Entity) : CallFree (roundEntity radius entity) := by
  unfold roundEntity
  split
  · split
    · exact .ok _
    · exact .error rfl
  · exact .ok _

mutual

theorem callFree_mapEntitiesM {f : List Entity → Except Error (List Entity)} (hf : ∀ es, CallFree (f es)) :
    ∀ node : Node, CallFree (node.mapEntitiesM f)
  | ⟨_, _, _, _, _, _, _, _, children⟩ =>
    (hf _).bind fun _ => (callFree_mapNodesM hf children).bind fun _ => .ok _

theorem callFree_mapNodesM {f : List Entity → Except Error (List Entity)} (hf : ∀ es, CallFree (f es)) :
    ∀ nodes : List Node, CallFree (Node.mapNodesM f nodes)
  | [] => .ok _
  | node :: nodes => (callFree_mapEntitiesM hf node).bind fun _ => (callFree_mapNodesM hf nodes).bind fun _ => .ok _

end

theorem callFree_fillet (node : Node) (args : Args) : CallFree (fillet node args) :=
  (args.callFree_number 0).bind fun radius =>
    (callFree_mapEntitiesM (CallFree.mapM (callFree_roundEntity radius)) node).bind fun _ => .ite (.ok _) (.error rfl)

theorem callFree_join (fresh : NodeId) (node : Node) : CallFree (join fresh node) :=
  .ite (.error rfl) (.ok _)

end Curves

/-! ## Features -/

namespace Builtin

theorem callFree_draw (fresh : NodeId) (node : Node) {shape : Except Error Entity} (h : CallFree shape) :
    CallFree (draw fresh node shape) :=
  h.bind fun _ => .ok _

theorem callFree_restyle (node : Node) {change : Style → Except Error Style} (h : ∀ s, CallFree (change s)) :
    CallFree (restyle node change) :=
  (h _).bind fun _ => .ok _

theorem callFree_move (node : Node) {motion : Except Error (Similarity Float)} (h : CallFree motion) :
    CallFree (move node motion) :=
  h.bind fun _ => .ok _

theorem callFree_run (b : Builtin) (fresh : NodeId) (node : Node) (values : List Value) :
    CallFree (b.run fresh node values) := by
  unfold run
  cases b with
  | point => exact callFree_draw _ _ (Shapes.callFree_point _)
  | segment => exact callFree_draw _ _ (Shapes.callFree_segment _)
  | circle => exact callFree_draw _ _ (Shapes.callFree_circle _)
  | arc => exact callFree_draw _ _ (Shapes.callFree_arc _)
  | polycurve => exact callFree_draw _ _ (Shapes.callFree_polycurve _)
  | rectangle => exact callFree_draw _ _ (Shapes.callFree_rectangle _)
  | polyface => exact callFree_draw _ _ (Shapes.callFree_polyface _)
  | text => exact callFree_draw _ _ (Shapes.callFree_text _)
  | bbox => exact callFree_draw _ _ (Shapes.callFree_bbox _)
  | name => exact (Args.callFree_text _ 0).bind fun _ => .ok _
  | hide | unhide | new | close | explode => exact .ok _
  | z => exact (Args.callFree_number _ 0).bind fun _ => .ok _
  | tag => exact Labels.callFree_tag _ _
  | stroke => exact callFree_restyle _ (Styling.callFree_stroke _)
  | fill => exact callFree_restyle _ (Styling.callFree_fill _)
  | linestyle => exact callFree_restyle _ (Styling.callFree_linestyle _)
  | opacity => exact callFree_restyle _ (Styling.callFree_opacity _)
  | style => exact callFree_restyle _ (Styling.callFree_style _)
  | add => exact (CallFree.mapM (Args.callFree_sketch _) _).bind fun _ => .ok _
  | fillet => exact Curves.callFree_fillet _ _
  | join => exact Curves.callFree_join _ _
  | translate => exact callFree_move _ (Motions.callFree_translate _)
  | rotate => exact callFree_move _ (Motions.callFree_rotate _)
  | scale => exact callFree_move _ (Motions.callFree_scale _)
  | transform => exact callFree_move _ (Motions.callFree_transform _)
  | orient => exact callFree_move _ (Motions.callFree_orient _)
  | snap => exact callFree_move _ (Motions.callFree_snap _)

end Builtin

end Sketchwork
