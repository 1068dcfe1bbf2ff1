/-
  Sketchwork.Geometry.Joining — curves laid end to end.

  Open curves whose ends meet are joined into strands. A strand starts with the first piece
  left and takes in the first piece that meets one of its ends, turned round where needed,
  until its own ends meet or no piece fits. Every piece is used once, so the number of pieces
  bounds both loops.
-/
import Sketchwork.Geometry.Polycurve

namespace Sketchwork

/-- A run of edges under way: one bulge for every step from a vertex to the next. -/
structure Strand where
  vertices : List Position
  bulges : List Float
  deriving Repr

namespace Strand

/-- Ends that are at most this far apart are the same point. -/
def tolerance : Float :=
  1e-9

def meets : Option Position → Option Position → Bool
  | some p, some q => p.distance q ≤ tolerance
  | _, _ => false

def ofCurve (curve : Polycurve) : Strand :=
  ⟨curve.vertices, curve.bulges.dropLast⟩

/-- Puts `piece` behind the last vertex, which stands for its first. -/
def append (s piece : Strand) : Strand :=
  ⟨s.vertices ++ piece.vertices.tail, s.bulges ++ piece.bulges⟩

/-- Puts `piece` before the first vertex, which stands for its last. -/
def prepend (s piece : Strand) : Strand :=
  ⟨piece.vertices.dropLast ++ s.vertices, piece.bulges ++ s.bulges⟩

/-- The ends of a strand of at least two edges meet. -/
def isLoop (s : Strand) : Bool :=
  2 < s.vertices.length && meets s.vertices.head? s.vertices.getLast?

/-- Takes in a piece where its ends meet those of the strand. -/
def attach? (s : Strand) (piece : Polycurve) : Option Strand :=
  let first := s.vertices.head?
  let last := s.vertices.getLast?
  let start := piece.vertices.head?
  let stop := piece.vertices.getLast?
  if meets last start then some (s.append (ofCurve piece))
  else if meets last stop then some (s.append (ofCurve piece.reversed))
  else if meets first stop then some (s.prepend (ofCurve piece))
  else if meets first start then some (s.prepend (ofCurve piece.reversed))
  else none

/-- Takes in the first piece that fits; what is left of the pieces comes with it. -/
def extend? (s : Strand) : List Polycurve → Option (Strand × List Polycurve)
  | [] => none
  | piece :: pieces =>
    match s.attach? piece with
    | some longer => some (longer, pieces)
    | none => (s.extend? pieces).map fun (longer, rest) => (longer, piece :: rest)

theorem length_of_extend? {s t : Strand} {pieces rest : List Polycurve}
    (h : s.extend? pieces = some (t, rest)) : rest.length + 1 = pieces.length := by
  induction pieces generalizing rest with
  | nil => simp [extend?] at h
  | cons piece pieces ih =>
    unfold extend? at h
    split at h
    · simp only [Option.some.injEq, Prod.mk.injEq] at h
      simp [← h.2]
    · simp only [Option.map_eq_some_iff, Prod.exists, Prod.mk.injEq] at h
      obtain ⟨_, left, e, rfl, rfl⟩ := h
      simp [ih e]

/-- Takes in pieces until the strand is a loop or none fits. -/
def grow (s : Strand) (pieces : List Polycurve) : Strand × List Polycurve :=
  if s.isLoop then (s, pieces)
  else match _h : s.extend? pieces with
    | none => (s, pieces)
    | some (longer, rest) => longer.grow rest
termination_by pieces.length
decreasing_by
  have := length_of_extend? ‹_›
  omega

theorem length_grow_le (s : Strand) (pieces : List Polycurve) :
    (s.grow pieces).2.length ≤ pieces.length := by
  fun_induction grow s pieces with
  | case1 | case2 => exact Nat.le_refl _
  | case3 s pieces _ longer rest h ih =>
    have := length_of_extend? h
    omega

/-- The curve along the strand: a loop is closed, and its last vertex goes. -/
def finish (s : Strand) : Polycurve :=
  if s.isLoop then .ofBulges s.vertices.dropLast s.bulges true
  else .ofBulges s.vertices s.bulges false

end Strand

/-- Joins open curves end to end, in the order of the first piece of each result. -/
def Polycurve.join : List Polycurve → List Polycurve
  | [] => []
  | piece :: pieces =>
    let grown := (Strand.ofCurve piece).grow pieces
    grown.1.finish :: join grown.2
termination_by pieces => pieces.length
decreasing_by
  have := Strand.length_grow_le (Strand.ofCurve piece) pieces
  simp only [List.length_cons]
  omega

end Sketchwork
