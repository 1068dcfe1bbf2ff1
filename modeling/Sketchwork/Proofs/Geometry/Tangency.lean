/-
  Sketchwork.Proofs.Geometry.Tangency — the arc that rounds a corner.

  A corner with the turn `θ` is rounded by an arc of the radius `r` that begins and ends at the trim
  distance `|r / tan (θ / 2)|` from it, and bends to the left if the corner does. A turn so shallow
  that half the chord would exceed the radius is refused. The formulas are read here over the real
  numbers (`Reals.analysis`). With the unit directions `v0` and `v1` of the two sides, the cosine of
  the turn is their dot product and its sine their cross product (`cos_turn`, `sin_turn`), so the
  formulas come down to `Fillet.between`, which needs a square root and no angle (`corner_eq_ok_iff`).

  Proved: the arc is a part of a circle with the radius and begins where the trim formula says
  (`corner_rounds`). The trim formula is the cotangent of half the turn, the tangents of the circle
  from the corner begin at the tangent of it (`tangentTo_between_iff_trim`); so it is the sides of a
  right angle that the arc touches, and those of no other corner (`trim_tangent_iff`,
  `sharp_corner_not_tangent`).
-/
import Mathlib.Analysis.SpecialFunctions.Complex.Arg
import Mathlib.Tactic
import Sketchwork.Geometry.Fillet

namespace Sketchwork

/-! ## Real numbers -/

/-- The functions of geometry without rounding. -/
noncomputable instance Reals.analysis : Analysis ℝ where
  pi := Real.pi
  abs x := |x|
  sqrt := Real.sqrt
  sin := Real.sin
  cos := Real.cos
  tan := Real.tan
  atan2 y x := Complex.arg ⟨x, y⟩
  hypot x y := Real.sqrt (x ^ 2 + y ^ 2)
  remainder x y := x - y * (if 0 ≤ x / y then (⌊x / y⌋ : ℝ) else ⌈x / y⌉)
  isFinite _ := true

/-! ## Turns -/

/-- An angle is brought into range by full turns. -/
theorem exists_normalizeAngle (x : ℝ) : ∃ n : ℤ, normalizeAngle x = x - n * (2 * Real.pi) := by
  have hremainder : ∃ n : ℤ, Analysis.remainder x (2 * Real.pi) = x - n * (2 * Real.pi) := by
    by_cases hsign : 0 ≤ x / (2 * Real.pi)
    · exact ⟨⌊x / (2 * Real.pi)⌋, by simp only [Analysis.remainder, if_pos hsign]; ring⟩
    · exact ⟨⌈x / (2 * Real.pi)⌉, by simp only [Analysis.remainder, if_neg hsign]; ring⟩
  obtain ⟨n, hn⟩ := hremainder
  unfold normalizeAngle
  dsimp only
  rw [show (Analysis.pi : ℝ) = Real.pi from rfl, hn]
  split
  · exact ⟨n - 1, by push_cast; ring⟩
  · split
    · exact ⟨n + 1, by push_cast; ring⟩
    · exact ⟨n, rfl⟩

theorem abs_remainder_lt (x : ℝ) {y : ℝ} (hy : 0 < y) : |Analysis.remainder x y| < y := by
  have hfloor := Int.floor_le (x / y)
  have hfloor' := Int.lt_floor_add_one (x / y)
  have hceil := Int.le_ceil (x / y)
  have hceil' := Int.ceil_lt_add_one (x / y)
  rw [le_div_iff₀ hy] at hfloor
  rw [div_lt_iff₀ hy] at hfloor'
  rw [div_le_iff₀ hy] at hceil
  rw [← sub_lt_iff_lt_add, lt_div_iff₀ hy] at hceil'
  rw [abs_lt]
  simp only [Analysis.remainder]
  split
  · constructor <;> linarith
  · constructor <;> linarith

theorem abs_normalizeAngle_le (x : ℝ) : |normalizeAngle x| ≤ Real.pi := by
  have hfull : 0 < 2 * Real.pi := by positivity
  have hrange := abs_lt.mp (abs_remainder_lt x hfull)
  rw [abs_le]
  unfold normalizeAngle
  dsimp only
  rw [show (Analysis.pi : ℝ) = Real.pi from rfl]
  split
  · constructor <;> linarith
  · split <;> constructor <;> linarith

theorem cos_normalizeAngle (x : ℝ) : Real.cos (normalizeAngle x) = Real.cos x := by
  obtain ⟨n, hn⟩ := exists_normalizeAngle x
  rw [hn, Real.cos_sub_int_mul_two_pi]

theorem sin_normalizeAngle (x : ℝ) : Real.sin (normalizeAngle x) = Real.sin x := by
  obtain ⟨n, hn⟩ := exists_normalizeAngle x
  rw [hn, Real.sin_sub_int_mul_two_pi]

namespace Point

variable {u v v0 v1 : Point ℝ}

theorem length_eq (u : Point ℝ) : u.length = Real.sqrt (u.dot u) := by
  show Real.sqrt (u.x ^ 2 + u.y ^ 2) = Real.sqrt (u.x * u.x + u.y * u.y)
  rw [sq, sq]

theorem normalize?_eq_some_iff : u.normalize? = some v ↔ u.length ≠ 0 ∧ v = u.scale (1 / u.length) := by
  unfold normalize?
  dsimp only
  split
  · rename_i h
    have hzero : u.length = 0 := by simpa [Analysis.isFinite] using h
    simp [hzero]
  · rename_i h
    have hne : u.length ≠ 0 := by simpa [Analysis.isFinite] using h
    simp [hne, eq_comm]

theorem length_mul_self (u : Point ℝ) : u.length * u.length = u.dot u := by
  rw [length_eq]
  exact Real.mul_self_sqrt (add_nonneg (mul_self_nonneg u.x) (mul_self_nonneg u.y))

theorem dot_self_of_normalize? (h : u.normalize? = some v) : v.dot v = 1 := by
  obtain ⟨hne, rfl⟩ := normalize?_eq_some_iff.mp h
  have hlength : u.length * u.length = u.x * u.x + u.y * u.y := length_mul_self u
  show u.x * (1 / u.length) * (u.x * (1 / u.length)) + u.y * (1 / u.length) * (u.y * (1 / u.length)) = 1
  field_simp
  linarith

theorem cos_angle (h : v.dot v = 1) : Real.cos v.angle = v.x ∧ Real.sin v.angle = v.y := by
  have hnorm : ‖(⟨v.x, v.y⟩ : ℂ)‖ = 1 := by
    rw [Complex.norm_eq_sqrt_sq_add_sq, sq, sq]
    exact (congrArg Real.sqrt h).trans Real.sqrt_one
  have hne : (⟨v.x, v.y⟩ : ℂ) ≠ 0 := norm_ne_zero_iff.mp (by rw [hnorm]; exact one_ne_zero)
  constructor
  · exact (Complex.cos_arg hne).trans (by rw [hnorm, div_one])
  · exact (Complex.sin_arg _).trans (by rw [hnorm, div_one])

/-- The angle from one direction to another. -/
noncomputable def turn (v0 v1 : Point ℝ) : ℝ :=
  normalizeAngle (v1.angle - v0.angle)

theorem cos_turn (h0 : v0.dot v0 = 1) (h1 : v1.dot v1 = 1) : Real.cos (v0.turn v1) = v0.dot v1 := by
  rw [turn, cos_normalizeAngle, Real.cos_sub, (cos_angle h0).1, (cos_angle h0).2, (cos_angle h1).1, (cos_angle h1).2, dot]
  ring

theorem sin_turn (h0 : v0.dot v0 = 1) (h1 : v1.dot v1 = 1) : Real.sin (v0.turn v1) = v0.cross v1 := by
  rw [turn, sin_normalizeAngle, Real.sin_sub, (cos_angle h0).1, (cos_angle h0).2, (cos_angle h1).1, (cos_angle h1).2, cross]
  ring

theorem dot_sq_add_cross_sq (h0 : v0.dot v0 = 1) (h1 : v1.dot v1 = 1) : v0.dot v1 ^ 2 + v0.cross v1 ^ 2 = 1 := by
  rw [← cos_turn h0 h1, ← sin_turn h0 h1]
  exact Real.cos_sq_add_sin_sq _

/-- A turn goes to the right when its sine is negative. -/
theorem turn_neg_iff (h0 : v0.dot v0 = 1) (h1 : v1.dot v1 = 1) (hw : v0.cross v1 ≠ 0) :
    v0.turn v1 < 0 ↔ v0.cross v1 < 0 := by
  have hrange := abs_le.mp (abs_normalizeAngle_le (v1.angle - v0.angle))
  rw [← turn] at hrange
  rw [← sin_turn h0 h1] at hw ⊢
  constructor
  · intro h
    exact lt_of_le_of_ne (Real.sin_nonpos_of_nonpos_of_neg_pi_le h.le hrange.1) hw
  · intro h
    by_contra hturn
    exact absurd (Real.sin_nonneg_of_nonneg_of_le_pi (not_lt.mp hturn) hrange.2) (not_le.mpr h)

theorem tan_half_turn (h0 : v0.dot v0 = 1) (h1 : v1.dot v1 = 1) (hw : v0.cross v1 ≠ 0) :
    Real.tan (|v0.turn v1| / 2) = |v0.cross v1| / (1 + v0.dot v1) := by
  have hcos : Real.cos |v0.turn v1| = v0.dot v1 := by
    rw [Real.cos_abs, cos_turn h0 h1]
  have hsin : Real.sin |v0.turn v1| = |v0.cross v1| := by
    rw [← sin_turn h0 h1]
    exact (Real.abs_sin_eq_sin_abs_of_abs_le_pi (abs_normalizeAngle_le _)).symm
  have hdouble : |v0.turn v1| = 2 * (|v0.turn v1| / 2) := by ring
  have hpos : Real.cos (|v0.turn v1| / 2) ≠ 0 := by
    intro hzero
    apply abs_ne_zero.mpr hw
    rw [← hsin, hdouble, Real.sin_two_mul, hzero, mul_zero]
  rw [← hsin, ← hcos]
  nth_rewrite 2 [hdouble]
  nth_rewrite 3 [hdouble]
  rw [Real.sin_two_mul, Real.cos_two_mul, Real.tan_eq_sin_div_cos]
  field_simp
  ring

end Point

/-! ## The arc of a corner -/

namespace Fillet

/-- How far from the corner the arc begins and ends. -/
noncomputable def trim (v0 v1 : Point ℝ) (radius : ℝ) : ℝ :=
  radius * (1 + v0.dot v1) / |v0.cross v1|

noncomputable def halfChord (v0 v1 : Point ℝ) (radius : ℝ) : ℝ :=
  trim v0 v1 radius * Real.sqrt ((1 + v0.dot v1) / 2)

/-- How far the arc bends away from its chord. -/
noncomputable def sagitta (radius half : ℝ) : ℝ :=
  radius - Real.sqrt (radius * radius - half * half)

/-- The arc at `b` between sides with the directions `v0` and `v1`, without trigonometry. -/
noncomputable def between (b v0 v1 : Point ℝ) (radius : ℝ) : Fillet ℝ where
  start := b.sub (v0.scale (trim v0 v1 radius))
  stop := b.add (v1.scale (trim v0 v1 radius))
  bulge := (if v0.cross v1 < 0 then -1 else 1) * (sagitta radius (halfChord v0 v1 radius) / halfChord v0 v1 radius)

variable {a b c v0 v1 : Point ℝ} {radius : ℝ} {f : Fillet ℝ}

theorem one_add_dot_pos (h0 : v0.dot v0 = 1) (h1 : v1.dot v1 = 1) (hw : v0.cross v1 ≠ 0) :
    0 < 1 + v0.dot v1 ∧ 0 < 1 - v0.dot v1 := by
  have hsquares := Point.dot_sq_add_cross_sq h0 h1
  have hpos : 0 < v0.cross v1 ^ 2 := by positivity
  constructor <;> nlinarith

theorem cross_ne_zero (h : 1e-9 ≤ |v0.cross v1|) : v0.cross v1 ≠ 0 := by
  intro hzero
  rw [hzero, abs_zero] at h
  norm_num at h

theorem trim_pos (h0 : v0.dot v0 = 1) (h1 : v1.dot v1 = 1) (hw : v0.cross v1 ≠ 0) (hr : 0 < radius) :
    0 < trim v0 v1 radius :=
  div_pos (mul_pos hr (one_add_dot_pos h0 h1 hw).1) (abs_pos.mpr hw)

/-- The trim distance is the radius over the tangent of half the turn. -/
theorem trim_eq (h0 : v0.dot v0 = 1) (h1 : v1.dot v1 = 1) (hw : v0.cross v1 ≠ 0) (hr : 0 < radius) :
    trim v0 v1 radius = |radius / Real.tan (|v0.turn v1| / 2)| := by
  rw [Point.tan_half_turn h0 h1 hw, div_div_eq_mul_div]
  exact (abs_of_pos (trim_pos h0 h1 hw hr)).symm

theorem distance_between (h0 : v0.dot v0 = 1) (h1 : v1.dot v1 = 1) (hw : v0.cross v1 ≠ 0) (hr : 0 < radius) :
    (between b v0 v1 radius).start.distance (between b v0 v1 radius).stop / 2 = halfChord v0 v1 radius := by
  have htrim := trim_pos h0 h1 hw hr
  have hchord : ((between b v0 v1 radius).start.sub (between b v0 v1 radius).stop).dot
      ((between b v0 v1 radius).start.sub (between b v0 v1 radius).stop) =
        (2 * trim v0 v1 radius) ^ 2 * ((1 + v0.dot v1) / 2) := by
    simp only [Point.dot] at h0 h1
    simp only [between, Point.sub, Point.add, Point.scale, Point.dot]
    linear_combination trim v0 v1 radius ^ 2 * (h0 + h1)
  rw [Point.distance, Point.length_eq, hchord, Real.sqrt_mul (sq_nonneg _), Real.sqrt_sq (by positivity), halfChord]
  ring

/-- What the formulas give for two sides with directions. -/
theorem corner_of_directions (hr : 0 < radius) (hv0 : (b.sub a).normalize? = some v0)
    (hv1 : (c.sub b).normalize? = some v1) :
    corner a b c radius =
      if |v0.cross v1| < 1e-9 then .error .collinear
      else if radius < halfChord v0 v1 radius then .error (.shallow radius |v0.turn v1|)
      else .ok (between b v0 v1 radius) := by
  have h0 := Point.dot_self_of_normalize? hv0
  have h1 := Point.dot_self_of_normalize? hv1
  have hsine : Analysis.abs (Analysis.sin (normalizeAngle (v1.angle - v0.angle))) = |v0.cross v1| :=
    congrArg abs (Point.sin_turn h0 h1)
  rw [corner, if_neg (by simp [hr, Analysis.isFinite]), hv0, hv1]
  simp only [hsine, collinearTolerance]
  split
  · rfl
  · rename_i hw
    have hw := cross_ne_zero (not_lt.mp hw)
    have htrim : Analysis.abs (radius / Analysis.tan (Analysis.abs (normalizeAngle (v1.angle - v0.angle)) / 2)) =
        trim v0 v1 radius := (trim_eq h0 h1 hw hr).symm
    have hhalf : (b.sub (v0.scale (trim v0 v1 radius))).distance (b.add (v1.scale (trim v0 v1 radius))) / 2 =
        halfChord v0 v1 radius := distance_between h0 h1 hw hr
    have hside : (if normalizeAngle (v1.angle - v0.angle) < 0 then (-1 : ℝ) else 1) =
        if v0.cross v1 < 0 then -1 else 1 := by
      by_cases hneg : v0.cross v1 < 0
      · rw [if_pos hneg]
        exact if_pos ((Point.turn_neg_iff h0 h1 hw).mpr hneg)
      · rw [if_neg hneg]
        exact if_neg (mt (Point.turn_neg_iff h0 h1 hw).mp hneg)
    simp only [htrim, hhalf, hside]
    rfl

/-- Which corners are rounded, and how. -/
theorem corner_eq_ok_iff :
    corner a b c radius = .ok f ↔ 0 < radius ∧ ∃ v0 v1, (b.sub a).normalize? = some v0 ∧
      (c.sub b).normalize? = some v1 ∧ 1e-9 ≤ |v0.cross v1| ∧ halfChord v0 v1 radius ≤ radius ∧
      f = between b v0 v1 radius := by
  constructor
  · intro h
    have hr : 0 < radius := by
      by_contra hr
      rw [corner, if_pos (.inl hr)] at h
      cases h
    obtain ⟨v0, hv0⟩ : ∃ v0, (b.sub a).normalize? = some v0 := by
      cases hv0 : (b.sub a).normalize? with
      | some v0 => exact ⟨v0, rfl⟩
      | none =>
        rw [corner, hv0] at h
        split at h <;> cases h
    obtain ⟨v1, hv1⟩ : ∃ v1, (c.sub b).normalize? = some v1 := by
      cases hv1 : (c.sub b).normalize? with
      | some v1 => exact ⟨v1, rfl⟩
      | none =>
        rw [corner, hv0, hv1] at h
        split at h <;> cases h
    rw [corner_of_directions hr hv0 hv1] at h
    split at h
    · cases h
    · rename_i hw
      split at h
      · cases h
      · rename_i hlong
        exact ⟨hr, v0, v1, hv0, hv1, not_lt.mp hw, not_lt.mp hlong, (Except.ok.inj h).symm⟩
  · rintro ⟨hr, v0, v1, hv0, hv1, hw, hlong, rfl⟩
    rw [corner_of_directions hr hv0 hv1, if_neg (not_lt.mpr hw), if_neg (not_lt.mpr hlong)]

/-! ## Circle and tangents -/

/-- The center of the circle that the arc is a part of. -/
noncomputable def center (f : Fillet ℝ) : Point ℝ :=
  (f.start.midpoint f.stop).add ((f.stop.sub f.start).leftNormal.scale ((1 - f.bulge ^ 2) / (4 * f.bulge)))

/-- The arc touches lines with the directions `v0` and `v1` at its ends: there the radius stands
    at a right angle to them. -/
def TangentTo (f : Fillet ℝ) (v0 v1 : Point ℝ) : Prop :=
  (f.start.sub f.center).dot v0 = 0 ∧ (f.stop.sub f.center).dot v1 = 0

section Sagitta

variable {half : ℝ} (hpos : 0 < half) (hle : half ≤ radius)
include hpos hle

theorem sqrt_mul_self_of_le :
    Real.sqrt (radius * radius - half * half) * Real.sqrt (radius * radius - half * half) =
      radius * radius - half * half :=
  Real.mul_self_sqrt (by nlinarith)

theorem sagitta_pos : 0 < sagitta radius half := by
  have hsqrt := sqrt_mul_self_of_le hpos hle
  have hroot := Real.sqrt_nonneg (radius * radius - half * half)
  rw [sagitta]
  nlinarith

/-- The circle through the ends of the chord and the top of the arc has the radius. -/
theorem radius_of_sagitta :
    half ^ 2 + sagitta radius half ^ 2 = 2 * radius * sagitta radius half := by
  have hsqrt := sqrt_mul_self_of_le hpos hle
  rw [sagitta]
  linear_combination hsqrt

/-- The center is below the chord by what the radius has more than the sagitta. -/
theorem depth_of_sagitta :
    half ^ 2 - sagitta radius half ^ 2 =
      2 * Real.sqrt (radius * radius - half * half) * sagitta radius half := by
  have hsqrt := sqrt_mul_self_of_le hpos hle
  rw [sagitta]
  linear_combination hsqrt

end Sagitta

theorem offset_mul (hbulge : f.bulge ≠ 0) :
    (1 - f.bulge ^ 2) / (4 * f.bulge) * (4 * f.bulge) = 1 - f.bulge ^ 2 :=
  div_mul_cancel₀ _ (mul_ne_zero four_ne_zero hbulge)

section Ends

variable {t : ℝ} (hstart : f.start = b.sub (v0.scale t)) (hstop : f.stop = b.add (v1.scale t)) (hbulge : f.bulge ≠ 0)
include hstart hstop hbulge

theorem start_sub_center_dot (h0 : v0.dot v0 = 1) :
    (f.start.sub f.center).dot v0 * (4 * f.bulge) =
      t * ((1 - f.bulge ^ 2) * v0.cross v1 - 2 * f.bulge * (1 + v0.dot v1)) := by
  have hoffset := offset_mul hbulge
  simp only [Point.dot] at h0
  rw [center, hstart, hstop]
  simp only [Point.sub, Point.add, Point.scale, Point.midpoint, Point.leftNormal, Point.dot, Point.cross]
  linear_combination t * (v0.x * v1.y - v0.y * v1.x) * hoffset - 2 * t * f.bulge * h0

theorem stop_sub_center_dot (h1 : v1.dot v1 = 1) :
    (f.stop.sub f.center).dot v1 * (4 * f.bulge) =
      -(t * ((1 - f.bulge ^ 2) * v0.cross v1 - 2 * f.bulge * (1 + v0.dot v1))) := by
  have hoffset := offset_mul hbulge
  simp only [Point.dot] at h1
  rw [center, hstart, hstop]
  simp only [Point.sub, Point.add, Point.scale, Point.midpoint, Point.leftNormal, Point.dot, Point.cross]
  linear_combination -(t * (v0.x * v1.y - v0.y * v1.x)) * hoffset + 2 * t * f.bulge * h1

theorem center_dot_self (h0 : v0.dot v0 = 1) (h1 : v1.dot v1 = 1) :
    (f.start.sub f.center).dot (f.start.sub f.center) * (4 * f.bulge) ^ 2 =
        2 * t ^ 2 * (1 + v0.dot v1) * (1 + f.bulge ^ 2) ^ 2 ∧
      (f.stop.sub f.center).dot (f.stop.sub f.center) * (4 * f.bulge) ^ 2 =
        2 * t ^ 2 * (1 + v0.dot v1) * (1 + f.bulge ^ 2) ^ 2 := by
  have hoffset := offset_mul hbulge
  simp only [Point.dot] at h0 h1
  rw [center, hstart, hstop]
  simp only [Point.sub, Point.add, Point.scale, Point.midpoint, Point.leftNormal, Point.dot]
  generalize (1 - f.bulge ^ 2) / (4 * f.bulge) = offset at *
  constructor <;>
    linear_combination t ^ 2 * ((v0.x + v1.x) ^ 2 + (v0.y + v1.y) ^ 2) * (offset * (4 * f.bulge) + 1 - f.bulge ^ 2) * hoffset +
      t ^ 2 * (1 + f.bulge ^ 2) ^ 2 * (h0 + h1)

/-- Both ends are touched or none is. -/
theorem tangentTo_iff_bulge (h0 : v0.dot v0 = 1) (h1 : v1.dot v1 = 1) (ht : t ≠ 0) :
    f.TangentTo v0 v1 ↔ (1 - f.bulge ^ 2) * v0.cross v1 - 2 * f.bulge * (1 + v0.dot v1) = 0 := by
  have hfour : 4 * f.bulge ≠ 0 := mul_ne_zero four_ne_zero hbulge
  have hfirst := start_sub_center_dot hstart hstop hbulge h0
  have hsecond := stop_sub_center_dot hstart hstop hbulge h1
  rw [TangentTo]
  constructor
  · rintro ⟨h, -⟩
    rw [h, zero_mul] at hfirst
    exact (mul_eq_zero.mp hfirst.symm).resolve_left ht
  · intro h
    rw [h, mul_zero] at hfirst
    rw [h, mul_zero, neg_zero] at hsecond
    exact ⟨(mul_eq_zero.mp hfirst).resolve_right hfour, (mul_eq_zero.mp hsecond).resolve_right hfour⟩

end Ends

section Arc

variable (h0 : v0.dot v0 = 1) (h1 : v1.dot v1 = 1) (hw : v0.cross v1 ≠ 0)
include h0 h1 hw

/-- The distance from the corner to the arc is the cotangent of half the turn, times the radius. -/
theorem trim_sq (radius : ℝ) : trim v0 v1 radius ^ 2 * (1 - v0.dot v1) = radius ^ 2 * (1 + v0.dot v1) := by
  have hsquares := Point.dot_sq_add_cross_sq h0 h1
  have hne : v0.cross v1 ^ 2 ≠ 0 := pow_ne_zero 2 hw
  rw [trim, div_pow, mul_pow, sq_abs]
  field_simp
  linear_combination -(radius ^ 2 * (1 + v0.dot v1)) * hsquares

theorem halfChord_sq (radius : ℝ) : 2 * halfChord v0 v1 radius ^ 2 = trim v0 v1 radius ^ 2 * (1 + v0.dot v1) := by
  have hnonneg : 0 ≤ (1 + v0.dot v1) / 2 := (half_pos (one_add_dot_pos h0 h1 hw).1).le
  rw [halfChord, mul_pow, Real.sq_sqrt hnonneg]
  ring

variable (hr : 0 < radius)
include hr

theorem halfChord_pos : 0 < halfChord v0 v1 radius :=
  mul_pos (trim_pos h0 h1 hw hr) (Real.sqrt_pos.mpr (half_pos (one_add_dot_pos h0 h1 hw).1))

variable (hlong : halfChord v0 v1 radius ≤ radius)
include hlong

theorem bulge_between_ne_zero (b : Point ℝ) : (between b v0 v1 radius).bulge ≠ 0 := by
  have hhalf := halfChord_pos h0 h1 hw hr
  refine mul_ne_zero ?_ (div_pos (sagitta_pos hhalf hlong) hhalf).ne'
  split <;> norm_num

/-- The arc bends to the left when the corner does. -/
theorem bulge_between_pos_iff (b : Point ℝ) : 0 < (between b v0 v1 radius).bulge ↔ 0 < v0.turn v1 := by
  have hhalf := halfChord_pos h0 h1 hw hr
  have hratio := div_pos (sagitta_pos hhalf hlong) hhalf
  have hturn : v0.turn v1 ≠ 0 := by
    intro hzero
    rw [← Point.sin_turn h0 h1, hzero, Real.sin_zero] at hw
    exact hw rfl
  rw [lt_iff_not_ge, lt_iff_not_ge, le_iff_lt_or_eq, le_iff_lt_or_eq, Point.turn_neg_iff h0 h1 hw]
  by_cases hneg : v0.cross v1 < 0
  · simp [between, hneg, hratio]
  · simp [between, hneg, hturn, hratio.le, hratio.ne']

/-- The arc touches the sides if the depth of its center fits the turn. -/
theorem tangentTo_between_iff (b : Point ℝ) : (between b v0 v1 radius).TangentTo v0 v1 ↔
    Real.sqrt (radius * radius - halfChord v0 v1 radius * halfChord v0 v1 radius) * |v0.cross v1| =
      halfChord v0 v1 radius * (1 + v0.dot v1) := by
  have hhalf := halfChord_pos h0 h1 hw hr
  have hsagitta := sagitta_pos hhalf hlong
  have hdepth := depth_of_sagitta hhalf hlong
  rw [tangentTo_iff_bulge rfl rfl (bulge_between_ne_zero h0 h1 hw hr hlong b) h0 h1 (trim_pos h0 h1 hw hr).ne']
  obtain ⟨side, hside, hsquare, habs⟩ : ∃ side : ℝ, (if v0.cross v1 < 0 then -1 else 1) = side ∧ side ^ 2 = 1 ∧
      |v0.cross v1| = side * v0.cross v1 := by
    by_cases hneg : v0.cross v1 < 0
    · exact ⟨-1, if_pos hneg, by norm_num, by rw [abs_of_neg hneg]; ring⟩
    · exact ⟨1, if_neg hneg, by norm_num, by rw [abs_of_nonneg (not_lt.mp hneg)]; ring⟩
  simp only [between, hside, habs]
  generalize halfChord v0 v1 radius = half at *
  generalize sagitta radius half = high at *
  generalize Real.sqrt (radius * radius - half * half) = depth at *
  have hratio : high / half * half = high := div_mul_cancel₀ _ hhalf.ne'
  generalize high / half = ratio at *
  -- The condition on the bulge and the one on the depth differ by a factor that is not 0.
  have hkey : ((1 - (side * ratio) ^ 2) * v0.cross v1 - 2 * (side * ratio) * (1 + v0.dot v1)) * half ^ 2 =
      2 * side * high * (depth * (side * v0.cross v1) - half * (1 + v0.dot v1)) := by
    linear_combination (-side ^ 2 * v0.cross v1 * (ratio * half + high) - 2 * side * half * (1 + v0.dot v1)) * hratio -
      (high ^ 2 + 2 * depth * high) * v0.cross v1 * hsquare + v0.cross v1 * hdepth
  have hside : side ≠ 0 := by
    rintro rfl
    norm_num at hsquare
  have hfactor : 2 * side * high ≠ 0 := mul_ne_zero (mul_ne_zero two_ne_zero hside) hsagitta.ne'
  constructor
  · intro h
    rw [h, zero_mul] at hkey
    exact sub_eq_zero.mp ((mul_eq_zero.mp hkey.symm).resolve_left hfactor)
  · intro h
    rw [sub_eq_zero.mpr h, mul_zero] at hkey
    exact (mul_eq_zero.mp hkey).resolve_right (pow_ne_zero 2 hhalf.ne')

/-- The arc touches the sides exactly if it begins where tangents of the circle do. -/
theorem tangentTo_between_iff_trim (b : Point ℝ) : (between b v0 v1 radius).TangentTo v0 v1 ↔
    trim v0 v1 radius ^ 2 * (1 + v0.dot v1) = radius ^ 2 * (1 - v0.dot v1) := by
  have hhalf := halfChord_pos h0 h1 hw hr
  have hroot := sqrt_mul_self_of_le hhalf hlong
  have hsquares := Point.dot_sq_add_cross_sq h0 h1
  have hsum := (one_add_dot_pos h0 h1 hw).1
  rw [tangentTo_between_iff h0 h1 hw hr hlong b, ← halfChord_sq h0 h1 hw radius]
  have hleft : 0 ≤ Real.sqrt (radius * radius - halfChord v0 v1 radius * halfChord v0 v1 radius) * |v0.cross v1| :=
    mul_nonneg (Real.sqrt_nonneg _) (abs_nonneg _)
  have hright : 0 ≤ halfChord v0 v1 radius * (1 + v0.dot v1) := (mul_pos hhalf hsum).le
  rw [← sq_eq_sq₀ hleft hright, mul_pow, sq_abs]
  generalize halfChord v0 v1 radius = half at *
  constructor
  · intro h
    apply mul_left_cancel₀ hsum.ne'
    linear_combination -h + v0.cross v1 ^ 2 * hroot + (radius ^ 2 - half ^ 2) * hsquares
  · intro h
    linear_combination v0.cross v1 ^ 2 * hroot + (radius ^ 2 - half ^ 2) * hsquares - (1 + v0.dot v1) * h

/-- The arc is a part of a circle with the radius. -/
theorem distance_center_between (b : Point ℝ) :
    (between b v0 v1 radius).start.distance (between b v0 v1 radius).center = radius ∧
      (between b v0 v1 radius).stop.distance (between b v0 v1 radius).center = radius := by
  have hhalf := halfChord_pos h0 h1 hw hr
  have hsagitta := sagitta_pos hhalf hlong
  have hround := radius_of_sagitta hhalf hlong
  have hchord := halfChord_sq h0 h1 hw radius
  have hbulge : (between b v0 v1 radius).bulge ^ 2 * halfChord v0 v1 radius ^ 2 =
      sagitta radius (halfChord v0 v1 radius) ^ 2 := by
    have hne := hhalf.ne'
    simp only [between]
    split <;> field_simp
  obtain ⟨hstart, hstop⟩ := center_dot_self rfl rfl (bulge_between_ne_zero h0 h1 hw hr hlong b) h0 h1
  generalize (between b v0 v1 radius).bulge = bulge at *
  generalize halfChord v0 v1 radius = half at *
  generalize sagitta radius half = high at *
  have hdistance {p : Point ℝ} (hp : (p.sub (between b v0 v1 radius).center).dot (p.sub (between b v0 v1 radius).center) *
      (4 * bulge) ^ 2 = 2 * trim v0 v1 radius ^ 2 * (1 + v0.dot v1) * (1 + bulge ^ 2) ^ 2) :
      p.distance (between b v0 v1 radius).center = radius := by
    rw [Point.distance, Point.length_eq, Real.sqrt_eq_iff_mul_self_eq_of_pos hr]
    generalize (p.sub (between b v0 v1 radius).center).dot (p.sub (between b v0 v1 radius).center) = squared at *
    apply mul_right_cancel₀ (mul_ne_zero (pow_ne_zero 2 hsagitta.ne') (by norm_num : (16 : ℝ) ≠ 0))
    linear_combination (16 * squared - 4 * (2 * half ^ 2 + bulge ^ 2 * half ^ 2 + high ^ 2)) * hbulge - half ^ 2 * hp +
      2 * half ^ 2 * (1 + bulge ^ 2) ^ 2 * hchord - 4 * (half ^ 2 + high ^ 2 + 2 * radius * high) * hround
  exact ⟨hdistance hstart, hdistance hstop⟩

omit hr hlong in
/-- At the trim distance the tangents of the circle begin only if the corner is a right angle. -/
theorem trim_tangent_iff (hr : radius ≠ 0) :
    trim v0 v1 radius ^ 2 * (1 + v0.dot v1) = radius ^ 2 * (1 - v0.dot v1) ↔ v0.dot v1 = 0 := by
  have htrim := trim_sq h0 h1 hw radius
  constructor
  · intro h
    have hzero : radius ^ 2 * (4 * v0.dot v1) = 0 := by
      linear_combination (1 - v0.dot v1) * h - (1 + v0.dot v1) * htrim
    have := (mul_eq_zero.mp hzero).resolve_left (pow_ne_zero 2 hr)
    linarith
  · intro h
    rw [h] at htrim ⊢
    linarith

end Arc

/-- The arc that rounds a corner at `b` with the side directions `v0` and `v1`, from the distance
    `t` before the corner to the distance `t` behind it. -/
structure Rounds (b v0 v1 : Point ℝ) (radius t : ℝ) (f : Fillet ℝ) : Prop where
  positive : 0 < t
  /-- The trim distance is the radius over the tangent of half the turn. -/
  trim : t = |radius / Real.tan (|v0.turn v1| / 2)|
  start : f.start = b.sub (v0.scale t)
  stop : f.stop = b.add (v1.scale t)
  circle : f.start.distance f.center = radius ∧ f.stop.distance f.center = radius
  /-- The arc bends to the left when the corner does. -/
  side : f.bulge ≠ 0 ∧ (0 < f.bulge ↔ 0 < v0.turn v1)
  /-- The trim distance by the cosine of the turn. -/
  distance : t ^ 2 * (1 - v0.dot v1) = radius ^ 2 * (1 + v0.dot v1)
  /-- The arc touches the sides where tangents from the corner would touch its circle. -/
  tangent : f.TangentTo v0 v1 ↔ t ^ 2 * (1 + v0.dot v1) = radius ^ 2 * (1 - v0.dot v1)
  /-- That is so at right angles only. -/
  rightAngle : f.TangentTo v0 v1 ↔ v0.dot v1 = 0

/-- Every corner that is accepted is rounded by the trim formula. -/
theorem corner_rounds (h : corner a b c radius = .ok f) :
    ∃ v0 v1 t, (b.sub a).normalize? = some v0 ∧ (c.sub b).normalize? = some v1 ∧ f.Rounds b v0 v1 radius t := by
  obtain ⟨hr, v0, v1, hv0, hv1, hsine, hlong, rfl⟩ := corner_eq_ok_iff.mp h
  have h0 := Point.dot_self_of_normalize? hv0
  have h1 := Point.dot_self_of_normalize? hv1
  have hw := cross_ne_zero hsine
  have htangent := tangentTo_between_iff_trim h0 h1 hw hr hlong b
  refine ⟨v0, v1, Fillet.trim v0 v1 radius, hv0, hv1, ?_⟩
  exact {
    positive := trim_pos h0 h1 hw hr
    trim := trim_eq h0 h1 hw hr
    start := rfl
    stop := rfl
    circle := distance_center_between h0 h1 hw hr hlong b
    side := ⟨bulge_between_ne_zero h0 h1 hw hr hlong b, bulge_between_pos_iff h0 h1 hw hr hlong b⟩
    distance := trim_sq h0 h1 hw radius
    tangent := htangent
    rightAngle := htangent.trans (trim_tangent_iff h0 h1 hw hr.ne') }

/-! ### A turn by more than a right angle -/

theorem normalize?_of_length {u : Point ℝ} {length : ℝ} (hpos : 0 < length) (h : u.dot u = length * length) :
    u.normalize? = some (u.scale (1 / length)) := by
  have hlength : u.length = length := by
    rw [Point.length_eq, h, Real.sqrt_mul_self hpos.le]
  rw [Point.normalize?_eq_some_iff, hlength]
  exact ⟨hpos.ne', rfl⟩

/-- The sides lie along `(1, 0)` and `(-3/5, 4/5)`, and the arc begins at distance 1. -/
theorem corner_sharp :
    (Point.sub ⟨10, 0⟩ ⟨0, 0⟩ : Point ℝ).normalize? = some ⟨1, 0⟩ ∧
      (Point.sub ⟨7, 4⟩ ⟨10, 0⟩ : Point ℝ).normalize? = some ⟨-3 / 5, 4 / 5⟩ ∧
      trim ⟨1, 0⟩ ⟨-3 / 5, 4 / 5⟩ 2 = 1 ∧ halfChord ⟨1, 0⟩ ⟨-3 / 5, 4 / 5⟩ 2 ≤ 2 ∧
      corner ⟨0, 0⟩ ⟨10, 0⟩ ⟨7, 4⟩ (2 : ℝ) = .ok (between ⟨10, 0⟩ ⟨1, 0⟩ ⟨-3 / 5, 4 / 5⟩ 2) := by
  have hfirst : (Point.sub ⟨10, 0⟩ ⟨0, 0⟩ : Point ℝ).normalize? = some ⟨1, 0⟩ := by
    rw [normalize?_of_length (by norm_num : (0 : ℝ) < 10) (by norm_num [Point.sub, Point.dot])]
    norm_num [Point.sub, Point.scale]
  have hsecond : (Point.sub ⟨7, 4⟩ ⟨10, 0⟩ : Point ℝ).normalize? = some ⟨-3 / 5, 4 / 5⟩ := by
    rw [normalize?_of_length (by norm_num : (0 : ℝ) < 5) (by norm_num [Point.sub, Point.dot])]
    norm_num [Point.sub, Point.scale]
  have htrim : trim ⟨1, 0⟩ ⟨-3 / 5, 4 / 5⟩ 2 = 1 := by
    norm_num [trim, Point.dot, Point.cross]
  have hlong : halfChord ⟨1, 0⟩ ⟨-3 / 5, 4 / 5⟩ 2 ≤ 2 := by
    rw [halfChord, htrim, one_mul, Real.sqrt_le_left (by norm_num)]
    norm_num [Point.dot]
  refine ⟨hfirst, hsecond, htrim, hlong, corner_eq_ok_iff.mpr ⟨by norm_num, _, _, hfirst, hsecond, ?_, hlong, rfl⟩⟩
  norm_num [Point.cross]

theorem corner_rounds_sharp :
    ∃ f, corner ⟨0, 0⟩ ⟨10, 0⟩ ⟨7, 4⟩ (2 : ℝ) = .ok f ∧ ∃ v0 v1 t,
      (Point.sub ⟨10, 0⟩ ⟨0, 0⟩).normalize? = some v0 ∧ (Point.sub ⟨7, 4⟩ ⟨10, 0⟩).normalize? = some v1 ∧
        f.Rounds ⟨10, 0⟩ v0 v1 2 t := by
  obtain ⟨-, -, -, -, hcorner⟩ := corner_sharp
  exact ⟨_, hcorner, corner_rounds hcorner⟩

/-- The trim formula is not the one of a tangent arc: this corner is rounded from distance 1 on, and
    the tangents of its circle begin at distance 4, so the arc meets the sides at an angle. -/
theorem sharp_corner_not_tangent :
    let v0 : Point ℝ := ⟨1, 0⟩
    let v1 : Point ℝ := ⟨-3 / 5, 4 / 5⟩
    ∃ f, corner ⟨0, 0⟩ ⟨10, 0⟩ ⟨7, 4⟩ (2 : ℝ) = .ok f ∧
      (Point.sub ⟨10, 0⟩ ⟨0, 0⟩).normalize? = some v0 ∧ (Point.sub ⟨7, 4⟩ ⟨10, 0⟩).normalize? = some v1 ∧
      f.start = Point.sub ⟨10, 0⟩ (v0.scale 1) ∧ f.stop = Point.add ⟨10, 0⟩ (v1.scale 1) ∧
      (1 : ℝ) ^ 2 * (1 + v0.dot v1) ≠ 2 ^ 2 * (1 - v0.dot v1) ∧ ¬ f.TangentTo v0 v1 := by
  intro v0 v1
  obtain ⟨hfirst, hsecond, htrim, hlong, hcorner⟩ := corner_sharp
  have hlaw : (1 : ℝ) ^ 2 * (1 + v0.dot v1) ≠ 2 ^ 2 * (1 - v0.dot v1) := by
    norm_num [v0, v1, Point.dot]
  have htangent := tangentTo_between_iff_trim (Point.dot_self_of_normalize? hfirst) (Point.dot_self_of_normalize? hsecond)
    (by norm_num [Point.cross]) (by norm_num) hlong ⟨10, 0⟩
  rw [htrim] at htangent
  exact ⟨_, hcorner, hfirst, hsecond, congrArg (fun t => Point.sub ⟨10, 0⟩ (v0.scale t)) htrim,
    congrArg (fun t => Point.add ⟨10, 0⟩ (v1.scale t)) htrim, hlaw, fun h => hlaw (htangent.mp h)⟩

end Fillet

end Sketchwork
