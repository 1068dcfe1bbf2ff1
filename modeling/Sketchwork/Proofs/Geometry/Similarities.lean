/-
  Sketchwork.Proofs.Geometry.Similarities — similarities over an exact field.

  The formulas of similarities are read here over a field without rounding. A similarity is the
  complex map `z ↦ m z + t`, and composing is multiplying the factors. Two points and their images
  determine it, as long as points that are apart have a squared distance other than 0
  (`Point.Definite`). In an ordered field they have (`Point.definite_of_ordered`); over the complex
  numbers, say, the vector `(1, i)` has the squared length 0.

  Proved: a similarity carries a segment onto another and stretches all squared distances by the
  same quotient (`exists_correspondence`), and no other carries both ends (`eq_of_apply_eq`); it is
  refused exactly for a segment of no length (`correspondence_eq_source_iff`,
  `correspondence_eq_destination_iff`). Composition is associative and is applied from the left
  (`apply_andThen`, `andThen_assoc`). `exact_laws` puts this together.
-/
import Mathlib.Algebra.Order.Field.Basic
import Mathlib.Tactic
import Sketchwork.Geometry.Similarity

namespace Sketchwork

attribute [ext] Point Similarity

/-! ## Points -/

namespace Point

variable {K : Type} [Field K]

def squaredDistance (p q : Point K) : K :=
  (q.sub p).dot (q.sub p)

/-- Only the zero vector has length 0. -/
def Definite (K : Type) [Field K] : Prop :=
  ∀ u : Point K, u.dot u = 0 → u = origin

theorem definite_of_ordered [LinearOrder K] [IsStrictOrderedRing K] : Definite K := by
  intro u hu
  have hsquares : u.x * u.x + u.y * u.y = 0 := hu
  have hx := mul_self_nonneg u.x
  have hy := mul_self_nonneg u.y
  exact Point.ext (mul_self_eq_zero.mp (by linarith)) (mul_self_eq_zero.mp (by linarith))

theorem sub_eq_origin_iff {p q : Point K} : q.sub p = origin ↔ p = q := by
  constructor
  · intro h
    have hx : q.x - p.x = 0 := congrArg Point.x h
    have hy : q.y - p.y = 0 := congrArg Point.y h
    exact Point.ext (sub_eq_zero.mp hx).symm (sub_eq_zero.mp hy).symm
  · rintro rfl
    exact Point.ext (sub_self _) (sub_self _)

theorem isZero_iff [BEq K] [LawfulBEq K] {u : Point K} : u.isZero = true ↔ u = origin := by
  rw [isZero, Bool.and_eq_true, beq_iff_eq, beq_iff_eq]
  constructor
  · rintro ⟨hx, hy⟩
    exact Point.ext hx hy
  · rintro rfl
    exact ⟨rfl, rfl⟩

theorem squaredDistance_ne_zero (hdefinite : Definite K) {p q : Point K} (h : p ≠ q) : squaredDistance p q ≠ 0 := by
  intro hzero
  exact h (sub_eq_origin_iff.mp (hdefinite _ hzero))

end Point

/-! ## Similarities -/

namespace Similarity

open Point (squaredDistance Definite)

variable {K : Type} [Field K]

/-! ### Composition -/

theorem apply_andThen (t next : Similarity K) (p : Point K) : (t.andThen next).apply p = next.apply (t.apply p) := by
  apply Point.ext <;> simp only [andThen, apply] <;> ring

theorem andThen_assoc (t u v : Similarity K) : (t.andThen u).andThen v = t.andThen (u.andThen v) := by
  apply Similarity.ext <;> simp only [andThen, apply] <;> ring

theorem identity_andThen (t : Similarity K) : identity.andThen t = t := by
  apply Similarity.ext <;> simp only [andThen, apply, identity] <;> ring

theorem andThen_identity (t : Similarity K) : t.andThen identity = t := by
  apply Similarity.ext <;> simp only [andThen, apply, identity] <;> ring

/-! ### Distances -/

/-- Squared distances grow by the squared length of the factor. -/
theorem squaredDistance_apply (t : Similarity K) (p q : Point K) :
    squaredDistance (t.apply p) (t.apply q) = (t.a * t.a + t.b * t.b) * squaredDistance p q := by
  simp only [squaredDistance, apply, Point.sub, Point.dot]
  ring

/-! ### Carrying points -/

theorem apply_carrying (a b : K) (source target : Point K) : (carrying a b source target).apply source = target := by
  apply Point.ext <;> simp only [carrying, apply] <;> ring

theorem apply_about (a b : K) (origin : Point K) : (about a b origin).apply origin = origin :=
  apply_carrying a b origin origin

/-- A similarity is determined by the images of two points that are apart. -/
theorem eq_of_apply_eq (hdefinite : Definite K) {t u : Similarity K} {p q : Point K} (h : p ≠ q)
    (hp : t.apply p = u.apply p) (hq : t.apply q = u.apply q) : t = u := by
  have hapart : squaredDistance p q ≠ 0 := Point.squaredDistance_ne_zero hdefinite h
  have hpx : t.a * p.x - t.b * p.y + t.tx = u.a * p.x - u.b * p.y + u.tx := congrArg Point.x hp
  have hpy : t.b * p.x + t.a * p.y + t.ty = u.b * p.x + u.a * p.y + u.ty := congrArg Point.y hp
  have hqx : t.a * q.x - t.b * q.y + t.tx = u.a * q.x - u.b * q.y + u.tx := congrArg Point.x hq
  have hqy : t.b * q.x + t.a * q.y + t.ty = u.b * q.x + u.a * q.y + u.ty := congrArg Point.y hq
  -- The difference of the factors takes the vector from `p` to `q` to zero.
  have ha : t.a = u.a := by
    apply mul_right_cancel₀ hapart
    simp only [squaredDistance, Point.sub, Point.dot]
    linear_combination (q.x - p.x) * (hqx - hpx) + (q.y - p.y) * (hqy - hpy)
  have hb : t.b = u.b := by
    apply mul_right_cancel₀ hapart
    simp only [squaredDistance, Point.sub, Point.dot]
    linear_combination (q.x - p.x) * (hqy - hpy) - (q.y - p.y) * (hqx - hpx)
  apply Similarity.ext ha hb
  · linear_combination hpx - p.x * ha + p.y * hb
  · linear_combination hpy - p.x * hb - p.y * ha

/-! ### From a segment onto another -/

section Correspondence

variable [BEq K] [LawfulBEq K] {s0 s1 d0 d1 : Point K}

theorem correspondence_of_apart (hs : s0 ≠ s1) (hd : d0 ≠ d1) :
    correspondence s0 s1 d0 d1 =
      .ok (carrying ((d1.sub d0).dot (s1.sub s0) / squaredDistance s0 s1)
        ((s1.sub s0).cross (d1.sub d0) / squaredDistance s0 s1) s0 d0) := by
  have hsource : (s1.sub s0).isZero = false :=
    Bool.eq_false_iff.mpr fun h => hs (Point.sub_eq_origin_iff.mp (Point.isZero_iff.mp h))
  have hdestination : (d1.sub d0).isZero = false :=
    Bool.eq_false_iff.mpr fun h => hd (Point.sub_eq_origin_iff.mp (Point.isZero_iff.mp h))
  simp only [correspondence, hsource, hdestination, Bool.false_eq_true, if_false]
  rfl

theorem correspondence_eq_source_iff : correspondence s0 s1 d0 d1 = .error .source ↔ s0 = s1 := by
  unfold correspondence
  dsimp only
  rw [← Point.sub_eq_origin_iff, ← Point.isZero_iff]
  split
  · simp [*]
  · split <;> simp [*]

theorem correspondence_eq_destination_iff :
    correspondence s0 s1 d0 d1 = .error .destination ↔ s0 ≠ s1 ∧ d0 = d1 := by
  unfold correspondence
  dsimp only
  rw [Ne, ← Point.sub_eq_origin_iff, ← Point.isZero_iff, ← Point.sub_eq_origin_iff, ← Point.isZero_iff]
  split
  · simp [*]
  · split <;> simp [*]

/-- `t` carries the first segment onto the second and stretches all squared distances alike. -/
structure Carries (s0 s1 d0 d1 : Point K) (t : Similarity K) : Prop where
  first : t.apply s0 = d0
  second : t.apply s1 = d1
  stretch (p q : Point K) :
    squaredDistance (t.apply p) (t.apply q) = squaredDistance d0 d1 / squaredDistance s0 s1 * squaredDistance p q

omit [BEq K] [LawfulBEq K] in
theorem carries_of_apply_eq (hapart : squaredDistance s0 s1 ≠ 0) {t : Similarity K} (h0 : t.apply s0 = d0)
    (h1 : t.apply s1 = d1) : t.Carries s0 s1 d0 d1 where
  first := h0
  second := h1
  stretch p q := by
    have hfactor := squaredDistance_apply t s0 s1
    rw [h0, h1] at hfactor
    rw [squaredDistance_apply, hfactor, mul_div_cancel_right₀ _ hapart]

omit [BEq K] [LawfulBEq K] in
/-- The second point follows when the factor times the first direction is the second direction. -/
theorem apply_carrying_of_quotient {a b : K} (hapart : squaredDistance s0 s1 ≠ 0)
    (ha : a * squaredDistance s0 s1 = (d1.sub d0).dot (s1.sub s0))
    (hb : b * squaredDistance s0 s1 = (s1.sub s0).cross (d1.sub d0)) : (carrying a b s0 d0).apply s1 = d1 := by
  simp only [squaredDistance, Point.sub, Point.dot, Point.cross] at hapart ha hb
  apply Point.ext
  · apply mul_right_cancel₀ hapart
    simp only [carrying, apply]
    linear_combination (s1.x - s0.x) * ha - (s1.y - s0.y) * hb
  · apply mul_right_cancel₀ hapart
    simp only [carrying, apply]
    linear_combination (s1.y - s0.y) * ha + (s1.x - s0.x) * hb

theorem exists_correspondence (hdefinite : Definite K) (hs : s0 ≠ s1) (hd : d0 ≠ d1) :
    ∃ t, correspondence s0 s1 d0 d1 = .ok t ∧ t.Carries s0 s1 d0 d1 := by
  have hapart := Point.squaredDistance_ne_zero hdefinite hs
  refine ⟨_, correspondence_of_apart hs hd, carries_of_apply_eq hapart (apply_carrying ..) ?_⟩
  exact apply_carrying_of_quotient hapart (div_mul_cancel₀ _ hapart) (div_mul_cancel₀ _ hapart)

end Correspondence

/-! ### All laws -/

/-- What the formulas of similarities come to where nothing is rounded. -/
structure ExactLaws (K : Type) [Field K] [BEq K] : Prop where
  /-- One similarity carries a segment onto another, and no other does. -/
  carries {s0 s1 d0 d1 : Point K} : s0 ≠ s1 → d0 ≠ d1 →
    ∃ t, correspondence s0 s1 d0 d1 = .ok t ∧ t.Carries s0 s1 d0 d1 ∧
      ∀ u : Similarity K, u.apply s0 = d0 → u.apply s1 = d1 → u = t
  /-- Only a segment of no length is refused. -/
  refused {s0 s1 d0 d1 : Point K} :
    (∃ fault, correspondence s0 s1 d0 d1 = .error fault) ↔ s0 = s1 ∨ d0 = d1
  assoc (t u v : Similarity K) : (t.andThen u).andThen v = t.andThen (u.andThen v)
  neutral (t : Similarity K) : identity.andThen t = t ∧ t.andThen identity = t
  /-- First `t`, then `u`. -/
  applied (t u : Similarity K) (p : Point K) : (t.andThen u).apply p = u.apply (t.apply p)
  scaling (factor : K) (origin : Point K) : (scaling factor origin).apply origin = origin
  /-- The center of a rotation stays, whatever the sine and the cosine are. -/
  rotation [Analysis K] (angle : K) (origin : Point K) : (rotation angle origin).apply origin = origin

theorem exact_laws [BEq K] [LawfulBEq K] (hdefinite : Definite K) : ExactLaws K where
  carries {s0 s1 d0 d1} hs hd := by
    obtain ⟨t, ht, hcarries⟩ := exists_correspondence hdefinite hs hd
    refine ⟨t, ht, hcarries, fun u h0 h1 => ?_⟩
    exact eq_of_apply_eq hdefinite hs (h0.trans hcarries.first.symm) (h1.trans hcarries.second.symm)
  refused {s0 s1 d0 d1} := by
    constructor
    · rintro ⟨_ | _, h⟩
      · exact .inl (correspondence_eq_source_iff.mp h)
      · exact .inr (correspondence_eq_destination_iff.mp h).2
    · intro h
      by_cases hs : s0 = s1
      · exact ⟨_, correspondence_eq_source_iff.mpr hs⟩
      · exact ⟨_, correspondence_eq_destination_iff.mpr ⟨hs, h.resolve_left hs⟩⟩
  assoc := andThen_assoc
  neutral t := ⟨identity_andThen t, andThen_identity t⟩
  applied := apply_andThen
  scaling factor origin := apply_about factor 0 origin
  rotation angle origin := apply_about _ _ origin

theorem exact_laws_quarterTurn :
    Definite ℚ ∧ (⟨0, 0⟩ : Point ℚ) ≠ ⟨1, 0⟩ ∧ (⟨5, 5⟩ : Point ℚ) ≠ ⟨5, 15⟩ ∧
      correspondence (⟨0, 0⟩ : Point ℚ) ⟨1, 0⟩ ⟨5, 5⟩ ⟨5, 15⟩ = .ok ⟨0, 10, 5, 5⟩ ∧
      ∀ u : Similarity ℚ, u.apply ⟨0, 0⟩ = ⟨5, 5⟩ → u.apply ⟨1, 0⟩ = ⟨5, 15⟩ → u = ⟨0, 10, 5, 5⟩ := by
  have hdefinite : Definite ℚ := Point.definite_of_ordered
  have hs : (⟨0, 0⟩ : Point ℚ) ≠ ⟨1, 0⟩ := by decide
  have hd : (⟨5, 5⟩ : Point ℚ) ≠ ⟨5, 15⟩ := by decide
  have hcarried : correspondence (⟨0, 0⟩ : Point ℚ) ⟨1, 0⟩ ⟨5, 5⟩ ⟨5, 15⟩ = .ok ⟨0, 10, 5, 5⟩ := by
    rw [correspondence_of_apart hs hd]
    norm_num [carrying, apply, squaredDistance, Point.sub, Point.dot, Point.cross]
  obtain ⟨t, ht, -, honly⟩ := (exact_laws hdefinite).carries hs hd
  obtain rfl : ⟨0, 10, 5, 5⟩ = t := Except.ok.inj (hcarried.symm.trans ht)
  exact ⟨hdefinite, hs, hd, hcarried, honly⟩

end Similarity

end Sketchwork
