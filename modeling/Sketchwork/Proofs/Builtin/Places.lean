/-
  Sketchwork.Proofs.Builtin.Places — a place as two numbers and as one point.

  A place is read by its own reader (`Args.place`), and every argument behind it stands one
  further back when it is written as two numbers. Two calls match (`Args.Matching`) when they have
  the same place at one position and the same arguments around it; readers then have the same
  outcome (`SameOutcome`), with faults of arguments behind the place renumbered, and so has every
  feature that reads a place.

  Numbers are read as finite ones and the numbers of a point are not, so this is about finite
  numbers only.

  Proved: two finite numbers and the list of them come to the same; numbers that are not finite are
  refused as numbers, and a list of them is taken for their point (`run_place_forms`), so the two
  ways of writing a place part there (`infinite_place_listed`).
-/
import Sketchwork.Builtin.Table

namespace Sketchwork

/-! ## Outcomes -/

namespace Args

/-- The index of an argument when the one at `n` has `extra` more behind it. -/
def moved (n extra i : Nat) : Nat :=
  if i ≤ n then i else i + extra

theorem moved_of_le {n i : Nat} (h : i ≤ n) (extra : Nat) : moved n extra i = i :=
  if_pos h

theorem moved_of_lt {n i : Nat} (h : n < i) (extra : Nat) : moved n extra i = i + extra :=
  if_neg (Nat.not_le.mpr h)

end Args

/-- Related values, or the same fault of the same argument. -/
inductive SameOutcome (feature : String) (n extra : Nat) {α β : Type} (R : α → β → Prop) :
    Except Error α → Except Error β → Prop
  | ok {a : α} {b : β} : R a b → SameOutcome feature n extra R (.ok a) (.ok b)
  | error (i : Nat) (fault : ArgumentFault) : SameOutcome feature n extra R
      (.error (.argument feature (Args.moved n extra i) fault)) (.error (.argument feature i fault))

namespace SameOutcome

variable {feature : String} {n extra : Nat} {α β α' β' : Type} {R : α → β → Prop} {S : α' → β' → Prop}
  {x : Except Error α} {y : Except Error β}

theorem bind {f : α → Except Error α'} {g : β → Except Error β'} (h : SameOutcome feature n extra R x y)
    (hf : ∀ a b, R a b → SameOutcome feature n extra S (f a) (g b)) :
    SameOutcome feature n extra S (x >>= f) (y >>= g) := by
  cases h with
  | ok hr => exact hf _ _ hr
  | error i fault => exact .error i fault

theorem eq {y : Except Error α} (h : SameOutcome feature n 0 Eq x y) : x = y := by
  cases h with
  | ok h => rw [h]
  | error i fault => rw [Args.moved, Nat.add_zero, ite_self]

end SameOutcome

/-! ## Arguments around a place -/

namespace Args

/-- The index of the argument behind a place. -/
def placeEnd (args : Args) (i : Nat) : Nat :=
  match args.get? i with
  | some (.number _) => i + 2
  | _ => i + 1

section

variable {args : Args} {i : Nat} {x : Float}

theorem place_of_number (h : args.get? i = some (.number x)) :
    args.place i = (do
      let x ← args.number i
      let y ← args.number (i + 1)
      return (⟨x, y⟩, i + 2)) := by
  rw [place, h]

theorem place_of_not_number (h : ∀ x, args.get? i ≠ some (.number x)) :
    args.place i = (do
      let p ← args.point i
      return (p, i + 1)) := by
  unfold place
  split
  · exact absurd ‹_› (h _)
  · rfl

theorem placeEnd_of_number (h : args.get? i = some (.number x)) : args.placeEnd i = i + 2 := by
  rw [placeEnd, h]

theorem placeEnd_of_not_number (h : ∀ x, args.get? i ≠ some (.number x)) : args.placeEnd i = i + 1 := by
  unfold placeEnd
  split
  · exact absurd ‹_› (h _)
  · rfl

end

/-- The same place at `n`, which the first call writes as `extra` more arguments, and the same
    arguments around it. -/
structure Matching (n extra : Nat) (args args' : Args) : Prop where
  feature : args.feature = args'.feature
  get? (i : Nat) : i ≠ n → args.get? (moved n extra i) = args'.get? i
  place : ∃ p, args.place n = .ok (p, n + 1 + extra) ∧ args'.place n = .ok (p, n + 1)

/-- What is read the same everywhere but at the place is read the same behind it. -/
theorem outcome_behind {feature : String} {n extra : Nat} {args args' : Args} {α : Type} (read : Args → Nat → Except Error α)
    (h : ∀ i, i ≠ n → SameOutcome feature n extra Eq (read args (moved n extra i)) (read args' i)) (k : Nat) :
    SameOutcome feature n extra Eq (read args (n + 1 + extra + k)) (read args' (n + 1 + k)) := by
  have hmoved := h (n + 1 + k) (by omega)
  rwa [moved_of_lt (by omega), Nat.add_right_comm] at hmoved

namespace Matching

variable {n extra i : Nat} {args args' : Args} (h : args.Matching n extra args') (hi : i ≠ n)
include h hi

theorem read {α : Type} (wanted : Wanted) (read? : Value → Option α) :
    SameOutcome args.feature n extra Eq (args.read (moved n extra i) wanted read?) (args'.read i wanted read?) := by
  unfold Args.read Args.wanted Args.fault
  rw [h.get? i hi, ← h.feature]
  cases (args'.get? i).bind read? with
  | some a => exact .ok rfl
  | none => exact .error i _

theorem number : SameOutcome args.feature n extra Eq (args.number (moved n extra i)) (args'.number i) :=
  h.read hi _ _

theorem positive : SameOutcome args.feature n extra Eq (args.positive (moved n extra i)) (args'.positive i) := by
  refine (h.number hi).bind ?_
  rintro x _ rfl
  split
  · exact .ok rfl
  · rw [fault, fault, ← h.feature]
    exact .error i _

theorem orElse {α : Type} (default : α) {read : Args → Nat → Except Error α}
    (hread : SameOutcome args.feature n extra Eq (read args (moved n extra i)) (read args' i)) :
    SameOutcome args.feature n extra Eq (args.orElse (moved n extra i) default read)
      (args'.orElse i default read) := by
  unfold Args.orElse
  rw [h.get? i hi]
  cases args'.get? i with
  | some _ => exact hread
  | none => exact .ok rfl

omit hi in
theorem number_behind (k : Nat) :
    SameOutcome args.feature n extra Eq (args.number (n + 1 + extra + k)) (args'.number (n + 1 + k)) :=
  outcome_behind Args.number (fun _ => h.number) k

omit hi in
theorem positive_behind (k : Nat) :
    SameOutcome args.feature n extra Eq (args.positive (n + 1 + extra + k)) (args'.positive (n + 1 + k)) :=
  outcome_behind Args.positive (fun _ => h.positive) k

/-- A place that ends in front of `n` or begins behind it. -/
theorem place_apart (hend : i < n → args'.placeEnd i ≤ n) :
    SameOutcome args.feature n extra
      (fun a b => a = (b.1, moved n extra b.2) ∧ b.2 = args'.placeEnd i)
      (args.place (moved n extra i)) (args'.place i) := by
  have hnext (k : Nat) (hk : i < n → i + k ≤ n) : moved n extra i + k = moved n extra (i + k) := by
    unfold moved
    split <;> split <;> omega
  by_cases hnumber : ∃ x, args'.get? i = some (.number x)
  · obtain ⟨x, hget⟩ := hnumber
    rw [placeEnd_of_number hget] at hend ⊢
    rw [place_of_number hget, place_of_number ((h.get? i hi).trans hget)]
    refine (h.number hi).bind ?_
    rintro x _ rfl
    have hsecond := h.number (i := i + 1) (by omega)
    rw [← hnext 1 (by omega)] at hsecond
    refine hsecond.bind ?_
    rintro y _ rfl
    exact .ok ⟨by rw [← hnext 2 hend], rfl⟩
  · have hget := not_exists.mp hnumber
    rw [placeEnd_of_not_number hget] at hend ⊢
    rw [place_of_not_number hget, place_of_not_number (by rwa [h.get? i hi])]
    refine (h.read hi .point Value.point?).bind ?_
    rintro p _ rfl
    exact .ok ⟨by rw [← hnext 1 hend], rfl⟩

end Matching

end Args

/-! ## Features that read a place -/

section

variable {n extra : Nat} {args args' : Args}

namespace Shapes

theorem point_matching (h : args.Matching 0 extra args') :
    SameOutcome args.feature 0 extra Eq (point args) (point args') := by
  obtain ⟨p, hp, hp'⟩ := h.place
  rw [point, point, hp, hp']
  exact .ok rfl

/-- One of the two ends of a segment is the place; the other is read as it is. -/
theorem segment_matching (h : args.Matching n extra args') (hn : n = 0 ∨ n = args'.placeEnd 0) :
    SameOutcome args.feature n extra Eq (segment args) (segment args') := by
  obtain ⟨p, hp, hp'⟩ := h.place
  unfold segment
  rcases hn with rfl | hn
  · rw [hp, hp']
    have hother := h.place_apart (i := 1) (by omega) (by omega)
    rw [Args.moved_of_lt (by omega)] at hother
    refine hother.bind ?_
    rintro _ q ⟨rfl, -⟩
    exact .ok rfl
  · have hpos : 0 < n := by
      rw [hn, Args.placeEnd]
      split <;> omega
    have hother := h.place_apart (i := 0) (by omega) (by omega)
    rw [Args.moved_of_le (by omega)] at hother
    refine hother.bind ?_
    rintro _ ⟨q, next⟩ ⟨rfl, hnext⟩
    obtain rfl : next = n := hnext.trans hn.symm
    simp only [Args.moved_of_le (Nat.le_refl next), hp, hp']
    exact .ok rfl

theorem circle_matching (h : args.Matching 0 extra args') :
    SameOutcome args.feature 0 extra Eq (circle args) (circle args') := by
  obtain ⟨p, hp, hp'⟩ := h.place
  rw [circle, circle, hp, hp']
  refine (h.positive_behind 0).bind ?_
  rintro radius _ rfl
  exact .ok rfl

theorem arc_matching (h : args.Matching 0 extra args') :
    SameOutcome args.feature 0 extra Eq (arc args) (arc args') := by
  obtain ⟨p, hp, hp'⟩ := h.place
  rw [arc, arc, hp, hp']
  refine (h.positive_behind 0).bind ?_
  rintro radius _ rfl
  refine (h.number_behind 1).bind ?_
  rintro start _ rfl
  refine (h.number_behind 2).bind ?_
  rintro stop _ rfl
  exact .ok rfl

theorem rectangle_matching (h : args.Matching 0 extra args') :
    SameOutcome args.feature 0 extra Eq (rectangle args) (rectangle args') := by
  obtain ⟨p, hp, hp'⟩ := h.place
  rw [rectangle, rectangle, hp, hp']
  refine (h.number_behind 0).bind ?_
  rintro width _ rfl
  refine (h.number_behind 1).bind ?_
  rintro height _ rfl
  exact .ok rfl

end Shapes

namespace Motions

theorem translate_matching (h : args.Matching 0 extra args') :
    SameOutcome args.feature 0 extra Eq (translate args) (translate args') := by
  obtain ⟨p, hp, hp'⟩ := h.place
  rw [translate, translate, hp, hp']
  exact .ok rfl

theorem transform_matching (h : args.Matching 0 extra args') :
    SameOutcome args.feature 0 extra Eq (transform args) (transform args') := by
  obtain ⟨p, hp, hp'⟩ := h.place
  rw [transform, transform, hp, hp']
  have hangle := Args.outcome_behind (Args.orElse · · 0.0 Args.number) fun _ hi => h.orElse hi 0.0 (h.number hi)
  have hfactor := Args.outcome_behind (Args.orElse · · 1.0 Args.positive) fun _ hi => h.orElse hi 1.0 (h.positive hi)
  refine (hangle 0).bind ?_
  rintro angle _ rfl
  refine (hfactor 1).bind ?_
  rintro factor _ rfl
  exact .ok rfl

end Motions

end

/-! ## Places in argument lists -/

namespace Args

section

variable {args : Args} {i : Nat} {x : Float}

theorem number_of_finite (h : args.get? i = some (.number x)) (hx : x.isFinite = true) : args.number i = .ok x := by
  have hread : (some x).filter Float.isFinite = some x := if_pos hx
  rw [number, read, h, Option.bind_some, Value.number?, hread]

/-- A number that is not finite is not read as a number. -/
theorem number_of_not_finite (h : args.get? i = some (.number x)) (hx : x.isFinite = false) :
    args.number i = .error (.argument args.feature i (.unexpected .number (Value.number x).kind)) := by
  have hread : (some x).filter Float.isFinite = none := if_neg (ne_true_of_eq_false hx)
  rw [number, read, h, Option.bind_some, Value.number?, hread, wanted, h]
  rfl

theorem read_cases {α : Type} (args : Args) (i : Nat) (wanted : Wanted) (read? : Value → Option α) :
    (∃ a, args.read i wanted read? = .ok a) ∨
      ∃ fault, args.read i wanted read? = .error (.argument args.feature i fault) := by
  unfold read
  split
  · exact .inl ⟨_, rfl⟩
  · exact .inr ⟨_, rfl⟩

theorem place_cases (args : Args) (i : Nat) :
    (∃ p, args.place i = .ok (p, args.placeEnd i)) ∨
      ∃ j fault, args.place i = .error (.argument args.feature j fault) := by
  by_cases hnumber : ∃ x, args.get? i = some (.number x)
  · obtain ⟨x, hget⟩ := hnumber
    rw [place_of_number hget, placeEnd_of_number hget]
    obtain ⟨x, hx⟩ | ⟨fault, hx⟩ := args.read_cases i .number _ <;> rw [number, hx]
    · obtain ⟨y, hy⟩ | ⟨fault, hy⟩ := args.read_cases (i + 1) .number _
      · exact .inl ⟨⟨x, y⟩, by rw [number, hy]; rfl⟩
      · exact .inr ⟨i + 1, fault, by rw [number, hy]; rfl⟩
    · exact .inr ⟨i, fault, rfl⟩
  · rw [place_of_not_number (not_exists.mp hnumber), placeEnd_of_not_number (not_exists.mp hnumber), point]
    obtain ⟨p, hp⟩ | ⟨fault, hp⟩ := args.read_cases i .point Value.point? <;> rw [hp]
    · exact .inl ⟨p, rfl⟩
    · exact .inr ⟨i, fault, rfl⟩

end

variable {feature : String} {before after : List Value} {v w : Value} {x y : Float} {p : Position}

theorem get?_at (hv : v.isNull = false) : get? ⟨feature, before ++ v :: after⟩ before.length = some v := by
  simp [get?, hv]

theorem get?_next (hw : w.isNull = false) :
    get? ⟨feature, before ++ v :: w :: after⟩ (before.length + 1) = some w := by
  simp [get?, hw]

theorem place_numbers (hx : x.isFinite = true) (hy : y.isFinite = true) :
    place ⟨feature, before ++ .number x :: .number y :: after⟩ before.length = .ok (⟨x, y⟩, before.length + 2) := by
  rw [place_of_number (get?_at rfl), number_of_finite (get?_at rfl) hx, number_of_finite (get?_next rfl) hy]
  rfl

/-- Two numbers that are not both finite are no place. -/
theorem place_numbers_refused (h : ¬ (x.isFinite = true ∧ y.isFinite = true)) :
    ∃ i fault, place ⟨feature, before ++ .number x :: .number y :: after⟩ before.length =
      .error (.argument feature i fault) := by
  rw [place_of_number (get?_at rfl)]
  cases hx : x.isFinite with
  | false =>
    rw [number_of_not_finite (get?_at rfl) hx]
    exact ⟨_, _, rfl⟩
  | true =>
    have hy : y.isFinite = false := Bool.eq_false_iff.mpr fun hy => h ⟨hx, hy⟩
    rw [number_of_finite (get?_at rfl) hx, number_of_not_finite (get?_next rfl) hy]
    exact ⟨_, _, rfl⟩

theorem place_point (hnull : v.isNull = false) (hnumber : v.number? = none) (hv : v.point? = some p) :
    place ⟨feature, before ++ v :: after⟩ before.length = .ok (p, before.length + 1) := by
  have hget : get? ⟨feature, before ++ v :: after⟩ before.length = some v := get?_at hnull
  have hnot (x : Float) : get? ⟨feature, before ++ v :: after⟩ before.length ≠ some (.number x) := by
    rw [hget]
    rintro ⟨⟩
    cases hnumber
  rw [place_of_not_number hnot, point, read, hget, Option.bind_some, hv]
  rfl

/-- One place written in two ways among the same arguments. -/
theorem matching_of_places (here : List Value)
    (hhere : place ⟨feature, before ++ (here ++ after)⟩ before.length = .ok (p, before.length + here.length))
    (hhere' : place ⟨feature, before ++ v :: after⟩ before.length = .ok (p, before.length + 1)) (h : here ≠ []) :
    Matching before.length (here.length - 1) ⟨feature, before ++ (here ++ after)⟩ ⟨feature, before ++ v :: after⟩ where
  feature := rfl
  get? i hi := by
    have hpos := List.length_pos_iff.mpr h
    rcases Nat.lt_or_gt_of_ne hi with hlt | hgt
    · rw [moved_of_le (by omega), get?, get?, List.getElem?_append_left hlt, List.getElem?_append_left hlt]
    · obtain ⟨k, rfl⟩ := Nat.exists_eq_add_of_lt hgt
      have hfirst : before.length + k + 1 + (here.length - 1) = before.length + (here.length + k) := by omega
      rw [moved_of_lt (by omega), hfirst, get?, get?, List.getElem?_append_right (Nat.le_add_right _ _), Nat.add_sub_cancel_left,
        List.getElem?_append_right (Nat.le_add_right _ _), Nat.add_sub_cancel_left, Nat.add_assoc,
        List.getElem?_append_right (Nat.le_add_right _ _), Nat.add_sub_cancel_left, List.getElem?_cons_succ]
  place := by
    have hpos := List.length_pos_iff.mpr h
    refine ⟨p, ?_, hhere'⟩
    rw [hhere, Nat.add_assoc]
    congr 3
    omega

end Args

namespace Builtin

/-- What stands in front of a place that a feature reads: nothing, or for the second end of a
    segment the first, as one argument or as two. -/
inductive PlaceBehind : Builtin → List Value → Prop
  | first {b : Builtin} : b ∈ [.point, .segment, .circle, .arc, .rectangle, .translate, .transform] → PlaceBehind b []
  | second {p : Value} : p.number? = none → PlaceBehind .segment [p]
  | secondOfNumbers (x : Float) (y : Value) : PlaceBehind .segment [.number x, y]

section

variable {b : Builtin} {before values after : List Value} {n extra : Nat} (fresh : NodeId) (node : Node)

theorem draw_outcome {shape shape' : Except Error Entity} (h : SameOutcome b.label n extra Eq shape shape') :
    SameOutcome b.label n extra Eq (draw fresh node shape) (draw fresh node shape') :=
  h.bind fun | _, _, rfl => .ok rfl

theorem move_outcome {motion motion' : Except Error (Similarity Float)}
    (h : SameOutcome b.label n extra Eq motion motion') :
    SameOutcome b.label n extra Eq (move node motion) (move node motion') :=
  h.bind fun | _, _, rfl => .ok rfl

theorem PlaceBehind.placeEnd (hb : PlaceBehind b before) (after : List Value) :
    before = [] ∨ b = .segment ∧ Args.placeEnd ⟨b.label, before ++ after⟩ 0 = before.length := by
  cases hb with
  | first => exact .inl rfl
  | secondOfNumbers => exact .inr ⟨rfl, rfl⟩
  | @second p hp =>
    refine .inr ⟨rfl, Args.placeEnd_of_not_number ?_⟩
    intro x hget
    have hget : (some p).filter (!·.isNull) = some (.number x) := hget
    cases (Option.filter_eq_some_iff.mp hget).1
    cases hp

/-- Features that read a place have the same outcome for calls that match. -/
theorem run_matching (hb : PlaceBehind b before)
    (h : Args.Matching before.length extra ⟨b.label, values⟩ ⟨b.label, before ++ after⟩) :
    SameOutcome b.label before.length extra Eq (b.run fresh node values) (b.run fresh node (before ++ after)) := by
  rcases hb.placeEnd after with rfl | ⟨rfl, hend⟩
  · cases hb with | first hb =>
    simp only [List.mem_cons, List.not_mem_nil, or_false] at hb
    rcases hb with rfl | rfl | rfl | rfl | rfl | rfl | rfl
    · exact draw_outcome fresh node (Shapes.point_matching h)
    · exact draw_outcome fresh node (Shapes.segment_matching h (.inl rfl))
    · exact draw_outcome fresh node (Shapes.circle_matching h)
    · exact draw_outcome fresh node (Shapes.arc_matching h)
    · exact draw_outcome fresh node (Shapes.rectangle_matching h)
    · exact move_outcome node (Motions.translate_matching h)
    · exact move_outcome node (Motions.transform_matching h)
  · exact draw_outcome fresh node (Shapes.segment_matching h (.inr hend.symm))

theorem run_refused (hb : PlaceBehind b before)
    (h : ∃ i fault, Args.place ⟨b.label, before ++ after⟩ before.length = .error (.argument b.label i fault)) :
    ∃ i fault, b.run fresh node (before ++ after) = .error (.argument b.label i fault) := by
  obtain ⟨i, fault, h⟩ := h
  rcases hb.placeEnd after with rfl | ⟨rfl, hend⟩
  · cases hb with | first hb =>
    refine ⟨i, fault, ?_⟩
    simp only [List.mem_cons, List.not_mem_nil, or_false] at hb
    rw [List.nil_append, List.length_nil] at h
    rcases hb with rfl | rfl | rfl | rfl | rfl | rfl | rfl <;>
      simp only [run, draw, move, Shapes.point, Shapes.segment, Shapes.circle, Shapes.arc, Shapes.rectangle,
        Motions.translate, Motions.transform, List.nil_append, h] <;> rfl
  · have hrun : segment.run fresh node (before ++ after) = draw fresh node (Shapes.segment ⟨segment.label, before ++ after⟩) :=
      rfl
    rw [hrun, Shapes.segment]
    obtain ⟨p, hp⟩ | ⟨j, fault', hp⟩ := Args.place_cases ⟨segment.label, before ++ after⟩ 0 <;> rw [hp]
    · rw [← hend] at h
      exact ⟨i, fault, by simp only [draw, bind, Except.bind, h]⟩
    · exact ⟨j, fault', rfl⟩

/-- A place in front of the same arguments, as two numbers and as the list of them. Finite
    numbers come to the same in both ways. Others are refused as numbers, while the list is
    always taken for the point of these coordinates. -/
theorem run_place_forms (hb : PlaceBehind b before) (after : List Value) (x y : Float) :
    (x.isFinite = true → y.isFinite = true → SameOutcome b.label before.length 1 Eq
      (b.run fresh node (before ++ .number x :: .number y :: after))
      (b.run fresh node (before ++ .list [.number x, .number y] :: after))) ∧
    (¬ (x.isFinite = true ∧ y.isFinite = true) →
      ∃ i fault, b.run fresh node (before ++ .number x :: .number y :: after) = .error (.argument b.label i fault)) ∧
    b.run fresh node (before ++ .list [.number x, .number y] :: after) =
      b.run fresh node (before ++ .entity (.point ⟨x, y⟩) :: after) := by
  have hlist : Args.place ⟨b.label, before ++ .list [.number x, .number y] :: after⟩ before.length =
      .ok (⟨x, y⟩, before.length + 1) :=
    Args.place_point rfl rfl rfl
  have hpoint : Args.place ⟨b.label, before ++ .entity (.point ⟨x, y⟩) :: after⟩ before.length =
      .ok (⟨x, y⟩, before.length + 1) :=
    Args.place_point rfl rfl rfl
  refine ⟨fun hx hy => ?_, fun h => ?_, ?_⟩
  · have hnumbers : Args.place ⟨b.label, before ++ .number x :: .number y :: after⟩ before.length =
        .ok (⟨x, y⟩, before.length + 2) :=
      Args.place_numbers hx hy
    exact run_matching fresh node hb
      (Args.matching_of_places [.number x, .number y] hnumbers hlist (List.cons_ne_nil _ _))
  · exact run_refused fresh node hb (Args.place_numbers_refused h)
  · have hmatching :=
      Args.matching_of_places [.list [.number x, .number y]] hlist hpoint (List.cons_ne_nil _ _)
    exact (run_matching fresh node hb hmatching).eq

end

theorem run_place_forms_segmentEnd :
    PlaceBehind .segment [.number 1.0, .number 2.0] ∧ (3.0 : Float).isFinite = true ∧ (4.0 : Float).isFinite = true ∧
      SameOutcome "segment" 2 1 Eq
        (segment.run ⟨0⟩ (.empty ⟨1⟩) [.number 1.0, .number 2.0, .number 3.0, .number 4.0])
        (segment.run ⟨0⟩ (.empty ⟨1⟩) [.number 1.0, .number 2.0, .list [.number 3.0, .number 4.0]]) ∧
      ∃ i fault, segment.run ⟨0⟩ (.empty ⟨1⟩) [.number 1.0, .number 2.0, .number 3.0, .number (1.0 / 0.0)] =
        .error (.argument "segment" i fault) := by
  have hb : PlaceBehind .segment [.number 1.0, .number 2.0] := .secondOfNumbers _ _
  have hx : (3.0 : Float).isFinite = true := by decide
  have hy : (4.0 : Float).isFinite = true := by decide
  exact ⟨hb, hx, hy, (run_place_forms ⟨0⟩ (.empty ⟨1⟩) hb [] 3.0 4.0).1 hx hy,
    (run_place_forms ⟨0⟩ (.empty ⟨1⟩) hb [] 3.0 (1.0 / 0.0)).2.1 (by decide)⟩

/-- The point at infinity is refused as two numbers and drawn from a list. -/
theorem infinite_place_listed :
    ¬ ∀ (b : Builtin) (before after : List Value) (fresh : NodeId) (node : Node) (x y : Float), PlaceBehind b before →
      (∃ drawn, b.run fresh node (before ++ .number x :: .number y :: after) = .ok drawn ∧
        b.run fresh node (before ++ .list [.number x, .number y] :: after) = .ok drawn) ∨
      (∃ i fault, b.run fresh node (before ++ .number x :: .number y :: after) = .error (.argument b.label i fault)) ∧
        ∃ i fault, b.run fresh node (before ++ .list [.number x, .number y] :: after) = .error (.argument b.label i fault) := by
  intro h
  have hinfinite : (1.0 / 0.0 : Float).isFinite = false := by decide
  have hlist : point.run ⟨0⟩ (.empty ⟨1⟩) [.list [.number (1.0 / 0.0), .number 0.0]] =
      .ok ((Node.empty ⟨1⟩).add [.holding ⟨0⟩ [.point ⟨1.0 / 0.0, 0.0⟩]]) :=
    rfl
  rcases h .point [] [] ⟨0⟩ (.empty ⟨1⟩) (1.0 / 0.0) 0.0 (.first (by decide)) with ⟨drawn, hnumbers, -⟩ | ⟨-, i, fault, hrefused⟩
  · obtain ⟨i, fault, hrefused⟩ : ∃ i fault, point.run ⟨0⟩ (.empty ⟨1⟩) [.number (1.0 / 0.0), .number 0.0] =
        .error (.argument "point" i fault) :=
      run_refused ⟨0⟩ (.empty ⟨1⟩) (.first (by decide)) (Args.place_numbers_refused (by simp [hinfinite]))
    cases hnumbers.symm.trans hrefused
  · cases hlist.symm.trans hrefused

end Builtin

end Sketchwork
