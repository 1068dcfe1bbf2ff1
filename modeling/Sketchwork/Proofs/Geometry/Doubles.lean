/-
  Sketchwork.Proofs.Geometry.Doubles — doubles compared, and their bits.

  Doubles are compared in two ways: as numbers, by what their bits are taken apart to, and by the
  bits alone (`totalLe`). The two are brought together by the `rank` of a double, which is its
  bits but the sign, read as a number, with the sign put to it.

  Proved: doubles are compared one way or the other unless one is no number (`not_le_iff`), finite
  ones as their ranks (`compare_of_finite`); a finite double less itself is 0
  (`sub_self_of_finite`); the order by the bits refines the one of numbers (`le_of_totalLe`), and
  finite doubles that are equal are the same, but for the two zeros (`eq_of_beq_of_finite`,
  `eq_zero_or_of_beq_zero`); a double with its sign changed twice is the same (`neg_twice`).
-/
import Mathlib
import Sketchwork.Geometry.Analysis

namespace Sketchwork.Real64

open Float.Model (UnpackedFloat)
open Float.Model.UnpackedFloat (Sign packComponents packedNaN unpackMantissa unpackExponent unpackSign
  unpackExponent_packComponents unpackMantissa_packComponents)

variable {a b x : Float}

/-! ## Comparing doubles -/

theorem le_iff : a ≤ b ↔ (a.toModel.unpack.compare b.toModel.unpack).any (·.isLE) = true := by
  show decide (a.toModel ≤ b.toModel) = true ↔ _
  rw [decide_eq_true_eq]
  exact Iff.rfl

theorem lt_iff : a < b ↔ a.toModel.unpack.compare b.toModel.unpack = some .lt := by
  show decide (a.toModel < b.toModel) = true ↔ _
  rw [decide_eq_true_eq]
  exact beq_iff_eq

theorem compare_swap (x y : UnpackedFloat) : y.compare x = (x.compare y).map Ordering.swap := by
  have hfinite (e f : Int) (m n : Nat) :
      (compare f e).then (compare n m) = ((compare e f).then (compare m n)).swap := by
    rw [Ordering.swap_then, Int.compare_swap, Nat.compare_swap]
  cases x with
  | notANumber => cases y <;> rfl
  | infinity s => cases y with
    | infinity t => cases s <;> cases t <;> rfl
    | _ => cases s <;> rfl
  | zero s => cases y with
    | infinity t | finite t _ _ _ => cases t <;> rfl
    | _ => rfl
  | finite s m e h => cases y with
    | infinity t => cases t <;> rfl
    | zero t => cases s <;> rfl
    | notANumber => rfl
    | finite t n f h' =>
      cases s with
      | positive => cases t with
        | positive => exact congrArg some (hfinite e f m n)
        | negative => rfl
      | negative => cases t with
        | positive => rfl
        | negative => exact congrArg (some ·.swap) (hfinite e f m n)

theorem compare_eq_none_iff {x y : UnpackedFloat} : x.compare y = none ↔ x.isNaN = true ∨ y.isNaN = true := by
  cases x with
  | notANumber => exact iff_of_true rfl (.inl rfl)
  | infinity s | zero s | finite s =>
    cases s <;> cases y with
    | notANumber => exact iff_of_true rfl (.inr rfl)
    | infinity t | zero t | finite t =>
      cases t <;> exact iff_of_false (fun h => by cases h) (by rintro (h | h) <;> cases h)

/-- Doubles are compared one way or the other, unless one is no number. -/
theorem not_le_iff : ¬ a ≤ b ↔ b < a ∨ a.isNaN = true ∨ b.isNaN = true := by
  show _ ↔ b < a ∨ a.toModel.unpack.isNaN = true ∨ b.toModel.unpack.isNaN = true
  rw [le_iff, lt_iff, compare_swap a.toModel.unpack, ← compare_eq_none_iff]
  cases a.toModel.unpack.compare b.toModel.unpack with
  | none => simp
  | some order => cases order <;> simp

/-! ## The bits of a double -/

def fraction (x : Float) : Nat :=
  x.toBits.toNat % 2 ^ 52

def exponentField (x : Float) : Nat :=
  x.toBits.toNat / 2 ^ 52 % 2 ^ 11

def isNegative (x : Float) : Bool :=
  x.toBits.toNat.testBit 63

def sign (x : Float) : Sign :=
  if isNegative x then .negative else .positive

/-- All bits but the sign. -/
def magnitude (x : Float) : Nat :=
  exponentField x * 2 ^ 52 + fraction x

/-- The integer of a sign and a magnitude. -/
def signed : Sign → Nat → Int
  | .negative, n => -n
  | .positive, n => n

/-- Finite doubles compare as their ranks; that of both zeros is 0. -/
def rank (x : Float) : Int :=
  signed (sign x) (magnitude x)

theorem toNat_unpackMantissa (x : Float) :
    (@unpackMantissa .binary64 x.toModel.toBits.toBitVec).toNat = fraction x := by
  simp [unpackMantissa, fraction, Float.toBits, BitVec.extractLsb_toNat]

theorem toNat_unpackExponent (x : Float) :
    (@unpackExponent .binary64 x.toModel.toBits.toBitVec).toNat = exponentField x := by
  simp [unpackExponent, exponentField, Float.toBits, BitVec.extractLsb_toNat, Nat.shiftRight_eq_div_pow]

theorem isNegative_eq (x : Float) : isNegative x = decide (x.toBits.toNat / 2 ^ 63 % 2 = 1) :=
  Nat.testBit_eq_decide_div_mod_eq

theorem ofBitVec_unpackSign (x : Float) :
    Sign.ofBitVec (@unpackSign .binary64 x.toModel.toBits.toBitVec) = sign x := by
  have htop : (@unpackSign .binary64 x.toModel.toBits.toBitVec).toNat = x.toBits.toNat / 2 ^ 63 % 2 := by
    simp [unpackSign, Float.toBits, BitVec.extractLsb_toNat, Nat.shiftRight_eq_div_pow]
  unfold Sign.ofBitVec sign
  simp only [← BitVec.toNat_inj, htop, isNegative_eq, decide_eq_true_eq]
  rcases Nat.mod_two_eq_zero_or_one (x.toBits.toNat / 2 ^ 63) with hrest | hrest <;> rw [hrest] <;> rfl

theorem decode_eq (x : Float) :
    decode x = if exponentField x = 0 then (fraction x, (-1074 : Int))
      else (2 ^ 52 + fraction x, (exponentField x : Int) - 1075) :=
  rfl

/-- What a finite double is taken apart to. -/
theorem unpack_of_finite (h : x.isFinite = true) :
    (magnitude x = 0 ∧ x.toModel.unpack = .zero (sign x)) ∨
      (0 < magnitude x ∧ ∃ hm, x.toModel.unpack = .finite (sign x) (decode x).1 (decode x).2 hm) := by
  have hfraction := toNat_unpackMantissa x
  have hexponent := toNat_unpackExponent x
  change x.toModel.unpack.isFinite = true at h
  rw [decode_eq, magnitude]
  unfold Float.Model.unpack UnpackedFloat.unpack at h ⊢
  dsimp only at h ⊢
  rw [ofBitVec_unpackSign] at h ⊢
  by_cases htop : @unpackExponent .binary64 x.toModel.toBits.toBitVec = -1#11
  · rw [if_pos htop] at h
    split at h <;> cases h
  · rw [if_neg htop]
    by_cases hsmall : @unpackExponent .binary64 x.toModel.toBits.toBitVec = 0#11
    · have hE : exponentField x = 0 := by rw [← hexponent, hsmall]; rfl
      rw [if_pos hsmall, hE, if_pos rfl]
      by_cases hzero : @unpackMantissa .binary64 x.toModel.toBits.toBitVec = 0#52
      · have hM : fraction x = 0 := by rw [← hfraction, hzero]; rfl
        rw [dif_pos hzero, hM]
        exact .inl ⟨rfl, rfl⟩
      · have hM : fraction x ≠ 0 := by
          rw [← hfraction]
          exact fun h => hzero (BitVec.toNat_inj.mp h)
        rw [dif_neg hzero]
        refine .inr ⟨by omega, by omega, ?_⟩
        simp only [hfraction, hexponent, hE]
        rfl
    · have hE : exponentField x ≠ 0 := by
        rw [← hexponent]
        exact fun h => hsmall (BitVec.toNat_inj.mp h)
      rw [if_neg hsmall, if_neg hE]
      refine .inr ⟨by omega, by omega, ?_⟩
      have hsignificand : (1#1 ++ @unpackMantissa .binary64 x.toModel.toBits.toBitVec).toNat = 2 ^ 52 + fraction x := by
        rw [BitVec.toNat_append, ← Nat.shiftLeft_add_eq_or_of_lt (BitVec.isLt _), hfraction]
        rfl
      simp only [hsignificand, hexponent]
      rfl

theorem fraction_lt (x : Float) : fraction x < 2 ^ 52 :=
  Nat.mod_lt _ (by decide)

/-- Exponent before significand is the order of the magnitudes. -/
theorem compare_decode (a b : Float) :
    (compare (decode a).2 (decode b).2).then (compare (decode a).1 (decode b).1) =
      compare (magnitude a) (magnitude b) := by
  have ha := fraction_lt a
  have hb := fraction_lt b
  rw [decode_eq, decode_eq, magnitude, magnitude]
  rcases Nat.lt_trichotomy (exponentField a * 2 ^ 52 + fraction a) (exponentField b * 2 ^ 52 + fraction b) with h | h | h
  · rw [Nat.compare_eq_lt.mpr h, Ordering.then_eq_lt]
    split <;> split <;> simp only [Nat.compare_eq_lt, Int.compare_eq_lt, Int.compare_eq_eq, true_and] <;> omega
  · rw [Nat.compare_eq_eq.mpr h, Ordering.then_eq_eq]
    split <;> split <;> simp only [Nat.compare_eq_eq, Int.compare_eq_eq, true_and] <;> omega
  · rw [Nat.compare_eq_gt.mpr h, Ordering.then_eq_gt]
    split <;> split <;> simp only [Nat.compare_eq_gt, Int.compare_eq_gt, Int.compare_eq_eq, true_and] <;> omega

theorem rank_of_zero (h : magnitude x = 0) : rank x = 0 := by
  rw [rank, h]
  cases sign x <;> rfl

theorem compare_natCast (m n : Nat) : compare (m : Int) (n : Int) = compare m n := by
  rcases Nat.lt_trichotomy m n with h | h | h
  · rw [Nat.compare_eq_lt.mpr h, Int.compare_eq_lt.mpr (by omega)]
  · rw [Nat.compare_eq_eq.mpr h, Int.compare_eq_eq.mpr (by omega)]
  · rw [Nat.compare_eq_gt.mpr h, Int.compare_eq_gt.mpr (by omega)]

theorem compare_neg (m n : Nat) : compare (-(m : Int)) (-(n : Int)) = (compare m n).swap := by
  rw [Nat.compare_swap]
  rcases Nat.lt_trichotomy m n with h | h | h
  · rw [Nat.compare_eq_gt.mpr h, Int.compare_eq_gt.mpr (by omega)]
  · rw [Nat.compare_eq_eq.mpr h.symm, Int.compare_eq_eq.mpr (by omega)]
  · rw [Nat.compare_eq_lt.mpr h, Int.compare_eq_lt.mpr (by omega)]

section Unpacked

variable {s t : Sign} {m n : Nat} {c d : Nat × Int} (hc : 0 < c.1) (hd : 0 < d.1)

theorem compare_zero_finite (hn : 0 < n) :
    UnpackedFloat.compare (.zero s) (.finite t d.1 d.2 hd) = some (compare 0 (signed t n)) := by
  cases t with
  | negative => rw [signed, Int.compare_eq_gt.mpr (by omega)]; rfl
  | positive => rw [signed, Int.compare_eq_lt.mpr (by omega)]; rfl

theorem compare_finite_zero (hm : 0 < m) :
    UnpackedFloat.compare (.finite s c.1 c.2 hc) (.zero t) = some (compare (signed s m) 0) := by
  cases s with
  | negative => rw [signed, Int.compare_eq_lt.mpr (by omega)]; rfl
  | positive => rw [signed, Int.compare_eq_gt.mpr (by omega)]; rfl

theorem compare_finite_finite (hm : 0 < m) (hn : 0 < n)
    (h : (compare c.2 d.2).then (compare c.1 d.1) = compare m n) :
    UnpackedFloat.compare (.finite s c.1 c.2 hc) (.finite t d.1 d.2 hd) =
      some (compare (signed s m) (signed t n)) := by
  cases s with
  | negative => cases t with
    | negative => exact congrArg some ((congrArg Ordering.swap h).trans (compare_neg _ _).symm)
    | positive => rw [signed, signed, Int.compare_eq_lt.mpr (by omega)]; rfl
  | positive => cases t with
    | negative => rw [signed, signed, Int.compare_eq_gt.mpr (by omega)]; rfl
    | positive => exact congrArg some (h.trans (compare_natCast _ _).symm)

end Unpacked

/-- Finite doubles are compared by their ranks. -/
theorem compare_of_finite (ha : a.isFinite = true) (hb : b.isFinite = true) :
    a.toModel.unpack.compare b.toModel.unpack = some (compare (rank a) (rank b)) := by
  rcases unpack_of_finite ha with ⟨hma, hua⟩ | ⟨hma, hca, hua⟩ <;>
    rcases unpack_of_finite hb with ⟨hmb, hub⟩ | ⟨hmb, hcb, hub⟩ <;> rw [hua, hub]
  · rw [rank_of_zero hma, rank_of_zero hmb]
    rfl
  · rw [rank_of_zero hma]
    exact compare_zero_finite hcb hmb
  · rw [rank_of_zero hmb]
    exact compare_finite_zero hca hma
  · exact compare_finite_finite hca hcb hma hmb (compare_decode a b)

theorem le_iff_rank (ha : a.isFinite = true) (hb : b.isFinite = true) : a ≤ b ↔ rank a ≤ rank b := by
  rw [le_iff, compare_of_finite ha hb]
  exact Int.isLE_compare

theorem beq_iff_rank (ha : a.isFinite = true) (hb : b.isFinite = true) : (a == b) = true ↔ rank a = rank b := by
  show (a.toModel.unpack.compare b.toModel.unpack == some .eq) = true ↔ _
  rw [compare_of_finite ha hb, beq_iff_eq, Option.some_inj, Int.compare_eq_eq]

theorem isFinite_of_compare_eq {x y : UnpackedFloat} (hx : x.isFinite = true) (h : x.compare y = some .eq) :
    y.isFinite = true := by
  cases y with
  | zero | finite => rfl
  | notANumber => rw [compare_eq_none_iff.mpr (.inr rfl)] at h; cases h
  | infinity t => cases x with
    | notANumber | infinity => cases hx
    | zero | finite => cases t <;> cases h

theorem isFinite_of_beq (ha : a.isFinite = true) (h : (a == b) = true) : b.isFinite = true :=
  isFinite_of_compare_eq ha (beq_iff_eq.mp h)

/-! ## Differences -/

theorem sub_self_unpacked {x : UnpackedFloat} (h : x.isFinite = true) :
    x.sub .binary64 x = .zero .positive := by
  cases x with
  | notANumber | infinity => cases h
  | zero s => cases s <;> rfl
  | finite s m e hm =>
    show UnpackedFloat.normalize .binary64 (s.apply _ - s.apply _) _ .positive = _
    rw [Int.sub_self]
    rfl

theorem sub_self_of_finite (h : a.isFinite = true) : a - a = 0.0 := by
  show Float.ofModel (Float.Model.pack (UnpackedFloat.sub .binary64 a.toModel.unpack a.toModel.unpack)) = 0.0
  rw [sub_self_unpacked h]
  decide

/-! ## The order by the bits -/

theorem magnitude_eq (x : Float) : magnitude x = x.toBits.toNat % 2 ^ 63 := by
  unfold magnitude exponentField fraction
  omega

theorem toNat_toBits (x : Float) : x.toBits.toNat = magnitude x + if isNegative x then 2 ^ 63 else 0 := by
  have hlt : x.toBits.toNat < 2 ^ 64 := x.toBits.toBitVec.isLt
  rw [isNegative_eq, magnitude_eq]
  split <;> rename_i htop <;> rw [decide_eq_true_eq] at htop <;> omega

theorem key_of_negative (h : isNegative x = true) : totalLe.key x = -(magnitude x : Int) - 1 := by
  rw [magnitude_eq]
  exact if_pos h

theorem key_of_positive (h : isNegative x = false) : totalLe.key x = magnitude x := by
  have hkey : totalLe.key x = x.toBits.toNat := if_neg (ne_true_of_eq_false h)
  rw [hkey, toNat_toBits, if_neg (ne_true_of_eq_false h), Nat.add_zero]

theorem rank_of_negative (h : isNegative x = true) : rank x = -(magnitude x : Int) := by
  rw [rank, sign, if_pos h, signed]

theorem rank_of_positive (h : isNegative x = false) : rank x = magnitude x := by
  rw [rank, sign, if_neg (ne_true_of_eq_false h), signed]

theorem eq_of_key_eq (h : totalLe.key a = totalLe.key b) : a = b := by
  have hbits : a.toBits.toNat = b.toBits.toNat := by
    rw [toNat_toBits, toNat_toBits]
    cases hna : isNegative a <;> cases hnb : isNegative b <;>
      simp only [key_of_negative, key_of_positive, hna, hnb, Bool.false_eq_true, if_true, if_false] at h ⊢ <;> omega
  cases a with | _ m => cases b with | _ n =>
    cases m
    cases n
    cases UInt64.toNat_inj.mp hbits
    rfl

/-- What is not behind another double by its bits is not above it. -/
theorem le_of_totalLe (ha : a.isFinite = true) (hb : b.isFinite = true) (h : totalLe a b = true) : a ≤ b := by
  have h : totalLe.key a ≤ totalLe.key b := of_decide_eq_true h
  rw [le_iff_rank ha hb]
  cases hna : isNegative a <;> cases hnb : isNegative b <;>
    simp only [key_of_negative, key_of_positive, rank_of_negative, rank_of_positive, hna, hnb] at h ⊢ <;> omega

theorem rank_zero : rank 0.0 = 0 := by
  decide

theorem beq_zero_iff (ha : a.isFinite = true) : (a == 0.0) = true ↔ rank a = 0 := by
  rw [beq_iff_rank ha (by decide), rank_zero]

/-- Finite doubles that are equal are the same, but for the zeros. -/
theorem eq_of_beq_of_finite (ha : a.isFinite = true) (hb : b.isFinite = true) (h : (a == b) = true)
    (hne : (b == 0.0) = false) : a = b := by
  have hne : rank b ≠ 0 := mt (beq_zero_iff hb).mpr (ne_true_of_eq_false hne)
  rw [beq_iff_rank ha hb] at h
  apply eq_of_key_eq
  cases hna : isNegative a <;> cases hnb : isNegative b <;>
    simp only [key_of_negative, key_of_positive, rank_of_negative, rank_of_positive, hna, hnb] at h hne ⊢ <;> omega

theorem eq_zero_or_of_beq_zero (ha : a.isFinite = true) (h : (a == 0.0) = true) : a = 0.0 ∨ a = -0.0 := by
  rw [beq_zero_iff ha] at h
  cases hna : isNegative a with
  | false =>
    left
    apply eq_of_key_eq
    rw [rank_of_positive hna] at h
    rw [key_of_positive hna, h]
    decide
  | true =>
    right
    apply eq_of_key_eq
    rw [rank_of_negative hna] at h
    rw [key_of_negative hna, h]
    decide

/-! ## Signs -/

section Fields

variable (s : Sign) (e : BitVec 11) (m : BitVec 52)

/-- What a double with a sign, an exponent field and a fraction is taken apart to. -/
def ofFields : UnpackedFloat :=
  if e = -1#11 then if m = 0#52 then .infinity s else .notANumber
  else if e = 0#11 then
    if h : m = 0#52 then .zero s else .finite s m.toNat (-1074) (Nat.pos_of_ne_zero fun h0 => h (BitVec.toNat_inj.mp h0))
  else .finite s (2 ^ 52 + m.toNat) (e.toNat - 1075) (by omega)

theorem unpack_eq_ofFields (b : BitVec 64) :
    UnpackedFloat.unpack .binary64 b =
      ofFields (Sign.ofBitVec (@unpackSign .binary64 b)) (@unpackExponent .binary64 b) (@unpackMantissa .binary64 b) := by
  have hsignificand (m : BitVec 52) : (1#1 ++ m).toNat = 2 ^ 52 + m.toNat := by
    rw [BitVec.toNat_append, ← Nat.shiftLeft_add_eq_or_of_lt (BitVec.isLt _)]
    rfl
  unfold UnpackedFloat.unpack ofFields
  dsimp only
  split
  · rfl
  · split
    · rename_i hzero
      simp only [hzero]
      rfl
    · simp only [hsignificand]
      rfl

theorem neg_ofFields : (ofFields s e m).neg = ofFields (-s) e m := by
  unfold ofFields
  split
  · split <;> rfl
  · split
    · split <;> rfl
    · rfl

theorem toBitVec_ofBitVec (v : BitVec 1) : (Sign.ofBitVec v).toBitVec = v := by
  rcases BitVec.eq_zero_or_eq_one v with rfl | rfl <;> rfl

theorem packComponents_fields (b : BitVec 64) :
    packComponents .binary64 (Sign.ofBitVec (@unpackSign .binary64 b)) (@unpackExponent .binary64 b)
      (@unpackMantissa .binary64 b) = b := by
  rw [packComponents, toBitVec_ofBitVec]
  ext i hi
  simp only [unpackSign, unpackExponent, unpackMantissa, BitVec.extractLsb]
  grind

theorem sign_packComponents : Sign.ofBitVec (@unpackSign .binary64 (packComponents .binary64 s e m)) = s := by
  have hbits : @unpackSign .binary64 (packComponents .binary64 s e m) = s.toBitVec := by
    ext i hi
    simp only [unpackSign, packComponents, BitVec.extractLsb]
    grind
  rw [hbits]
  cases s <;> rfl

/-- A double is its fields put together; one that is no number has only one form. -/
theorem pack_ofFields (h : e = -1#11 → m = 0#52) :
    UnpackedFloat.pack .binary64 (ofFields s e m) = packComponents .binary64 s e m := by
  have hm := m.isLt
  unfold ofFields
  split
  · rename_i he
    rw [if_pos (h he), he, h he]
    rfl
  · rename_i hfull
    have hlog {n : Nat} (hn : n ≠ 0) : n.log2 + 1 = Float.Model.Format.binary64.mantissaBits ↔ 2 ^ 52 ≤ n ∧ n < 2 ^ 53 := by
      have hbits : Float.Model.Format.binary64.mantissaBits = 53 := by decide
      rw [← Nat.le_log2 hn, ← Nat.log2_lt hn, hbits]
      omega
    split
    · rename_i he
      split
      · rename_i hzero
        rw [he, hzero]
        rfl
      · rename_i hzero
        have hn : m.toNat ≠ 0 := fun h0 => hzero (BitVec.toNat_inj.mp h0)
        rw [UnpackedFloat.pack]
        dsimp only
        rw [if_neg (by decide), if_neg (by rw [hlog hn]; omega), he, BitVec.ofNat_toNat, BitVec.setWidth_eq]
    · rename_i hsmall
      have he := e.isLt
      have hfull : e.toNat ≠ 2047 := fun h0 => hfull (BitVec.toNat_inj.mp h0)
      have hexponent : ((e.toNat : Int) - 1075 + (Float.Model.Format.binary64.exponentBias : Nat) +
          (Float.Model.Format.binary64.mantissaBitsWithoutImplicit : Nat)).toNat = e.toNat := by
        show ((e.toNat : Int) - 1075 + 1023 + 52).toNat = e.toNat
        omega
      rw [UnpackedFloat.pack]
      dsimp only
      rw [hexponent, if_neg (show ¬ 2 ^ 11 ≤ e.toNat + 1 by omega), if_pos (by rw [hlog (by omega)]; omega)]
      congr 1
      · rw [BitVec.ofNat_toNat, BitVec.setWidth_eq]
      · apply BitVec.eq_of_toNat_eq
        rw [BitVec.toNat_ofNat]
        omega

end Fields

/-- Two changes of the sign leave a double as it is, also one that is no number. -/
theorem neg_twice (x : Float) : - -x = x := by
  have hext {a b : Float} (h : a.toBits.toBitVec = b.toBits.toBitVec) : a = b := by
    cases a with | _ m => cases b with | _ n =>
      cases m
      cases n
      cases UInt64.toBitVec_inj.mp h
      rfl
  apply hext
  obtain ⟨⟨⟨bits⟩, hvalid⟩⟩ := x
  show UnpackedFloat.pack .binary64 (UnpackedFloat.unpack .binary64
    (UnpackedFloat.pack .binary64 (UnpackedFloat.unpack .binary64 bits).neg)).neg = bits
  by_cases hnan : @unpackExponent .binary64 bits = -1#11 ∧ @unpackMantissa .binary64 bits ≠ 0#52
  · have hbits : bits = packedNaN .binary64 := hvalid.eq_packedNaN hnan.1 hnan.2
    rw [hbits]
    rfl
  · have hfields : @unpackExponent .binary64 bits = -1#11 → @unpackMantissa .binary64 bits = 0#52 :=
      fun he => by_contra fun hm => hnan ⟨he, hm⟩
    have hsign (s : Sign) : - -s = s := by
      cases s <;> rfl
    rw [unpack_eq_ofFields bits, neg_ofFields, pack_ofFields _ _ _ hfields, unpack_eq_ofFields, sign_packComponents,
      unpackExponent_packComponents, unpackMantissa_packComponents, neg_ofFields, pack_ofFields _ _ _ hfields, hsign,
      packComponents_fields]

end Sketchwork.Real64
