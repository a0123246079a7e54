import LinkAdaptation.Link
import Mathlib

/-! The order of floating-point numbers, as far as the draws of a link depend on
it: it is transitive, what is not a number has no place in it, and no quotient
of numbers without a minus sign is below zero. -/

namespace LinkAdaptation

open Float.Model (UnpackedFloat Format)

section Comparison

/-- The order of numbers of one sign: exponents first, then mantissas. -/
def compareMagnitude : Int × Nat → Int × Nat → Ordering :=
  compareLex (compareOn Prod.fst) (compareOn Prod.snd)

instance : Std.TransCmp compareMagnitude :=
  inferInstanceAs (Std.TransCmp (compareLex (compareOn Prod.fst) (compareOn Prod.snd)))

theorem compare_positive (m n : Nat) (e f : Int) (hm : 0 < m) (hn : 0 < n) :
    (UnpackedFloat.finite .positive m e hm).compare (.finite .positive n f hn) =
      some (compareMagnitude (e, m) (f, n)) :=
  rfl

theorem compare_negative (m n : Nat) (e f : Int) (hm : 0 < m) (hn : 0 < n) :
    (UnpackedFloat.finite .negative m e hm).compare (.finite .negative n f hn) =
      some (compareMagnitude (e, m) (f, n)).swap :=
  rfl

theorem unpacked_lt_of_lt_of_le {x p q : UnpackedFloat} (hx : x.lt p = true)
    (hp : p.le q = true) : x.lt q = true := by
  -- the signs decide, unless all three numbers are finite and on the same side of zero
  rcases x with (_ | _) | _ | _ | ⟨_ | _, m, e, _⟩ <;>
    rcases p with (_ | _) | _ | _ | ⟨_ | _, n, f, _⟩ <;>
    rcases q with (_ | _) | _ | _ | ⟨_ | _, k, g, _⟩ <;>
    first
    | rfl
    | exact (Bool.false_ne_true hx).elim
    | exact (Bool.false_ne_true hp).elim
    | rw [UnpackedFloat.lt] at hx ⊢
      rw [UnpackedFloat.le] at hp
  case finite.negative.finite.negative.finite.negative =>
    rw [compare_negative] at hx hp ⊢
    have hgt : compareMagnitude (e, m) (f, n) = .gt := by simpa using hx
    have hge : (compareMagnitude (f, n) (g, k)).isGE = true := by simpa using hp
    rw [Std.TransCmp.gt_of_gt_of_isGE hgt hge]
    rfl
  case finite.positive.finite.positive.finite.positive =>
    rw [compare_positive] at hx hp ⊢
    have hlt : compareMagnitude (e, m) (f, n) = .lt := by simpa using hx
    have hle : (compareMagnitude (f, n) (g, k)).isLE = true := by simpa using hp
    rw [Std.TransCmp.lt_of_lt_of_isLE hlt hle]
    rfl

theorem Float.lt_of_lt_of_le {x p q : Float} (hx : x < p) (hp : p ≤ q) : x < q :=
  decide_eq_true_iff.mpr
    (unpacked_lt_of_lt_of_le (decide_eq_true_iff.mp hx) (decide_eq_true_iff.mp hp))

/-- Nothing is below what is not a number. -/
theorem Float.not_lt_of_isNaN {p : Float} (h : p.isNaN = true) (x : Float) : ¬ x < p := by
  have hnan : p.toModel.unpack.isNaN = true := h
  have hno : x.toModel.unpack.lt p.toModel.unpack = false := by
    generalize p.toModel.unpack = q at hnan
    cases q with
    | notANumber => cases x.toModel.unpack <;> rfl
    | infinity | zero | finite => cases hnan
  exact fun hx => Bool.false_ne_true (hno.symm.trans (decide_eq_true_iff.mp hx))

end Comparison

section Signs

open Float.Model.UnpackedFloat

/-- A number that is written without a minus sign. -/
def plain : UnpackedFloat → Bool
  | .infinity .negative | .zero .negative | .finite .negative .. => false
  | _ => true

theorem unpackSign_pack {spec : Format} {u : UnpackedFloat} (h : plain u = true) :
    unpackSign (u.pack spec) = Sign.positive.toBitVec := by
  rcases u with (_ | _) | _ | (_ | _) | ⟨_ | _, m, e, _⟩
  case finite.positive =>
    simp only [pack]
    split_ifs <;> exact unpackSign_packComponents _ _ _
  all_goals
    first
    | exact (Bool.false_ne_true h).elim
    | exact unpackSign_packComponents _ _ _

theorem plain_unpack {spec : Format} {b : BitVec spec.numBits}
    (h : unpackSign b = Sign.positive.toBitVec) : plain (unpack spec b) = true := by
  have hsign : Sign.ofBitVec (unpackSign b) = .positive := by
    rw [h, Sign.ofBitVec_toBitVec]
  simp only [unpack, hsign]
  split_ifs <;> rfl

theorem plain_pack {u : UnpackedFloat} (h : plain u = true) :
    plain (Float.Model.pack u).unpack = true :=
  plain_unpack (unpackSign_pack h)

theorem plain_roundWithAccuracy (spec : Format) (m : Nat) (e : Int) (accuracy : Accuracy) :
    plain (roundWithAccuracy spec .positive m e accuracy) = true := by
  simp only [roundWithAccuracy]
  split_ifs <;> rfl

theorem plain_ofNat (spec : Format) (n : Nat) : plain (ofNat spec n) = true := by
  rcases n with _ | n
  · rfl
  · exact plain_roundWithAccuracy spec _ _ _

theorem plain_div {spec : Format} {u v : UnpackedFloat} (hu : plain u = true)
    (hv : plain v = true) : plain (div spec u v) = true := by
  rcases u with (_ | _) | _ | (_ | _) | ⟨_ | _, m, e, _⟩ <;>
    rcases v with (_ | _) | _ | (_ | _) | ⟨_ | _, n, f, _⟩ <;>
    first
    | rfl
    | exact (Bool.false_ne_true hu).elim
    | exact (Bool.false_ne_true hv).elim
    | exact plain_roundWithAccuracy _ _ _ _

theorem lt_zero_of_plain {u : UnpackedFloat} (h : plain u = true) :
    u.lt (.zero .positive) = false := by
  rcases u with (_ | _) | _ | (_ | _) | ⟨_ | _, m, e, _⟩ <;>
    first
    | rfl
    | exact (Bool.false_ne_true h).elim

/-- No draw is below zero. -/
theorem KeyStream.not_draw_lt_zero (s : KeyStream) : ¬ s.draw.1 < 0.0 := by
  have hone : plain (9007199254740992.0 : Float).toModel.unpack = true := by decide +kernel
  have hzero : (0.0 : Float).toModel.unpack = .zero .positive := rfl
  have hdraw : plain s.draw.1.toModel.unpack = true :=
    plain_pack (plain_div (plain_pack (plain_ofNat _ _)) hone)
  intro hlt
  have hlt' : s.draw.1.toModel.unpack.lt (0.0 : Float).toModel.unpack = true :=
    decide_eq_true_iff.mp hlt
  rw [hzero, lt_zero_of_plain hdraw] at hlt'
  exact Bool.false_ne_true hlt'

end Signs

end LinkAdaptation
