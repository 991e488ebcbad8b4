import Mathlib
import StaticSite.Value.Number

/-!
# Integers that wrap around

An integer of 64 bits is an integer wrapped around.  Bits, shifts to the left and powers can be
taken before or after wrapping, as sums and products can.  Of a power this holds for repeated
squaring too, although most of the squares have wrapped around.  Quotients, remainders and shifts
to the right are those of the integers themselves.
-/

namespace StaticSite
namespace Int64

/-! ## Bits -/

/-- The bits of a wrapped integer are the last bits of its two's complement. -/
theorem getElem_ofInt {width position : Nat} (x : Int) (inside : position < width) :
    (BitVec.ofInt width x)[position] = x.testBit position := by
  have natural (n : Nat) : (BitVec.ofNat width n)[position] = n.testBit position := by
    rw [BitVec.getElem_eq_testBit_toNat, BitVec.toNat_ofNat, Nat.testBit_mod_two_pow]
    simp [inside]
  cases x with
  | ofNat n => simp [Int.testBit, natural]
  | negSucc n => simp [Int.testBit, BitVec.ofInt_negSucc_eq_not_ofNat, natural]

theorem ofInt_eq_of_bits {x : Int} {wrapped : Int64}
    (same : ∀ (position : Nat) (inside : position < 64),
      wrapped.toBitVec[position] = x.testBit position) :
    Int64.ofInt x = wrapped := by
  refine Int64.toBitVec_inj.mp (BitVec.eq_of_getElem_eq fun position inside => ?_)
  rw [Int64.toBitVec_ofInt, getElem_ofInt, same position inside]

theorem ofInt_lnot (x : Int) : Int64.ofInt (Int.lnot x) = ~~~Int64.ofInt x :=
  ofInt_eq_of_bits fun position inside => by simp [getElem_ofInt]

theorem ofInt_land (x y : Int) :
    Int64.ofInt (Int.land x y) = Int64.ofInt x &&& Int64.ofInt y :=
  ofInt_eq_of_bits fun position inside => by simp [getElem_ofInt]

theorem ofInt_lor (x y : Int) :
    Int64.ofInt (Int.lor x y) = Int64.ofInt x ||| Int64.ofInt y :=
  ofInt_eq_of_bits fun position inside => by simp [getElem_ofInt]

theorem ofInt_xor (x y : Int) :
    Int64.ofInt (Int.xor x y) = Int64.ofInt x ^^^ Int64.ofInt y :=
  ofInt_eq_of_bits fun position inside => by simp [getElem_ofInt]

/-! ## Shifts -/

/-- A count, negative or not, shifts by its remainder. -/
theorem toNat_smod (count : Int64) :
    (count.toBitVec.smod 64).toNat = (count.toInt % 64).toNat := by
  have signed : (count.toBitVec.smod 64).toInt = count.toInt % 64 := by
    rw [BitVec.toInt_smod]
    exact Int.fmod_eq_emod_of_nonneg count.toInt (by decide)
  have bound := (count.toBitVec.smod 64).isLt
  rw [BitVec.toInt_eq_toNat_cond] at signed
  split at signed <;> omega

/-- Wrapping a count leaves its remainder. -/
theorem toInt_ofInt_emod (count : Int) : (Int64.ofInt count).toInt % 64 = count % 64 := by
  have wraps := Int.bmod_emod (x := count) (m := Int64.size)
  rw [Int64.toInt_ofInt, ← Int.emod_emod_of_dvd (count.bmod _) (by decide : 64 ∣ (Int64.size : Int)),
    wraps]
  exact Int.emod_emod_of_dvd count (by decide)

theorem ofInt_shiftLeft (x count : Int) :
    Int64.ofInt (x * 2 ^ (count % 64).toNat) = Int64.ofInt x <<< Int64.ofInt count := by
  have power (n : Nat) : BitVec.ofInt 64 (2 ^ n) = BitVec.twoPow 64 n := by
    refine BitVec.eq_of_toNat_eq ?_
    rw [BitVec.toNat_twoPow, BitVec.toNat_ofInt]
    norm_cast
  refine Int64.toBitVec_inj.mp ?_
  rw [Int64.toBitVec_shiftLeft, BitVec.shiftLeft_eq', toNat_smod, toInt_ofInt_emod,
    BitVec.shiftLeft_eq_mul_twoPow, Int64.toBitVec_ofInt, BitVec.ofInt_mul, power,
    Int64.toBitVec_ofInt]

theorem toInt_shiftRight (a count : Int64) :
    (a >>> count).toInt = a.toInt / 2 ^ (count.toInt % 64).toNat := by
  rw [← Int64.toInt_toBitVec, Int64.toBitVec_shiftRight, BitVec.sshiftRight_eq',
    BitVec.toInt_sshiftRight, toNat_smod, Int.shiftRight_eq_div_pow]
  norm_cast

/-- Without its sign an integer is counted from zero. -/
theorem toNat_toUInt64 (a : Int64) : (a.toUInt64.toNat : Int) = a.toInt % 2 ^ 64 := by
  have signed := BitVec.toInt_eq_toNat_bmod a.toBitVec
  have wraps := Int.bmod_emod (x := (a.toUInt64.toNat : Int)) (m := 2 ^ 64)
  have bound := a.toUInt64.toNat_lt
  rw [Int64.toInt_toBitVec, Int64.toNat_toBitVec] at signed
  omega

theorem toInt_shiftRightUnsigned (a count : Int64) :
    (a.toUInt64 >>> count.toUInt64).toInt64.toInt =
      (a.toInt % 2 ^ 64 / 2 ^ (count.toInt % 64).toNat).bmod (2 ^ 64) := by
  have places : count.toUInt64.toNat % 64 = (count.toInt % 64).toNat := by
    have unsigned := toNat_toUInt64 count
    omega
  rw [← Int64.toInt_toBitVec, UInt64.toBitVec_toInt64, BitVec.toInt_eq_toNat_bmod,
    UInt64.toNat_toBitVec, UInt64.toNat_shiftRight, places, Nat.shiftRight_eq_div_pow,
    ← toNat_toUInt64]
  norm_cast

/-! ## Division -/

/-- A quotient that is cut toward zero and its remainder give the dividend back, even where the
quotient wraps around. -/
theorem div_mul_add_mod (a b : Int64) : a / b * b + a % b = a := by
  have quotient : a / b = .ofInt (a.toInt.tdiv b.toInt) := by
    rw [← Int64.toInt_inj, Int64.toInt_div, Int64.toInt_ofInt]
  have rest : a % b = .ofInt (a.toInt.tmod b.toInt) := by
    rw [← Int64.toInt_mod, Int64.ofInt_toInt]
  calc a / b * b + a % b
      = .ofInt (a.toInt.tdiv b.toInt) * .ofInt b.toInt + .ofInt (a.toInt.tmod b.toInt) := by
        rw [quotient, rest, Int64.ofInt_toInt]
    _ = .ofInt (a.toInt.tdiv b.toInt * b.toInt + a.toInt.tmod b.toInt) := by
        rw [Int64.ofInt_add, Int64.ofInt_mul]
    _ = a := by rw [Int.tdiv_mul_add_tmod, Int64.ofInt_toInt]

theorem abs_toInt_mod_lt (a : Int64) {b : Int64} (nonzero : b ≠ 0) :
    |(a % b).toInt| < |b.toInt| := by
  have positive : 0 < b.toInt.natAbs :=
    Int.natAbs_pos.mpr fun zero => nonzero (Int64.toInt_inj.mp zero)
  rw [Int64.toInt_mod, Int.abs_eq_natAbs, Int.abs_eq_natAbs, Int.natAbs_tmod]
  exact_mod_cast Nat.mod_lt _ positive

theorem sign_toInt_mod {a b : Int64} (nonzero : a % b ≠ 0) :
    (a % b).toInt.sign = a.toInt.sign := by
  have noDivisor : ¬b.toInt ∣ a.toInt := fun divides => by
    refine nonzero (Int64.toInt_inj.mp ?_)
    rw [Int64.toInt_mod]
    exact Int.tmod_eq_zero_of_dvd divides
  rw [Int64.toInt_mod, Int.sign_tmod, if_neg noDivisor]

end Int64

namespace Number

/-! ## Powers -/

/-- Squaring the base halves the exponent, once the product has taken what is odd of it. -/
theorem mul_pow_halved (product base : Int) (exponent : Nat) :
    (if exponent % 2 = 1 then product * base else product) * (base * base) ^ (exponent / 2) =
      product * base ^ exponent := by
  have power : base ^ exponent = (base * base) ^ (exponent / 2) * base ^ (exponent % 2) := by
    rw [← sq, ← pow_mul, ← pow_add, Nat.div_add_mod]
  rw [power]
  rcases Nat.mod_two_eq_zero_or_one exponent with even | odd
  · simp [even]
  · simp only [odd, ↓reduceIte]
    ring

/-- Repeated squaring of wrapped integers wraps the power of the integers. -/
theorem powerFrom_ofInt (product base : Int) (exponent : Nat) :
    powerFrom (.ofInt product) (.ofInt base) exponent = .ofInt (product * base ^ exponent) := by
  -- each round keeps the product times the power that is left
  induction exponent using Nat.strong_induction_on generalizing product base with
  | h exponent induction =>
      rw [powerFrom]
      by_cases done : exponent = 0
      · simp [done]
      · have halves := induction (exponent / 2) (by omega)
          (if exponent % 2 = 1 then product * base else product) (base * base)
        rw [mul_pow_halved, Int64.ofInt_mul base] at halves
        rw [if_neg done, ← halves]
        split <;> simp [Int64.ofInt_mul]

theorem iterate_mul_ofInt (base : Int) (count : Nat) :
    (· * Int64.ofInt base)^[count] 1 = .ofInt (base ^ count) := by
  induction count with
  | zero => simp
  | succ count induction =>
      rw [Function.iterate_succ_apply', induction, pow_succ, Int64.ofInt_mul]

/-- A power to an exponent that is not negative is the power of the integers, wrapped around once,
and what as many multiplications give that all wrap around.  There is no power to a negative
exponent. -/
theorem integerPower_wraps (base exponent : Int64) :
    (0 ≤ exponent → ∃ power, integerPower base exponent = .ok power ∧
      power.toInt = (base.toInt ^ exponent.toInt.toNat).bmod (2 ^ 64) ∧
      power = (· * base)^[exponent.toInt.toNat] 1) ∧
    (exponent < 0 → integerPower base exponent = .error (.arithmetic .negativePower)) := by
  have iterated := iterate_mul_ofInt base.toInt exponent.toInt.toNat
  have squared := powerFrom_ofInt 1 base.toInt exponent.toInt.toNat
  rw [Int64.ofInt_toInt] at iterated squared
  rw [one_mul] at squared
  constructor
  · intro nonnegative
    refine ⟨.ofInt (base.toInt ^ exponent.toInt.toNat), ?_, Int64.toInt_ofInt, iterated.symm⟩
    rw [integerPower, if_neg (Int64.not_lt.mpr nonnegative), ← squared]
    rfl
  · intro negative
    rw [integerPower, if_pos negative]

/-- The power `(-7) ^ 45` has wrapped around, and so have squares on the way to it. -/
theorem integerPower_wraps_odd :
    0 ≤ (45 : Int64) ∧ (-1 : Int64) < 0 ∧
      (∃ power, integerPower (-7) 45 = .ok power ∧ power.toInt = -6418094003492566503 ∧
        power = (· * (-7))^[45] 1) ∧
      integerPower 2 (-1) = .error (.arithmetic .negativePower) := by
  obtain ⟨power, raises, wraps, iterated⟩ := (integerPower_wraps (-7) 45).1 (by decide)
  exact ⟨by decide, by decide, ⟨power, raises, wraps.trans (by decide), iterated⟩,
    (integerPower_wraps 2 (-1)).2 (by decide)⟩

/-- A product of nothing is one. -/
example : integerPower 0 0 = .ok 1 := by cbv

end Number
end StaticSite
