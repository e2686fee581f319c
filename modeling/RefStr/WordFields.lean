import Mathlib

/-!
# Bit fields of a machine word

A field is a range of consecutive bits of a `w`-bit word. Values are packed by
shifting and or-ing, and read back by masking and shifting; the lemmas say when
packed fields do not disturb each other. The width is arbitrary.
-/
namespace WordFields

/-- `(1 << n) - 1` is the word of `n` one bits, also when `n` is the whole width. -/
theorem ones_eq {w n : ℕ} (h : n ≤ w) : (1#w <<< n) - 1#w = BitVec.ofNat w (2 ^ n - 1) := by
  have hp := Nat.one_le_two_pow (n := n)
  apply BitVec.eq_of_toNat_eq
  rcases Nat.lt_or_ge n w with hn | hn
  · have hlt : 2 ^ n < 2 ^ w := Nat.pow_lt_pow_right (by omega) hn
    have h1 : 1 % 2 ^ w = 1 := Nat.mod_eq_of_lt (by omega)
    simp only [BitVec.toNat_sub, BitVec.toNat_shiftLeft, BitVec.toNat_ofNat, h1,
      Nat.one_shiftLeft, Nat.mod_eq_of_lt hlt]
    rw [show 2 ^ w - 1 + 2 ^ n = 2 ^ w + (2 ^ n - 1) by omega, Nat.add_mod_left]
  · obtain rfl : n = w := by omega
    rw [BitVec.shiftLeft_eq_zero (by omega)]
    rcases Nat.eq_zero_or_pos n with rfl | hpos
    · rfl
    · have hlt : 1 < 2 ^ n := Nat.one_lt_two_pow (by omega)
      simp only [BitVec.toNat_sub, BitVec.toNat_ofNat, Nat.mod_eq_of_lt hlt]
      simp

/-- The mask `((1 << n) - 1) << s` selects the bits `s, …, s + n - 1`. -/
theorem getLsbD_shifted_ones {w : ℕ} (n s i : ℕ) (h : s + n ≤ w) :
    (((1#w <<< n) - 1#w) <<< s).getLsbD i = (decide (s ≤ i) && decide (i < s + n)) := by
  rw [ones_eq (by omega)]
  simp only [BitVec.getLsbD_shiftLeft, BitVec.getLsbD_ofNat, Nat.testBit_two_pow_sub_one]
  by_cases hs : s ≤ i <;> by_cases hi : i < s + n <;> simp [hs, hi] <;> omega

theorem shifted_two_pow {w : ℕ} (k s : ℕ) :
    BitVec.ofNat w (2 ^ k) <<< s = BitVec.twoPow w (s + k) := by
  apply BitVec.eq_of_getLsbD_eq
  intro i hi
  simp only [BitVec.getLsbD_shiftLeft, BitVec.getLsbD_ofNat, BitVec.getLsbD_twoPow,
    Nat.testBit_two_pow]
  rcases Nat.lt_or_ge i s with h | h
  · simp [h, show s + k ≠ i by omega]
  · by_cases hk : k = i - s
    · simp [hi, hk, Nat.not_lt.mpr h, show i - s < w by omega, show s + (i - s) = i by omega]
    · simp [hk, show s + k ≠ i by omega]

theorem getLsbD_shifted {w : ℕ} (v : BitVec w) (s i : ℕ) :
    (v <<< s).getLsbD i = (decide (i < w) && decide (s ≤ i) && v.getLsbD (i - s)) := by
  rw [BitVec.getLsbD_shiftLeft]
  by_cases h : i < s
  · simp [h, Nat.not_le.mpr h]
  · simp [h, Nat.not_lt.mp h]

theorem getLsbD_of_lt_two_pow {w n i : ℕ} {v : BitVec w} (hv : v.toNat < 2 ^ n) (hi : n ≤ i) :
    v.getLsbD i = false :=
  Nat.testBit_lt_two_pow (hv.trans_le (Nat.pow_le_pow_right (by omega) hi))

/-- Testing one mask bit: `x & (1 << i) ≠ 0`. -/
theorem and_twoPow_ne_zero {w : ℕ} (x : BitVec w) (i : ℕ) (h : i < w) :
    x &&& BitVec.twoPow w i ≠ 0#w ↔ x.getLsbD i = true := by
  have hp : BitVec.twoPow w i ≠ 0#w := by
    intro hz
    have := congrArg (BitVec.getLsbD · i) hz
    simp [h] at this
  rw [BitVec.and_twoPow]
  split_ifs with hx <;> simp [hx, hp]

/-- A contiguous range of bits of a `w`-bit word. -/
structure Field (w : ℕ) where
  shift : ℕ
  width : ℕ
  fits : shift + width ≤ w

namespace Field
variable {w : ℕ} (f g : Field w)

def mask : BitVec w := ((1#w <<< f.width) - 1#w) <<< f.shift

def get (x : BitVec w) : BitVec w := (x &&& f.mask) >>> f.shift

def put (v : BitVec w) : BitVec w := v <<< f.shift

/-- The value needs no more bits than the field has. -/
def Holds (v : BitVec w) : Prop := v.toNat < 2 ^ f.width

def Apart : Prop := f.shift + f.width ≤ g.shift ∨ g.shift + g.width ≤ f.shift

theorem Apart.symm {f g : Field w} (h : f.Apart g) : g.Apart f := Or.symm h

theorem getLsbD_get (x : BitVec w) (i : ℕ) :
    (f.get x).getLsbD i = (decide (i < f.width) && x.getLsbD (f.shift + i)) := by
  rw [get, mask, BitVec.getLsbD_ushiftRight, BitVec.getLsbD_and,
    getLsbD_shifted_ones _ _ _ f.fits]
  by_cases h : i < f.width <;> simp [h]

theorem getLsbD_put (v : BitVec w) (i : ℕ) :
    (f.put v).getLsbD i = (decide (i < w) && decide (f.shift ≤ i) && v.getLsbD (i - f.shift)) :=
  getLsbD_shifted v f.shift i

theorem getLsbD_put_outside {v : BitVec w} (hv : f.Holds v) {i : ℕ}
    (hi : i < f.shift ∨ f.shift + f.width ≤ i) : (f.put v).getLsbD i = false := by
  rw [getLsbD_put]
  rcases hi with hi | hi
  · simp [Nat.not_le.mpr hi]
  · rw [getLsbD_of_lt_two_pow (n := f.width) hv (by omega)]
    simp

theorem get_or (x y : BitVec w) : f.get (x ||| y) = f.get x ||| f.get y := by
  apply BitVec.eq_of_getLsbD_eq
  intro i _
  simp only [getLsbD_get, BitVec.getLsbD_or, Bool.and_or_distrib_left]

theorem get_put {v : BitVec w} (hv : f.Holds v) : f.get (f.put v) = v := by
  apply BitVec.eq_of_getLsbD_eq
  intro i hi
  rw [getLsbD_get, getLsbD_put]
  by_cases h : i < f.width
  · have := f.fits
    simp [h, show f.shift + i < w by omega]
  · simp [h, getLsbD_of_lt_two_pow (n := f.width) hv (Nat.not_lt.mp h)]

theorem get_eq_zero {x : BitVec w}
    (h : ∀ i, f.shift ≤ i → i < f.shift + f.width → x.getLsbD i = false) : f.get x = 0#w := by
  apply BitVec.eq_of_getLsbD_eq
  intro i _
  rw [getLsbD_get, BitVec.getLsbD_zero]
  by_cases hi : i < f.width
  · simp [h (f.shift + i) (by omega) (by omega)]
  · simp [hi]

theorem put_or (v v' : BitVec w) : f.put v ||| f.put v' = f.put (v ||| v') :=
  (BitVec.shiftLeft_or_distrib v v' f.shift).symm

/-- Placing a value in one field leaves the others zero. -/
theorem get_put_of_apart {v : BitVec w} (h : f.Apart g) (hv : g.Holds v) :
    f.get (g.put v) = 0#w := by
  apply f.get_eq_zero
  intro i h1 h2
  apply g.getLsbD_put_outside hv
  rcases h with h | h <;> omega

/-- A masked word is compared with a placed value bit by bit. -/
theorem and_mask_eq_put_iff {x v : BitVec w} (hv : f.Holds v) :
    x &&& f.mask = f.put v ↔ ∀ k < f.width, x.getLsbD (f.shift + k) = v.getLsbD k := by
  have hfit := f.fits
  have hbit : ∀ i, (x &&& f.mask).getLsbD i =
      (x.getLsbD i && (decide (f.shift ≤ i) && decide (i < f.shift + f.width))) := by
    intro i
    rw [BitVec.getLsbD_and, mask, getLsbD_shifted_ones _ _ _ hfit]
  constructor
  · intro h k hk
    have hb := hbit (f.shift + k)
    rw [h, getLsbD_put] at hb
    simpa [hk, show f.shift + k < w by omega] using hb.symm
  · intro h
    apply BitVec.eq_of_getLsbD_eq
    intro i hi
    by_cases hin : f.shift ≤ i ∧ i < f.shift + f.width
    · have hk := h (i - f.shift) (by omega)
      rw [show f.shift + (i - f.shift) = i by omega] at hk
      rw [hbit, getLsbD_put, hk]
      simp [hin, hi]
    · rw [hbit, f.getLsbD_put_outside hv (by omega)]
      by_cases h1 : f.shift ≤ i
      · simp [show ¬ i < f.shift + f.width by omega]
      · simp [h1]

end Field

end WordFields
