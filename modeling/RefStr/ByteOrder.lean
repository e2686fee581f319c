import Mathlib

/-!
# Words as byte strings

The bytes of a word in either byte order, and the word that a byte string
spells. Both conversions are determined bit by bit, and they are inverse to each
other on strings of the right length.
-/
namespace ByteOrder

inductive Endian
  | little
  | big
  deriving DecidableEq, Repr

/-- The `n` low bytes of a word, least significant first. -/
def leBytes {w : ℕ} (n : ℕ) (x : BitVec w) : List UInt8 :=
  (List.range n).map fun k => UInt8.ofBitVec ((x >>> (8 * k)).setWidth 8)

def ofLeBytes (w : ℕ) : List UInt8 → BitVec w
  | [] => 0#w
  | b :: bs => b.toBitVec.setWidth w ||| (ofLeBytes w bs <<< 8)

/-- The `n` bytes of a word in memory order. -/
def toNeBytes {w : ℕ} (e : Endian) (n : ℕ) (x : BitVec w) : List UInt8 :=
  match e with
  | .little => leBytes n x
  | .big => (leBytes n x).reverse

def ofNeBytes (e : Endian) (w : ℕ) (bs : List UInt8) : BitVec w :=
  match e with
  | .little => ofLeBytes w bs
  | .big => ofLeBytes w bs.reverse

section LittleEndian
variable {w : ℕ}

@[simp] theorem leBytes_length (n : ℕ) (x : BitVec w) : (leBytes n x).length = n := by
  simp [leBytes]

theorem leBytes_getD {n k : ℕ} (x : BitVec w) (hk : k < n) :
    (leBytes n x).getD k 0 = UInt8.ofBitVec ((x >>> (8 * k)).setWidth 8) := by
  simp [leBytes, List.getD_eq_getElem?_getD, hk]

/-- Bit `i` of the word is bit `i % 8` of byte `i / 8`. -/
theorem getLsbD_ofLeBytes (bs : List UInt8) (i : ℕ) :
    (ofLeBytes w bs).getLsbD i =
      (decide (i < w) && (bs.getD (i / 8) 0).toBitVec.getLsbD (i % 8)) := by
  induction bs generalizing i with
  | nil => simp [ofLeBytes]
  | cons b bs ih =>
    rw [ofLeBytes, BitVec.getLsbD_or, BitVec.getLsbD_setWidth, BitVec.getLsbD_shiftLeft, ih]
    rcases Nat.lt_or_ge i 8 with hi | hi
    · simp [hi, Nat.div_eq_of_lt hi, Nat.mod_eq_of_lt hi]
    · obtain ⟨j, rfl⟩ : ∃ j, i = j + 8 := ⟨i - 8, by omega⟩
      have hdiv : (j + 8) / 8 = j / 8 + 1 := by omega
      simp only [hdiv, Nat.add_mod_right, List.getD_cons_succ, Nat.add_sub_cancel,
        BitVec.getLsbD_of_ge b.toBitVec (j + 8) hi, Bool.and_false, Bool.false_or]
      by_cases hw : j + 8 < w
      · simp [hw, show j < w by omega]
      · simp [hw]

theorem leBytes_ofLeBytes {n : ℕ} {bs : List UInt8} (hlen : bs.length = n) (hw : 8 * n ≤ w) :
    leBytes n (ofLeBytes w bs) = bs := by
  apply List.ext_getElem (by simp [hlen])
  intro k hk hk'
  have hkn : k < n := by simpa using hk
  rw [← List.getD_eq_getElem _ 0 hk, leBytes_getD _ hkn]
  apply UInt8.toBitVec_inj.mp
  apply BitVec.eq_of_getLsbD_eq
  intro j hj
  rw [BitVec.getLsbD_setWidth, BitVec.getLsbD_ushiftRight, getLsbD_ofLeBytes]
  have hdiv : (8 * k + j) / 8 = k := by omega
  have hmod : (8 * k + j) % 8 = j := by omega
  simp [hdiv, hmod, hj, hk', show 8 * k + j < w by omega]

end LittleEndian

section Native
variable {w : ℕ} (e : Endian)

@[simp] theorem toNeBytes_length (n : ℕ) (x : BitVec w) : (toNeBytes e n x).length = n := by
  cases e <;> simp [toNeBytes]

theorem toNeBytes_ofNeBytes {n : ℕ} {bs : List UInt8} (hlen : bs.length = n) (hw : 8 * n ≤ w) :
    toNeBytes e n (ofNeBytes e w bs) = bs := by
  cases e with
  | little => exact leBytes_ofLeBytes hlen hw
  | big =>
    simp only [toNeBytes, ofNeBytes]
    rw [leBytes_ofLeBytes (by simpa using hlen) hw, List.reverse_reverse]

/-- The position in the word of the byte that comes last in memory. -/
def lastShift (n : ℕ) : ℕ :=
  match e with
  | .little => 8 * (n - 1)
  | .big => 0

/-- The last byte in memory is the most significant one in little-endian order
and the least significant one in big-endian order. -/
theorem getLsbD_last_toNeBytes {n : ℕ} (x : BitVec w) (hn : 0 < n) {j : ℕ} (hj : j < 8) :
    ((toNeBytes e n x).getD (n - 1) 0).toBitVec.getLsbD j = x.getLsbD (lastShift e n + j) := by
  cases e with
  | little =>
    rw [toNeBytes, leBytes_getD x (by omega), BitVec.getLsbD_setWidth,
      BitVec.getLsbD_ushiftRight]
    simp [hj, lastShift]
  | big =>
    have hlast : (leBytes n x).reverse.getD (n - 1) 0 = (leBytes n x).getD 0 0 := by
      rw [List.getD_eq_getElem?_getD, List.getElem?_reverse (by simp; omega)]
      simp
    rw [toNeBytes, hlast, leBytes_getD x hn, BitVec.getLsbD_setWidth,
      BitVec.getLsbD_ushiftRight]
    simp [hj, lastShift]

end Native

end ByteOrder
