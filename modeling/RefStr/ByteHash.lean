import Mathlib

/-!
# Byte-wise hashes

A hash that reads its input byte by byte is a fold. Where one step can be undone, a common end
of two inputs cancels, and inputs that differ in one byte are told apart. The steps that xor
the byte in and multiply by an odd number are of this kind, at every width of at least one
byte, and the low bits of the hash are the hash at the smaller width.
-/
namespace ByteHash

section Fold
variable {α β γ : Type*} {f : α → β → α} {g : α → γ} {f' : γ → β → γ}

/-- No byte makes the step forget the state. -/
def Reversible (f : α → β → α) : Prop := ∀ b, Function.Injective fun a => f a b

lemma Reversible.foldl (hf : Reversible f) (bs : List β) :
    Function.Injective fun a => bs.foldl f a := by
  induction bs with
  | nil => exact Function.injective_id
  | cons b bs ih => exact ih.comp (hf b)

lemma Reversible.foldl_append_eq_iff (hf : Reversible f) {l l' : List β} (r : List β) (a a' : α) :
    (l ++ r).foldl f a = (l' ++ r).foldl f a' ↔ l.foldl f a = l'.foldl f a' := by
  rw [List.foldl_append, List.foldl_append]
  exact (hf.foldl r).eq_iff

/-- One byte decides, when the step also depends on the byte in every state. -/
lemma Reversible.foldl_ne (hf : Reversible f) (hb : ∀ a, Function.Injective (f a)) {b b' : β}
    (hne : b ≠ b') (l r : List β) (a : α) :
    (l ++ b :: r).foldl f a ≠ (l ++ b' :: r).foldl f a := by
  have hone : ∀ c, l ++ c :: r = (l ++ [c]) ++ r := fun c => List.append_cons l c r
  rw [hone b, hone b', Ne, hf.foldl_append_eq_iff, List.foldl_append, List.foldl_append]
  exact fun h => hne (hb _ h)

end Fold

section XorMul
variable {n m : ℕ}

/-- Xor the byte into the state and multiply. -/
def xorMul (p : BitVec n) (h : BitVec n) (b : UInt8) : BitVec n :=
  (h ^^^ b.toBitVec.setWidth n) * p

lemma mul_right_injective_of_odd {p : BitVec n} (hp : Odd p.toNat) :
    Function.Injective fun h : BitVec n => h * p := by
  intro x y h
  have hmod : x.toNat * p.toNat ≡ y.toNat * p.toNat [MOD 2 ^ n] := by
    have hxy := congrArg BitVec.toNat h
    rwa [BitVec.toNat_mul, BitVec.toNat_mul] at hxy
  have hcop : Nat.Coprime (2 ^ n) p.toNat := (Nat.coprime_two_left.mpr hp).pow_left n
  have hcancel := Nat.ModEq.cancel_right_of_coprime hcop hmod
  refine BitVec.eq_of_toNat_eq ?_
  rwa [Nat.ModEq, Nat.mod_eq_of_lt x.isLt, Nat.mod_eq_of_lt y.isLt] at hcancel

lemma xorMul_reversible {p : BitVec n} (hp : Odd p.toNat) : Reversible (xorMul p) := by
  intro b x y h
  have hxor := mul_right_injective_of_odd hp h
  simpa using hxor

lemma xorMul_injective {p : BitVec n} (hp : Odd p.toNat) (hn : 8 ≤ n) (h : BitVec n) :
    Function.Injective (xorMul p h) := by
  intro b b' hbb
  have hxor : h ^^^ b.toBitVec.setWidth n = h ^^^ b'.toBitVec.setWidth n :=
    mul_right_injective_of_odd hp hbb
  have hwide : b.toBitVec.setWidth n = b'.toBitVec.setWidth n := by simpa using hxor
  have hbyte := congrArg (BitVec.setWidth 8) hwide
  rw [BitVec.setWidth_setWidth_of_le _ hn, BitVec.setWidth_setWidth_of_le _ hn,
    BitVec.setWidth_eq, BitVec.setWidth_eq] at hbyte
  exact UInt8.toBitVec_inj.mp hbyte

/-- The low bits are hashed on their own. -/
lemma setWidth_xorMul (hm : m ≤ n) (p h : BitVec n) (b : UInt8) :
    (xorMul p h b).setWidth m = xorMul (p.setWidth m) (h.setWidth m) b := by
  rw [xorMul, xorMul, BitVec.setWidth_mul _ _ hm, BitVec.setWidth_xor,
    BitVec.setWidth_setWidth_of_le _ hm]

lemma setWidth_foldl_xorMul (hm : m ≤ n) (p h : BitVec n) (bs : List UInt8) :
    (bs.foldl (xorMul p) h).setWidth m = bs.foldl (xorMul (p.setWidth m)) (h.setWidth m) :=
  (List.foldl_hom (BitVec.setWidth m) fun h b => (setWidth_xorMul hm p h b).symm).symm

end XorMul

end ByteHash
