import RefStr.ByteHash
import RefStr.Equality

/-! The cached hash as a filter. A common end of two contents cancels in the hash, so on targets
with a cache, contents that differ in one byte never get past the filter: comparison answers
from the words alone. -/
namespace RefStr
open Arch ByteHash RefStrCore
variable {t : Target} {B : Backend}

/-- The bits of the short hash that a target keeps. -/
def keptHash (t : Target) (bytes : List UInt8) : BitVec t.hashBits :=
  (shortHash bytes).toBitVec.setWidth _

lemma hashBits_le (t : Target) : t.hashBits ≤ 64 := by
  rw [Target.hashBits]
  split <;> decide

lemma shortHash_toBitVec (bytes : List UInt8) : (shortHash bytes).toBitVec =
    bytes.foldl (xorMul 0x100000001b3#64) 0xcbf29ce484222325#64 := by
  refine (List.foldl_hom UInt64.toBitVec fun hash b => ?_).symm
  rw [UInt64.toBitVec_mul, UInt64.toBitVec_xor, xorMul]
  rfl

lemma keptHash_eq_foldl (t : Target) (bytes : List UInt8) : keptHash t bytes =
    bytes.foldl (xorMul ((0x100000001b3#64).setWidth _))
      ((0xcbf29ce484222325#64).setWidth t.hashBits) := by
  rw [keptHash, shortHash_toBitVec, setWidth_foldl_xorMul (hashBits_le t)]

lemma odd_multiplier (t : Target) (h : t.pointerWidth = .w64) :
    Odd ((0x100000001b3#64).setWidth t.hashBits).toNat := by
  have hbits : t.hashBits = 24 := by rw [Target.hashBits, h]
  rw [hbits]
  decide

lemma lowHash_eq_iff (bytes bytes' : List UInt8) :
    lowHash t (shortHash bytes) = lowHash t (shortHash bytes') ↔
      keptHash t bytes = keptHash t bytes' := by
  rw [← BitVec.toNat_inj, lowHash_toNat, lowHash_toNat, ← BitVec.toNat_inj, keptHash, keptHash,
    BitVec.toNat_setWidth, BitVec.toNat_setWidth]
  rfl

/-- The filter sees two contents with a common end as it sees what comes before that end. -/
lemma keptHash_append_eq_iff (l l' r : List UInt8) :
    keptHash t (l ++ r) = keptHash t (l' ++ r) ↔ keptHash t l = keptHash t l' := by
  by_cases h : t.pointerWidth = .w64
  · simp only [keptHash_eq_foldl]
    exact (xorMul_reversible (odd_multiplier t h)).foldl_append_eq_iff r _ _
  · -- Narrow targets keep no hash.
    have hbits : t.hashBits = 0 := by
      rcases t with ⟨_ | _ | _, _, _⟩
      · rfl
      · rfl
      · exact absurd rfl h
    have hall : ∀ x y : BitVec t.hashBits, x = y := by
      rw [hbits]
      decide
    exact iff_of_true (hall _ _) (hall _ _)

lemma keptHash_ne (h : t.pointerWidth = .w64) {b b' : UInt8} (hne : b ≠ b') (l r : List UInt8) :
    keptHash t (l ++ b :: r) ≠ keptHash t (l ++ b' :: r) := by
  have hbits : 8 ≤ t.hashBits := by
    rw [Target.hashBits, h]
    decide
  have hodd := odd_multiplier t h
  simp only [keptHash_eq_foldl]
  exact (xorMul_reversible hodd).foldl_ne (xorMul_injective hodd hbits) hne l r _

/-- Different cached hashes settle a comparison of values that are not inline, whatever lies
behind their pointers. -/
lemma RefStrCore.eq_of_cachedHash_ne {a b : RefStrCore t B} (ha : a.isInline = false)
    (hb : b.isInline = false) (h : a.parts.cachedHash ≠ b.parts.cachedHash) (w : World t) :
    a.eq b w = .ok false w := by
  have hwords : ¬ (a.parts.rawPtr = b.parts.rawPtr ∧ a.parts.metaWord = b.parts.metaWord) :=
    fun hw => h (congrArg decodeCachedHash hw.2)
  rw [RefStrCore.eq, if_neg hwords, ha, hb, if_neg (by decide), if_pos h]
  rfl

namespace Sys
variable {sys : Sys t} {k k' : WrapperKind} {i j : ℕ}

/-- Two reachable values that are not inline pass the filter exactly when what comes before a
common end of their contents does; on 64-bit targets they never do when they differ in one
byte, and are told apart without a look at memory. -/
theorem cached_hash_filters (hsys : sys.Reachable) {a : Wrapper t k B} {b : Wrapper t k' B}
    (ha : sys.slots[i]? = some (.value k B a)) (hb : sys.slots[j]? = some (.value k' B b))
    (hia : a.isInline = false) (hib : b.isInline = false) :
    ∃ x y : Str t, a.asStr sys.world = .ok x sys.world ∧ b.asStr sys.world = .ok y sys.world ∧
      (∀ l l' r, x.bytes = l ++ r → y.bytes = l' ++ r →
        (a.inner.parts.cachedHash = b.inner.parts.cachedHash ↔
          (shortHash l).toNat % 2 ^ t.hashBits = (shortHash l').toNat % 2 ^ t.hashBits)) ∧
      (t.pointerWidth = .w64 → ∀ l r c d, c ≠ d → x.bytes = l ++ c :: r →
        y.bytes = l ++ d :: r → ∀ w, a.inner.eq b.inner w = .ok false w) := by
  obtain ⟨store, hinv⟩ := hsys.inv
  obtain ⟨x, -, hx⟩ := hinv.represents ha
  obtain ⟨y, -, hy⟩ := hinv.represents hb
  have hxi : x.origin.tag ≠ .inline :=
    hx.encodes.isInline_iff.not.mp (Bool.eq_false_iff.mp hia)
  have hyi : y.origin.tag ≠ .inline :=
    hy.encodes.isInline_iff.not.mp (Bool.eq_false_iff.mp hib)
  have hhash : a.inner.parts.cachedHash = b.inner.parts.cachedHash ↔
      keptHash t x.str.bytes = keptHash t y.str.bytes := by
    rw [hx.encodes.cachedHash_eq hxi, hy.encodes.cachedHash_eq hyi, lowHash_eq_iff]
  refine ⟨x.str, y.str, hx.run_asStr, hy.run_asStr, fun l l' r hl hl' => ?_,
    fun h64 l r c d hne hc hd w => ?_⟩
  · rw [hhash, hl, hl', keptHash_append_eq_iff, ← lowHash_eq_iff, ← BitVec.toNat_inj,
      lowHash_toNat, lowHash_toNat]
  · refine eq_of_cachedHash_ne hia hib (hhash.not.mpr ?_) w
    rw [hc, hd]
    exact keptHash_ne h64 hne l r

/-- Two shared values that differ in the last of twenty letters. -/
theorem cached_hash_filters_letters : ∃ (sys : Sys Target.x64LE)
    (a b : Wrapper Target.x64LE .lifetimeKind .sharedBackend),
    sys.Reachable ∧ sys.slots = [.value _ _ a, .value _ _ b] ∧
      ∀ w, a.inner.eq b.inner w = .ok false w := by
  let s : Str Target.x64LE := ⟨List.replicate 19 97 ++ [98],
    ⟨List.replicate 19 'a' ++ ['b'], rfl⟩, by decide⟩
  have hs : s.Compressible := by decide
  let w₀ : World .x64LE := World.empty.allocate .sharedBackend 8192#64 .twenty
  have hpick : (Allocator.firstFit (t := .x64LE) [12288#64]).pick w₀ s.bytes.length =
      some 12288#64 := by rfl
  have hrun := (Run.sharedTwenty .lifetimeKind .sharedBackend).fromOwnedLike
    (k := .lifetimeKind) (B := .sharedBackend) hs (by decide) hpick
  have ha : (sharedTwenty .sharedBackend).Represents (w₀.allocate .sharedBackend 12288#64 s)
      ⟨.twenty, .shared⟩ := (sharedTwenty_represents .sharedBackend World.empty).allocate
    (Allocator.fresh _ hpick).1 (Allocator.fresh _ hpick).2
  have hb : (⟨.ofStr 12288#64 .shared s hs⟩ : RefStrCore .x64LE .sharedBackend).Represents
      (w₀.allocate .sharedBackend 12288#64 s) ⟨s, .shared⟩ :=
    .shared hs (Handle.allocate _ .sharedBackend _ s)
  obtain ⟨x, y, hx, hy, -, hne⟩ := cached_hash_filters (i := 0) (j := 1) ⟨_, hrun⟩ rfl rfl
    ha.encodes.isInline_eq hb.encodes.isInline_eq
  obtain rfl := (EStateM.Result.ok.inj (hx.symm.trans ha.run_asStr)).1
  obtain rfl := (EStateM.Result.ok.inj (hy.symm.trans hb.run_asStr)).1
  exact ⟨_, _, _, ⟨_, hrun⟩, rfl, hne rfl (List.replicate 19 97) [] 97 98 (by decide) rfl rfl⟩

end Sys
end RefStr
