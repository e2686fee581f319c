import RefStr.Progress

/-! The representation invariant: what the two words of every reachable value say is true of
its contents. -/
namespace RefStr
open Arch RefStrCore
variable {t : Target}

namespace Sys
variable {sys : Sys t} {i : ℕ} {k : WrapperKind} {B : Backend}

/-- The tag, the length, the ASCII flag and the cached hash of a reachable value are those of
its contents, and exactly one state predicate holds. -/
theorem metadata_describes_contents (hsys : sys.Reachable) {v : Wrapper t k B}
    (hv : sys.slots[i]? = some (.value k B v)) :
    v.inner.parts.metaWord ≠ 0#_ ∧ ∃ tag s,
      (∀ tag', v.inner.parts.metaWord &&& t.stateMask = Arch.tagBits tag' ↔ tag' = tag) ∧
      v.inner.parts.tag = .ok tag ∧
      v.inner.isBorrowed = decide (tag = .borrowed) ∧
      v.inner.isInline = decide (tag = .inline) ∧
      v.inner.isShared = decide (tag = .shared) ∧
      v.inner.asStr sys.world = .ok s sys.world ∧
      v.inner.len.toNat = s.bytes.length ∧
      (v.inner.isAscii = true ↔ ∀ b ∈ s.bytes, b < 128) ∧
      (v.inner.isInline = true → v.inner.len.toNat ≤ t.inlineCapacity) ∧
      (v.inner.isInline = false →
        v.inner.parts.cachedHash.toNat = (shortHash s.bytes).toNat % 2 ^ t.hashBits) := by
  obtain ⟨store, hinv⟩ := hsys.inv
  obtain ⟨x, -, hx⟩ := hinv.represents hv
  have henc := hx.encodes
  have hlen := hx.len_toNat
  have hin : v.inner.isInline = true ↔ x.origin.tag = .inline := henc.isInline_iff
  refine ⟨v.inner.parts.metaWord_ne_zero, x.origin.tag, x.str, henc.hasTag.stateMask_iff,
    henc.hasTag.tag_eq, henc.isBorrowed_eq, henc.isInline_eq, henc.isShared_eq, hx.run_asStr,
    hlen, ?_, fun h => ?_, fun h => ?_⟩
  · rw [isAscii, henc.hasTag.isAscii_eq, Str.isAscii_iff]
  · rw [hlen]
    exact henc.length_le (hin.mp h)
  · have hne : x.origin.tag ≠ .inline := hin.not.mp (Bool.eq_false_iff.mp h)
    rw [henc.cachedHash_eq hne, lowHash_toNat]

/-- A shared value of twenty letters. -/
theorem metadata_describes_letters : ∃ (sys : Sys Target.x64LE)
    (v : Wrapper Target.x64LE .staticKind .localBackend),
    sys.slots = [.value .staticKind .localBackend v] ∧ ∃ s,
      v.inner.asStr sys.world = .ok s sys.world ∧ v.inner.len.toNat = s.bytes.length := by
  obtain ⟨-, tag, s, -, -, -, -, -, hstr, hlen, -⟩ := metadata_describes_contents (i := 0)
    ⟨_, Run.sharedTwenty .staticKind .localBackend⟩ rfl
  exact ⟨_, _, rfl, s, hstr, hlen⟩

end Sys
end RefStr
