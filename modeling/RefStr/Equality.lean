import RefStr.Progress

/-! Comparison. The shortcuts of equality over the two words agree with the contents, and so
do ordering, hashing and borrowing. -/
namespace RefStr
open Arch ByteMemory
variable {t : Target} {B : Backend}

namespace RefStrCore.Represents
variable {w : World t} {a b : RefStrCore t B} {x y : Text t}

/-- Equal words, inline contents, hashes and lengths all decide as the contents do. -/
lemma run_eq (ha : a.Represents w x) (hb : b.Represents w y) :
    a.eq b w = .ok (decide (x.str = y.str)) w := by
  have hstr : (do return decide ((← a.asStr) = (← b.asStr)) : Exec t Bool) w =
      .ok (decide (x.str = y.str)) w :=
    (run_bind ha.run_asStr _).trans (run_bind hb.run_asStr _)
  have hfalse : x.str ≠ y.str → (.ok false w : EStateM.Result Fault (World t) Bool) =
      .ok (decide (x.str = y.str)) w := by
    intro h
    rw [decide_eq_false h]
  rw [eq]
  split_ifs with hwords hin hhash hlen
  · -- One word pair reads as one string.
    have hab : a = b := congrArg RefStrCore.mk ((RawParts.eq_iff_words _ _).mpr hwords)
    have hxy : x.str = y.str := by
      have hrun := ha.run_asStr
      rw [hab, hb.run_asStr] at hrun
      exact (EStateM.Result.ok.inj hrun).1.symm
    rw [decide_eq_true hxy]
    rfl
  · exact hstr
  · refine hfalse fun hxy => hhash ?_
    simp only [Bool.or_eq_true, not_or, isInline, ha.encodes.isInline_eq, hb.encodes.isInline_eq,
      decide_eq_true_eq] at hin
    rw [ha.encodes.cachedHash_eq hin.1, hb.encodes.cachedHash_eq hin.2, hxy]
  · refine hfalse fun hxy => hlen ?_
    rw [len, len, ha.encodes.len_eq, hb.encodes.len_eq, hxy]
  · exact hstr

lemma run_cmp (ha : a.Represents w x) (hb : b.Represents w y) :
    a.cmp b w = .ok (x.str.cmp y.str) w := by
  rw [cmp]
  exact (run_bind ha.run_asStr _).trans (run_bind hb.run_asStr _)

lemma run_hash {σ : Type} (H : Hasher t σ) (state : σ) (ha : a.Represents w x) :
    a.hash H state w = .ok (x.str.hash H state) w := by
  rw [hash]
  exact run_bind ha.run_asStr _

end RefStrCore.Represents

namespace Sys
variable {sys : Sys t} {k k' k'' : WrapperKind} {i j l : ℕ}

/-- In every reachable state equality of values is equality of contents, an equivalence that
hashing and borrowing respect, and values are ordered as the strings that they borrow. -/
theorem eq_iff_contents (hsys : sys.Reachable) {a : Wrapper t k B} {b : Wrapper t k' B}
    {c : Wrapper t k'' B} (ha : sys.slots[i]? = some (.value k B a))
    (hb : sys.slots[j]? = some (.value k' B b)) (hc : sys.slots[l]? = some (.value k'' B c)) :
    ∃ x y : Str t, a.inner.asStr sys.world = .ok x sys.world ∧
      b.inner.asStr sys.world = .ok y sys.world ∧
      a.inner.eq b.inner sys.world = .ok (decide (x.bytes = y.bytes)) sys.world ∧
      a.inner.eq a.inner sys.world = .ok true sys.world ∧
      b.inner.eq a.inner sys.world = a.inner.eq b.inner sys.world ∧
      (a.inner.eq b.inner sys.world = .ok true sys.world →
        b.inner.eq c.inner sys.world = .ok true sys.world →
          a.inner.eq c.inner sys.world = .ok true sys.world) ∧
      a.inner.cmp b.inner sys.world = .ok (x.cmp y) sys.world ∧
      (x.cmp y = .eq ↔ a.inner.eq b.inner sys.world = .ok true sys.world) ∧
      ∀ (σ : Type) (H : Hasher t σ) (state : σ),
        a.inner.borrow sys.world = .ok x sys.world ∧
        a.inner.hash H state sys.world = .ok (x.hash H state) sys.world ∧
        (a.inner.eq b.inner sys.world = .ok true sys.world →
          b.inner.hash H state sys.world = a.inner.hash H state sys.world) := by
  obtain ⟨store, hinv⟩ := hsys.inv
  obtain ⟨⟨x, _⟩, -, hx⟩ := hinv.represents ha
  obtain ⟨⟨y, _⟩, -, hy⟩ := hinv.represents hb
  obtain ⟨⟨z, _⟩, -, hz⟩ := hinv.represents hc
  have htrue : ∀ p : Prop, [Decidable p] →
      ((.ok (decide p) sys.world : EStateM.Result Fault (World t) Bool) = .ok true sys.world ↔
        p) := by
    intro p _
    simp
  have hbytes : x = y ↔ x.bytes = y.bytes := ⟨congrArg Str.bytes, Str.ext⟩
  refine ⟨x, y, hx.run_asStr, hy.run_asStr, ?_, ?_, ?_, ?_, hx.run_cmp hy, ?_, ?_⟩
  · rw [hx.run_eq hy]
    simp only [hbytes]
  · rw [hx.run_eq hx]
    simp
  · rw [hx.run_eq hy, hy.run_eq hx]
    simp only [eq_comm]
  · rw [hx.run_eq hy, hy.run_eq hz, hx.run_eq hz, htrue, htrue, htrue]
    exact Eq.trans
  · rw [hx.run_eq hy, htrue]
    exact x.cmp_eq_iff y
  · intro σ H state
    refine ⟨hx.run_asStr, hx.run_hash H state, ?_⟩
    rw [hx.run_eq hy, htrue, hx.run_hash, hy.run_hash]
    rintro rfl
    rfl

/-- A borrowed and a shared value with the same twenty bytes. -/
theorem eq_iff_contents_letters : ∃ (sys : Sys Target.x64LE)
    (a b : Wrapper Target.x64LE .lifetimeKind .sharedBackend),
    sys.slots = [.value _ _ a, .value _ _ b] ∧ a.isBorrowed = true ∧ b.isShared = true ∧
      a.inner.eq b.inner sys.world = .ok true sys.world := by
  have hrun := (Run.borrowedTwenty .lifetimeKind .sharedBackend).fromOwnedLike
    (k := .lifetimeKind) (B := .sharedBackend) Str.twenty_compressible (by decide)
    World.pick_twenty
  obtain ⟨x, y, hx, hy, heq, -⟩ :=
    eq_iff_contents (i := 0) (j := 1) (l := 0) ⟨_, hrun⟩ rfl rfl rfl
  have hfresh := Allocator.fresh _ World.pick_twenty
  have ha : (RefStrCore.borrowedTwenty .sharedBackend).Represents
      (World.twenty.allocate .sharedBackend 8192#64 .twenty) ⟨.twenty, .borrowed 4096#64⟩ :=
    (RefStrCore.borrowedTwenty_represents .sharedBackend).allocate hfresh.1 hfresh.2
  have hb := RefStrCore.sharedTwenty_represents .sharedBackend World.twenty
  have hxs := (EStateM.Result.ok.inj (hx.symm.trans ha.run_asStr)).1
  have hys := (EStateM.Result.ok.inj (hy.symm.trans hb.run_asStr)).1
  rw [hxs, hys, decide_eq_true rfl] at heq
  refine ⟨_, _, _, rfl, ?_, ?_, heq⟩
  · exact ha.encodes.isBorrowed_eq
  · exact hb.encodes.isShared_eq

end Sys
end RefStr
