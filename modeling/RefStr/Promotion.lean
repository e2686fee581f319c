import RefStr.Equality

/-! Static promotion. Both ways of promoting a value agree: what is borrowed is copied, and
everything else keeps its two words, with one more owner or with the same. -/
namespace RefStr
open ByteMemory RefStrCore
variable {t : Target} {B : Backend}

namespace RefStrCore

/-- What promoting `v` has to make of it, in either of the two ways. -/
structure Promoted (w : World t) (v : RefStrCore t B) (w' : World t) (u : RefStrCore t B) :
    Prop where
  notBorrowed : u.isBorrowed = false
  content : ∃ s, v.asStr w = .ok s w ∧ u.asStr w' = .ok s w'
  equal : v.eq u w' = .ok true w'
  words : v.isBorrowed = false → u.parts = v.parts
  short : v.isBorrowed = true → v.len.toNat ≤ t.inlineCapacity → u.isInline = true ∧ w' = w
  long : v.isBorrowed = true → t.inlineCapacity < v.len.toNat →
    u.isShared = true ∧ w.Vacant u.parts.rawPtr v.len.toNat ∧
      w'.heap u.parts.rawPtr = some ⟨B, v.len, 1⟩
  /-- What is allocated has no byte in common with the slice that was borrowed. -/
  apart : v.isBorrowed = true → u.isShared = true →
    Apart u.parts.rawPtr u.len.toNat v.parts.rawPtr v.len.toNat
  again : ∀ A : Allocator t,
    (∃ u' w'', u.toStaticCore A w' = .ok u' w'' ∧ u'.parts = u.parts) ∧
      ∃ u' w'', u.intoStaticCore A w' = .ok u' w'' ∧ u'.parts = u.parts

namespace Represents
variable {w w' : World t} {v u : RefStrCore t B} {x : Text t} {s : Str t} {A : Allocator t}

lemma run_eq_true {y : Text t} (h : v.Represents w x) (h' : u.Represents w y)
    (hxy : x.str = y.str) : v.eq u w = .ok true w := by
  rw [h.run_eq h', decide_eq_true hxy]

lemma isBorrowed_promote (h : v.Represents w x.promote) : v.isBorrowed = false := by
  rw [isBorrowed, h.encodes.isBorrowed_eq]
  exact decide_eq_false x.promote_tag_ne_borrowed

lemma promote_again (h : v.Represents w x.promote) (A : Allocator t) :
    (∃ u w', v.toStaticCore A w = .ok u w' ∧ u.parts = v.parts) ∧
      ∃ u w', v.intoStaticCore A w = .ok u w' ∧ u.parts = v.parts :=
  ⟨⟨_, _, h.run_toStaticCore x.promote_tag_ne_borrowed, rfl⟩,
    ⟨_, _, h.run_intoStaticCore x.promote_tag_ne_borrowed, rfl⟩⟩

lemma promoted_self (h : v.Represents w x) (h' : v.Represents w' x)
    (hx : x.origin.tag ≠ .borrowed) : Promoted w v w' v := by
  have hb : v.isBorrowed = false := by
    rw [isBorrowed, h.encodes.isBorrowed_eq, decide_eq_false hx]
  have hno : ¬ v.isBorrowed = true := Bool.not_eq_true _ ▸ hb
  have hp : v.Represents w' x.promote := (Text.promote_of_ne hx).symm ▸ h'
  exact ⟨hb, ⟨x.str, h.run_asStr, h'.run_asStr⟩, h'.run_eq_true h' rfl, fun _ => rfl,
    fun h => absurd h hno, fun h => absurd h hno, fun h => absurd h hno, promote_again hp⟩

/-- A borrowed value is promoted to an inline one, or to the owner of a new allocation. -/
lemma exists_promoted {ptr : Usize t} (h : v.Represents w ⟨s, .borrowed ptr⟩)
    (hroom : t.inlineCapacity < s.bytes.length → (A.pick w s.bytes.length).isSome) :
    ∃ u w', v.toStaticCore A w = .ok u w' ∧ v.intoStaticCore A w = .ok u w' ∧
      u.Represents w' (.owned s) ∧ Promoted w v w' u := by
  have hs := h.encodes.compressible (by simp)
  have hb : v.isBorrowed = true := h.encodes.isBorrowed_iff.mpr rfl
  obtain ⟨u, w', hrun, hshort, hlong⟩ := exists_fromOwnedLike (B := B) hs hroom
  have hu := (of_fromOwnedLike hrun).2
  have hp : u.Represents w' (Text.promote ⟨s, .borrowed ptr⟩) := hu
  have hv : v.Represents w' ⟨s, .borrowed ptr⟩ := h.keep_fromOwnedLike hrun
  refine ⟨u, w', h.run_toStaticCore_borrowed.trans hrun,
    h.run_intoStaticCore_borrowed.trans hrun, hu, isBorrowed_promote hp,
    ⟨s, h.run_asStr, hu.run_asStr⟩, hv.run_eq_true hu rfl, fun h => ?_, fun _ hle => ?_,
    fun _ hlt => ?_, fun _ hshared => ?_, promote_again hp⟩
  · rw [hb] at h
    cases h
  · rw [h.len_toNat] at hle
    rw [Text.owned_of_le s hle] at hu
    exact ⟨hu.encodes.isInline_eq, hshort hle⟩
  · rw [h.len_toNat, ← not_le] at hlt
    rw [Text.owned_of_not_le s hlt] at hu
    obtain ⟨hptr, rfl⟩ := hlong hlt
    refine ⟨hu.encodes.isShared_eq, h.len_toNat.symm ▸ A.fresh hptr, ?_⟩
    have hlen : v.len = s.len := h.encodes.len_eq
    rw [World.heap_allocate, Function.update_self, hlen]
  · have hlt : ¬ s.bytes.length ≤ t.inlineCapacity := by
      intro hle
      rw [Text.owned_of_le s hle] at hu
      have htag := hu.encodes.isShared_iff.mp hshared
      cases htag
    obtain ⟨hptr, -⟩ := hlong hlt
    have hmapped : Mapped w.mem v.parts.rawPtr s.bytes.length := by
      rw [← isSome_read_iff, h.read (by simp)]
      rfl
    rw [Text.owned_of_not_le s hlt] at hu
    rw [hu.len_toNat, h.len_toNat]
    exact (A.fresh hptr).2.apart_of_mapped hmapped

end Represents
end RefStrCore

namespace Sys
variable {sys : Sys t} {i : ℕ} {k : WrapperKind}

/-- Promotion of a reachable value by reference and by value. -/
theorem static_promotion (hsys : sys.Reachable) {v : Wrapper t k B}
    (hv : sys.slots[i]? = some (.value k B v)) (A A' : Allocator t)
    (hroom : v.inner.isBorrowed = true → t.inlineCapacity < v.inner.len.toNat →
      (A.pick sys.world v.inner.len.toNat).isSome ∧
        (A'.pick sys.world v.inner.len.toNat).isSome) :
    ∃ u w u' w', v.inner.toStaticCore A sys.world = .ok u w ∧
      v.inner.intoStaticCore A' sys.world = .ok u' w' ∧
      Promoted sys.world v.inner w u ∧ Promoted sys.world v.inner w' u' ∧
      u.parts.metaWord = u'.parts.metaWord ∧
      (v.inner.isShared = true →
        w.strongCount v.inner.parts.rawPtr =
          sys.world.strongCount v.inner.parts.rawPtr + 1 ∧
        w'.strongCount v.inner.parts.rawPtr =
          sys.world.strongCount v.inner.parts.rawPtr) := by
  obtain ⟨store, hinv⟩ := hsys.inv
  obtain ⟨x, -, h⟩ := hinv.represents hv
  have hsh : v.inner.isShared = true ↔ x.origin.tag = .shared := h.encodes.isShared_iff
  by_cases hx : x.origin.tag = .borrowed
  · obtain ⟨s, ptr | _ | _⟩ := x
    · have hb : v.inner.isBorrowed = true := h.encodes.isBorrowed_iff.mpr rfl
      rw [h.len_toNat] at hroom
      obtain ⟨u, w, hto, -, hu, hpu⟩ := h.exists_promoted fun hlt => (hroom hb hlt).1
      obtain ⟨u', w', -, hinto, hu', hpu'⟩ := h.exists_promoted fun hlt => (hroom hb hlt).2
      refine ⟨u, w, u', w', hto, hinto, hpu, hpu', hu.encodes.metaWord_congr hu'.encodes rfl rfl,
        fun h => ?_⟩
      rw [hsh] at h
      cases h
    · cases hx
    · cases hx
  · refine ⟨v.inner, _, v.inner, _, h.run_toStaticCore hx, h.run_intoStaticCore hx,
      h.promoted_self h.afterClone hx, h.promoted_self h hx, rfl, fun hshared => ?_⟩
    rw [Text.eq_shared (hsh.mp hshared)] at h
    obtain ⟨a, ha, -⟩ := World.counts_ne_none_iff.mp h.handle.counted
    rw [h.afterClone_shared]
    exact ⟨World.strongCount_retain ha, rfl⟩

/-- A borrowed value of twenty letters, too long to be promoted inline. -/
theorem static_promotion_letters : ∃ (sys : Sys Target.x64LE)
    (v : Wrapper Target.x64LE .lifetimeKind .localBackend) (A : Allocator Target.x64LE),
    sys.slots = [.value .lifetimeKind .localBackend v] ∧ v.isBorrowed = true ∧
      ∃ u w, v.inner.toStaticCore A sys.world = .ok u w ∧ u.isShared = true ∧
        w.strongCount u.parts.rawPtr = 1 := by
  have hv := borrowedTwenty_represents .localBackend
  have hb := hv.encodes.isBorrowed_eq
  have hroom := congrArg Option.isSome World.pick_twenty
  rw [← hv.len_toNat] at hroom
  obtain ⟨u, w, u', w', hto, -, hu, -⟩ := static_promotion (i := 0)
    ⟨_, Run.borrowedTwenty .lifetimeKind .localBackend⟩ rfl
    (.firstFit [8192#64]) (.firstFit [8192#64]) fun _ _ => ⟨hroom, hroom⟩
  have hlong : Target.x64LE.inlineCapacity < (borrowedTwenty .localBackend).len.toNat := by
    rw [hv.len_toNat]
    decide
  obtain ⟨hshared, -, hone⟩ := hu.long hb hlong
  exact ⟨_, ⟨borrowedTwenty .localBackend⟩, _, rfl, hb, u, w, hto, hshared,
    World.strongCount_of_eq_some hone⟩

end Sys
end RefStr
