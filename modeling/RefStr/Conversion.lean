import RefStr.Equality
import RefStr.Ownership

/-! Conversion between the backends. The words of a value that is not shared are moved; a
shared string is copied into an allocation of the other backend, and then the source is given
up. -/
namespace RefStr
open ByteMemory RefStrCore
variable {t : Target} {B B' : Backend}

namespace RefStrCore

/-- What became of the heap when a shared string was copied from one backend to the other. -/
structure Copied (w : World t) (v : RefStrCore t B) (w' : World t) (u : RefStrCore t B') :
    Prop where
  fresh : w.Vacant u.parts.rawPtr v.len.toNat
  allocated : w'.heap u.parts.rawPtr = some ⟨B', v.len, 1⟩
  dropped : w'.strongCount v.parts.rawPtr + 1 = w.strongCount v.parts.rawPtr
  freed : w'.heap v.parts.rawPtr = none ↔ w.strongCount v.parts.rawPtr = 1
  frame : ∀ p, p ≠ u.parts.rawPtr → p ≠ v.parts.rawPtr → w'.heap p = w.heap p
  /-- The source is released after its bytes were copied, when it is still readable. -/
  order : ∃ s, v.asStr w = .ok s w ∧
    v.asStr (w.allocate B' u.parts.rawPtr s) = .ok s (w.allocate B' u.parts.rawPtr s) ∧
    w' = (w.allocate B' u.parts.rawPtr s).release v.parts.rawPtr

/-- What converting `v` to the other backend has to make of it. -/
structure Converted (w : World t) (v : RefStrCore t B) (w' : World t) (u : RefStrCore t B') :
    Prop where
  content : ∃ s, v.asStr w = .ok s w ∧ u.asStr w' = .ok s w'
  metaWord : u.parts.metaWord = v.parts.metaWord
  state : u.parts.tag = v.parts.tag
  moved : v.isShared = false → u.parts = v.parts ∧ w' = w
  copied : v.isShared = true → Copied w v w' u

namespace Represents
variable {w : World t} {v : RefStrCore t B} {x : Text t} {s : Str t} {A : Allocator t}

lemma converted {w' : World t} {u : RefStrCore t B'} (h : v.Represents w x)
    (h' : u.Represents w' x) (hmoved : v.isShared = false → u.parts = v.parts ∧ w' = w)
    (hcopied : v.isShared = true → Copied w v w' u) : Converted w v w' u := by
  refine ⟨⟨x.str, h.run_asStr, h'.run_asStr⟩, h'.encodes.metaWord_congr h.encodes rfl rfl, ?_,
    hmoved, hcopied⟩
  rw [h.encodes.hasTag.tag_eq, h'.encodes.hasTag.tag_eq]

lemma converted_self (h : v.Represents w x) (hx : x.origin.tag ≠ .shared) (B' : Backend) :
    Converted w v w (⟨v.parts⟩ : RefStrCore t B') := by
  refine h.converted (h.of_convert hx B') (fun _ => ⟨rfl, rfl⟩) fun hshared => ?_
  exact absurd (h.encodes.isShared_iff.mp hshared) hx

/-- A shared value keeps its text while another one is released. -/
lemma release {B'' : Backend} {c : RefStrCore t B''} {s' : Str t} (h : v.Represents w ⟨s, .shared⟩)
    (hc : c.Represents w ⟨s', .shared⟩) (hsound : w.Sound)
    (hkeep : c.parts.rawPtr = v.parts.rawPtr → 1 < w.strongCount v.parts.rawPtr) :
    c.Represents (w.release v.parts.rawPtr) ⟨s', .shared⟩ := by
  refine hc.of_handle ?_
  by_cases hptr : c.parts.rawPtr = v.parts.rawPtr
  · rw [← hptr]
    exact hc.handle.release_self (hptr ▸ hkeep hptr)
  · exact hc.handle.release hsound h.handle.counted hptr

/-- A shared value becomes the only owner of a new allocation, and every other owner of the
old one keeps its text. -/
lemma exists_converted (h : v.Represents w ⟨s, .shared⟩) (hsound : w.Sound)
    (hpos : 0 < w.strongCount v.parts.rawPtr) (hroom : (A.pick w s.bytes.length).isSome)
    (B' : Backend) :
    ∃ u w', v.convert A B' w = .ok u w' ∧ u.Represents w' ⟨s, .shared⟩ ∧ w'.Sound ∧
      Converted w v w' u ∧
      ∀ (B'' : Backend) (c : RefStrCore t B'') (s' : Str t), c.Represents w ⟨s', .shared⟩ →
        (c.parts.rawPtr = v.parts.rawPtr → 1 < w.strongCount v.parts.rawPtr) →
          c.Represents w' ⟨s', .shared⟩ := by
  obtain ⟨ptr, hptr⟩ := Option.isSome_iff_exists.mp hroom
  obtain ⟨hheap, hf⟩ := A.fresh hptr
  have hs := h.encodes.compressible (by simp)
  have hne : v.parts.rawPtr ≠ ptr := World.ne_of_counts h.handle.counted hheap
  have hv : v.Represents (w.allocate B' ptr s) ⟨s, .shared⟩ := h.allocate hheap hf
  obtain ⟨a, ha, -⟩ := World.counts_ne_none_iff.mp hv.handle.counted
  have hcount := World.strongCount_allocate_of_ne (w := w) (B := B') (s := s) hne
  have hu := h.of_convert_shared hsound hs hptr B'
  refine ⟨_, _, h.run_convert_shared hs hptr B', hu, (hsound.allocate hf).release _,
    h.converted hu (fun hno => ?_) fun _ => ⟨h.len_toNat.symm ▸ A.fresh hptr, ?_, ?_, ?_,
      fun p hp hq => ?_, s, h.run_asStr, hv.run_asStr, rfl⟩, fun B'' c s' hc hkeep => ?_⟩
  · have hshared : v.isShared = true := h.encodes.isShared_iff.mpr rfl
    rw [hshared] at hno
    cases hno
  · have hlen : v.len = s.len := h.encodes.len_eq
    rw [hlen]
    exact (World.heap_release_of_ne hne.symm).trans (Function.update_self _ _ _)
  · rw [World.strongCount_release ha, hcount]
    omega
  · rw [World.heap_release_eq_none_iff ha (hcount.symm ▸ hpos), hcount]
  · rw [World.heap_release_of_ne hq]
    exact World.heap_allocate_of_ne _ _ hp
  · exact hv.release (hc.allocate hheap hf) (hsound.allocate hf) (hcount.symm ▸ hkeep)

end Represents
end RefStrCore

namespace Sys
variable {sys : Sys t} {i : ℕ} {k : WrapperKind}

/-- Conversion of a reachable value, and back again. -/
theorem backend_conversion (hsys : sys.Reachable) {v : Wrapper t k B}
    (hv : sys.slots[i]? = some (.value k B v)) (A A' : Allocator t)
    (hroom : v.inner.isShared = true → (A.pick sys.world v.inner.len.toNat).isSome) :
    ∃ u w, v.inner.convert A B.other sys.world = .ok u w ∧ Converted sys.world v.inner w u ∧
      ((v.inner.isShared = true → (A'.pick w v.inner.len.toNat).isSome) →
        ∃ v' w', u.convert A' B w = .ok v' w' ∧ Converted w u w' v' ∧
          (∃ s, v.inner.asStr sys.world = .ok s sys.world ∧ v'.asStr w' = .ok s w') ∧
          v'.parts.metaWord = v.inner.parts.metaWord ∧
          (v.inner.isShared = false → v' = v.inner ∧ w' = sys.world) ∧
          ((v.inner.isShared = true → 1 < sys.world.strongCount v.inner.parts.rawPtr) →
            v.inner.eq v' w' = .ok true w')) := by
  obtain ⟨store, hinv⟩ := hsys.inv
  obtain ⟨x, -, h⟩ := hinv.represents hv
  have hsh : v.inner.isShared = true ↔ x.origin.tag = .shared := h.encodes.isShared_iff
  rw [h.len_toNat] at hroom ⊢
  by_cases hx : x.origin.tag = .shared
  · rw [Text.eq_shared hx] at h
    have hshared := hsh.mpr hx
    have hpos := strongCount_pos_of_shared hinv hv h
    obtain ⟨u, w, hrun, hu, hsound, hconv, hkeep⟩ :=
      h.exists_converted hinv.sound hpos (hroom hshared) B.other
    have hcopy := hconv.copied hshared
    refine ⟨u, w, hrun, hconv, fun hroom' => ?_⟩
    have hpos' : 0 < w.strongCount u.parts.rawPtr := by
      rw [World.strongCount_of_eq_some hcopy.allocated]
      exact Nat.one_pos
    obtain ⟨v', w', hrun', hv', -, hconv', hkeep'⟩ :=
      hu.exists_converted hsound hpos' (hroom' hshared) B
    refine ⟨v', w', hrun', hconv', ⟨x.str, h.run_asStr, hv'.run_asStr⟩,
      hconv'.metaWord.trans hconv.metaWord, fun hno => ?_, fun hmany => ?_⟩
    · rw [hshared] at hno
      cases hno
    · -- A clone of the source is left, and it is not where the first copy was made.
      have hv₁ := hkeep B v.inner x.str h fun _ => hmany hshared
      have hne : v.inner.parts.rawPtr ≠ u.parts.rawPtr :=
        World.ne_of_counts h.handle.counted hcopy.fresh.1
      rw [(hkeep' B v.inner x.str hv₁ fun h => absurd h hne).run_eq hv', decide_eq_true rfl]
  · have hno : ¬ v.inner.isShared = true := hsh.not.mpr hx
    have hu := h.of_convert hx B.other
    refine ⟨_, _, h.run_convert hx B.other, h.converted_self hx B.other, fun _ =>
      ⟨_, _, hu.run_convert hx B, hu.converted_self hx B, ⟨x.str, h.run_asStr, h.run_asStr⟩, rfl,
        fun _ => ⟨rfl, rfl⟩, fun _ => ?_⟩⟩
    rw [h.run_eq h, decide_eq_true rfl]

/-- A shared value of twenty letters, the only owner of them. -/
theorem backend_conversion_letters : ∃ (sys : Sys Target.x64LE)
    (v : Wrapper Target.x64LE .lifetimeKind .localBackend) (A : Allocator Target.x64LE),
    sys.slots = [.value .lifetimeKind .localBackend v] ∧ v.isShared = true ∧
      ∃ u w, v.inner.convert A .sharedBackend sys.world = .ok u w ∧
        w.strongCount u.parts.rawPtr = 1 ∧ w.heap v.inner.parts.rawPtr = none := by
  have hv := sharedTwenty_represents .localBackend World.empty
  have hroom : ((Allocator.firstFit (t := .x64LE) [4096#64]).pick
    (World.empty.allocate .localBackend 8192#64 .twenty) Str.twenty.bytes.length).isSome := by rfl
  rw [← hv.len_toNat] at hroom
  have hshared := hv.encodes.isShared_eq
  obtain ⟨u, w, hconvert, hu, -⟩ := backend_conversion (i := 0)
    ⟨_, Run.sharedTwenty .lifetimeKind .localBackend⟩ rfl
    (.firstFit [4096#64]) (.firstFit []) fun _ => hroom
  have hcopy := hu.copied hshared
  exact ⟨_, ⟨sharedTwenty .localBackend⟩, _, rfl, hshared, u, w, hconvert,
    World.strongCount_of_eq_some hcopy.allocated,
    hcopy.freed.mpr (World.strongCount_allocate _ _ _ _)⟩

end Sys
end RefStr
