import RefStr.Equality
import RefStr.Ownership

/-! Handing a value over as a raw pointer. What is rebuilt from the pointer has the words that
were given away, and a strong count that is raised behind it is given back by one more rebuild
and drop. -/
namespace RefStr
open ByteMemory RefStrCore
variable {t : Target} {B : Backend}

namespace RefStrCore

/-- The backend's `from_raw`, followed by `from_shared`. -/
def rebuild (B : Backend) (p : RawStr t) : Exec t (RefStrCore t B) := do
  fromShared (← Backend.fromRaw B p)

/-- One more strong count is given back by one more rebuild and drop. -/
def Restores (B : Backend) (p : RawStr t) (w : World t) : Prop :=
  ∃ w' u, incrementStrongCount B p w = .ok () w' ∧
    w'.strongCount p.ptr = w.strongCount p.ptr + 1 ∧ rebuild B p w' = .ok u w' ∧
    u.drop w' = .ok () w

end RefStrCore

namespace Handle
variable {w : World t} {p : RawStr t} {s : Str t}

lemma run_rebuild (h : Handle w B p s) (hs : s.Compressible) :
    rebuild B p w = .ok ⟨.ofStr p.ptr .shared s hs⟩ w :=
  (run_bind h.run_fromRaw _).trans ((run_fromShared h).trans (dif_pos hs))

lemma restores (h : Handle w B p s) (hs : s.Compressible) (hpos : 0 < w.strongCount p.ptr) :
    Restores B p w := by
  obtain ⟨a, ha, -⟩ := World.counts_ne_none_iff.mp h.counted
  have hp : p = ⟨p.ptr, s.len⟩ := by rw [← h.len]
  have hu : (⟨.ofStr p.ptr .shared s hs⟩ : RefStrCore t B).Represents (w.retain p.ptr)
      ⟨s, .shared⟩ := .shared hs (hp ▸ h.retain)
  have hdrop := hu.run_drop
  rw [hu.afterDrop_shared] at hdrop
  refine ⟨_, _, h.run_incrementStrongCount, World.strongCount_retain ha,
    h.retain.run_rebuild hs, ?_⟩
  exact hdrop.trans (congrArg _ (World.release_retain ha hpos))

end Handle

namespace RefStrCore

/-- What the pointer of `v` has to be, and what can be rebuilt from it. -/
structure HandedOver (w : World t) (v : RefStrCore t B) (x : Text t) (w' : World t)
    (p : RawStr t) : Prop where
  content : v.asStr w = .ok x.str w ∧ readRaw p w' = .ok x.str.bytes w'
  len : p.len.toNat = x.str.bytes.length
  fits : p.len ≤ t.maxBorrowedOrSharedLen
  shared : v.isShared = true → w' = w ∧ v.intoRawShared w = .ok (some p) w ∧
    rebuild B p w' = .ok v w'
  inline : v.isInline = true → w.Vacant p.ptr p.len.toNat ∧
    w'.heap = Function.update w.heap p.ptr (some ⟨B, v.len, 1⟩) ∧
    ∃ u, rebuild B p w' = .ok u w' ∧ u.isShared = true ∧ v.eq u w' = .ok true w'
  borrowed : v.isBorrowed = true → w' = w ∧ x.origin = .borrowed p.ptr
  restores : v.isBorrowed = false → Restores B p w'

namespace Represents
variable {w : World t} {v : RefStrCore t B} {x : Text t} {s : Str t} {A : Allocator t}

lemma handedOver_shared (h : v.Represents w ⟨s, .shared⟩)
    (hpos : 0 < w.strongCount v.parts.rawPtr) :
    HandedOver w v ⟨s, .shared⟩ w ⟨v.parts.rawPtr, s.len⟩ := by
  have hs := h.encodes.compressible (by simp)
  have hnotInline : ¬ v.isInline = true := h.encodes.isInline_iff.not.mpr (by simp)
  have hnotBorrowed : ¬ v.isBorrowed = true :=
    h.encodes.isBorrowed_iff.not.mpr (by simp)
  have hwords : rebuild B ⟨v.parts.rawPtr, s.len⟩ w = .ok v w := by
    cases h with
    | shared hs hh => exact hh.run_rebuild hs
  exact ⟨⟨h.run_asStr, run_readRaw rfl h.handle.read⟩, s.len_toNat, hs,
    fun _ => ⟨rfl, h.run_intoRawShared_shared, hwords⟩, fun h => absurd h hnotInline,
    fun h => absurd h hnotBorrowed, fun _ => h.handle.restores hs hpos⟩

lemma handedOver_inline {ptr : Usize t} (h : v.Represents w ⟨s, .inline⟩)
    (hptr : A.pick w s.bytes.length = some ptr) :
    HandedOver w v ⟨s, .inline⟩ (w.allocate B ptr s) ⟨ptr, s.len⟩ := by
  obtain ⟨hheap, hf⟩ := A.fresh hptr
  have hvacant : w.Vacant ptr s.len.toNat := s.len_toNat.symm ▸ A.fresh hptr
  have hs := Str.compressible_of_le (h.encodes.length_le rfl)
  have hnotShared : ¬ v.isShared = true := h.encodes.isShared_iff.not.mpr (by simp)
  have hnotBorrowed : ¬ v.isBorrowed = true :=
    h.encodes.isBorrowed_iff.not.mpr (by simp)
  have hh := Handle.allocate w B ptr s
  have hu : (⟨.ofStr ptr .shared s hs⟩ : RefStrCore t B).Represents (w.allocate B ptr s)
      ⟨s, .shared⟩ := .shared hs hh
  have hlen : v.len = s.len := h.encodes.len_eq
  have hequal : v.eq ⟨.ofStr ptr .shared s hs⟩ (w.allocate B ptr s) =
      .ok true (w.allocate B ptr s) := by
    rw [(h.allocate hheap hf).run_eq hu, decide_eq_true rfl]
  refine ⟨⟨h.run_asStr, run_readRaw rfl hh.read⟩, s.len_toNat, hs, fun h => absurd h hnotShared,
    fun _ => ⟨hvacant, ?_, _, hh.run_rebuild hs, hu.encodes.isShared_eq, hequal⟩,
    fun h => absurd h hnotBorrowed, fun _ => hh.restores hs ?_⟩
  · rw [World.heap_allocate, hlen]
  · rw [World.strongCount_allocate]
    exact Nat.one_pos

lemma handedOver_borrowed {ptr : Usize t} (h : v.Represents w ⟨s, .borrowed ptr⟩) :
    HandedOver w v ⟨s, .borrowed ptr⟩ w ⟨v.parts.rawPtr, s.len⟩ := by
  have hb : v.isBorrowed = true := h.encodes.isBorrowed_iff.mpr rfl
  have hnotShared : ¬ v.isShared = true := h.encodes.isShared_iff.not.mpr (by simp)
  have hnotInline : ¬ v.isInline = true := h.encodes.isInline_iff.not.mpr (by simp)
  refine ⟨⟨h.run_asStr, run_readRaw rfl (h.read (by simp))⟩, s.len_toNat,
    h.encodes.compressible (by simp), fun h => absurd h hnotShared,
    fun h => absurd h hnotInline, fun _ => ⟨rfl, ?_⟩, fun h => ?_⟩
  · rw [h.encodes.rawPtr_eq]
  · rw [hb] at h
    cases h

end Represents
end RefStrCore

namespace Sys
variable {sys : Sys t} {events : List (Event t)}

/-- In every reachable state the pointer that a value is handed over as denotes its contents,
for the text that the abstract run assigns to it, and every raw pointer that owns a strong
count and is not too long to be rebuilt can be counted once more. -/
theorem raw_pointer_roundtrip (hrun : Run events sys) :
    (∀ (i : ℕ) (k : WrapperKind) (B : Backend) (v : Wrapper t k B) (A : Allocator t),
      sys.slots[i]? = some (.value k B v) →
      (v.inner.isInline = true → (A.pick sys.world v.inner.len.toNat).isSome) →
        ∃ x p w, (Store.ofEvents events).get i = some x ∧
          v.inner.intoRaw A sys.world = .ok p w ∧ HandedOver sys.world v.inner x w p ∧
          ((∃ q w', v.inner.intoRawShared sys.world = .ok (some q) w') ↔
            v.inner.isShared = true) ∧
          (v.inner.isShared = false →
            v.inner.intoRawShared sys.world = .ok none sys.world)) ∧
    ∀ (i : ℕ) (B : Backend) (p : RawStr t), sys.slots[i]? = some (.raw B p) →
      p.len ≤ t.maxBorrowedOrSharedLen → Restores B p sys.world := by
  have hinv := hrun.inv
  refine ⟨fun i k B v A hv hroom => ?_, fun i B p hp hfits => ?_⟩
  · obtain ⟨x, hx, h⟩ := hinv.represents hv
    have hsh : v.inner.isShared = true ↔ x.origin.tag = .shared := h.encodes.isShared_iff
    have hno : x.origin.tag ≠ .shared →
        v.inner.intoRawShared sys.world = .ok none sys.world := h.run_intoRawShared
    have hsome : (∃ q w', v.inner.intoRawShared sys.world = .ok (some q) w') ↔
        v.inner.isShared = true := by
      rw [hsh]
      constructor
      · rintro ⟨q, w', hq⟩
        by_contra hx'
        rw [hno hx'] at hq
        cases hq
      · intro hx'
        rw [Text.eq_shared hx'] at h
        exact ⟨_, _, h.run_intoRawShared_shared⟩
    have hnone : v.inner.isShared = false →
        v.inner.intoRawShared sys.world = .ok none sys.world :=
      fun hshared => hno (hsh.not.mp (Bool.eq_false_iff.mp hshared))
    rw [h.len_toNat] at hroom
    obtain ⟨s, ptr | _ | _⟩ := x
    · exact ⟨_, _, _, hx, h.run_intoRaw (by simp), h.handedOver_borrowed, hsome,
        hnone⟩
    · obtain ⟨ptr, hptr⟩ := Option.isSome_iff_exists.mp (hroom (h.encodes.isInline_iff.mpr rfl))
      exact ⟨_, _, _, hx, h.run_intoRaw_inline hptr, h.handedOver_inline hptr, hsome, hnone⟩
    · exact ⟨_, _, _, hx, h.run_intoRaw (by simp),
        h.handedOver_shared (strongCount_pos_of_shared hinv hv h), hsome, hnone⟩
  · have hx := hinv.holds i _ hp
    have hpos := hinv.strongCount_pos (o := ⟨B, p⟩)
      (List.mem_flatMap.mpr ⟨_, List.mem_of_getElem? hp, List.mem_singleton_self _⟩)
    generalize (Store.ofEvents events).get i = x at hx
    cases hx with
    | raw h =>
      rw [h.len] at hfits
      exact h.restores hfits hpos

/-- An inline value of three letters is handed over through an allocation of its own. -/
theorem raw_pointer_roundtrip_letters : ∃ (sys : Sys Target.x64LE)
    (v : Wrapper Target.x64LE .staticKind .sharedBackend) (A : Allocator Target.x64LE),
    sys.slots = [.value .staticKind .sharedBackend v] ∧ v.isInline = true ∧
      ∃ p w, v.inner.intoRaw A sys.world = .ok p w ∧ readRaw p w = .ok [97, 97, 97] w := by
  let s : Str Target.x64LE := .letters 3 (by decide)
  let w : World Target.x64LE := ⟨fun _ => none, fun _ => none⟩
  have hshort : s.bytes.length ≤ Target.x64LE.inlineCapacity := by decide
  obtain ⟨q, hq, hfrom⟩ := run_fromOwnedLike_inline (B := .sharedBackend)
    (A := .firstFit []) (w := w) hshort
  have hv : (⟨q⟩ : RefStrCore .x64LE .sharedBackend).Represents w ⟨s, .inline⟩ :=
    .inline hshort hq
  have hrun := (Run.initial w.mem).create (c := .fromOwnedLike .staticKind .sharedBackend s)
    trivial (run_map (run_map hfrom _) _) fun _ _ h => h
  have hroom : ((Allocator.firstFit (t := .x64LE) [4096#64]).pick w s.bytes.length).isSome := by
    rfl
  rw [← hv.len_toNat] at hroom
  obtain ⟨x, p, w', hx, hraw, hhand, -⟩ := (raw_pointer_roundtrip hrun).1 0 .staticKind
    .sharedBackend ⟨⟨q⟩⟩ (.firstFit [4096#64]) rfl fun _ => hroom
  obtain rfl : Text.owned s = x := Option.some.inj hx
  exact ⟨_, _, _, rfl, hv.encodes.isInline_eq, p, w', hraw, hhand.content.2⟩

end Sys
end RefStr
