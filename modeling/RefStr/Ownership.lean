import RefStr.Progress

/-! Ownership over whole runs. The strong count of every allocation is the number of its
live owners, so an allocation is freed exactly when its last owner is gone. The one way out
of this balance is a construction that panics on the length. -/
namespace RefStr
open ByteMemory RefStrCore
variable {t : Target}

namespace Sys
variable {sys : Sys t} {store : Store t}

section Counting

lemma Inv.exists_allocation (h : sys.Inv store) {o : Owner t} (ho : o ∈ sys.owners) :
    ∃ a, sys.world.heap o.raw.ptr = some a ∧ a.backend = o.backend ∧ a.len = o.raw.len := by
  rw [← World.counts_ne_none_iff, h.balanced.eq_some_count ho]
  exact Option.some_ne_none _

lemma Inv.owner_eq (h : sys.Inv store) {o : Owner t} (ho : o ∈ sys.owners) {a : Allocation t}
    (ha : sys.world.heap o.raw.ptr = some a) : o = ⟨a.backend, ⟨o.raw.ptr, a.len⟩⟩ := by
  obtain ⟨a', ha', hB, hl⟩ := h.exists_allocation ho
  obtain rfl := Option.some.inj (ha.symm.trans ha')
  rw [hB, hl]

lemma Inv.count_eq (h : sys.Inv store) {ptr : Usize t} {a : Allocation t}
    (ha : sys.world.heap ptr = some a) :
    ⟨a.backend, ⟨ptr, a.len⟩⟩ ∈ sys.owners ∧
      sys.owners.count ⟨a.backend, ⟨ptr, a.len⟩⟩ = a.strong := by
  have hcount : sys.world.counts ⟨a.backend, ⟨ptr, a.len⟩⟩ = some a.strong :=
    World.counts_eq_some ha rfl rfl
  have hmem : ⟨a.backend, ⟨ptr, a.len⟩⟩ ∈ sys.owners := by
    refine h.balanced.mem_of_ne_none ?_
    rw [hcount]
    exact Option.some_ne_none _
  refine ⟨hmem, ?_⟩
  exact Option.some.inj ((h.balanced.eq_some_count hmem).symm.trans hcount)

lemma Inv.conserved (h : sys.Inv store) : sys.Conserved := by
  intro ptr
  cases ha : sys.world.heap ptr with
  | none =>
    rw [World.strongCount_of_eq_none ha, eq_comm, List.countP_eq_zero]
    intro o ho hptr
    obtain ⟨a, ha', -⟩ := h.exists_allocation ho
    rw [of_decide_eq_true hptr, ha] at ha'
    cases ha'
  | some a =>
    rw [World.strongCount_of_eq_some ha, ← (h.count_eq ha).2, List.count]
    refine List.countP_congr fun o ho => ?_
    rw [beq_iff_eq, decide_eq_true_iff]
    constructor
    · rintro rfl
      rfl
    · rintro rfl
      exact h.owner_eq ho ha

lemma Inv.heap_eq_none_iff (h : sys.Inv store) (ptr : Usize t) :
    sys.world.heap ptr = none ↔ ∀ o ∈ sys.owners, o.raw.ptr ≠ ptr := by
  constructor
  · rintro hnone o ho rfl
    obtain ⟨a, ha, -⟩ := h.exists_allocation ho
    rw [hnone] at ha
    cases ha
  · intro hno
    cases ha : sys.world.heap ptr with
    | none => rfl
    | some a => exact absurd rfl (hno _ (h.count_eq ha).1)

lemma Inv.strongCount_pos (h : sys.Inv store) {o : Owner t} (ho : o ∈ sys.owners) :
    0 < sys.world.strongCount o.raw.ptr := by
  rw [h.conserved, List.countP_pos_iff]
  exact ⟨o, ho, decide_eq_true rfl⟩

/-- A shared value is one of the live owners. -/
lemma strongCount_pos_of_shared (h : sys.Inv store) {i : ℕ} {k : WrapperKind} {B : Backend}
    {v : Wrapper t k B} {s : Str t} (hv : sys.slots[i]? = some (.value k B v))
    (hx : v.inner.Represents sys.world ⟨s, .shared⟩) :
    0 < sys.world.strongCount v.inner.parts.rawPtr := by
  refine h.strongCount_pos (o := ⟨B, ⟨v.inner.parts.rawPtr, s.len⟩⟩) ?_
  refine List.mem_flatMap.mpr ⟨_, List.mem_of_getElem? hv, ?_⟩
  rw [Slot.owners, hx.owners_shared]
  exact List.mem_singleton_self _

end Counting

/-- Nothing that can be done with what is held is undefined behaviour: no release of what was
freed, no access to what is gone, no bytes taken for the text that they are not. -/
def Safe (sys : Sys t) : Prop :=
  ∀ slot ∈ sys.slots, ∀ (A : Allocator t) (m : Exec t (Slot t)),
    ((∃ c : Copying, c.run A slot = some m) ∨ ∃ c : Consuming, c.run A slot = some m) →
      ∀ w', m sys.world ≠ .error .undefined w'

lemma Inv.safe (h : sys.Inv store) : sys.Safe := by
  intro slot hslot A m hm w' herr
  obtain ⟨i, hi⟩ := List.getElem?_of_mem hslot
  have hx := h.holds i slot hi
  obtain ⟨c, hm⟩ | ⟨c, hm⟩ := hm
  · obtain ⟨text, htext⟩ := exists_text_of_copy hx hm
    rw [htext] at hx
    have hfault := (Copying.run_outcome hx hm).fault herr
    simp at hfault
  · obtain ⟨text, htext⟩ := exists_text_of_consume hx hm
    rw [htext] at hx
    have hfault := (Consuming.run_outcome h.sound hx hm).fault herr
    simp at hfault

/-- Ownership is conserved over every run: strong counts are numbers of live owners, an
allocation exists as long as it has one, and shared values point to live allocations of their
own backend and length that hold their text. -/
theorem ownership_conserved (hsys : sys.Reachable) :
    sys.Conserved ∧ sys.Safe ∧
    (∀ ptr, sys.world.heap ptr = none ↔ ∀ o ∈ sys.owners, o.raw.ptr ≠ ptr) ∧
    (∀ o ∈ sys.owners, ∃ a, sys.world.heap o.raw.ptr = some a ∧ a.backend = o.backend ∧
      a.len = o.raw.len ∧ 0 < a.strong) ∧
    ∀ (i : ℕ) (k : WrapperKind) (B : Backend) (v : Wrapper t k B),
      sys.slots[i]? = some (.value k B v) → v.isShared = true →
        ∃ a s, sys.world.heap v.inner.parts.rawPtr = some a ∧ a.backend = B ∧
          a.len = v.len ∧ a.len.toNat = s.bytes.length ∧
          v.asStr sys.world = .ok s sys.world ∧
          read sys.world.mem v.inner.parts.rawPtr a.len.toNat = some s.bytes := by
  obtain ⟨store, hinv⟩ := hsys.inv
  refine ⟨hinv.conserved, hinv.safe, hinv.heap_eq_none_iff, fun o ho => ?_,
    fun i k B v hv hshared => ?_⟩
  · obtain ⟨a, ha, hB, hl⟩ := hinv.exists_allocation ho
    exact ⟨a, ha, hB, hl, World.strongCount_of_eq_some ha ▸ hinv.strongCount_pos ho⟩
  · obtain ⟨x, -, hx⟩ := hinv.represents hv
    have htag : x.origin.tag = .shared := by
      rw [Wrapper.isShared, isShared, hx.encodes.isShared_eq] at hshared
      exact of_decide_eq_true hshared
    rw [Text.eq_shared htag] at hx
    obtain ⟨a, ha, hB, hl⟩ := World.counts_ne_none_iff.mp hx.handle.counted
    have hlen : a.len.toNat = x.str.bytes.length := by rw [hl, x.str.len_toNat]
    refine ⟨a, x.str, ha, hB, hl.trans hx.encodes.len_eq.symm, hlen, hx.run_asStr, ?_⟩
    rw [hlen]
    exact hx.handle.read

/-- A shared value of twenty bytes and a clone of it. -/
theorem ownership_conserved_clone : ∃ (sys : Sys Target.x64LE), sys.Reachable ∧
    sys.slots.length = 2 ∧ sys.world.strongCount 8192#64 = 2 := by
  have hrun := (Run.sharedTwenty .lifetimeKind .sharedBackend).clone (i := 0) rfl
  refine ⟨_, ⟨_, hrun⟩, rfl, ((ownership_conserved ⟨_, hrun⟩).1 8192#64).trans ?_⟩
  change List.countP _ (RefStrCore.owners _ ++ (RefStrCore.owners _ ++ [])) = 2
  rw [(sharedTwenty_represents .sharedBackend World.empty).owners_shared]
  rfl

/-- A handle that is handed over is released on the panic about its length, and what was
allocated for a string is freed, if and only if the length fits: every such panic leaks. -/
theorem fromShared_releases_iff (hsys : sys.Reachable) :
    (∀ (i : ℕ) (B : Backend) (h : Shared t B), sys.slots[i]? = some (.handle B h) →
      ((∀ w', fromShared h sys.world = .error (.panic Arch.tooLarge) w' →
        w'.strongCount h.raw.ptr + 1 = sys.world.strongCount h.raw.ptr ∧
          Conserved ⟨w', sys.slots.set i .gone⟩) ↔
        h.raw.len ≤ t.maxBorrowedOrSharedLen)) ∧
    ∀ (A : Allocator t) (B : Backend) (s : Str t),
      (A.pick sys.world s.bytes.length).isSome →
        ∀ make ∈ ([fromOwnedLike A s, fromOwnedString A s, fromOwnedBoxedStr A s] :
          List (Exec t (RefStrCore t B))),
          ((∀ w', make sys.world = .error (.panic Arch.tooLarge) w' →
            Conserved ⟨w', sys.slots⟩) ↔ s.len ≤ t.maxBorrowedOrSharedLen) := by
  obtain ⟨store, hinv⟩ := hsys.inv
  refine ⟨fun i B h hi => ?_, fun A B s hroom make hmake => ?_⟩
  · have hx := hinv.holds i _ hi
    generalize store.get i = x at hx
    cases hx with
    | @handle _ p s hh =>
      have hrun := run_fromShared hh
      rw [hh.len]
      change _ ↔ s.Compressible
      constructor
      · intro hrelease
        by_contra hs
        rw [dif_neg hs] at hrun
        have hcount := (hrelease _ hrun).1
        omega
      · intro hs w' herror
        rw [hrun, dif_pos hs] at herror
        cases herror
  · have hmake : make = fromOwnedLike A s := by
      simpa [fromOwnedString_eq, fromOwnedBoxedStr_eq] using hmake
    subst hmake
    obtain ⟨ptr, hptr⟩ := Option.isSome_iff_exists.mp hroom
    have hheap := (A.fresh hptr).1
    change _ ↔ s.Compressible
    constructor
    · intro hfree
      by_contra hs
      have hlong : ¬ s.bytes.length ≤ t.inlineCapacity :=
        fun h => hs (Str.compressible_of_le h)
      have hrun := run_fromOwnedLike_shared (B := B) hlong hptr
      rw [dif_neg hs] at hrun
      have hcount := hfree _ hrun ptr
      have hnone : sys.owners.countP (fun o => o.raw.ptr = ptr) = 0 := by
        rw [List.countP_eq_zero]
        intro o ho
        simpa using (hinv.heap_eq_none_iff ptr).mp hheap o ho
      change (sys.world.allocate B ptr s).strongCount ptr = sys.owners.countP _ at hcount
      rw [hnone, World.strongCount_allocate] at hcount
      cases hcount
    · intro hs w' herror
      by_cases hshort : s.bytes.length ≤ t.inlineCapacity
      · obtain ⟨q, -, hrun⟩ := run_fromOwnedLike_inline (B := B) (A := A) (w := sys.world) hshort
        rw [hrun] at herror
        cases herror
      · rw [run_fromOwnedLike_shared hshort hptr, dif_pos hs] at herror
        cases herror

/-- A handle on twenty bytes is handed over without a panic. -/
theorem fromShared_releases_short : ∃ (sys : Sys Target.x64LE) (h : Shared Target.x64LE
    .localBackend), sys.slots = [.handle .localBackend h] ∧
      ∀ w', fromShared h sys.world = .error (.panic Arch.tooLarge) w' →
        w'.strongCount h.raw.ptr + 1 = sys.world.strongCount h.raw.ptr ∧
          Conserved ⟨w', sys.slots.set 0 .gone⟩ := by
  have hrun := (Run.initial World.twenty.mem).handle (B := .localBackend) World.pick_twenty
  exact ⟨_, _, rfl, ((fromShared_releases_iff ⟨_, hrun⟩).1 0 .localBackend _ rfl).mpr (by decide)⟩

/-- On a 32-bit target a handle on `2^27` bytes is leaked. -/
theorem fromShared_leaks : ¬ ∀ sys : Sys Target.x86BE, sys.Reachable →
    ∀ (i : ℕ) (B : Backend) (h : Shared Target.x86BE B),
      sys.slots[i]? = some (.handle B h) →
        ∀ w', fromShared h sys.world = .error (.panic Arch.tooLarge) w' →
          w'.strongCount h.raw.ptr + 1 = sys.world.strongCount h.raw.ptr := by
  let s : Str Target.x86BE := .letters (2 ^ 27) (by decide)
  let w : World Target.x86BE := .empty
  have hs : ¬ s.Compressible := by
    rw [Str.Compressible, Str.len, Str.letters_length]
    decide
  have hptr := Allocator.firstFit_pick (n := s.bytes.length) [] (rfl : w.heap 16#32 = none)
    fun _ _ => rfl
  have hrun := (Run.initial w.mem).handle (B := .localBackend) hptr
  have hfrom := (run_fromShared (Handle.allocate w .localBackend 16#32 s)).trans (dif_neg hs)
  intro h
  exact Nat.succ_ne_self _ (h _ ⟨_, hrun⟩ 0 .localBackend _ rfl _ hfrom)

end Sys
end RefStr
