import RefStr.Blocks
import RefStr.Ownership

/-! Allocators make no difference. Two runs of the same operations that are passed the same
references, with whatever allocators and whatever else the program does with memory of its own,
end in states that are the same up to a permutation of the addresses: the same types and words,
the same sharing, the same allocations with the same counts and contents. -/
namespace RefStr
open RefStrCore ByteMemory
variable {t : Target} (ρ : Usize t → Usize t)

def RawStr.relocate (p : RawStr t) : RawStr t := ⟨ρ p.ptr, p.len⟩

/-- Only the words of a shared value say where an allocation is. -/
def RefStrCore.relocate {B : Backend} (v : RefStrCore t B) : RefStrCore t B :=
  if v.isShared then ⟨{ v.parts with rawPtr := ρ v.parts.rawPtr }⟩ else v

def Slot.relocate : Slot t → Slot t
  | value k B v => .value k B ⟨v.inner.relocate ρ⟩
  | handle B s => .handle B ⟨s.raw.relocate ρ⟩
  | parts B p => .parts B ((RefStrCore.mk p : RefStrCore t B).relocate ρ).parts
  | raw B p => .raw B (p.relocate ρ)
  | pointer p => .pointer p
  | gone => .gone

def Owner.relocate (o : Owner t) : Owner t := ⟨o.backend, o.raw.relocate ρ⟩

/-- The program uses the crate, and does not only change memory of its own. -/
def Event.isOperation : Event t → Bool
  | .environment _ => false
  | _ => true

variable {ρ}

lemma RefStrCore.relocate_of_ne {B : Backend} {v : RefStrCore t B} {w : World t} {x : Text t}
    (h : v.Represents w x) (hx : x.origin.tag ≠ .shared) : v.relocate ρ = v :=
  if_neg (h.encodes.isShared_iff.not.mpr hx)

/-- Two values that stand for the same text differ only in where they keep it. -/
lemma RefStrCore.Represents.relocate_eq {B : Backend} {v v' : RefStrCore t B} {w w' : World t}
    {x : Text t} (h : v.Represents w x) (h' : v'.Represents w' x)
    (howners : v'.owners.map (fun o => o.raw.ptr) = v.owners.map fun o => ρ o.raw.ptr) :
    v' = v.relocate ρ := by
  by_cases hx : x.origin.tag = .shared
  · have hshared : v.isShared = true := h.encodes.isShared_iff.mpr hx
    rw [Text.eq_shared hx] at h h'
    rw [h.owners_shared, h'.owners_shared] at howners
    have hptr : v'.parts.rawPtr = ρ v.parts.rawPtr := (List.cons.inj howners).1
    rw [RefStrCore.relocate, if_pos hshared, ← hptr]
    cases h with
    | shared hs _ =>
      cases h' with
      | shared _ _ => rfl
  · rw [RefStrCore.relocate_of_ne h hx]
    cases h with
    | borrowed hs _ =>
      cases h' with
      | borrowed _ _ => rfl
    | «inline» hs hp =>
      cases h' with
      | «inline» _ hp' => rw [Except.ok.inj (hp'.symm.trans hp)]
    | shared => exact absurd rfl hx

lemma Slot.Holds.relocate_eq {slot slot' : Slot t} {w w' : World t} {x : Option (Text t)}
    (h : slot.Holds w x) (h' : slot'.Holds w' x) (htype : slot'.type = slot.type)
    (howners : slot'.owners.map (fun o => o.raw.ptr) = slot.owners.map fun o => ρ o.raw.ptr) :
    slot' = slot.relocate ρ := by
  cases h with
  | value h =>
    cases h' with
    | value h' =>
      cases htype
      rw [Slot.relocate, ← h.relocate_eq h' howners]
    | _ => cases htype
  | parts h =>
    cases h' with
    | parts h' =>
      cases htype
      rw [Slot.relocate, ← h.relocate_eq h' howners]
    | _ => cases htype
  | @handle B p s h =>
    cases h' with
    | @handle B' p' _ h' =>
      cases htype
      have hptr : p'.ptr = ρ p.ptr := (List.cons.inj howners).1
      rw [Slot.relocate, RawStr.relocate, ← hptr, h.len, ← h'.len]
    | _ => cases htype
  | @raw B p s h =>
    cases h' with
    | @raw B' p' _ h' =>
      cases htype
      have hptr : p'.ptr = ρ p.ptr := (List.cons.inj howners).1
      rw [Slot.relocate, RawStr.relocate, ← hptr, h.len, ← h'.len]
    | _ => cases htype
  | @pointer p s hl hread =>
    generalize hz : (some ⟨s, .borrowed p.ptr⟩ : Option (Text t)) = z at h'
    cases h' with
    | @pointer p' s' hl' _ =>
      cases p
      cases p'
      cases hz
      rw [Slot.relocate]
      exact congrArg Slot.pointer (congrArg _ (hl'.trans hl.symm))
    | _ => cases htype
  | gone =>
    cases h' with
    | gone => rfl

lemma RefStrCore.owners_relocate {B : Backend} (v : RefStrCore t B) :
    (v.relocate ρ).owners = v.owners.map (Owner.relocate ρ) := by
  rw [RefStrCore.relocate]
  split_ifs with hv
  · have hv' : (⟨{ v.parts with rawPtr := ρ v.parts.rawPtr }⟩ : RefStrCore t B).isShared =
        true := hv
    rw [RefStrCore.owners, RefStrCore.owners, if_pos hv, if_pos hv']
    rfl
  · rw [RefStrCore.owners, if_neg hv]
    rfl

lemma Slot.owners_relocate (slot : Slot t) :
    (slot.relocate ρ).owners = slot.owners.map (Owner.relocate ρ) := by
  cases slot with
  | value k B v => exact v.inner.owners_relocate
  | parts B p => exact (RefStrCore.mk p : RefStrCore t B).owners_relocate
  | handle | raw | pointer | gone => rfl

lemma World.strongCount_congr {w w' : World t} {p q : Usize t} (h : w'.heap q = w.heap p) :
    w'.strongCount q = w.strongCount p := by
  rw [World.strongCount, World.strongCount, h]

/-- What is numbered in two ways can be renamed from the one to the other. -/
lemma exists_perm_of_injOn {ι α : Type} [Finite α] {f g : ι → α} {s : Set ι}
    (hf : Set.InjOn f s) (hg : Set.InjOn g s) : ∃ ρ : Equiv.Perm α, ∀ i ∈ s, ρ (f i) = g i := by
  classical
  let e := (Equiv.Set.imageOfInjOn f s hf).symm.trans (Equiv.Set.imageOfInjOn g s hg)
  refine ⟨Equiv.extendSubtype e, fun i hi => ?_⟩
  have hmem : f i ∈ f '' s := Set.mem_image_of_mem f hi
  have hback : (Equiv.Set.imageOfInjOn f s hf).symm ⟨f i, hmem⟩ = ⟨i, hi⟩ := by
    rw [Equiv.symm_apply_eq]
    rfl
  rw [Equiv.extendSubtype_apply_of_mem e (f i) hmem, Equiv.trans_apply, hback]
  rfl

lemma Inventory.ofEvents_operations (events : List (Event t)) :
    ofEvents (events.filter Event.isOperation) = ofEvents events := by
  induction events using List.reverseRecOn with
  | nil => rfl
  | append_singleton events event ih =>
    rw [List.filter_append, ofEvents_append, ← ih]
    cases event with
    | environment mem => rw [apply]; exact congrArg _ (List.append_nil _)
    | create c => exact ofEvents_append _ _
    | copy c i => exact ofEvents_append _ _
    | consume c i => exact ofEvents_append _ _

namespace Sys
variable {sys sys' : Sys t} {events events' : List (Event t)}

/-- The slots of two states that match one inventory correspond. -/
lemma relocate_slots {σ : Inventory t} {addr addr' : ℕ → Usize t} (h : σ.Matches addr sys)
    (h' : σ.Matches addr' sys') (hρ : ∀ n, σ.InUse n → ρ (addr n) = addr' n) :
    sys'.slots = sys.slots.map (Slot.relocate ρ) := by
  have hlen : sys'.slots.length = sys.slots.length := h'.length_eq.symm.trans h.length_eq
  refine List.ext_getElem (by simpa using hlen) fun i hi' hi => ?_
  rw [List.getElem_map]
  rw [List.length_map] at hi
  obtain ⟨item, hitem, htype, hx, howners⟩ := h.exists_item (List.getElem?_eq_getElem hi)
  obtain ⟨item', hitem', htype', hx', howners'⟩ := h'.exists_item (List.getElem?_eq_getElem hi')
  obtain rfl := Option.some.inj (hitem.symm.trans hitem')
  refine hx.relocate_eq hx' (htype'.trans htype.symm) ?_
  have hmap : sys.slots[i].owners.map (fun o => ρ o.raw.ptr) =
      (sys.slots[i].owners.map fun o => o.raw.ptr).map ρ := List.map_map.symm
  rw [howners', hmap, howners, List.map_map]
  refine List.map_congr_left fun n hn => (hρ n ?_).symm
  exact ⟨item, List.mem_of_getElem? hitem, Option.mem_toList.mp hn⟩

lemma relocate_owners {slots slots' : List (Slot t)}
    (h : slots' = slots.map (Slot.relocate ρ)) :
    slots'.flatMap Slot.owners = (slots.flatMap Slot.owners).map (Owner.relocate ρ) := by
  rw [h, List.flatMap_map, List.map_flatMap]
  exact congrArg (List.flatMap · slots) (funext Slot.owners_relocate)

lemma Inv.relocate_heap {store store' : Store t} (h : sys.Inv store) (h' : sys'.Inv store')
    (hinj : Function.Injective ρ) (howners : sys'.owners = sys.owners.map (Owner.relocate ρ))
    (p : Usize t) : sys'.world.heap (ρ p) = sys.world.heap p := by
  cases ha : sys.world.heap p with
  | none =>
    rw [h'.heap_eq_none_iff, howners]
    intro o ho hp
    obtain ⟨o', ho', rfl⟩ := List.mem_map.mp ho
    exact (h.heap_eq_none_iff p).mp ha o' ho' (hinj hp)
  | some a =>
    obtain ⟨ho, -⟩ := h.count_eq ha
    have ho' : ⟨a.backend, ⟨ρ p, a.len⟩⟩ ∈ sys'.owners := by
      rw [howners]
      exact List.mem_map_of_mem ho
    obtain ⟨a', ha', hB, hl⟩ := h'.exists_allocation ho'
    have hstrong : a'.strong = a.strong := by
      rw [← World.strongCount_of_eq_some ha', ← World.strongCount_of_eq_some ha, h.conserved,
        h'.conserved, howners, List.countP_map]
      refine List.countP_congr fun o _ => ?_
      rw [decide_eq_true_iff, Function.comp_apply, decide_eq_true_iff]
      exact hinj.eq_iff
    rw [ha']
    obtain ⟨B, n, l⟩ := a
    obtain ⟨B', n', l'⟩ := a'
    cases hB
    cases hl
    cases hstrong
    rfl

lemma relocate_read {σ : Inventory t} {addr addr' : ℕ → Usize t} (h : σ.Matches addr sys)
    (h' : σ.Matches addr' sys') (hslots : sys'.slots = sys.slots.map (Slot.relocate ρ))
    {p : Usize t} {a : Allocation t} (ha : sys.world.heap p = some a) :
    read sys'.world.mem (ρ p) a.len.toNat = read sys.world.mem p a.len.toNat := by
  obtain ⟨slot, hslot, ho⟩ := List.mem_flatMap.mp (h.inv.count_eq ha).1
  obtain ⟨i, hi⟩ := List.getElem?_of_mem hslot
  have hi' : sys'.slots[i]? = some (slot.relocate ρ) := by
    rw [hslots, List.getElem?_map, hi]
    rfl
  obtain ⟨item, hitem, -, hx, -⟩ := h.exists_item hi
  obtain ⟨item', hitem', -, hx', -⟩ := h'.exists_item hi'
  obtain rfl := Option.some.inj (hitem.symm.trans hitem')
  have howners := slot.owners_relocate (ρ := ρ)
  obtain ⟨ty, x, b⟩ := item
  cases x with
  | none =>
    cases hx
    cases ho
  | some x =>
    obtain hnil | ⟨B, q, s, hq, hhandle, rfl⟩ := hx.owners
    · rw [hnil] at ho
      cases ho
    · obtain hnil' | ⟨B', q', s', hq', hhandle', hs⟩ := hx'.owners
      · rw [hnil', hq] at howners
        cases howners
      · cases hs
        rw [hq] at ho
        cases List.mem_singleton.mp ho
        rw [hq, hq'] at howners
        cases howners
        have hlen : a.len.toNat = s.bytes.length :=
          (congrArg BitVec.toNat hhandle.len).trans s.len_toNat
        rw [hlen]
        exact hhandle'.read.trans hhandle.read.symm

/-- What is borrowed is not moved, and says the same. -/
lemma read_borrows {σ : Inventory t} {addr addr' : ℕ → Usize t} (h : σ.Matches addr sys)
    (h' : σ.Matches addr' sys') {slot : Slot t} (hslot : slot ∈ sys.slots) {p : RawStr t}
    (hp : p ∈ slot.borrows) :
    read sys'.world.mem p.ptr p.len.toNat = read sys.world.mem p.ptr p.len.toNat := by
  obtain ⟨i, hi⟩ := List.getElem?_of_mem hslot
  have hlt := (List.getElem?_eq_some_iff.mp hi).1
  rw [← h.length_eq, h'.length_eq] at hlt
  obtain ⟨item, hitem, -, hx, -⟩ := h.exists_item hi
  obtain ⟨item', hitem', -, hx', -⟩ := h'.exists_item (List.getElem?_eq_getElem hlt)
  obtain rfl := Option.some.inj (hitem.symm.trans hitem')
  rw [hx.borrows_eq] at hp
  obtain ⟨ty, x, b⟩ := item
  cases x with
  | none => cases hp
  | some x => exact (hx'.read_borrows hp).trans (hx.read_borrows hp).symm

/-- The allocators pick addresses, and nothing else depends on them: two runs of the same
operations, which are passed the same references, end in states that are the same up to a
permutation. What is borrowed reads the same. -/
theorem allocators_make_no_difference (h : Run events sys) (h' : Run events' sys')
    (hops : events.filter Event.isOperation = events'.filter Event.isOperation) :
    ∃ ρ : Equiv.Perm (Usize t), sys'.slots = sys.slots.map (Slot.relocate ρ) ∧
      (∀ p, sys'.world.heap (ρ p) = sys.world.heap p) ∧
      (∀ p a, sys.world.heap p = some a →
        read sys'.world.mem (ρ p) a.len.toNat = read sys.world.mem p a.len.toNat) ∧
      ∀ slot ∈ sys.slots, ∀ p ∈ slot.borrows,
        read sys'.world.mem p.ptr p.len.toNat = read sys.world.mem p.ptr p.len.toNat := by
  obtain ⟨addr, hm⟩ := Inventory.matches_ofEvents h
  obtain ⟨addr', hm'⟩ := Inventory.matches_ofEvents h'
  rw [← Inventory.ofEvents_operations, ← hops, Inventory.ofEvents_operations] at hm'
  obtain ⟨ρ, hρ⟩ := exists_perm_of_injOn (s := {n | (Inventory.ofEvents events).InUse n})
    (fun m hmuse n hnuse => hm.apart m n hmuse hnuse)
    fun m hmuse n hnuse => hm'.apart m n hmuse hnuse
  have hslots := relocate_slots (ρ := ρ) hm hm' hρ
  exact ⟨ρ, hslots, hm.inv.relocate_heap hm'.inv ρ.injective (relocate_owners hslots),
    fun p a ha => relocate_read hm hm' hslots ha, fun _ hslot _ hp => read_borrows hm hm' hslot hp⟩

/-- Twenty letters and a clone of them, at an address that is taken in the other run. -/
theorem allocators_make_no_difference_letters : ∃ (sys sys' : Sys Target.x64LE)
    (events : List (Event .x64LE)) (ρ : Equiv.Perm (Usize .x64LE)), Run events sys ∧
      Run events sys' ∧ sys.world.strongCount 4096#64 = 2 ∧ sys'.world.strongCount 4096#64 = 0 ∧
      sys'.slots = sys.slots.map (Slot.relocate ρ) ∧
      sys'.world.strongCount (ρ 4096#64) = 2 := by
  have hptr : (Allocator.firstFit (t := .x64LE) [4096#64]).pick .empty
      Str.twenty.bytes.length = some 4096#64 := Allocator.firstFit_pick [] rfl fun _ _ => rfl
  have hrun := ((Run.initial World.empty.mem).fromOwnedLike (k := .lifetimeKind)
    (B := .sharedBackend) Str.twenty_compressible (by decide) hptr).clone (i := 0) rfl
  have hrun' := ((Run.initial World.twenty.mem).fromOwnedLike (k := .lifetimeKind)
    (B := .sharedBackend) Str.twenty_compressible (by decide) World.pick_twenty).clone
    (i := 0) rfl
  obtain ⟨ρ, hslots, hheap, -⟩ := allocators_make_no_difference hrun hrun' rfl
  exact ⟨_, _, _, ρ, hrun, hrun', by decide, by decide, hslots,
    (World.strongCount_congr (hheap 4096#64)).trans (by decide)⟩

end Sys
end RefStr
