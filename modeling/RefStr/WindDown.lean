import RefStr.Leaks

/-! Giving everything up. From every state of a session there are operations that give up all
that is held: first what only refers to memory, then what owns it. Nothing is left in the heap
but the strings that were refused. -/
namespace RefStr
open ByteMemory RefStrCore
variable {t : Target}

namespace Slot

/-- The operations that give up what the slot holds. -/
def release : Slot t → List Consuming
  | value _ _ _ => [.drop]
  | handle _ _ => [.dropHandle]
  | parts _ _ => [.fromRawParts .lifetimeKind, .drop]
  | raw _ _ => [.fromRaw, .dropHandle]
  | pointer _ => [.forget]
  | gone => []

end Slot

namespace Sys
variable {events : List (Event t)} {sys : Sys t} {i : ℕ} {slot : Slot t} {w : World t}

namespace Session

lemma holds (h : Session events sys) (hi : sys.slots[i]? = some slot) :
    slot.Holds sys.world ((Books.ofEvents events).store.get i) := by
  obtain ⟨leaks, h⟩ := h.kept
  exact h.holds hi

lemma borrowsAlive (h : Session events sys) : sys.BorrowsAlive := by
  intro slot hslot
  obtain ⟨i, hi⟩ := List.mem_iff_getElem?.mp hslot
  exact (h.holds hi).mapped

lemma consume (h : Session events sys) (hi : sys.slots[i]? = some slot) {A : Allocator t}
    {c : Consuming} {m : Exec t (Slot t)} {y : Slot t} (hm : c.run A slot = some m)
    (hrun : m sys.world = .ok y w) (halive : BorrowsAlive ⟨w, sys.slots.set i y⟩) :
    Session (events ++ [.consume c i]) ⟨w, sys.slots.set i y⟩ :=
  h.attempt (.done (.consume hi hm hrun halive))

/-- Nothing refers to memory that is given up with the slot. -/
def Loose (sys : Sys t) (slot : Slot t) : Prop :=
  slot.owners = [] ∨ ∀ other ∈ sys.slots, other.borrows = []

/-- What is seen as something else, while no memory changes, refers to no more than it did. -/
lemma alive_set (h : Session events sys) (hi : sys.slots[i]? = some slot) {y : Slot t}
    (hborrows : y.borrows ⊆ slot.borrows) (hworld : w = sys.world ∨ ∀ other ∈ sys.slots,
      other.borrows = []) : BorrowsAlive ⟨w, sys.slots.set i y⟩ := by
  intro other hother p hp
  have hold : ∃ slot' ∈ sys.slots, p ∈ slot'.borrows := by
    obtain hmem | rfl := List.mem_or_eq_of_mem_set hother
    · exact ⟨other, hmem, hp⟩
    · exact ⟨slot, List.mem_of_getElem? hi, hborrows hp⟩
  obtain ⟨slot', hslot', hp'⟩ := hold
  obtain rfl | hnone := hworld
  · exact h.borrowsAlive slot' hslot' p hp'
  · rw [hnone slot' hslot'] at hp'
    cases hp'

/-- A slot that is seen as something else is as loose as it was. -/
lemma Loose.set (hloose : Loose sys slot) (hi : sys.slots[i]? = some slot) {y : Slot t}
    (howners : y.owners = slot.owners) (hborrows : y.borrows = slot.borrows) :
    Loose ⟨sys.world, sys.slots.set i y⟩ y := by
  refine hloose.imp (fun hnone => howners.trans hnone) fun hnone other hother => ?_
  obtain hmem | rfl := List.mem_or_eq_of_mem_set hother
  · exact hnone other hmem
  · exact hborrows.trans (hnone slot (List.mem_of_getElem? hi))

section Release

lemma drop (h : Session events sys) {k : WrapperKind} {B : Backend} {v : Wrapper t k B}
    (hi : sys.slots[i]? = some (.value k B v)) (hloose : Loose sys (.value k B v)) :
    ∃ w', Session (events ++ [.consume .drop i]) ⟨w', sys.slots.set i .gone⟩ := by
  obtain ⟨x, hx⟩ : ∃ x, v.inner.Represents sys.world x := by
    cases hstore : (Books.ofEvents events).store.get i with
    | none =>
      have hx := hstore ▸ h.holds hi
      cases hx
    | some x =>
      have hx := hstore ▸ h.holds hi
      cases hx with
      | value hx => exact ⟨x, hx⟩
  have hrun := hx.run_drop
  refine ⟨_, h.consume (A := .firstFit []) (c := .drop) hi rfl (run_bind hrun _)
    (h.alive_set hi (List.nil_subset _) ?_)⟩
  refine hloose.imp (fun hnone => hx.afterDrop_eq (fun hshared => ?_) _) id
  obtain ⟨s, ptr | _ | _⟩ := x
  · cases hshared
  · cases hshared
  · have howners := hx.owners_shared
    rw [show v.inner.owners = [] from hnone] at howners
    cases howners

lemma dropHandle (h : Session events sys) {B : Backend} {p : RawStr t}
    (hi : sys.slots[i]? = some (.handle B ⟨p⟩)) (hloose : Loose sys (.handle B ⟨p⟩)) :
    ∃ w', Session (events ++ [.consume .dropHandle i]) ⟨w', sys.slots.set i .gone⟩ := by
  have hx := h.holds hi
  generalize (Books.ofEvents events).store.get i = x at hx
  cases hx with
  | handle hx =>
    refine ⟨_, h.consume (A := .firstFit []) (c := .dropHandle) hi rfl
      (run_bind hx.run_dropShared _)
      (h.alive_set hi (List.nil_subset _) (Or.inr (hloose.resolve_left ?_)))⟩
    simp [Slot.owners]

/-- A slot that nothing depends on can be given up. -/
lemma release (h : Session events sys) (hi : sys.slots[i]? = some slot)
    (hloose : Loose sys slot) : ∃ w',
      Session (events ++ slot.release.map (Event.consume · i)) ⟨w', sys.slots.set i .gone⟩ := by
  have hlt := (List.getElem?_eq_some_iff.mp hi).1
  cases slot with
  | value k B v => exact h.drop hi hloose
  | handle B s => exact h.dropHandle hi hloose
  | parts B p =>
    have hnext := h.consume (A := .firstFit []) (c := .fromRawParts .lifetimeKind) hi rfl rfl
      (h.alive_set hi (List.Subset.refl _) (Or.inl rfl))
    obtain ⟨w', hdrop⟩ := hnext.drop (List.getElem?_set_self hlt) (hloose.set hi rfl rfl)
    rw [List.append_assoc, List.set_set] at hdrop
    exact ⟨w', hdrop⟩
  | raw B p =>
    have hx := h.holds hi
    generalize (Books.ofEvents events).store.get i = x at hx
    cases hx with
    | raw hx =>
      have hnext := h.consume (A := .firstFit []) (c := .fromRaw) hi rfl
        (run_bind hx.run_fromRaw _) (h.alive_set hi (List.Subset.refl _) (Or.inl rfl))
      obtain ⟨w', hdrop⟩ := hnext.dropHandle (List.getElem?_set_self hlt)
        (hloose.set hi rfl rfl)
      rw [List.append_assoc, List.set_set] at hdrop
      exact ⟨w', hdrop⟩
  | pointer p =>
    exact ⟨_, h.consume (A := .firstFit []) (c := .forget) hi rfl rfl
      (h.alive_set hi (List.nil_subset _) (Or.inl rfl))⟩
  | gone =>
    refine ⟨sys.world, ?_⟩
    rw [Slot.release, List.map_nil, List.append_nil, ← (List.getElem?_eq_some_iff.mp hi).2,
      List.set_getElem_self]
    exact h

end Release

end Session

end Sys
end RefStr
