import RefStr.Progress

/-! Refinement to plain strings. Whatever a run does, every value yields the string that the
abstract run assigns to it, through every projection, until it is consumed itself. -/
namespace RefStr
open RefStrCore
variable {t : Target}

namespace Wrapper
variable {k : WrapperKind} {B : Backend} {v : Wrapper t k B} {w : World t} {x : Text t}

/-- The lifetime wrappers and the `'static` wrappers project alike. -/
lemma run_asCow (h : v.inner.Represents w x) : v.asCow w = .ok x.cow w := by
  cases k with
  | lifetimeKind => exact h.run_asCow
  | staticKind =>
    obtain ⟨s, ptr | _ | _⟩ := x
    · exact run_bind h.run_borrowedStaticStr_borrowed _
    · exact (run_bind (h.run_borrowedStaticStr (by simp)) _).trans
        (run_bind h.run_asStr _)
    · exact (run_bind (h.run_borrowedStaticStr (by simp)) _).trans
        (run_bind h.run_asStr _)

/-- The value yields the string, however it is asked for it. -/
structure Observes (w : World t) (v : Wrapper t k B) (s : Str t) : Prop where
  asStr : v.asStr w = .ok s w
  intoString : ∃ w', v.intoString w = .ok s w'
  intoBoxedStr : ∃ w', v.intoBoxedStr w = .ok s w'
  intoBytes : ∃ w', v.intoBytes w = .ok s.bytes w'
  asCow : ∃ c, v.asCow w = .ok c w ∧ c.str = s
  intoCow : ∃ c w', v.intoCow w = .ok c w' ∧ c.str = s
  len : v.len.toNat = s.bytes.length
  isEmpty : v.isEmpty = true ↔ s.bytes = []

lemma observes (h : v.inner.Represents w x) : Observes w v x.str := by
  have hlen : v.len.toNat = x.str.bytes.length := h.len_toNat
  refine ⟨h.run_asStr, ⟨_, h.run_intoString⟩, ⟨_, h.run_intoBoxedStr⟩, ⟨_, h.run_intoBytes⟩,
    ⟨_, run_asCow h, x.cow_str⟩, ⟨_, _, h.run_intoCow, x.cow_str⟩, hlen, ?_⟩
  rw [isEmpty, RefStrCore.isEmpty, decide_eq_true_iff, ← List.length_eq_zero_iff, ← hlen]
  exact ⟨fun h => congrArg BitVec.toNat h, fun h => BitVec.eq_of_toNat_eq h⟩

end Wrapper

/-- The operation takes what is in the slot. -/
def Event.Consumes (i : ℕ) : Event t → Prop
  | .consume _ j => j = i
  | _ => False

namespace Store

/-- Only consuming a slot changes its text. -/
lemma get_apply (store : Store t) {event : Event t} {i : ℕ} {x : Text t}
    (hx : store.get i = some x) (he : ¬ event.Consumes i) :
    (store.apply event).get i = some x := by
  have happend : ∀ y, (store ++ [y] : Store t).get i = some x := by
    intro y
    rw [get, Option.join_eq_some_iff] at hx ⊢
    rw [List.getElem?_append_left (List.getElem?_eq_some_iff.mp hx).1, hx]
  cases event with
  | environment mem => exact hx
  | create c => exact happend _
  | copy c j => exact happend _
  | consume c j =>
    rw [apply, get, List.getElem?_set_ne he]
    exact hx

end Store

namespace Sys
variable {sys sys' : Sys t} {i : ℕ} {k : WrapperKind} {B : Backend}

/-- Only consuming a slot changes what is in it. -/
lemma Step.slot_eq {event : Event t} {slot : Slot t} (h : Step sys event sys')
    (hi : sys.slots[i]? = some slot) (he : ¬ event.Consumes i) :
    sys'.slots[i]? = some slot := by
  have hlt := (List.getElem?_eq_some_iff.mp hi).1
  cases h with
  | environment => exact hi
  | create => rw [List.getElem?_append_left hlt, hi]
  | copy => rw [List.getElem?_append_left hlt, hi]
  | consume => rw [List.getElem?_set_ne he, hi]

/-- Every value of every run yields the string that the abstract run assigns to it, and no
operation on something else changes what it yields. -/
theorem refines_strings {events : List (Event t)} (hrun : Run events sys) {v : Wrapper t k B}
    (hv : sys.slots[i]? = some (.value k B v)) :
    ∃ x, (Store.ofEvents events).get i = some x ∧ v.Observes sys.world x.str ∧
      ∀ (event : Event t) (sys' : Sys t), Step sys event sys' → ¬ event.Consumes i →
        sys'.slots[i]? = some (.value k B v) ∧
        (Store.ofEvents (events ++ [event])).get i = some x ∧
        v.Observes sys'.world x.str := by
  obtain ⟨x, hget, hx⟩ := hrun.inv.represents hv
  refine ⟨x, hget, Wrapper.observes hx, fun event sys' hstep he => ?_⟩
  have hv' := hstep.slot_eq hv he
  have hget' : (Store.ofEvents (events ++ [event])).get i = some x := by
    rw [Store.ofEvents_append]
    exact Store.get_apply _ hget he
  obtain ⟨x', hx', hrep⟩ := (hrun.step hstep).inv.represents hv'
  obtain rfl := Option.some.inj (hget'.symm.trans hx')
  exact ⟨hv', hget', Wrapper.observes hrep⟩

/-- A shared value of twenty letters yields them, before and after a clone of it is made. -/
theorem refines_strings_clone : ∃ (sys sys' : Sys Target.x64LE)
    (v : Wrapper Target.x64LE .lifetimeKind .sharedBackend) (s : Str Target.x64LE),
    sys.slots = [.value _ _ v] ∧ sys'.slots = [.value _ _ v, .value _ _ v] ∧
      s.bytes = List.replicate 20 97 ∧ v.Observes sys.world s ∧ v.Observes sys'.world s := by
  have hrun := Run.sharedTwenty .lifetimeKind .sharedBackend
  obtain ⟨x, hx, hv, -⟩ := refines_strings hrun (i := 0) rfl
  obtain ⟨x', hx', hv', -⟩ := refines_strings (hrun.clone (i := 0) rfl) (i := 0) rfl
  obtain rfl : Text.owned Str.twenty = x := Option.some.inj hx
  obtain rfl : Text.owned Str.twenty = x' := Option.some.inj hx'
  exact ⟨_, _, _, .twenty, rfl, rfl, rfl, hv, hv'⟩

end Sys
end RefStr
