import RefStr.Invariant
import RefStr.Entries

/-! What every operation comes to, exactly. It succeeds unless it makes a value of a string that
is too long, which is refused, or unless the allocator has no room for the string. What is
refused can leave an allocation behind that nobody is able to give up any more. -/
namespace RefStr
open Arch RefStrCore
variable {t : Target}

/-- Owners are traded for lost ones: counts that nothing in the program can give up. -/
def World.Leaks (w : World t) (os : List (Owner t)) (w' : World t) : Prop :=
  ∃ lost : List (Slot t), (∀ slot ∈ lost, slot.borrows = [] ∧ ∃ x, slot.Holds w' x) ∧
    World.Evolves w os w' (lost.flatMap Slot.owners)

lemma World.Leaks.refl (w : World t) : w.Leaks [] w :=
  ⟨[], fun _ h => absurd h List.not_mem_nil, World.Evolves.refl w []⟩

/-- The result is a value unless the string is too long, and it is missing only for want of
room or with the panic about the length. -/
inductive Completes {α : Type} (room long : Prop) (leaves : World t → Prop) :
    EStateM.Result Fault (World t) α → Prop
  | ok {a : α} {w : World t} (h : ¬ long) : Completes room long leaves (.ok a w)
  | aborted {w : World t} (h : ¬ room) : Completes room long leaves (.error .aborted w)
  | tooLarge {w : World t} (h : long) (hw : leaves w) :
      Completes room long leaves (.error (.panic tooLarge) w)

namespace Completes
variable {α β : Type} {room long : Prop} {leaves : World t → Prop} {m : Exec t α}
  {w w' : World t}

lemma of_ok {a : α} (h : m w = .ok a w') (hlong : ¬ long) :
    Completes room long leaves (m w) := by
  rw [h]
  exact .ok hlong

lemma map {f : α → β} (h : Completes room long leaves (m w)) :
    Completes room long leaves ((do return f (← m) : Exec t β) w) := by
  generalize hr : m w = r at h
  cases h with
  | ok h =>
    rw [run_bind hr]
    exact .ok h
  | aborted h =>
    rw [run_bind_error hr]
    exact .aborted h
  | tooLarge h hw =>
    rw [run_bind_error hr]
    exact .tooLarge h hw

/-- Where nothing is refused, all that is left to show is that room is enough. -/
lemma of_outcome {P : α → World t → Prop} {long' : Prop} (h : Outcome P long' (m w))
    (hlong' : ¬ long') (hlong : ¬ long) (hroom : room → ∃ a w', m w = .ok a w') :
    Completes room long leaves (m w) := by
  generalize hr : m w = r at h
  cases h with
  | ok => exact .ok hlong
  | aborted =>
    refine .aborted fun hr' => ?_
    obtain ⟨a, w', ha⟩ := hroom hr'
    rw [hr] at ha
    cases ha
  | tooLarge h => exact absurd h hlong'

lemma leaves_of_panic (h : Completes room long leaves (m w)) {message : String}
    (hm : m w = .error (.panic message) w') : leaves w' := by
  rw [hm] at h
  cases h with
  | tooLarge _ hw => exact hw

end Completes

section Create
variable {A : Allocator t} {B : Backend} {k : WrapperKind} {w : World t} {s : Str t}

lemma completes_fromOwnedLike : Completes (A.pick w s.bytes.length).isSome (¬ s.Compressible)
    (w.Leaks []) ((fromOwnedLike A s : Exec t (RefStrCore t B)) w) := by
  by_cases hshort : s.bytes.length ≤ t.inlineCapacity
  · obtain ⟨q, -, hrun⟩ := run_fromOwnedLike_inline (B := B) (A := A) (w := w) hshort
    exact .of_ok hrun (not_not.mpr (Str.compressible_of_le hshort))
  · cases hptr : A.pick w s.bytes.length with
    | none =>
      rw [run_fromOwnedLike_aborted hshort hptr]
      exact .aborted (by simp)
    | some ptr =>
      have hrun := run_fromOwnedLike_shared (B := B) hshort hptr
      by_cases hs : s.Compressible
      · rw [dif_pos hs] at hrun
        exact .of_ok hrun (not_not.mpr hs)
      · -- The count of the new allocation is handed over before the length is checked.
        rw [hrun, dif_neg hs]
        obtain ⟨hheap, hf⟩ := A.fresh hptr
        refine .tooLarge hs ⟨[.raw B ⟨ptr, s.len⟩], ?_, World.Evolves.allocate hheap hf⟩
        intro slot hslot
        obtain rfl := List.mem_singleton.mp hslot
        exact ⟨rfl, _, .raw (Handle.allocate w B ptr s)⟩

lemma completes_ofCow (c : Cow t) : Completes (A.pick w c.str.bytes.length).isSome
    (¬ c.str.Compressible) (w.Leaks []) ((Wrapper.ofCow A c : Exec t (Wrapper t k B)) w) := by
  cases c with
  | borrowed v =>
    have hrun := Wrapper.run_ofCow_borrowed (k := k) (B := B) (A := A) v w
    by_cases hs : v.str.Compressible
    · exact .of_ok (hrun.trans (dif_pos hs)) (not_not.mpr hs)
    · rw [hrun, dif_neg hs]
      exact .tooLarge hs (.refl w)
  | owned s =>
    rw [Wrapper.run_ofCow_owned]
    exact .map completes_fromOwnedLike

/-- A string that is too long is given to a constructor of the crate. -/
def Creation.Oversized (c : Creation t) : Prop :=
  match c with
  | .handle _ _ => False
  | c => ¬ c.text.str.Compressible

lemma Creation.completes (c : Creation t) :
    Completes (A.pick w c.text.str.bytes.length).isSome c.Oversized (w.Leaks [])
      (c.run A w) := by
  cases c with
  | handle B s =>
    refine .map (.of_outcome outcome_allocate id id fun hroom => ?_)
    obtain ⟨ptr, hptr⟩ := Option.isSome_iff_exists.mp hroom
    exact ⟨_, _, run_allocate hptr⟩
  | fromStr k B s =>
    have h := completes_ofCow (A := A) (B := B) (k := k) (w := w) (.borrowed s)
    rw [← Wrapper.run_ofStr] at h
    exact .map h
  | fromOwnedLike k B s => exact .map (.map completes_fromOwnedLike)
  | ofString k B s => exact .map (.map completes_fromOwnedLike)
  | ofBoxedStr k B s => exact .map (.map completes_fromOwnedLike)
  | ofCow k B c =>
    cases c with
    | borrowed s => exact .map (completes_ofCow (.borrowed s))
    | owned s => exact .map (completes_ofCow (.owned s))

end Create

section Value
variable {A : Allocator t} {B : Backend} {v : RefStrCore t B} {w : World t} {x : Text t}

namespace RefStrCore.Represents

lemma exists_ok_toStaticCore (h : v.Represents w x)
    (hroom : v.isBorrowed = true → t.inlineCapacity < x.str.bytes.length →
      (A.pick w x.str.bytes.length).isSome) :
    (∃ u w', v.toStaticCore A w = .ok u w') ∧ ∃ u w', v.intoStaticCore A w = .ok u w' := by
  obtain ⟨s, ptr | _ | _⟩ := x
  · have hs := h.encodes.compressible (by simp)
    obtain ⟨u, w', hrun, -⟩ :=
      exists_fromOwnedLike (B := B) hs (hroom (h.encodes.isBorrowed_iff.mpr rfl))
    exact ⟨⟨u, w', h.run_toStaticCore_borrowed.trans hrun⟩,
      ⟨u, w', h.run_intoStaticCore_borrowed.trans hrun⟩⟩
  · exact ⟨⟨_, _, h.run_toStaticCore (by simp)⟩, ⟨_, _, h.run_intoStaticCore (by simp)⟩⟩
  · exact ⟨⟨_, _, h.run_toStaticCore (by simp)⟩, ⟨_, _, h.run_intoStaticCore (by simp)⟩⟩

lemma exists_ok_convert (h : v.Represents w x) (B' : Backend)
    (hroom : v.isShared = true → (A.pick w x.str.bytes.length).isSome) :
    ∃ u w', v.convert A B' w = .ok u w' := by
  by_cases hx : x.origin.tag = .shared
  · obtain ⟨ptr, hptr⟩ := Option.isSome_iff_exists.mp (hroom (h.encodes.isShared_iff.mpr hx))
    rw [Text.eq_shared hx] at h
    exact ⟨_, _, h.run_convert_shared (h.encodes.compressible (by simp)) hptr B'⟩
  · exact ⟨_, _, h.run_convert hx B'⟩

lemma exists_ok_intoRaw (h : v.Represents w x)
    (hroom : v.isInline = true → (A.pick w x.str.bytes.length).isSome) :
    ∃ p w', v.intoRaw A w = .ok p w' := by
  obtain ⟨s, ptr | _ | _⟩ := x
  · exact ⟨_, _, h.run_intoRaw (by simp)⟩
  · obtain ⟨ptr, hptr⟩ := Option.isSome_iff_exists.mp (hroom (h.encodes.isInline_iff.mpr rfl))
    exact ⟨_, _, h.run_intoRaw_inline hptr⟩
  · exact ⟨_, _, h.run_intoRaw (by simp)⟩

lemma exists_ok_intoRawShared (h : v.Represents w x) : ∃ p, v.intoRawShared w = .ok p w := by
  by_cases hx : x.origin.tag = .shared
  · rw [Text.eq_shared hx] at h
    exact ⟨_, h.run_intoRawShared_shared⟩
  · exact ⟨_, h.run_intoRawShared hx⟩

end RefStrCore.Represents
end Value

/-- The length of the string that a slot is about. -/
def Slot.len (slot : Slot t) : ℕ :=
  match slot with
  | value _ _ v => v.len.toNat
  | handle _ s => s.raw.len.toNat
  | parts _ p => p.len.toNat
  | raw _ p => p.len.toNat
  | pointer p => p.len.toNat
  | gone => 0

lemma Slot.Holds.len_eq {slot : Slot t} {w : World t} {x : Text t} (h : slot.Holds w (some x)) :
    slot.len = x.str.bytes.length := by
  cases h with
  | value h => exact h.len_toNat
  | parts h => exact h.len_toNat
  | @handle B p s h => rw [← s.len_toNat, ← h.len, Slot.len]
  | @raw B p s h => rw [← s.len_toNat, ← h.len, Slot.len]
  | @pointer p s hl => rw [← s.len_toNat, ← hl, Slot.len]

section Steps
variable {A : Allocator t} {w : World t} {slot : Slot t} {x : Text t} {m : Exec t (Slot t)}

lemma Copying.completes {c : Copying} (hx : slot.Holds w (some x)) (hm : c.run A slot = some m) :
    Completes (A.pick w slot.len).isSome False (fun _ => False) (m w) := by
  refine .of_outcome (Copying.run_outcome hx hm) id id fun hroom => ?_
  rw [hx.len_eq] at hroom
  cases c with
  | cloneHandle =>
    cases hx with
    | handle h =>
      cases hm
      exact ⟨_, _, run_bind h.run_cloneShared _⟩
    | _ => cases hm
  | clone =>
    cases hx with
    | @value k B v _ h =>
      cases hm
      exact ⟨_, _, run_bind (run_map h.run_clone _) _⟩
    | _ => cases hm
  | toStaticStr =>
    cases hx with
    | @value k B v _ h =>
      cases k with
      | lifetimeKind =>
        cases hm
        obtain ⟨⟨u, w', hrun⟩, -⟩ := h.exists_ok_toStaticCore fun _ _ => hroom
        exact ⟨_, _, run_bind (run_map hrun _) _⟩
      | staticKind => cases hm
    | _ => cases hm
  | incrementStrongCount =>
    obtain ho | ⟨B, p, s, ho, h, rfl⟩ := hx.owners
    · simp only [Copying.run, ho] at hm
      cases hm
    · simp only [Copying.run, ho, Option.some.injEq] at hm
      subst hm
      exact ⟨_, _, run_bind h.run_incrementStrongCount _⟩

/-- A handle on a string that is too long is handed over. -/
def Consuming.Oversized (c : Consuming) (slot : Slot t) : Prop :=
  ∃ (k : WrapperKind) (B : Backend) (h : Shared t B), c = .fromShared k ∧
    slot = .handle B h ∧ ¬ h.raw.len ≤ t.maxBorrowedOrSharedLen

lemma Consuming.exists_ok {c : Consuming} (hx : slot.Holds w (some x))
    (hm : c.run A slot = some m) (hc : ∀ k, c ≠ .fromShared k)
    (hroom : (A.pick w slot.len).isSome) : ∃ y w', m w = .ok y w' := by
  rw [hx.len_eq] at hroom
  cases c with
  | fromShared k => exact absurd rfl (hc k)
  | intoStaticStr =>
    cases hx with
    | @value k B v _ h =>
      cases k with
      | lifetimeKind =>
        cases hm
        obtain ⟨-, u, w', hrun⟩ := h.exists_ok_toStaticCore fun _ _ => hroom
        exact ⟨_, _, run_bind (run_map hrun _) _⟩
      | staticKind => cases hm
    | _ => cases hm
  | convert =>
    cases hx with
    | @value k B v _ h =>
      cases hm
      obtain ⟨u, w', hrun⟩ := h.exists_ok_convert B.other fun _ => hroom
      exact ⟨_, _, run_bind (run_map hrun _) _⟩
    | _ => cases hm
  | rewrap | intoRawParts =>
    cases hx with
    | value =>
      cases hm
      exact ⟨_, _, rfl⟩
    | _ => cases hm
  | fromRawParts =>
    cases hx with
    | parts =>
      cases hm
      exact ⟨_, _, rfl⟩
    | _ => cases hm
  | intoRaw =>
    cases hx with
    | value h =>
      cases hm
      obtain ⟨p, w', hrun⟩ := h.exists_ok_intoRaw fun _ => hroom
      exact ⟨_, _, run_bind hrun _⟩
    | _ => cases hm
  | intoRawShared =>
    cases hx with
    | value h =>
      cases hm
      obtain ⟨p, hrun⟩ := h.exists_ok_intoRawShared
      cases p with
      | none => exact ⟨_, _, run_bind hrun _⟩
      | some p => exact ⟨_, _, run_bind hrun _⟩
    | _ => cases hm
  | fromRaw =>
    cases hx with
    | raw h =>
      cases hm
      exact ⟨_, _, run_bind h.run_fromRaw _⟩
    | _ => cases hm
  | dropHandle =>
    cases hx with
    | handle h =>
      cases hm
      exact ⟨_, _, run_bind h.run_dropShared _⟩
    | _ => cases hm
  | drop =>
    cases hx with
    | value h =>
      cases hm
      exact ⟨_, _, run_bind h.run_drop _⟩
    | _ => cases hm
  | intoCow =>
    cases hx with
    | value h =>
      cases hm
      exact ⟨_, _, run_bind h.run_intoCow _⟩
    | _ => cases hm
  | intoString =>
    cases hx with
    | value h =>
      cases hm
      exact ⟨_, _, run_bind h.run_intoString _⟩
    | _ => cases hm
  | intoBoxedStr =>
    cases hx with
    | value h =>
      cases hm
      exact ⟨_, _, run_bind h.run_intoBoxedStr _⟩
    | _ => cases hm
  | intoBytes =>
    cases hx with
    | value h =>
      cases hm
      exact ⟨_, _, run_bind h.run_intoBytes _⟩
    | _ => cases hm
  | forget =>
    cases hx with
    | parts =>
      simp only [Consuming.run] at hm
      split_ifs at hm
      cases hm
      exact ⟨_, _, rfl⟩
    | pointer =>
      cases hm
      exact ⟨_, _, rfl⟩
    | _ => cases hm

lemma Consuming.completes {c : Consuming} (hsound : w.Sound) (hx : slot.Holds w (some x))
    (hm : c.run A slot = some m) :
    Completes (A.pick w slot.len).isSome (c.Oversized slot) (w.Leaks slot.owners) (m w) := by
  by_cases hc : ∃ k, c = .fromShared k
  · obtain ⟨k, rfl⟩ := hc
    cases hx with
    | @handle B p s h =>
      cases hm
      refine .map (.map ?_)
      have hrun := run_fromShared h
      by_cases hs : s.Compressible
      · refine .of_ok (hrun.trans (dif_pos hs)) ?_
        rintro ⟨_, _, _, -, hslot, hlong⟩
        cases hslot
        exact hlong (h.len.symm ▸ hs)
      · rw [hrun, dif_neg hs]
        refine .tooLarge ⟨k, B, ⟨p⟩, rfl, rfl, h.len.symm ▸ hs⟩
          ⟨[.handle B ⟨p⟩], ?_, World.Evolves.refl w _⟩
        intro slot hslot
        obtain rfl := List.mem_singleton.mp hslot
        exact ⟨rfl, _, .handle h⟩
    | _ => cases hm
  · have hne : ∀ k, c ≠ .fromShared k := fun k hk => hc ⟨k, hk⟩
    refine .of_outcome (Consuming.run_outcome hsound hx hm) (fun h => hc h.1) ?_
      (Consuming.exists_ok hx hm hne)
    rintro ⟨k, _, _, hk, -⟩
    exact hne k hk

end Steps
end RefStr
