import RefStr.System

/-! The runs refine the abstract runs. In every state reached the allocations are sound, the
strong counts are balanced by what the program holds, and every slot holds the text that the
abstract run assigns to it. -/
namespace RefStr
open ByteMemory RefStrCore
variable {t : Target}

def World.Keeps (w w' : World t) (p : RawStr t) : Prop :=
  ∀ bs, read w.mem p.ptr p.len.toNat = some bs → read w'.mem p.ptr p.len.toNat = some bs

lemma World.Keeps.read {w w' : World t} {p : RawStr t} {s : Str t} (h : w.Keeps w' p)
    (hl : p.len = s.len) (hread : read w.mem p.ptr s.bytes.length = some s.bytes) :
    read w'.mem p.ptr s.bytes.length = some s.bytes := by
  have hs := h s.bytes
  rw [hl, s.len_toNat] at hs
  exact hs hread

lemma Handle.keep {w w' : World t} {B : Backend} {p : RawStr t} {s : Str t}
    (h : Handle w B p s) (hcount : w'.counts ⟨B, p⟩ ≠ none) (hkeep : w.Keeps w' p) :
    Handle w' B p s :=
  ⟨h.len, hcount, hkeep.read h.len h.read⟩

namespace Slot
variable {w w' : World t} {slot y : Slot t} {x : Option (Text t)}

inductive Holds (w : World t) : Slot t → Option (Text t) → Prop
  | value {k : WrapperKind} {B : Backend} {v : Wrapper t k B} {x : Text t}
      (h : v.inner.Represents w x) : Holds w (.value k B v) (some x)
  | parts {B : Backend} {p : RawParts t} {x : Text t}
      (h : (⟨p⟩ : RefStrCore t B).Represents w x) : Holds w (.parts B p) (some x)
  | handle {B : Backend} {p : RawStr t} {s : Str t} (h : Handle w B p s) :
      Holds w (.handle B ⟨p⟩) (some ⟨s, .shared⟩)
  | raw {B : Backend} {p : RawStr t} {s : Str t} (h : Handle w B p s) :
      Holds w (.raw B p) (some ⟨s, .shared⟩)
  | pointer {p : RawStr t} {s : Str t} (hl : p.len = s.len)
      (hread : read w.mem p.ptr s.bytes.length = some s.bytes) :
      Holds w (.pointer p) (some ⟨s, .borrowed p.ptr⟩)
  | gone : Holds w .gone none

/-- A value keeps its text while its slice is kept and its owner is counted and kept. -/
lemma represents_keep {B : Backend} {v : RefStrCore t B} {x : Text t} (h : v.Represents w x)
    (hborrow : ∀ p ∈ v.borrows, w.Keeps w' p)
    (howner : ∀ o ∈ v.owners, w'.counts o ≠ none ∧ w.Keeps w' o.raw) :
    v.Represents w' x := by
  refine h.frame (fun hx => ?_) fun o ho => (howner o ho).1
  have hread := h.read hx
  obtain ⟨s, ptr | _ | _⟩ := x
  · rw [h.borrows_borrowed, ← h.encodes.rawPtr_eq] at hborrow
    exact (hborrow _ List.mem_cons_self).read rfl hread
  · exact absurd rfl hx
  · rw [h.owners_shared] at howner
    exact (howner _ List.mem_cons_self).2.read rfl hread

/-- The frame rule: a slot is not affected by what happens to memory and to counts of
others. -/
lemma Holds.keep (h : slot.Holds w x) (hborrow : ∀ p ∈ slot.borrows, w.Keeps w' p)
    (howner : ∀ o ∈ slot.owners, w'.counts o ≠ none ∧ w.Keeps w' o.raw) :
    slot.Holds w' x := by
  cases h with
  | value h => exact .value (represents_keep h hborrow howner)
  | parts h => exact .parts (represents_keep h hborrow howner)
  | handle h =>
    obtain ⟨hc, hk⟩ := howner _ List.mem_cons_self
    exact .handle (h.keep hc hk)
  | raw h =>
    obtain ⟨hc, hk⟩ := howner _ List.mem_cons_self
    exact .raw (h.keep hc hk)
  | pointer hl hread => exact .pointer hl ((hborrow _ List.mem_cons_self).read hl hread)
  | gone => exact .gone

lemma keeps_of_steady {p : RawStr t} (h : Steady w.mem w'.mem)
    (hmap : Mapped w'.mem p.ptr p.len.toNat) : w.Keeps w' p :=
  fun _ hread => read_of_steady h hread hmap

lemma Holds.of_steady (h : slot.Holds w x) (hmem : Steady w.mem w'.mem) (hsound : w'.Sound)
    (halive : ∀ p ∈ slot.borrows, Mapped w'.mem p.ptr p.len.toNat)
    (hcount : ∀ o ∈ slot.owners, w'.counts o ≠ none) : slot.Holds w' x :=
  h.keep (fun p hp => keeps_of_steady hmem (halive p hp))
    fun o ho => ⟨hcount o ho, keeps_of_steady hmem (hsound.mapped_of_counts (hcount o ho))⟩

/-- A value owns nothing, or a strong count of an allocation that holds its text. -/
lemma owners_of_represents {B : Backend} {v : RefStrCore t B} {x : Text t}
    (h : v.Represents w x) : v.owners = [] ∨
      ∃ p s, v.owners = [⟨B, p⟩] ∧ Handle w B p s ∧ x = ⟨s, .shared⟩ := by
  by_cases hx : x.origin.tag = .shared
  · rw [Text.eq_shared hx] at h
    exact Or.inr ⟨_, _, h.owners_shared, h.handle, Text.eq_shared hx⟩
  · exact Or.inl (h.owners_eq_nil hx)

lemma Holds.owners {x : Text t} (h : slot.Holds w (some x)) : slot.owners = [] ∨
    ∃ B p s, slot.owners = [⟨B, p⟩] ∧ Handle w B p s ∧ x = ⟨s, .shared⟩ := by
  cases h with
  | @value k B v _ h => exact (owners_of_represents h).imp id fun h => ⟨B, h⟩
  | @parts B p _ h => exact (owners_of_represents h).imp id fun h => ⟨B, h⟩
  | @handle B p s h => exact Or.inr ⟨B, p, s, rfl, h, rfl⟩
  | @raw B p s h => exact Or.inr ⟨B, p, s, rfl, h, rfl⟩
  | pointer => exact Or.inl rfl

lemma borrows_of_represents {B : Backend} {v : RefStrCore t B} {x : Text t}
    (h : v.Represents w x) : v.borrows = x.borrows := by
  by_cases hx : x.origin.tag = .borrowed
  · obtain ⟨s, ptr | _ | _⟩ := x
    · exact h.borrows_borrowed
    · cases hx
    · cases hx
  · rw [Text.borrows_eq_nil hx, RefStrCore.borrows, if_neg]
    exact fun hb => hx (h.encodes.isBorrowed_iff.mp hb)

/-- What a slot refers to can be read off its text. -/
lemma Holds.borrows_eq (h : slot.Holds w x) :
    slot.borrows = x.elim [] Text.borrows := by
  cases h with
  | value h | parts h => exact borrows_of_represents h
  | @pointer p s hl _ =>
    change [p] = [⟨p.ptr, s.len⟩]
    rw [← hl]
  | handle | raw | gone => rfl

lemma Holds.read_borrows {x : Text t} (h : slot.Holds w (some x)) {p : RawStr t}
    (hp : p ∈ x.borrows) : read w.mem p.ptr p.len.toNat = some x.str.bytes := by
  have hcore : ∀ {B : Backend} {v : RefStrCore t B}, v.Represents w x →
      read w.mem p.ptr p.len.toNat = some x.str.bytes := by
    intro B v h
    obtain ⟨s, ptr | _ | _⟩ := x
    · obtain rfl := List.mem_singleton.mp hp
      rw [s.len_toNat, ← h.encodes.rawPtr_eq]
      exact h.read (by simp)
    · cases hp
    · cases hp
  cases h with
  | value h | parts h => exact hcore h
  | pointer hl hread =>
    obtain rfl := List.mem_singleton.mp hp
    rwa [Str.len_toNat]
  | handle | raw => cases hp

lemma Holds.mapped (h : slot.Holds w x) :
    ∀ p ∈ slot.borrows, Mapped w.mem p.ptr p.len.toNat := by
  intro p hp
  rw [h.borrows_eq] at hp
  cases x with
  | none => cases hp
  | some x =>
    rw [← isSome_read_iff, h.read_borrows hp]
    rfl

end Slot

/-- What an operation leaves behind: it trades owners for those of the slot, which holds
the text. -/
structure Yields (w : World t) (os : List (Owner t)) (w' : World t) (y : Slot t)
    (x : Option (Text t)) : Prop where
  evolves : World.Evolves w os w' y.owners
  holds : y.Holds w' x

/-- What a computation can come to: a result, no room for an allocation, or the panic about a
string that is too long. -/
inductive Outcome {α : Type} (P : α → World t → Prop) (long : Prop) :
    EStateM.Result Fault (World t) α → Prop
  | ok {a : α} {w : World t} (h : P a w) : Outcome P long (.ok a w)
  | aborted {w : World t} : Outcome P long (.error .aborted w)
  | tooLarge {w : World t} (h : long) : Outcome P long (.error (.panic Arch.tooLarge) w)

namespace Outcome
variable {α β : Type} {P : α → World t → Prop} {Q : β → World t → Prop} {long : Prop}
  {m : Exec t α} {w w' : World t}

lemma of_ok {a : α} (h : m w = .ok a w') (ha : P a w') : Outcome P long (m w) := by
  rw [h]
  exact .ok ha

lemma map {f : α → β} (h : Outcome (fun a => Q (f a)) long (m w)) :
    Outcome Q long ((do return f (← m) : Exec t β) w) := by
  generalize hr : m w = r at h
  cases h with
  | ok h =>
    rw [run_bind hr]
    exact .ok h
  | aborted =>
    rw [run_bind_error hr]
    exact .aborted
  | tooLarge h =>
    rw [run_bind_error hr]
    exact .tooLarge h

lemma weaken {long' : Prop} {r : EStateM.Result Fault (World t) α} (h : Outcome P long r)
    (hlong : long → long') : Outcome P long' r := by
  cases h with
  | ok h => exact .ok h
  | aborted => exact .aborted
  | tooLarge h => exact .tooLarge (hlong h)

lemma result (h : Outcome P long (m w)) {a : α} (hrun : m w = .ok a w') : P a w' := by
  rw [hrun] at h
  cases h with
  | ok h => exact h

lemma fault (h : Outcome P long (m w)) {e : Fault} (hrun : m w = .error e w') :
    e = .aborted ∨ e = .panic Arch.tooLarge ∧ long := by
  rw [hrun] at h
  cases h with
  | aborted => exact Or.inl rfl
  | tooLarge h => exact Or.inr ⟨rfl, h⟩

end Outcome

namespace Yields
variable {A : Allocator t} {w w' : World t} {B : Backend} {k : WrapperKind} {s : Str t}
  {x : Text t} {v : RefStrCore t B}

lemma gone (h : v.Represents w x) : Yields w v.owners (v.afterDrop w) .gone none :=
  ⟨h.evolves_drop, .gone⟩

lemma ofOwned (h : fromOwnedLike A s w = .ok v w') :
    Yields w [] w' (.value k B ⟨v⟩) (some (.owned s)) := by
  obtain ⟨hev, hv⟩ := Represents.of_fromOwnedLike h
  exact ⟨hev, .value hv⟩

lemma ofStr {ptr : Usize t} (hs : s.Compressible)
    (hread : read w.mem ptr s.bytes.length = some s.bytes) :
    Yields w [] w (.value k B ⟨⟨.ofStr ptr .borrowed s hs⟩⟩) (some ⟨s, .borrowed ptr⟩) := by
  have hv : (⟨.ofStr ptr .borrowed s hs⟩ : RefStrCore t B).Represents w ⟨s, .borrowed ptr⟩ :=
    .borrowed hs hread
  refine ⟨?_, .value hv⟩
  rw [Slot.owners, hv.owners_eq_nil (by simp)]
  exact World.Evolves.refl w []

end Yields

lemma Wrapper.fromStr_eq {B : Backend} {k : WrapperKind} (s : StrRef t) :
    (Wrapper.fromStr s : Except Fault (Wrapper t k B)) =
      if h : s.str.Compressible then .ok ⟨⟨.ofStr s.ptr .borrowed s.str h⟩⟩
      else .error (.panic Arch.tooLarge) := by
  rw [Wrapper.fromStr, RefStrCore.fromStr_eq]
  split_ifs <;> rfl

section Outcomes
variable {A : Allocator t} {w : World t} {B : Backend} {k : WrapperKind} {s : Str t}
  {x : Text t} {v : RefStrCore t B}

lemma outcome_allocate : Outcome (fun h w' => Yields w [] w' (.handle B h) (some ⟨s, .shared⟩))
    False (Backend.allocate A B s w) := by
  cases hptr : A.pick w s.bytes.length with
  | none =>
    rw [run_allocate_error hptr]
    exact .aborted
  | some ptr =>
    obtain ⟨hheap, hf⟩ := A.fresh hptr
    exact .of_ok (run_allocate hptr)
      ⟨World.Evolves.allocate hheap hf, .handle (Handle.allocate w B ptr s)⟩

lemma outcome_fromOwnedLike :
    Outcome (fun v w' => Yields w [] w' (.value k B ⟨v⟩) (some (.owned s)))
      (¬ s.Compressible) ((fromOwnedLike A s : Exec t (RefStrCore t B)) w) := by
  by_cases hshort : s.bytes.length ≤ t.inlineCapacity
  · obtain ⟨q, -, hrun⟩ := run_fromOwnedLike_inline (B := B) (A := A) (w := w) hshort
    exact .of_ok hrun (.ofOwned hrun)
  · cases hptr : A.pick w s.bytes.length with
    | none =>
      rw [run_fromOwnedLike_aborted hshort hptr]
      exact .aborted
    | some ptr =>
      have hrun := run_fromOwnedLike_shared (B := B) hshort hptr
      by_cases hs : s.Compressible
      · rw [dif_pos hs] at hrun
        exact .of_ok hrun (.ofOwned hrun)
      · rw [hrun, dif_neg hs]
        exact .tooLarge hs

lemma outcome_fromStr {s : StrRef t}
    (hread : read w.mem s.ptr s.str.bytes.length = some s.str.bytes) :
    Outcome (fun v w' => Yields w [] w' (.value k B ⟨v⟩) (some ⟨s.str, .borrowed s.ptr⟩))
      (¬ s.str.Compressible) ((RefStrCore.fromStr s : Exec t (RefStrCore t B)) w) := by
  by_cases hs : s.str.Compressible
  · exact .of_ok (run_lift ((fromStr_eq s).trans (dif_pos hs))) (.ofStr hs hread)
  · rw [run_lift_error ((fromStr_eq s).trans (dif_neg hs))]
    exact .tooLarge hs

lemma outcome_wrapper_fromStr {s : StrRef t}
    (hread : read w.mem s.ptr s.str.bytes.length = some s.str.bytes) :
    Outcome (fun v w' => Yields w [] w' (.value k B v) (some ⟨s.str, .borrowed s.ptr⟩))
      (¬ s.str.Compressible) ((Wrapper.fromStr s : Exec t (Wrapper t k B)) w) := by
  by_cases hs : s.str.Compressible
  · exact .of_ok (run_lift ((Wrapper.fromStr_eq s).trans (dif_pos hs))) (.ofStr hs hread)
  · rw [run_lift_error ((Wrapper.fromStr_eq s).trans (dif_neg hs))]
    exact .tooLarge hs

/-- A borrowed text is copied without a panic, since its length was encoded before. -/
lemma outcome_borrowed {ptr : Usize t} (h : v.Represents w ⟨s, .borrowed ptr⟩) :
    Outcome (fun v w' => Yields w [] w' (.value k B ⟨v⟩) (some (.owned s))) False
      ((fromOwnedLike A s : Exec t (RefStrCore t B)) w) :=
  outcome_fromOwnedLike.weaken fun hs => hs (h.encodes.compressible (by simp))

lemma outcome_toStaticCore (h : v.Represents w x) :
    Outcome (fun v w' => Yields w [] w' (.value k B ⟨v⟩) (some x.promote)) False
      (v.toStaticCore A w) := by
  obtain ⟨s, ptr | _ | _⟩ := x
  · rw [h.run_toStaticCore_borrowed]
    exact outcome_borrowed h
  · exact .of_ok (h.run_toStaticCore (by simp)) ⟨h.evolves_clone, .value h.afterClone⟩
  · exact .of_ok (h.run_toStaticCore (by simp)) ⟨h.evolves_clone, .value h.afterClone⟩

lemma outcome_intoStaticCore (h : v.Represents w x) :
    Outcome (fun u w' => Yields w v.owners w' (.value k B ⟨u⟩) (some x.promote)) False
      (v.intoStaticCore A w) := by
  obtain ⟨s, ptr | _ | _⟩ := x
  · rw [h.run_intoStaticCore_borrowed, h.owners_eq_nil (by simp)]
    exact outcome_borrowed h
  · exact .of_ok (h.run_intoStaticCore (by simp)) ⟨World.Evolves.refl _ _, .value h⟩
  · exact .of_ok (h.run_intoStaticCore (by simp)) ⟨World.Evolves.refl _ _, .value h⟩

/-- A conversion moves the text into an allocation of the other backend, or the words of a
value that owns none. -/
lemma outcome_convert {B' : Backend} (hsound : w.Sound) (h : v.Represents w x) :
    Outcome (fun u w' => Yields w v.owners w' (.value k B' ⟨u⟩) (some x)) False
      (v.convert A B' w) := by
  by_cases hx : x.origin.tag = .shared
  · rw [Text.eq_shared hx] at h ⊢
    cases hptr : A.pick w x.str.bytes.length with
    | none =>
      rw [h.run_convert_aborted hptr]
      exact .aborted
    | some ptr =>
      obtain ⟨hheap, hf⟩ := A.fresh hptr
      have hs := h.encodes.compressible (by simp)
      have hv := h.of_convert_shared hsound hs hptr B'
      refine .of_ok (h.run_convert_shared hs hptr B') ⟨?_, .value hv⟩
      rw [Slot.owners, hv.owners_shared, h.owners_shared]
      exact World.Evolves.move h.handle.counted hheap hf
  · have hv := h.of_convert hx B'
    refine .of_ok (h.run_convert hx B') ⟨?_, .value hv⟩
    rw [Slot.owners, hv.owners_eq_nil hx, h.owners_eq_nil hx]
    exact World.Evolves.refl w []

/-- A raw pointer into borrowed memory owns nothing, any other owns an allocation. -/
lemma outcome_intoRaw (h : v.Represents w x) :
    Outcome (fun p w' => Yields w v.owners w' (if v.isBorrowed then .pointer p else .raw B p)
      (some x.detach)) False (v.intoRaw A w) := by
  have hb : v.isBorrowed = decide (x.origin.tag = .borrowed) := h.encodes.isBorrowed_eq
  rw [hb]
  obtain ⟨s, ptr | _ | _⟩ := x
  · have hp : v.parts.rawPtr = ptr := h.encodes.rawPtr_eq
    refine .of_ok (h.run_intoRaw (by simp)) ⟨?_, ?_⟩
    · rw [h.owners_eq_nil (by simp)]
      exact World.Evolves.refl w []
    · rw [← hp]
      exact .pointer rfl (h.read (by simp))
  · rw [h.owners_eq_nil (by simp)]
    cases hptr : A.pick w s.bytes.length with
    | none =>
      rw [h.run_intoRaw_aborted hptr]
      exact .aborted
    | some ptr =>
      obtain ⟨hheap, hf⟩ := A.fresh hptr
      exact .of_ok (h.run_intoRaw_inline hptr)
        ⟨World.Evolves.allocate hheap hf, .raw (Handle.allocate w B ptr s)⟩
  · rw [h.owners_shared]
    exact .of_ok (h.run_intoRaw (by simp)) ⟨World.Evolves.refl w _, .raw h.handle⟩

lemma outcome_fromShared {p : RawStr t} (h : Handle w B p s) :
    Outcome (fun u w' => Yields w [⟨B, p⟩] w' (.value k B ⟨u⟩) (some ⟨s, .shared⟩))
      (¬ s.Compressible) (fromShared (⟨p⟩ : Shared t B) w) := by
  have hrun := run_fromShared h
  by_cases hs : s.Compressible
  · have hp : p = ⟨p.ptr, s.len⟩ := by rw [← h.len]
    have hv : (⟨.ofStr p.ptr .shared s hs⟩ : RefStrCore t B).Represents w ⟨s, .shared⟩ :=
      .shared hs (hp ▸ h)
    rw [dif_pos hs] at hrun
    refine .of_ok hrun ⟨?_, .value hv⟩
    rw [Slot.owners, hv.owners_shared, hp]
    exact World.Evolves.refl w _
  · rw [hrun, dif_neg hs]
    exact .tooLarge hs

end Outcomes

lemma Creation.run_outcome {A : Allocator t} {w : World t} {c : Creation t}
    (hread : c.Readable w) :
    Outcome (fun y w' => Yields w [] w' y (some c.text)) (¬ c.text.str.Compressible)
      (c.run A w) := by
  cases c with
  | handle B s => exact .map (outcome_allocate.weaken False.elim)
  | fromStr k B s => exact .map (outcome_wrapper_fromStr hread)
  | fromOwnedLike k B s => exact .map (.map outcome_fromOwnedLike)
  | ofString k B s => exact .map (.map outcome_fromOwnedLike)
  | ofBoxedStr k B s => exact .map (.map outcome_fromOwnedLike)
  | ofCow k B c =>
    refine .map ?_
    cases k with
    | lifetimeKind =>
      cases c with
      | borrowed s => exact .map (outcome_fromStr hread)
      | owned s => exact .map outcome_fromOwnedLike
    | staticKind =>
      cases c with
      | borrowed s => exact outcome_wrapper_fromStr hread
      | owned s => exact .map outcome_fromOwnedLike

/-- A copy holds the text of what it was made from, promoted where that is asked for. -/
lemma Copying.run_outcome {A : Allocator t} {w : World t} {c : Copying} {slot : Slot t}
    {text : Text t} {m : Exec t (Slot t)} (hx : slot.Holds w (some text))
    (hm : c.run A slot = some m) :
    Outcome (fun y w' => Yields w [] w' y (some (c.text text))) False (m w) := by
  cases c with
  | cloneHandle =>
    cases hx with
    | @handle B p s h =>
      cases hm
      have hev : World.Evolves w [] (w.retain p.ptr) [⟨B, p⟩] := World.Evolves.retain h.counted
      exact .map (.of_ok h.run_cloneShared ⟨hev, .handle h.retain⟩)
    | _ => cases hm
  | clone =>
    cases hx with
    | value h =>
      cases hm
      exact .map (.map (.of_ok h.run_clone ⟨h.evolves_clone, .value h.afterClone⟩))
    | _ => cases hm
  | toStaticStr =>
    cases hx with
    | @value k B v _ h =>
      cases k with
      | lifetimeKind =>
        cases hm
        exact .map (.map (outcome_toStaticCore h))
      | staticKind => cases hm
    | _ => cases hm
  | incrementStrongCount =>
    obtain ho | ⟨B, p, s, ho, h, rfl⟩ := hx.owners
    · simp only [Copying.run, ho] at hm
      cases hm
    · simp only [Copying.run, ho, Option.some.injEq] at hm
      subst hm
      exact .of_ok (run_bind h.run_incrementStrongCount _)
        ⟨World.Evolves.retain (o := ⟨B, p⟩) h.counted, .raw h.retain⟩

/-- What was consumed is released or handed over, and what takes its place holds its text.
Only the construction from a handle can be refused. -/
lemma Consuming.run_outcome {A : Allocator t} {w : World t} {c : Consuming} {slot : Slot t}
    {text : Text t} {m : Exec t (Slot t)} (hsound : w.Sound)
    (hx : slot.Holds w (some text)) (hm : c.run A slot = some m) :
    Outcome (fun y w' => Yields w slot.owners w' y (c.text text))
      ((∃ k, c = .fromShared k) ∧ ¬ text.str.Compressible) (m w) := by
  cases c with
  | fromShared k =>
    cases hx with
    | handle h =>
      cases hm
      exact .map (.map ((outcome_fromShared h).weaken fun hs => ⟨⟨k, rfl⟩, hs⟩))
    | _ => cases hm
  | intoStaticStr =>
    cases hx with
    | @value k B v _ h =>
      cases k with
      | lifetimeKind =>
        cases hm
        exact .map (.map ((outcome_intoStaticCore h).weaken False.elim))
      | staticKind => cases hm
    | _ => cases hm
  | convert =>
    cases hx with
    | value h =>
      cases hm
      exact .map (.map ((outcome_convert hsound h).weaken False.elim))
    | _ => cases hm
  | rewrap k' =>
    cases hx with
    | @value k B v _ h =>
      cases hm
      exact .ok ⟨World.Evolves.refl w v.inner.owners, .value h⟩
    | _ => cases hm
  | intoRawParts =>
    cases hx with
    | @value k B v _ h =>
      cases hm
      exact .ok ⟨World.Evolves.refl w v.inner.owners, .parts h⟩
    | _ => cases hm
  | fromRawParts k =>
    cases hx with
    | @parts B p _ h =>
      cases hm
      exact .ok ⟨World.Evolves.refl w (RefStrCore.mk p : RefStrCore t B).owners, .value h⟩
    | _ => cases hm
  | intoRaw =>
    cases hx with
    | value h =>
      cases hm
      exact .map ((outcome_intoRaw h).weaken False.elim)
    | _ => cases hm
  | intoRawShared =>
    cases hx with
    | @value k B v _ h =>
      cases hm
      rw [Slot.owners, Consuming.text]
      by_cases htag : text.origin.tag = .shared
      · rw [if_pos htag]
        rw [Text.eq_shared htag] at h ⊢
        rw [h.owners_shared]
        exact .of_ok (run_bind h.run_intoRawShared_shared _)
          ⟨World.Evolves.refl w _, .raw h.handle⟩
      · rw [if_neg htag, h.owners_eq_nil htag]
        exact .of_ok (run_bind (h.run_intoRawShared htag) _) ⟨World.Evolves.refl w [], .gone⟩
    | _ => cases hm
  | fromRaw =>
    cases hx with
    | @raw B p s h =>
      cases hm
      exact .map (.of_ok h.run_fromRaw ⟨World.Evolves.refl w [⟨B, p⟩], .handle h⟩)
    | _ => cases hm
  | dropHandle =>
    cases hx with
    | @handle B p s h =>
      cases hm
      exact .of_ok (run_bind h.run_dropShared _)
        ⟨World.Evolves.release (o := ⟨B, p⟩) h.counted, .gone⟩
    | _ => cases hm
  | drop =>
    cases hx with
    | value h =>
      cases hm
      exact .of_ok (run_bind h.run_drop _) (.gone h)
    | _ => cases hm
  | intoCow =>
    cases hx with
    | value h =>
      cases hm
      exact .of_ok (run_bind h.run_intoCow _) (.gone h)
    | _ => cases hm
  | intoString =>
    cases hx with
    | value h =>
      cases hm
      exact .of_ok (run_bind h.run_intoString _) (.gone h)
    | _ => cases hm
  | intoBoxedStr =>
    cases hx with
    | value h =>
      cases hm
      exact .of_ok (run_bind h.run_intoBoxedStr _) (.gone h)
    | _ => cases hm
  | intoBytes =>
    cases hx with
    | value h =>
      cases hm
      exact .of_ok (run_bind h.run_intoBytes _) (.gone h)
    | _ => cases hm
  | forget =>
    cases hx with
    | @parts B p _ h =>
      simp only [Consuming.run] at hm
      split_ifs at hm with hp
      cases hm
      have ho : (⟨p⟩ : RefStrCore t B).owners = [] := if_neg hp
      rw [Slot.owners, ho]
      exact .ok ⟨World.Evolves.refl w [], .gone⟩
    | pointer =>
      cases hm
      exact .ok ⟨World.Evolves.refl w [], .gone⟩
    | _ => cases hm

end RefStr
