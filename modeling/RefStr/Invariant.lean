import RefStr.Simulation

/-! The invariant of the runs: every step of a program keeps it, so it holds in every state
that a run reaches, for the texts of the abstract run. -/
namespace RefStr
open ByteMemory
variable {t : Target}

section Environment
variable {sys : Sys t} {mem : Mem t.usizeBits}

lemma Slot.counted {w : World t} {slots : List (Slot t)} {slot : Slot t}
    (h : Ledger.Balanced w.counts (slots.flatMap Slot.owners)) (hslot : slot ∈ slots) :
    ∀ o ∈ slot.owners, w.counts o ≠ none := by
  intro o ho
  rw [h.eq_some_count (List.mem_flatMap.mpr ⟨slot, hslot, ho⟩)]
  exact Option.some_ne_none _

lemma World.Sound.environment (h : sys.world.Sound)
    (hkeep : ∀ x, sys.Protected x → mem x = sys.world.mem x) :
    (⟨mem, sys.world.heap⟩ : World t).Sound := by
  refine ⟨fun p a ha x hx => ?_, h.apart⟩
  change (mem x).isSome
  rw [hkeep x (Or.inl ⟨p, a, ha, hx⟩)]
  exact h.mapped p a ha x hx

/-- Memory that nobody refers to may change. -/
lemma Slot.Holds.environment {slot : Slot t} {x : Option (Text t)} (h : slot.Holds sys.world x)
    (hslot : slot ∈ sys.slots) (hcount : ∀ o ∈ slot.owners, sys.world.counts o ≠ none)
    (hkeep : ∀ x, sys.Protected x → mem x = sys.world.mem x) :
    slot.Holds ⟨mem, sys.world.heap⟩ x := by
  have hregion : ∀ p n, (∀ x, Within p n x → sys.Protected x) →
      read mem p n = read sys.world.mem p n :=
    fun p n hp => read_congr fun x hx => hkeep x (hp x hx)
  refine h.keep (fun p hp bs hbs => ?_) fun o ho => ⟨hcount o ho, fun bs hbs => ?_⟩
  · rw [← hbs]
    exact hregion p.ptr p.len.toNat fun x hx => Or.inr ⟨slot, hslot, p, hp, hx⟩
  · rw [← hbs]
    obtain ⟨a, ha, -, hl⟩ := World.counts_ne_none_iff.mp (hcount o ho)
    refine hregion o.raw.ptr o.raw.len.toNat fun x hx => Or.inl ⟨o.raw.ptr, a, ha, ?_⟩
    rwa [hl]

end Environment

namespace Sys

structure Inv (sys : Sys t) (store : Store t) : Prop where
  sound : sys.world.Sound
  balanced : Ledger.Balanced sys.world.counts (sys.slots.flatMap Slot.owners)
  length_eq : sys.slots.length = store.length
  holds : ∀ (i : ℕ) (slot : Slot t), sys.slots[i]? = some slot → slot.Holds sys.world (store.get i)

lemma inv_initial (mem : Mem t.usizeBits) : (initial mem).Inv [] := by
  refine ⟨⟨?_, ?_⟩, Ledger.balanced_nil, rfl, ?_⟩
  · intro p a ha
    cases ha
  · intro p q a b ha
    cases ha
  · intro i slot hi
    cases hi

namespace Inv
variable {sys : Sys t} {store : Store t}

lemma counted (h : sys.Inv store) {slot : Slot t} (hslot : slot ∈ sys.slots) :
    ∀ o ∈ slot.owners, sys.world.counts o ≠ none := Slot.counted h.balanced hslot

lemma borrowsAlive (h : sys.Inv store) : sys.BorrowsAlive := by
  intro slot hslot
  obtain ⟨i, hi⟩ := List.getElem?_of_mem hslot
  exact (h.holds i slot hi).mapped

lemma environment (h : sys.Inv store) {mem : Mem t.usizeBits}
    (hkeep : ∀ x, sys.Protected x → mem x = sys.world.mem x) :
    (⟨⟨mem, sys.world.heap⟩, sys.slots⟩ : Sys t).Inv store := by
  refine ⟨h.sound.environment hkeep, h.balanced, h.length_eq, fun i slot hi => ?_⟩
  have hslot := List.mem_of_getElem? hi
  exact (h.holds i slot hi).environment hslot (h.counted hslot) hkeep

/-- A slot that an operation leaves alone still holds its text. -/
lemma holds_of_steady (h : sys.Inv store) {w' : World t} {slots' : List (Slot t)}
    (hmem : Steady sys.world.mem w'.mem) (hsound : w'.Sound)
    (hbalanced : Ledger.Balanced w'.counts (slots'.flatMap Slot.owners))
    (halive : BorrowsAlive ⟨w', slots'⟩) {i : ℕ} {slot : Slot t}
    (hi : sys.slots[i]? = some slot) (hslot : slot ∈ slots') :
    slot.Holds w' (store.get i) :=
  (h.holds i slot hi).of_steady hmem hsound (halive slot hslot) (Slot.counted hbalanced hslot)

lemma append (h : sys.Inv store) {w' : World t} {y : Slot t} {x : Text t}
    (hy : Yields sys.world [] w' y (some x)) (halive : BorrowsAlive ⟨w', sys.slots ++ [y]⟩) :
    (⟨w', sys.slots ++ [y]⟩ : Sys t).Inv (store ++ [some x]) := by
  have hsound := hy.evolves.sound h.sound
  have hbalanced := Ledger.Updates.append hy.evolves.updates h.balanced
  refine ⟨hsound, hbalanced, by simp [h.length_eq], ?_⟩
  intro i slot hi
  simp only [Store.get]
  by_cases hlt : i < sys.slots.length
  · rw [List.getElem?_append_left hlt] at hi
    rw [List.getElem?_append_left (h.length_eq ▸ hlt)]
    exact h.holds_of_steady hy.evolves.steady hsound hbalanced halive hi
      (List.mem_append_left _ (List.mem_of_getElem? hi))
  · obtain rfl : i = sys.slots.length := by
      have hlen := (List.getElem?_eq_some_iff.mp hi).1
      simp at hlen
      omega
    rw [List.getElem?_concat_length] at hi
    obtain rfl := Option.some.inj hi
    rw [h.length_eq, List.getElem?_concat_length]
    exact hy.holds

lemma set (h : sys.Inv store) {w' : World t} {i : ℕ} {slot y : Slot t} {x : Option (Text t)}
    (hi : sys.slots[i]? = some slot) (hy : Yields sys.world slot.owners w' y x)
    (halive : BorrowsAlive ⟨w', sys.slots.set i y⟩) :
    (⟨w', sys.slots.set i y⟩ : Sys t).Inv (store.set i x) := by
  have hsound := hy.evolves.sound h.sound
  have hbalanced := Ledger.Updates.set hi hy.evolves.updates h.balanced
  refine ⟨hsound, hbalanced, by simp [h.length_eq], ?_⟩
  intro j slot' hj
  simp only [Store.get]
  have hlt := (List.getElem?_eq_some_iff.mp hi).1
  by_cases hij : i = j
  · subst hij
    rw [List.getElem?_set_self hlt] at hj
    obtain rfl := Option.some.inj hj
    rw [List.getElem?_set_self (h.length_eq ▸ hlt)]
    exact hy.holds
  · have hj' := hj
    rw [List.getElem?_set_ne hij] at hj
    rw [List.getElem?_set_ne hij]
    exact h.holds_of_steady hy.evolves.steady hsound hbalanced halive hj
      (List.mem_of_getElem? hj')

end Inv

lemma exists_text_of_copy {A : Allocator t} {w : World t} {c : Copying} {slot : Slot t}
    {x : Option (Text t)} {m : Exec t (Slot t)} (hx : slot.Holds w x)
    (hm : c.run A slot = some m) : ∃ text, x = some text := by
  cases hx with
  | gone => cases c <;> cases hm
  | _ => exact ⟨_, rfl⟩

lemma exists_text_of_consume {A : Allocator t} {w : World t} {c : Consuming} {slot : Slot t}
    {x : Option (Text t)} {m : Exec t (Slot t)} (hx : slot.Holds w x)
    (hm : c.run A slot = some m) : ∃ text, x = some text := by
  cases hx with
  | gone => cases c <;> cases hm
  | _ => exact ⟨_, rfl⟩

/-- One step of a program is one step of the abstract run. -/
theorem Inv.step {sys sys' : Sys t} {store : Store t} {event : Event t} (h : sys.Inv store)
    (hstep : Step sys event sys') : sys'.Inv (store.apply event) := by
  cases hstep with
  | environment hkeep => exact h.environment hkeep
  | create hread hrun halive => exact h.append ((Creation.run_outcome hread).result hrun) halive
  | @copy A c i slot y m w hslot hm hrun halive =>
    have hx := h.holds i slot hslot
    obtain ⟨text, htext⟩ := exists_text_of_copy hx hm
    rw [htext] at hx
    rw [Store.apply, htext]
    exact h.append ((Copying.run_outcome hx hm).result hrun) halive
  | @consume A c i slot y m w hslot hm hrun halive =>
    have hx := h.holds i slot hslot
    obtain ⟨text, htext⟩ := exists_text_of_consume hx hm
    rw [htext] at hx
    rw [Store.apply, htext]
    exact h.set hslot ((Consuming.run_outcome h.sound hx hm).result hrun) halive

/-- A run of a program is a run of the abstract model. -/
theorem Run.inv {events : List (Event t)} {sys : Sys t} (h : Run events sys) :
    sys.Inv (Store.ofEvents events) := by
  induction h with
  | initial mem => exact inv_initial mem
  | step hrun hstep ih =>
    rw [Store.ofEvents_append]
    exact ih.step hstep

lemma Reachable.inv {sys : Sys t} (h : sys.Reachable) : ∃ store, sys.Inv store :=
  let ⟨events, hrun⟩ := h
  ⟨Store.ofEvents events, hrun.inv⟩

/-- A value of a reachable state stands for some text. -/
lemma Inv.represents {sys : Sys t} {store : Store t} (h : sys.Inv store) {i : ℕ}
    {k : WrapperKind} {B : Backend} {v : Wrapper t k B}
    (hv : sys.slots[i]? = some (.value k B v)) :
    ∃ x, store.get i = some x ∧ v.inner.Represents sys.world x := by
  have hx := h.holds i _ hv
  generalize hg : store.get i = x at hx
  cases hx with
  | value h => exact ⟨_, rfl, h⟩

end Sys
end RefStr
