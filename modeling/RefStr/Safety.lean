import RefStr.Completion
import RefStr.Refinement
import RefStr.Equality

/-! Failure is confined to strings that are too long. A session is a run that goes on after a
panic was caught, without what was passed by value. In every state of a session everything held
is sound next to what earlier panics have leaked, so every operation comes to what it should. -/
namespace RefStr
open Arch ByteMemory RefStrCore
variable {t : Target}

/-- The allocations are sound, the counts are balanced by the slots, and the slots hold texts. -/
structure World.Held (w : World t) (slots : List (Slot t)) : Prop where
  sound : w.Sound
  balanced : Ledger.Balanced w.counts (slots.flatMap Slot.owners)
  holds : ∀ slot ∈ slots, ∃ x, slot.Holds w x

namespace World.Held
variable {w w' : World t} {slots slots' xs ys rest : List (Slot t)}

lemma perm (h : w.Held slots) (hp : slots.Perm slots') : w.Held slots' :=
  ⟨h.sound, h.balanced.perm (hp.flatMap_right _), fun slot hs => h.holds slot (hp.mem_iff.mpr hs)⟩

lemma environment (h : w.Held slots) {mem : Mem t.usizeBits}
    (hkeep : ∀ x, Sys.Protected ⟨w, slots⟩ x → mem x = w.mem x) :
    (⟨mem, w.heap⟩ : World t).Held slots := by
  let sys : Sys t := ⟨w, slots⟩
  have hsound : sys.world.Sound := h.sound
  refine ⟨hsound.environment hkeep, h.balanced, fun slot hslot => ?_⟩
  obtain ⟨x, hx⟩ := h.holds slot hslot
  have hx' : slot.Holds sys.world x := hx
  exact ⟨x, hx'.environment hslot (Slot.counted h.balanced hslot) hkeep⟩

/-- Some slots are traded for others next to slots whose sources stay alive. -/
lemma trade (h : w.Held (xs ++ rest))
    (hev : World.Evolves w (xs.flatMap Slot.owners) w' (ys.flatMap Slot.owners))
    (hys : ∀ y ∈ ys, ∃ x, y.Holds w' x)
    (halive : ∀ slot ∈ rest, ∀ p ∈ slot.borrows, Mapped w'.mem p.ptr p.len.toNat) :
    w'.Held (ys ++ rest) := by
  have hbalanced := h.balanced
  rw [List.flatMap_append] at hbalanced
  have hbalanced' : Ledger.Balanced w'.counts ((ys ++ rest).flatMap Slot.owners) := by
    rw [List.flatMap_append]
    exact hev.updates _ hbalanced
  refine ⟨hev.sound h.sound, hbalanced', fun slot hslot => ?_⟩
  obtain hy | hrest := List.mem_append.mp hslot
  · exact hys slot hy
  · obtain ⟨x, hx⟩ := h.holds slot (List.mem_append_right _ hrest)
    exact ⟨x, hx.of_steady hev.steady (hev.sound h.sound) (halive slot hrest)
      (Slot.counted hbalanced' hslot)⟩

end World.Held

namespace Sys

/-- A step, or an operation that panics. Nothing is made, and what was consumed is gone. -/
inductive Attempt (sys : Sys t) : Event t → Sys t → Prop
  | done {event : Event t} {sys' : Sys t} (h : Step sys event sys') : Attempt sys event sys'
  | create {A : Allocator t} {c : Creation t} {message : String} {w : World t}
      (hread : c.Readable sys.world) (hrun : c.run A sys.world = .error (.panic message) w)
      (halive : BorrowsAlive ⟨w, sys.slots⟩) : Attempt sys (.create c) ⟨w, sys.slots⟩
  | copy {A : Allocator t} {c : Copying} {i : ℕ} {x : Slot t} {m : Exec t (Slot t)}
      {message : String} {w : World t} (hx : sys.slots[i]? = some x) (hm : c.run A x = some m)
      (hrun : m sys.world = .error (.panic message) w) (halive : BorrowsAlive ⟨w, sys.slots⟩) :
      Attempt sys (.copy c i) ⟨w, sys.slots⟩
  | consume {A : Allocator t} {c : Consuming} {i : ℕ} {x : Slot t} {m : Exec t (Slot t)}
      {message : String} {w : World t} (hx : sys.slots[i]? = some x) (hm : c.run A x = some m)
      (hrun : m sys.world = .error (.panic message) w)
      (halive : BorrowsAlive ⟨w, sys.slots.set i .gone⟩) :
      Attempt sys (.consume c i) ⟨w, sys.slots.set i .gone⟩

/-- A finite run in which panics are caught. -/
inductive Session : List (Event t) → Sys t → Prop
  | initial (mem : Mem t.usizeBits) : Session [] (initial mem)
  | attempt {events : List (Event t)} {sys sys' : Sys t} {event : Event t}
      (hrun : Session events sys) (h : Attempt sys event sys') : Session (events ++ [event]) sys'

lemma Run.session {events : List (Event t)} {sys : Sys t} (h : Run events sys) :
    Session events sys := by
  induction h with
  | initial mem => exact .initial mem
  | step _ hstep ih => exact ih.attempt (.done hstep)

/-- Everything is held, next to what has been leaked. -/
def Tenable (sys : Sys t) : Prop :=
  ∃ lost : List (Slot t), (∀ slot ∈ lost, slot.borrows = []) ∧
    sys.world.Held (lost ++ sys.slots)

namespace Tenable
variable {sys : Sys t} {w : World t} {i : ℕ} {slot : Slot t}

lemma holds (h : sys.Tenable) (hi : sys.slots[i]? = some slot) : ∃ x, slot.Holds sys.world x := by
  obtain ⟨lost, -, hheld⟩ := h
  exact hheld.holds slot (List.mem_append_right _ (List.mem_of_getElem? hi))

lemma represents (h : sys.Tenable) {k : WrapperKind} {B : Backend} {v : Wrapper t k B}
    (hv : sys.slots[i]? = some (.value k B v)) : ∃ x, v.inner.Represents sys.world x := by
  obtain ⟨x, hx⟩ := h.holds hv
  cases hx with
  | value h => exact ⟨_, h⟩

lemma sound (h : sys.Tenable) : sys.world.Sound := by
  obtain ⟨lost, -, hheld⟩ := h
  exact hheld.sound

lemma environment (h : sys.Tenable) {mem : Mem t.usizeBits}
    (hkeep : ∀ x, sys.Protected x → mem x = sys.world.mem x) :
    Tenable ⟨⟨mem, sys.world.heap⟩, sys.slots⟩ := by
  obtain ⟨lost, hlost, hheld⟩ := h
  refine ⟨lost, hlost, hheld.environment fun x hx => hkeep x ?_⟩
  obtain hheap | ⟨slot, hslot, p, hp, hx⟩ := hx
  · exact Or.inl hheap
  · obtain hslot | hslot := List.mem_append.mp hslot
    · rw [hlost slot hslot] at hp
      cases hp
    · exact Or.inr ⟨slot, hslot, p, hp, hx⟩

/-- Some slots are traded for others, and owners may be lost on the way. -/
lemma trade (h : sys.Tenable) (xs ys lost' : List (Slot t)) {rest slots' : List (Slot t)}
    (hold : sys.slots.Perm (xs ++ rest)) (hnew : slots'.Perm (ys ++ rest))
    (hev : World.Evolves sys.world (xs.flatMap Slot.owners) w ((ys ++ lost').flatMap Slot.owners))
    (hys : ∀ y ∈ ys, ∃ x, y.Holds w x)
    (hlost' : ∀ slot ∈ lost', slot.borrows = [] ∧ ∃ x, slot.Holds w x)
    (halive : BorrowsAlive ⟨w, slots'⟩) : Tenable ⟨w, slots'⟩ := by
  obtain ⟨lost, hlost, hheld⟩ := h
  have hbefore : w.Held ((ys ++ lost') ++ (lost ++ rest)) := by
    refine (hheld.perm ((hold.append_left lost).trans
      (List.perm_append_comm_assoc lost xs rest))).trade hev ?_ ?_
    · intro y hy
      obtain hy | hy := List.mem_append.mp hy
      · exact hys y hy
      · exact (hlost' y hy).2
    · intro slot hslot p hp
      obtain hslot | hslot := List.mem_append.mp hslot
      · rw [hlost slot hslot] at hp
        cases hp
      · exact halive slot (hnew.mem_iff.mpr (List.mem_append_right _ hslot)) p hp
  refine ⟨lost' ++ lost, fun slot hslot => ?_, hbefore.perm ?_⟩
  · obtain hslot | hslot := List.mem_append.mp hslot
    · exact (hlost' slot hslot).1
    · exact hlost slot hslot
  · rw [List.append_assoc, ← List.append_assoc lost']
    exact (List.perm_append_comm_assoc ys _ rest).trans (hnew.symm.append_left _)

lemma append (h : sys.Tenable) {y : Slot t} {x : Option (Text t)}
    (hy : Yields sys.world [] w y x) (halive : BorrowsAlive ⟨w, sys.slots ++ [y]⟩) :
    Tenable ⟨w, sys.slots ++ [y]⟩ := by
  refine h.trade [] [y] [] (List.Perm.refl _)
    List.perm_append_comm ?_ ?_ (by simp) halive
  · simpa using hy.evolves
  · simpa using ⟨x, hy.holds⟩

lemma set (h : sys.Tenable) (hi : sys.slots[i]? = some slot) {y : Slot t} {x : Option (Text t)}
    (hy : Yields sys.world slot.owners w y x) (halive : BorrowsAlive ⟨w, sys.slots.set i y⟩) :
    Tenable ⟨w, sys.slots.set i y⟩ := by
  obtain ⟨hlt, rfl⟩ := List.getElem?_eq_some_iff.mp hi
  refine h.trade [sys.slots[i]] [y] []
    (List.getElem_cons_eraseIdx_perm hlt).symm (List.set_perm_cons_eraseIdx hlt y) ?_ ?_
    (by simp) halive
  · simpa using hy.evolves
  · simpa using ⟨x, hy.holds⟩

lemma leak (h : sys.Tenable) (hw : sys.world.Leaks [] w) (halive : BorrowsAlive ⟨w, sys.slots⟩) :
    Tenable ⟨w, sys.slots⟩ := by
  obtain ⟨lost', hlost', hev⟩ := hw
  exact h.trade [] [] lost' (List.Perm.refl _) (List.Perm.refl _) hev
    (by simp) hlost' halive

lemma leak_gone (h : sys.Tenable) (hi : sys.slots[i]? = some slot)
    (hw : sys.world.Leaks slot.owners w) (halive : BorrowsAlive ⟨w, sys.slots.set i .gone⟩) :
    Tenable ⟨w, sys.slots.set i .gone⟩ := by
  obtain ⟨hlt, rfl⟩ := List.getElem?_eq_some_iff.mp hi
  obtain ⟨lost', hlost', hev⟩ := hw
  refine h.trade [sys.slots[i]] [.gone] lost'
    (List.getElem_cons_eraseIdx_perm hlt).symm (List.set_perm_cons_eraseIdx hlt .gone) ?_ ?_
    hlost' halive
  · simpa [Slot.owners] using hev
  · simpa using ⟨none, Slot.Holds.gone⟩

end Tenable

lemma tenable_initial (mem : Mem t.usizeBits) : Tenable (initial mem) := by
  obtain ⟨hsound, hbalanced, -, -⟩ := inv_initial mem
  exact ⟨[], by simp, hsound, hbalanced, by simp [initial]⟩

/-- Every operation keeps what is held, whether it succeeds or panics. -/
lemma Tenable.attempt {sys sys' : Sys t} {event : Event t} (h : sys.Tenable)
    (hstep : Attempt sys event sys') : sys'.Tenable := by
  cases hstep with
  | done hstep =>
    cases hstep with
    | environment hkeep => exact h.environment hkeep
    | create hread hrun halive =>
      exact h.append ((Creation.run_outcome hread).result hrun) halive
    | copy hslot hm hrun halive =>
      obtain ⟨x, hx⟩ := h.holds hslot
      obtain ⟨text, rfl⟩ := exists_text_of_copy hx hm
      exact h.append ((Copying.run_outcome hx hm).result hrun) halive
    | consume hslot hm hrun halive =>
      obtain ⟨x, hx⟩ := h.holds hslot
      obtain ⟨text, rfl⟩ := exists_text_of_consume hx hm
      exact h.set hslot ((Consuming.run_outcome h.sound hx hm).result hrun) halive
  | create hread hrun halive => exact h.leak ((Creation.completes _).leaves_of_panic hrun) halive
  | copy hslot hm hrun halive =>
    obtain ⟨x, hx⟩ := h.holds hslot
    obtain ⟨text, rfl⟩ := exists_text_of_copy hx hm
    exact ((Copying.completes hx hm).leaves_of_panic hrun).elim
  | consume hslot hm hrun halive =>
    obtain ⟨x, hx⟩ := h.holds hslot
    obtain ⟨text, rfl⟩ := exists_text_of_consume hx hm
    exact h.leak_gone hslot ((Consuming.completes h.sound hx hm).leaves_of_panic hrun) halive

theorem Session.tenable {events : List (Event t)} {sys : Sys t} (h : Session events sys) :
    sys.Tenable := by
  induction h with
  | initial mem => exact tenable_initial mem
  | attempt _ hstep ih => exact ih.attempt hstep

end Sys

namespace Wrapper
variable {k : WrapperKind} {B : Backend} {v : Wrapper t k B} {w : World t} {x : Text t}

/-- Nothing that is done with the value fails, where the allocator has room for a copy. -/
structure NeverFails (w : World t) (v : Wrapper t k B) : Prop where
  clone : ∃ u w', v.clone w = .ok u w'
  drop : ∃ w', v.drop w = .ok () w'
  tag : ∃ tag, v.intoRawParts.tag = .ok tag
  asStr : ∃ s, v.asStr w = .ok s w
  hash : ∀ (σ : Type) (H : Hasher t σ) (state : σ), ∃ state', v.hash H state w = .ok state' w
  rawParts : RawParts.new v.intoRawParts.rawPtr v.intoRawParts.metaWord = .ok v.intoRawParts ∧
    fromRawParts v.intoRawParts = v
  asCow : ∃ c, v.asCow w = .ok c w
  intoCow : ∃ c w', v.intoCow w = .ok c w'
  intoBytes : ∃ bytes w', v.intoBytes w = .ok bytes w'
  intoString : ∃ s w', v.intoString w = .ok s w'
  intoBoxedStr : ∃ s w', v.intoBoxedStr w = .ok s w'
  intoStrUnchecked : v.isBorrowed = true → ∃ r w', v.intoStrUnchecked w = .ok r w'
  intoRawShared : ∃ p w', v.intoRawShared w = .ok p w'
  intoRaw : ∀ A : Allocator t, (v.isInline = true → (A.pick w v.len.toNat).isSome) →
    ∃ p w', v.intoRaw A w = .ok p w'
  convert : ∀ A : Allocator t, (v.isShared = true → (A.pick w v.len.toNat).isSome) →
    ∃ u w', v.convert A w = .ok u w'
  promote : ∀ A : Allocator t, (v.isBorrowed = true → t.inlineCapacity < v.len.toNat →
      (A.pick w v.len.toNat).isSome) →
    (∃ u w', v.inner.toStaticCore A w = .ok u w') ∧
      ∃ u w', v.inner.intoStaticCore A w = .ok u w'

lemma neverFails (h : v.inner.Represents w x) : NeverFails w v := by
  have hlen : v.len.toNat = x.str.bytes.length := h.len_toNat
  refine ⟨⟨_, _, run_map h.run_clone _⟩, ⟨_, h.run_drop⟩, ⟨_, h.encodes.hasTag.tag_eq⟩,
    ⟨_, h.run_asStr⟩, fun σ H state => ⟨_, run_bind h.run_asStr _⟩, ⟨h.encodes.new_eq, rfl⟩,
    ⟨_, run_asCow h⟩, ⟨_, _, h.run_intoCow⟩, ⟨_, _, h.run_intoBytes⟩, ⟨_, _, h.run_intoString⟩,
    ⟨_, _, h.run_intoBoxedStr⟩, fun hb => ?_, ?_, fun A hroom => ?_, fun A hroom => ?_,
    fun A hroom => ?_⟩
  · have htag := h.encodes.isBorrowed_iff.mp hb
    obtain ⟨s, ptr | _ | _⟩ := x
    · exact ⟨_, _, h.run_intoStrUnchecked⟩
    · cases htag
    · cases htag
  · obtain ⟨p, hp⟩ := h.exists_ok_intoRawShared
    exact ⟨p, w, hp⟩
  · rw [hlen] at hroom
    exact h.exists_ok_intoRaw hroom
  · rw [hlen] at hroom
    obtain ⟨u, w', hrun⟩ := h.exists_ok_convert B.other hroom
    exact ⟨_, _, run_map hrun _⟩
  · rw [hlen] at hroom
    exact h.exists_ok_toStaticCore hroom

end Wrapper

namespace Sys

/-- In every state of a session, every operation that its contract allows comes to a result,
and what is refused is exactly a string that is too long: no other branch that fails is
reached. -/
theorem failure_confined {events : List (Event t)} {sys : Sys t} (hsys : Session events sys) :
    (∀ (A : Allocator t) (c : Creation t), c.Readable sys.world →
      Completes (A.pick sys.world c.text.str.bytes.length).isSome c.Oversized
        (sys.world.Leaks []) (c.run A sys.world)) ∧
    (∀ (A : Allocator t) (c : Copying) (i : ℕ) (slot : Slot t) (m : Exec t (Slot t)),
      sys.slots[i]? = some slot → c.run A slot = some m →
        Completes (A.pick sys.world slot.len).isSome False (fun _ => False) (m sys.world)) ∧
    (∀ (A : Allocator t) (c : Consuming) (i : ℕ) (slot : Slot t) (m : Exec t (Slot t)),
      sys.slots[i]? = some slot → c.run A slot = some m →
        Completes (A.pick sys.world slot.len).isSome (c.Oversized slot)
          (sys.world.Leaks slot.owners) (m sys.world)) ∧
    (∀ (i : ℕ) (k : WrapperKind) (B : Backend) (v : Wrapper t k B),
      sys.slots[i]? = some (.value k B v) → v.NeverFails sys.world ∧
        ∀ (j : ℕ) (k' : WrapperKind) (u : Wrapper t k' B),
          sys.slots[j]? = some (.value k' B u) →
            (∃ b, v.inner.eq u.inner sys.world = .ok b sys.world) ∧
              ∃ o, v.inner.cmp u.inner sys.world = .ok o sys.world) ∧
    (∀ (len m : Usize t) (tag : StateTag) (hash : UInt64), tag ≠ .inline →
      encodeLenTagHash len tag hash = .ok m → ∀ (isAscii : Bool) (ptr : Usize t),
        ∃ p, RawParts.new ptr (if isAscii then m ||| t.isAsciiMask else m) = .ok p) ∧
    ∀ s : Str t, supportsInlineLen s.len = true → ∃ p, RawParts.packInline s = .ok p := by
  have h := hsys.tenable
  refine ⟨fun A c _ => c.completes, fun A c i slot m hslot hm => ?_,
    fun A c i slot m hslot hm => ?_, fun i k B v hv => ?_,
    fun len m tag hash htag hm => RawParts.exists_new_of_encode htag hm, fun s hs => ?_⟩
  · obtain ⟨x, hx⟩ := h.holds hslot
    obtain ⟨text, rfl⟩ := exists_text_of_copy hx hm
    exact Copying.completes hx hm
  · obtain ⟨x, hx⟩ := h.holds hslot
    obtain ⟨text, rfl⟩ := exists_text_of_consume hx hm
    exact Consuming.completes h.sound hx hm
  · obtain ⟨x, hx⟩ := h.represents hv
    refine ⟨Wrapper.neverFails hx, fun j k' u hu => ?_⟩
    obtain ⟨y, hy⟩ := h.represents hu
    exact ⟨⟨_, hx.run_eq hy⟩, ⟨_, hx.run_cmp hy⟩⟩
  · obtain ⟨p, hp, -⟩ := RawParts.packInline_bytes ((supportsInlineLen_iff s).mp hs)
    exact ⟨p, hp⟩

/-- On a 32-bit target `2^27` letters are refused and their allocation is leaked. A session goes
on from there, and nothing that is done with a short value fails. -/
theorem failure_confined_caught : ∃ (sys : Sys Target.x86BE)
    (v : Wrapper Target.x86BE .lifetimeKind .localBackend), sys.slots = [.value _ _ v] ∧
      sys.world.strongCount 16#32 = 1 ∧ v.NeverFails sys.world := by
  let s : Str Target.x86BE := .letters (2 ^ 27) (by decide)
  let r : Str Target.x86BE := .letters 2 (by decide)
  let w : World Target.x86BE := .empty
  have hs : ¬ s.Compressible := by
    rw [Str.Compressible, Str.len, Str.letters_length]
    decide
  have hlong : ¬ s.bytes.length ≤ Target.x86BE.inlineCapacity :=
    fun h => hs (Str.compressible_of_le h)
  have hptr := Allocator.firstFit_pick (n := s.bytes.length) [] (rfl : w.heap 16#32 = none)
    fun _ _ => rfl
  have hpanic := (run_fromOwnedLike_shared (B := .localBackend) hlong hptr).trans (dif_neg hs)
  have hcaught := (Session.initial w.mem).attempt (.create (c := .fromOwnedLike .lifetimeKind _ s)
    trivial (run_bind_error (run_bind_error hpanic _) _) fun _ h => absurd h List.not_mem_nil)
  obtain ⟨q, -, hrun⟩ := run_fromOwnedLike_inline (s := r) (B := .localBackend)
    (A := .firstFit []) (w := w.allocate .localBackend 16#32 s) (by decide)
  let v : Wrapper Target.x86BE .lifetimeKind .localBackend := ⟨⟨q⟩⟩
  have hmake : (Creation.fromOwnedLike .lifetimeKind .localBackend r).run (.firstFit [])
      (w.allocate .localBackend 16#32 s) = .ok (.value _ _ v) _ := run_map (run_map hrun _) _
  have hread : (Creation.fromOwnedLike .lifetimeKind .localBackend r).Readable
      (w.allocate .localBackend 16#32 s) := trivial
  have hholds := ((Creation.run_outcome hread).result hmake).holds
  have hsession := hcaught.attempt (.done (.create hread hmake fun slot hslot => by
    obtain rfl := List.mem_singleton.mp hslot
    exact hholds.mapped))
  exact ⟨_, v, rfl, World.strongCount_allocate _ _ _ _,
    ((failure_confined hsession).2.2.2.1 0 _ _ v rfl).1⟩

end Sys
end RefStr
