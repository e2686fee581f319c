import RefStr.Stepwise
import RefStr.Invariant

/-! Memory of others. Whatever an operation does, it does to counted allocations: a byte that is
mapped and in none of them is neither changed nor given up nor taken for an allocation. -/
namespace RefStr
open Interleaving ByteMemory
variable {t : Target} {w w' : World t} {x : Usize t} {b : UInt8}

/-- The byte is there, and in no counted allocation. -/
structure World.Foreign (w : World t) (x : Usize t) (b : UInt8) : Prop where
  mapped : w.mem x = some b
  outside : ∀ p a, w.heap p = some a → ¬ Within p a.len.toNat x

/-- All of the slice is memory of others. -/
def World.ForeignSlice (w : World t) (p : RawStr t) : Prop :=
  ∀ x, Within p.ptr p.len.toNat x → ∃ b, w.Foreign x b

namespace World.ForeignSlice
variable {p : RawStr t}

lemma mapped (h : w.ForeignSlice p) : Mapped w.mem p.ptr p.len.toNat := by
  intro x hx
  obtain ⟨b, hb⟩ := h x hx
  rw [hb.mapped]
  rfl

lemma keep (h : w.ForeignSlice p)
    (hkeep : ∀ x b, Within p.ptr p.len.toNat x → w.Foreign x b → w'.Foreign x b) :
    w'.ForeignSlice p := by
  intro x hx
  obtain ⟨b, hb⟩ := h x hx
  exact ⟨b, hkeep x b hx hb⟩

/-- Where nothing is allocated, all that can be read is memory of others. -/
lemma of_read {n : ℕ} {bs : List UInt8} (hread : read w.mem p.ptr n = some bs)
    (hlen : p.len.toNat = n) (hheap : ∀ q, w.heap q = none) : w.ForeignSlice p := by
  have hmapped : Mapped w.mem p.ptr n := by
    rw [← isSome_read_iff, hread]
    rfl
  intro x hx
  obtain ⟨b, hb⟩ := Option.isSome_iff_exists.mp (hmapped x (hlen ▸ hx))
  refine ⟨b, hb, fun q a ha => ?_⟩
  rw [hheap q] at ha
  cases ha

end World.ForeignSlice

namespace World.Foreign

lemma retain (h : w.Foreign x b) (ptr : Usize t) : (w.retain ptr).Foreign x b := by
  refine ⟨h.mapped, fun p a ha => ?_⟩
  rw [World.heap_retain] at ha
  by_cases hp : p = ptr
  · subst hp
    rw [Function.update_self, Option.map_eq_some_iff] at ha
    obtain ⟨a', ha', rfl⟩ := ha
    exact h.outside p a' ha'
  · rw [Function.update_of_ne hp] at ha
    exact h.outside p a ha

lemma release (h : w.Foreign x b) (ptr : Usize t) : (w.release ptr).Foreign x b := by
  cases hheap : w.heap ptr with
  | none => rwa [World.release_of_eq_none hheap]
  | some a =>
    have hout := h.outside ptr a hheap
    constructor
    · rw [World.mem_release hheap]
      split_ifs
      · rw [unmap, if_neg hout]
        exact h.mapped
      · exact h.mapped
    · intro p a' ha'
      by_cases hp : p = ptr
      · subst hp
        rw [World.heap_release hheap, Function.update_self] at ha'
        split_ifs at ha'
        obtain rfl := Option.some.inj ha'
        exact hout
      · rw [World.heap_release_of_ne hp] at ha'
        exact h.outside p a' ha'

lemma allocate (h : w.Foreign x b) {A : Allocator t} {s : Str t} {ptr : Usize t} (B : Backend)
    (hptr : A.pick w s.bytes.length = some ptr) : (w.allocate B ptr s).Foreign x b := by
  obtain ⟨-, hfresh⟩ := A.fresh hptr
  have hout : ¬ Within ptr s.len.toNat x := by
    rw [s.len_toNat]
    intro hx
    have hmapped := h.mapped
    rw [hfresh x hx] at hmapped
    cases hmapped
  refine ⟨World.extends_allocate hfresh x b h.mapped, fun p a ha => ?_⟩
  rw [World.heap_allocate] at ha
  by_cases hp : p = ptr
  · subst hp
    rw [Function.update_self] at ha
    obtain rfl := Option.some.inj ha
    exact hout
  · rw [Function.update_of_ne hp] at ha
    exact h.outside p a ha

/-- No access touches it. -/
lemma handle (h : w.Foreign x b) {i : Action t} {r : i.Answer} (hrun : i.handle w = .ok r w') :
    w'.Foreign x b := by
  cases i with
  | readByte y =>
    change Action.load y w = _ at hrun
    rw [Action.load] at hrun
    split at hrun
    · cases hrun
      exact h
    · cases hrun
  | incrementStrongCount B p =>
    change Backend.incrementStrongCount B p w = _ at hrun
    rw [Backend.incrementStrongCount] at hrun
    split at hrun
    · cases hrun
      exact h.retain p.ptr
    · cases hrun
  | fromRaw B p =>
    change Backend.fromRaw B p w = _ at hrun
    rw [Backend.fromRaw] at hrun
    split at hrun
    · cases hrun
      exact h
    · cases hrun
  | dropShared B p =>
    change Backend.dropShared (⟨p⟩ : Shared t B) w = _ at hrun
    rw [Backend.dropShared] at hrun
    split at hrun
    · cases hrun
      exact h.release p.ptr
    · cases hrun
  | allocate A B s =>
    change Backend.allocate A B s w = _ at hrun
    rw [Backend.allocate] at hrun
    split at hrun
    · rename_i ptr hptr
      cases hrun
      exact h.allocate B hptr
    · cases hrun

/-- What every access leaves alone, a program leaves alone. -/
lemma run (h : w.Foreign x b) {α : Type} {a : α} (p : Steps t α)
    (hrun : p.run w = .ok a w') : w'.Foreign x b :=
  Program.keeps_run (M := machine t) (P := fun w => w.Foreign x b)
    (fun _ _ _ _ hi hw => hw.handle hi) p h hrun

variable {A : Allocator t} {slot y : Slot t} {m : Exec t (Slot t)}

lemma create (h : w.Foreign x b) {c : Creation t} (hrun : c.run A w = .ok y w') :
    w'.Foreign x b := by
  rw [← Creation.run_steps] at hrun
  exact h.run _ hrun

lemma copy (h : w.Foreign x b) {c : Copying} (hm : c.run A slot = some m)
    (hrun : m w = .ok y w') : w'.Foreign x b := by
  rw [← Copying.run_steps] at hm
  obtain ⟨p, -, rfl⟩ := Option.map_eq_some_iff.mp hm
  exact h.run p hrun

lemma consume (h : w.Foreign x b) {c : Consuming} (hm : c.run A slot = some m)
    (hrun : m w = .ok y w') : w'.Foreign x b := by
  rw [← Consuming.run_steps] at hm
  obtain ⟨p, -, rfl⟩ := Option.map_eq_some_iff.mp hm
  exact h.run p hrun

end World.Foreign
end RefStr
