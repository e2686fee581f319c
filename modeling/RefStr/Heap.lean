import RefStr.Backend

/-! The counted heap. Sharing, releasing and allocating move the strong counts as a ledger
prescribes, keep the allocations mapped and apart, and never change a mapped byte. -/
namespace RefStr
open ByteMemory
variable {t : Target}

namespace World

/-- Every live allocation is mapped, and no two of them overlap. -/
structure Sound (w : World t) : Prop where
  mapped : ∀ p a, w.heap p = some a → Mapped w.mem p a.len.toNat
  apart : ∀ p q a b, w.heap p = some a → w.heap q = some b → p ≠ q →
    Apart p a.len.toNat q b.len.toNat

section Entries
variable (w : World t) (B : Backend) (ptr : Usize t) (s : Str t)

theorem heap_allocate :
    (w.allocate B ptr s).heap = Function.update w.heap ptr (some ⟨B, s.len, 1⟩) := rfl

theorem heap_retain : (w.retain ptr).heap = Function.update w.heap ptr
    ((w.heap ptr).map fun a => { a with strong := a.strong + 1 }) := rfl

variable {w ptr}

theorem release_of_eq_none (h : w.heap ptr = none) : w.release ptr = w := by
  rw [release, h]

theorem heap_release {a : Allocation t} (h : w.heap ptr = some a) :
    (w.release ptr).heap = Function.update w.heap ptr
      (if a.strong ≤ 1 then none else some { a with strong := a.strong - 1 }) := by
  simp only [release, h]
  split_ifs <;> rfl

theorem mem_release {a : Allocation t} (h : w.heap ptr = some a) :
    (w.release ptr).mem = if a.strong ≤ 1 then unmap w.mem ptr a.len.toNat else w.mem := by
  simp only [release, h]
  split_ifs <;> rfl

variable {q : Usize t}

lemma heap_allocate_of_ne (hne : q ≠ ptr) : (w.allocate B ptr s).heap q = w.heap q := by
  rw [heap_allocate, Function.update_of_ne hne]

lemma heap_release_of_ne (hne : q ≠ ptr) : (w.release ptr).heap q = w.heap q := by
  cases h : w.heap ptr with
  | none => rw [release_of_eq_none h]
  | some a => rw [heap_release h, Function.update_of_ne hne]

end Entries

section StrongCount
variable {w : World t} {ptr q : Usize t} {a : Allocation t}

lemma strongCount_of_eq_some (h : w.heap ptr = some a) :
    w.strongCount ptr = a.strong := by
  rw [strongCount, h]

lemma strongCount_of_eq_none (h : w.heap ptr = none) : w.strongCount ptr = 0 := by
  rw [strongCount, h]

lemma strongCount_allocate (w : World t) (B : Backend) (ptr : Usize t) (s : Str t) :
    (w.allocate B ptr s).strongCount ptr = 1 :=
  strongCount_of_eq_some (a := ⟨B, s.len, 1⟩) (by rw [heap_allocate, Function.update_self])

lemma strongCount_allocate_of_ne {B : Backend} {s : Str t} (hne : q ≠ ptr) :
    (w.allocate B ptr s).strongCount q = w.strongCount q := by
  rw [strongCount, strongCount, heap_allocate_of_ne _ _ hne]

lemma strongCount_retain (h : w.heap ptr = some a) :
    (w.retain ptr).strongCount ptr = w.strongCount ptr + 1 := by
  rw [strongCount_of_eq_some h]
  refine strongCount_of_eq_some (a := { a with strong := a.strong + 1 }) ?_
  rw [heap_retain, Function.update_self, h]
  rfl

lemma strongCount_release (h : w.heap ptr = some a) :
    (w.release ptr).strongCount ptr = w.strongCount ptr - 1 := by
  have hheap := congrFun (heap_release h) ptr
  rw [Function.update_self] at hheap
  rw [strongCount_of_eq_some h]
  split_ifs at hheap with hs
  · rw [strongCount_of_eq_none hheap]
    omega
  · exact strongCount_of_eq_some hheap

/-- The last owner frees the allocation, and no other owner does. -/
lemma heap_release_eq_none_iff (ha : w.heap q = some a) (hpos : 0 < w.strongCount q) :
    (w.release q).heap q = none ↔ w.strongCount q = 1 := by
  rw [strongCount_of_eq_some ha] at hpos ⊢
  rw [heap_release ha, Function.update_self]
  split_ifs with hle
  · simp only [true_iff]
    omega
  · simp only [false_iff]
    omega

/-- Sharing and releasing undo each other. -/
lemma release_retain (ha : w.heap ptr = some a) (hpos : 0 < w.strongCount ptr) :
    (w.retain ptr).release ptr = w := by
  rw [strongCount_of_eq_some ha] at hpos
  have hretain : (w.retain ptr).heap ptr = some { a with strong := a.strong + 1 } := by
    rw [heap_retain, Function.update_self, ha]
    rfl
  have hmem : ((w.retain ptr).release ptr).mem = w.mem := by
    rw [mem_release hretain, if_neg (by simp; omega)]
    rfl
  have hheap : ((w.retain ptr).release ptr).heap = w.heap := by
    rw [heap_release hretain, if_neg (by simp; omega), heap_retain, Function.update_idem,
      Nat.add_sub_cancel, ← ha, Function.update_eq_self]
  cases hw : (w.retain ptr).release ptr
  rw [hw] at hmem hheap
  cases w
  simp_all

end StrongCount

section Counts
variable {w : World t} {o : Owner t} {B : Backend} {ptr : Usize t} {s : Str t}

theorem counts_ne_none_iff : w.counts o ≠ none ↔
    ∃ a, w.heap o.raw.ptr = some a ∧ a.backend = o.backend ∧ a.len = o.raw.len := by
  rw [counts]
  cases h : w.heap o.raw.ptr with
  | none => simp
  | some a => simp [Owner.count]

theorem counts_eq_some {a : Allocation t} (h : w.heap o.raw.ptr = some a)
    (hB : a.backend = o.backend) (hl : a.len = o.raw.len) : w.counts o = some a.strong := by
  simp [counts, Owner.count, h, hB, hl]

theorem counts_update {w' : World t} {entry : Option (Allocation t)}
    (h : w'.heap = Function.update w.heap ptr entry) (o : Owner t) :
    w'.counts o = if o.raw.ptr = ptr then entry.bind o.count else w.counts o := by
  rw [counts, h]
  by_cases hp : o.raw.ptr = ptr
  · rw [hp, Function.update_self, if_pos rfl]
  · rw [Function.update_of_ne hp, if_neg hp]
    rfl

/-- An allocation has the count of one owner only. -/
theorem count_eq_none {o' : Owner t} {a : Allocation t} (hp : o'.raw.ptr = o.raw.ptr)
    (hB : a.backend = o.backend) (hl : a.len = o.raw.len) (hne : o' ≠ o) :
    o'.count a = none := by
  rw [Owner.count, if_neg]
  rintro ⟨hB', hl'⟩
  apply hne
  obtain ⟨_, ⟨_, _⟩⟩ := o
  obtain ⟨_, ⟨_, _⟩⟩ := o'
  simp_all

theorem counts_retain (h : w.counts o ≠ none) :
    (w.retain o.raw.ptr).counts = Ledger.retain w.counts o := by
  obtain ⟨a, ha, hB, hl⟩ := counts_ne_none_iff.mp h
  funext o'
  rw [counts_update (heap_retain w o.raw.ptr), ha, Ledger.retain]
  by_cases ho : o' = o
  · subst ho
    simp [counts_eq_some ha hB hl, Owner.count, hB, hl]
  · rw [Function.update_of_ne ho]
    split_ifs with hp
    · have hnone : w.counts o' = none := by
        rw [counts, hp, ha]
        exact count_eq_none hp hB hl ho
      rw [hnone]
      exact count_eq_none hp hB hl ho
    · rfl

theorem counts_release (h : w.counts o ≠ none) :
    (w.release o.raw.ptr).counts = Ledger.release w.counts o := by
  obtain ⟨a, ha, hB, hl⟩ := counts_ne_none_iff.mp h
  funext o'
  rw [counts_update (heap_release ha), Ledger.release, counts_eq_some ha hB hl]
  by_cases ho : o' = o
  · subst ho
    rw [if_pos rfl, Function.update_self]
    rcases hs : a.strong with _ | _ | n <;> simp [Owner.count, hB, hl]
  · rw [Function.update_of_ne ho]
    split_ifs with hp hle
    · rw [counts, hp, ha]
      exact (count_eq_none hp hB hl ho).symm
    · rw [counts, hp, ha]
      exact (count_eq_none (a := { a with strong := a.strong - 1 }) hp hB hl ho).trans
        (count_eq_none hp hB hl ho).symm
    · rfl

theorem counts_allocate (h : w.heap ptr = none) :
    (w.allocate B ptr s).counts = Ledger.allocate w.counts ⟨B, ⟨ptr, s.len⟩⟩ := by
  funext o'
  rw [counts_update (heap_allocate w B ptr s), Ledger.allocate]
  by_cases ho : o' = ⟨B, ⟨ptr, s.len⟩⟩
  · subst ho
    simp [Owner.count]
  · rw [Function.update_of_ne ho]
    split_ifs with hp
    · have hnone : w.counts o' = none := by
        rw [counts, hp, h]
        rfl
      rw [hnone]
      exact count_eq_none (o := ⟨B, ⟨ptr, s.len⟩⟩) hp rfl rfl ho
    · rfl

end Counts

section Memory
variable {w : World t} {B : Backend} {ptr : Usize t} {s : Str t}

theorem len_le_two_pow (s : Str t) : s.bytes.length ≤ 2 ^ t.usizeBits :=
  s.fits.trans t.isizeMax_lt.le

theorem extends_allocate (hf : Fresh w.mem ptr s.bytes.length) :
    Extends w.mem (w.allocate B ptr s).mem := extends_write hf

theorem read_allocate (w : World t) (B : Backend) (ptr : Usize t) (s : Str t) :
    read (w.allocate B ptr s).mem ptr s.bytes.length = some s.bytes :=
  read_write (len_le_two_pow s)

theorem steady_release (w : World t) (ptr : Usize t) : Steady w.mem (w.release ptr).mem := by
  cases h : w.heap ptr with
  | none =>
    rw [release_of_eq_none h]
    exact Steady.refl _
  | some a =>
    rw [mem_release h]
    split_ifs
    · exact steady_unmap _ _ _
    · exact Steady.refl _

/-- The regions stay where they are when an entry is removed or keeps its length. -/
theorem Sound.lengths (h : w.Sound) {heap' : Usize t → Option (Allocation t)}
    {entry : Option (Allocation t)} (hheap : heap' = Function.update w.heap ptr entry)
    (hentry : ∀ a, entry = some a → ∃ a', w.heap ptr = some a' ∧ a'.len = a.len) :
    (∀ p a, heap' p = some a → Mapped w.mem p a.len.toNat) ∧
    ∀ p q a b, heap' p = some a → heap' q = some b → p ≠ q →
      Apart p a.len.toNat q b.len.toNat := by
  have hold : ∀ p a, heap' p = some a → ∃ a', w.heap p = some a' ∧ a'.len = a.len := by
    intro p a ha
    rw [hheap] at ha
    by_cases hp : p = ptr
    · subst hp
      rw [Function.update_self] at ha
      exact hentry a ha
    · rw [Function.update_of_ne hp] at ha
      exact ⟨a, ha, rfl⟩
  refine ⟨fun p a ha => ?_, fun p q a b ha hb hne => ?_⟩
  · obtain ⟨a', ha', hl⟩ := hold p a ha
    rw [← hl]
    exact h.mapped p a' ha'
  · obtain ⟨a', ha', hl⟩ := hold p a ha
    obtain ⟨b', hb', hl'⟩ := hold q b hb
    rw [← hl, ← hl']
    exact h.apart p q a' b' ha' hb' hne

theorem Sound.retain (h : w.Sound) (ptr : Usize t) : (w.retain ptr).Sound := by
  have hentry : ∀ a, ((w.heap ptr).map fun a => { a with strong := a.strong + 1 }) = some a →
      ∃ a', w.heap ptr = some a' ∧ a'.len = a.len := by
    intro a ha
    obtain ⟨a', ha', rfl⟩ := Option.map_eq_some_iff.mp ha
    exact ⟨a', ha', rfl⟩
  obtain ⟨hmapped, hapart⟩ := h.lengths (heap_retain w ptr) hentry
  exact ⟨hmapped, hapart⟩

theorem Sound.release (h : w.Sound) (ptr : Usize t) : (w.release ptr).Sound := by
  cases hp : w.heap ptr with
  | none =>
    rw [release_of_eq_none hp]
    exact h
  | some a₀ =>
    have hentry : ∀ a, (if a₀.strong ≤ 1 then none
        else some { a₀ with strong := a₀.strong - 1 }) = some a →
        ∃ a', w.heap ptr = some a' ∧ a'.len = a.len := by
      intro a ha
      split_ifs at ha
      obtain rfl := Option.some.inj ha
      exact ⟨a₀, hp, rfl⟩
    obtain ⟨hmapped, hapart⟩ := h.lengths (heap_release hp) hentry
    refine ⟨fun p a ha => ?_, hapart⟩
    rw [mem_release hp]
    split_ifs with hs
    · rw [heap_release hp, if_pos hs] at ha
      have hne : p ≠ ptr := by
        rintro rfl
        simp at ha
      rw [Function.update_of_ne hne] at ha
      exact mapped_unmap (h.mapped p a ha) (h.apart ptr p a₀ a hp ha hne.symm)
    · exact hmapped p a ha

theorem Sound.allocate (h : w.Sound) (hf : Fresh w.mem ptr s.bytes.length) :
    (w.allocate B ptr s).Sound := by
  have hnew : Mapped (w.allocate B ptr s).mem ptr s.len.toNat := by
    rw [s.len_toNat, ← isSome_read_iff, read_allocate]
    rfl
  have hfar : ∀ p a, w.heap p = some a → Apart ptr s.len.toNat p a.len.toNat := by
    intro p a ha
    rw [s.len_toNat]
    exact hf.apart_of_mapped (h.mapped p a ha)
  have hentry : ∀ p a, (w.allocate B ptr s).heap p = some a →
      p = ptr ∧ a.len = s.len ∨ p ≠ ptr ∧ w.heap p = some a := by
    intro p a ha
    rw [heap_allocate] at ha
    by_cases hp : p = ptr
    · subst hp
      rw [Function.update_self] at ha
      obtain rfl := Option.some.inj ha
      exact Or.inl ⟨rfl, rfl⟩
    · rw [Function.update_of_ne hp] at ha
      exact Or.inr ⟨hp, ha⟩
  constructor
  · intro p a ha
    obtain ⟨rfl, hl⟩ | ⟨-, ha⟩ := hentry p a ha
    · rw [hl]
      exact hnew
    · exact (extends_allocate hf).mapped (h.mapped p a ha)
  · intro p q a b ha hb hne
    obtain ⟨rfl, hl⟩ | ⟨hp, ha'⟩ := hentry p a ha <;>
      obtain ⟨rfl, hl'⟩ | ⟨hq, hb'⟩ := hentry q b hb
    · exact absurd rfl hne
    · rw [hl]
      exact hfar q b hb'
    · rw [hl']
      exact (hfar p a ha').symm
    · exact h.apart p q a b ha' hb' hne

lemma Sound.mapped_of_counts (h : w.Sound) {o : Owner t} (ho : w.counts o ≠ none) :
    Mapped w.mem o.raw.ptr o.raw.len.toNat := by
  obtain ⟨a, ha, -, hl⟩ := counts_ne_none_iff.mp ho
  rw [← hl]
  exact h.mapped _ a ha

lemma counts_allocate_ne_none {o : Owner t} (ho : w.counts o ≠ none)
    (h : w.heap ptr = none) : (w.allocate B ptr s).counts o ≠ none := by
  rw [counts_allocate h, Ledger.allocate, Function.update_apply]
  split_ifs
  · exact Option.some_ne_none 1
  · exact ho

lemma ne_of_counts {o : Owner t} (ho : w.counts o ≠ none) (h : w.heap ptr = none) :
    o.raw.ptr ≠ ptr := by
  rintro rfl
  rw [counts, h] at ho
  exact ho rfl

end Memory

/-- What an operation does to the world when it trades the owners `os` for `os'`: the
counts follow, the allocations stay sound, and no mapped byte changes. -/
structure Evolves (w : World t) (os : List (Owner t)) (w' : World t) (os' : List (Owner t)) :
    Prop where
  updates : Ledger.Updates w.counts os w'.counts os'
  sound : w.Sound → w'.Sound
  steady : Steady w.mem w'.mem

namespace Evolves
variable {w w' w'' : World t} {os os' os'' : List (Owner t)} {o : Owner t}

theorem refl (w : World t) (os : List (Owner t)) : Evolves w os w os :=
  ⟨Ledger.Updates.refl _ _, id, Steady.refl _⟩

theorem retain (ho : w.counts o ≠ none) : Evolves w os (w.retain o.raw.ptr) (o :: os) := by
  refine ⟨?_, fun h => h.retain _, Steady.refl _⟩
  rw [counts_retain ho]
  exact Ledger.Updates.retain ho

theorem release (ho : w.counts o ≠ none) : Evolves w (o :: os) (w.release o.raw.ptr) os := by
  refine ⟨?_, fun h => h.release _, steady_release _ _⟩
  rw [counts_release ho]
  exact Ledger.Updates.release

theorem allocate {B : Backend} {ptr : Usize t} {s : Str t} (hh : w.heap ptr = none)
    (hf : Fresh w.mem ptr s.bytes.length) :
    Evolves w os (w.allocate B ptr s) (⟨B, ⟨ptr, s.len⟩⟩ :: os) := by
  refine ⟨?_, fun h => h.allocate hf, (extends_allocate hf).steady⟩
  rw [counts_allocate hh]
  refine Ledger.Updates.allocate ?_
  rw [counts, hh]
  rfl

/-- A string is copied into a new allocation and the old one is given up after that. -/
theorem move {B : Backend} {ptr : Usize t} {s : Str t} (ho : w.counts o ≠ none)
    (hh : w.heap ptr = none) (hf : Fresh w.mem ptr s.bytes.length) :
    Evolves w [o] ((w.allocate B ptr s).release o.raw.ptr) [⟨B, ⟨ptr, s.len⟩⟩] := by
  have hcopy : Evolves w [o] (w.allocate B ptr s) [⟨B, ⟨ptr, s.len⟩⟩, o] := allocate hh hf
  have hgive : Evolves (w.allocate B ptr s) [o, ⟨B, ⟨ptr, s.len⟩⟩]
      ((w.allocate B ptr s).release o.raw.ptr) [⟨B, ⟨ptr, s.len⟩⟩] :=
    release (counts_allocate_ne_none ho hh)
  exact ⟨(hcopy.updates.perm (List.Perm.swap _ _ _)).trans hgive.updates,
    fun h => hgive.sound (hcopy.sound h), (extends_allocate hf).trans_steady hgive.steady⟩

end Evolves

end World
end RefStr
