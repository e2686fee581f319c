import Mathlib

/-!
# Byte-addressed memory

Memory maps the addresses of a `w`-bit machine to bytes; unmapped addresses hold none.
A region is the run of `n` addresses that starts at `p`, taken modulo the address space.
Strings are read from, written to and unmapped in regions, and the frame lemmas say which
reads survive which updates.
-/
namespace ByteMemory

abbrev Mem (w : ℕ) := BitVec w → Option UInt8

variable {w : ℕ}

/-- The address lies in the region of `n` bytes at `p`. -/
def Within (p : BitVec w) (n : ℕ) (x : BitVec w) : Prop := (x - p).toNat < n

instance (p : BitVec w) (n : ℕ) (x : BitVec w) : Decidable (Within p n x) :=
  inferInstanceAs (Decidable (_ < _))

def Apart (p : BitVec w) (n : ℕ) (q : BitVec w) (k : ℕ) : Prop :=
  ∀ x, Within p n x → ¬ Within q k x

def Fresh (m : Mem w) (p : BitVec w) (n : ℕ) : Prop := ∀ x, Within p n x → m x = none

def Mapped (m : Mem w) (p : BitVec w) (n : ℕ) : Prop := ∀ x, Within p n x → (m x).isSome

/-- The `n` bytes at `p`, if all of them are mapped. -/
def read (m : Mem w) (p : BitVec w) : ℕ → Option (List UInt8)
  | 0 => some []
  | n + 1 => do
      let b ← m p
      let bs ← read m (p + 1#w) n
      some (b :: bs)

def write (m : Mem w) (p : BitVec w) (bs : List UInt8) : Mem w := fun x =>
  if Within p bs.length x then bs[(x - p).toNat]? else m x

def unmap (m : Mem w) (p : BitVec w) (n : ℕ) : Mem w := fun x =>
  if Within p n x then none else m x

/-- Every mapped byte stays as it is. -/
def Extends (m m' : Mem w) : Prop := ∀ x b, m x = some b → m' x = some b

/-- No mapped byte changes its value: it stays as it is or is unmapped. -/
def Steady (m m' : Mem w) : Prop := ∀ x b, m x = some b → m' x = some b ∨ m' x = none

section Regions
variable {p q x : BitVec w} {n k i : ℕ}

theorem within_offset (p : BitVec w) (hi : i < n) : Within p n (p + BitVec.ofNat w i) := by
  rw [Within, add_sub_cancel_left, BitVec.toNat_ofNat]
  exact (Nat.mod_le _ _).trans_lt hi

theorem exists_offset (hx : Within p n x) : ∃ i < n, x = p + BitVec.ofNat w i := by
  refine ⟨(x - p).toNat, hx, ?_⟩
  rw [BitVec.ofNat_toNat, BitVec.setWidth_eq, add_sub_cancel]

theorem not_within_zero (p x : BitVec w) : ¬ Within p 0 x := Nat.not_lt_zero _

theorem Apart.symm (h : Apart p n q k) : Apart q k p n := fun x hx hx' => h x hx' hx

theorem Fresh.apart_of_mapped {m : Mem w} (hf : Fresh m p n) (hm : Mapped m q k) :
    Apart p n q k := by
  intro x hx hx'
  have h := hm x hx'
  rw [hf x hx] at h
  cases h

end Regions

section Read
variable {m m' : Mem w} {p q : BitVec w} {n k : ℕ} {bs : List UInt8}

theorem offset_succ (p : BitVec w) (i : ℕ) :
    p + 1#w + BitVec.ofNat w i = p + BitVec.ofNat w (i + 1) := by
  rw [add_assoc, BitVec.ofNat_add, add_comm (1#w)]

theorem read_eq_some_iff : read m p n = some bs ↔
    bs.length = n ∧ ∀ i < n, m (p + BitVec.ofNat w i) = bs[i]? := by
  induction n generalizing p bs with
  | zero => simp [read, eq_comm]
  | succ n ih =>
    constructor
    · intro h
      simp only [read, Option.bind_eq_bind, Option.bind_eq_some_iff] at h
      obtain ⟨b, hb, bs', hbs', heq⟩ := h
      obtain rfl := Option.some.inj heq
      obtain ⟨hlen, hbytes⟩ := ih.mp hbs'
      refine ⟨by simp [hlen], fun i hi => ?_⟩
      cases i with
      | zero => simpa using hb
      | succ i =>
        rw [← offset_succ, hbytes i (by omega)]
        simp
    · rintro ⟨hlen, hbytes⟩
      cases bs with
      | nil => simp at hlen
      | cons b bs =>
        have h0 := hbytes 0 (by omega)
        have htail : read m (p + 1#w) n = some bs := by
          refine ih.mpr ⟨by simpa using hlen, fun i hi => ?_⟩
          rw [offset_succ, hbytes (i + 1) (by omega)]
          simp
        simp only [BitVec.add_zero, List.getElem?_cons_zero] at h0
        simp [read, h0, htail]

theorem isSome_read_iff : (read m p n).isSome ↔ Mapped m p n := by
  induction n generalizing p with
  | zero =>
    simp only [read, Option.isSome_some, true_iff]
    exact fun x hx => absurd hx (not_within_zero p x)
  | succ n ih =>
    have hsplit : Mapped m p (n + 1) ↔ (m p).isSome ∧ Mapped m (p + 1#w) n := by
      constructor
      · intro h
        refine ⟨?_, fun x hx => ?_⟩
        · simpa using h _ (within_offset p (Nat.succ_pos n))
        · obtain ⟨i, hi, rfl⟩ := exists_offset hx
          rw [offset_succ]
          exact h _ (within_offset p (by omega))
      · rintro ⟨h0, h⟩ x hx
        obtain ⟨i, hi, rfl⟩ := exists_offset hx
        cases i with
        | zero => simpa using h0
        | succ i =>
          rw [← offset_succ]
          exact h _ (within_offset _ (by omega))
    rw [hsplit, ← ih]
    cases hm : m p <;> cases hr : read m (p + 1#w) n <;> simp [read, hm, hr]

theorem read_congr (h : ∀ x, Within p n x → m x = m' x) : read m p n = read m' p n := by
  have hstep : ∀ bs, read m p n = some bs ↔ read m' p n = some bs := by
    intro bs
    rw [read_eq_some_iff, read_eq_some_iff]
    refine and_congr_right fun _ => forall₂_congr fun i hi => ?_
    rw [h _ (within_offset p hi)]
  exact Option.ext hstep

theorem read_of_extends (hm : Extends m m') (h : read m p n = some bs) :
    read m' p n = some bs := by
  rw [read_eq_some_iff] at h ⊢
  obtain ⟨hlen, hbytes⟩ := h
  refine ⟨hlen, fun i hi => ?_⟩
  have hi' : bs[i]? = some bs[i] := List.getElem?_eq_getElem (by omega)
  rw [hi']
  exact hm _ _ ((hbytes i hi).trans hi')

/-- A steady update keeps what is read from every region that is still mapped. -/
theorem read_of_steady (hm : Steady m m') (h : read m p n = some bs) (hmap : Mapped m' p n) :
    read m' p n = some bs := by
  rw [read_eq_some_iff] at h ⊢
  obtain ⟨hlen, hbytes⟩ := h
  refine ⟨hlen, fun i hi => ?_⟩
  have hi' : bs[i]? = some bs[i] := List.getElem?_eq_getElem (by omega)
  rw [hi']
  rcases hm _ _ ((hbytes i hi).trans hi') with h | h
  · exact h
  · have hsome := hmap _ (within_offset p hi)
    simp [h] at hsome

end Read

section Update
variable {m m' m'' : Mem w} {p q : BitVec w} {n k : ℕ} {bs : List UInt8}

theorem Extends.steady (h : Extends m m') : Steady m m' := fun x b hx => Or.inl (h x b hx)

theorem Steady.refl (m : Mem w) : Steady m m := fun _ _ h => Or.inl h

theorem Extends.trans_steady (h : Extends m m') (h' : Steady m' m'') : Steady m m'' :=
  fun x b hx => h' x b (h x b hx)

theorem Extends.mapped (h : Extends m m') (hm : Mapped m p n) : Mapped m' p n := by
  intro x hx
  obtain ⟨b, hb⟩ := Option.isSome_iff_exists.mp (hm x hx)
  rw [h x b hb]
  rfl

theorem read_write (hlen : bs.length ≤ 2 ^ w) : read (write m p bs) p bs.length = some bs := by
  rw [read_eq_some_iff]
  refine ⟨rfl, fun i hi => ?_⟩
  rw [write, if_pos (within_offset p hi), add_sub_cancel_left, BitVec.toNat_ofNat,
    Nat.mod_eq_of_lt (by omega)]

theorem extends_write (hf : Fresh m p bs.length) : Extends m (write m p bs) := by
  intro x b hx
  have hout : ¬ Within p bs.length x := by
    intro h
    rw [hf x h] at hx
    cases hx
  rw [write, if_neg hout, hx]

theorem steady_unmap (m : Mem w) (p : BitVec w) (n : ℕ) : Steady m (unmap m p n) := by
  intro x b hx
  rw [unmap]
  split_ifs
  · exact Or.inr rfl
  · exact Or.inl hx

theorem mapped_unmap (hm : Mapped m q k) (h : Apart p n q k) : Mapped (unmap m p n) q k := by
  intro x hx
  rw [unmap, if_neg fun hp => h x hp hx]
  exact hm x hx

end Update

end ByteMemory
