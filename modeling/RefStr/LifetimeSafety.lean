import RefStr.Lifetimes
import RefStr.Refinement

/-! Safety of the lifetimes. A program that keeps to the lifetimes never holds on to memory that
is no longer there: its runs are runs of the model, in which borrowed sources are alive at every
step, and every reference that it holds still reads what it said when it was taken. -/
namespace RefStr
open ByteMemory RefStrCore
variable {t : Target}

namespace RefStrCore.LiesAt
variable {w : World t} {B : Backend} {v : RefStrCore t B} {s : Str t} {place : Usize t}

lemma foreign (h : v.LiesAt w place) (hp : v.parts.Encodes ⟨s, .inline⟩) {j : ℕ}
    (hj : j < s.bytes.length) :
    ∃ b, s.bytes[j]? = some b ∧ w.Foreign (place + BitVec.ofNat _ j) b := by
  refine ⟨s.bytes[j], List.getElem?_eq_getElem hj, h j _ ?_⟩
  rw [← List.getElem?_take_of_lt hj, hp.bytes_take, List.getElem?_eq_getElem hj]

/-- A short text is read where the value lies. -/
lemma read (h : v.LiesAt w place) (hp : v.parts.Encodes ⟨s, .inline⟩) :
    read w.mem place s.bytes.length = some s.bytes := by
  refine read_eq_some_iff.mpr ⟨rfl, fun j hj => ?_⟩
  obtain ⟨b, hb, hforeign⟩ := h.foreign hp hj
  rw [hforeign.mapped, hb]

lemma foreignSlice (h : v.LiesAt w place) (hp : v.parts.Encodes ⟨s, .inline⟩) :
    w.ForeignSlice ⟨place, s.len⟩ := by
  intro x hx
  obtain ⟨j, hj, rfl⟩ := exists_offset hx
  obtain ⟨b, -, hb⟩ := h.foreign hp (s.len_toNat ▸ hj)
  exact ⟨b, hb⟩

/-- A value may be put wherever no allocation is. -/
lemma write (v : RefStrCore t B) (hlen : v.parts.bytes.length ≤ 2 ^ t.usizeBits)
    (hfree : ∀ x, Within place v.parts.bytes.length x →
      ∀ p a, w.heap p = some a → ¬ Within p a.len.toNat x) :
    v.LiesAt ⟨write w.mem place v.parts.bytes, w.heap⟩ place := by
  intro j b hj
  have hlt := (List.getElem?_eq_some_iff.mp hj).1
  exact ⟨((read_eq_some_iff.mp (read_write hlen)).2 j hlt).trans hj,
    hfree _ (within_offset place hlt)⟩

end RefStrCore.LiesAt

namespace Scoped

/-- What keeps the memory of a loan there: the program, a strong count, or a value that stays
where it is. -/
inductive Backed (sys : Sys t) (l : Loan t) : Prop
  | own (hlender : l.lender = none) (hmem : sys.world.ForeignSlice l.raw)
  | counted {i : ℕ} {slot : Slot t} {o : Owner t} (hlender : l.lender = some i)
      (hi : sys.slots[i]? = some slot) (ho : o ∈ slot.owners) (hraw : o.raw = l.raw)
  | inline {i : ℕ} {slot : Slot t} (hlender : l.lender = some i)
      (hi : sys.slots[i]? = some slot) (hinline : slot.isInline = true)
      (hmem : sys.world.ForeignSlice l.raw)

namespace Backed
variable {sys sys' : Sys t} {l : Loan t}

lemma mapped (h : Backed sys l) (hsound : sys.world.Sound)
    (hbalanced : Ledger.Balanced sys.world.counts sys.owners) :
    Mapped sys.world.mem l.raw.ptr l.raw.len.toNat := by
  cases h with
  | own hlender hmem => exact hmem.mapped
  | counted hlender hi ho hraw =>
    rw [← hraw]
    exact hsound.mapped_of_counts (Slot.counted hbalanced (List.mem_of_getElem? hi) _ ho)
  | inline hlender hi hinline hmem => exact hmem.mapped

/-- A step keeps what is lent while the lender is left alone. -/
lemma keep (h : Backed sys l)
    (hforeign : ∀ x b, Within l.raw.ptr l.raw.len.toNat x → sys.world.Foreign x b →
      sys'.world.Foreign x b)
    (hslots : ∀ i slot, l.lender = some i → sys.slots[i]? = some slot →
      sys'.slots[i]? = some slot) : Backed sys' l := by
  cases h with
  | own hlender hmem => exact .own hlender (hmem.keep hforeign)
  | counted hlender hi ho hraw => exact .counted hlender (hslots _ _ hlender hi) ho hraw
  | inline hlender hi hinline hmem =>
    exact .inline hlender (hslots _ _ hlender hi) hinline (hmem.keep hforeign)

end Backed

/-- What is lent is there, and what refers to memory refers to memory that is lent. -/
structure Kept (σ : Scoped t) : Prop where
  backed : ∀ l ∈ σ.loans, Backed σ.sys l
  lent : ∀ i slot, σ.sys.slots[i]? = some slot → ∀ p ∈ slot.borrows, σ.Lent p (σ.lifetime i)
  static : ∀ i slot, σ.sys.slots[i]? = some slot → slot.isStatic = true → σ.lifetime i = 0
  referred : ∀ r ∈ σ.references, σ.Lent r.slice.raw r.lifetime

lemma Lent.mono {σ : Scoped t} {p : RawStr t} {a b : Lifetime} (h : σ.Lent p a) (hab : a ≤ b) :
    σ.Lent p b := by
  obtain ⟨l, hl, hle, hsub⟩ := h
  exact ⟨l, hl, hle.trans hab, hsub⟩

lemma Lent.of_loans {σ σ' : Scoped t} {p : RawStr t} {a : Lifetime} (h : σ.Lent p a)
    (hloans : ∀ l ∈ σ.loans, l.lifetime ≤ a → l ∈ σ'.loans) : σ'.Lent p a := by
  obtain ⟨l, hl, hle, hsub⟩ := h
  exact ⟨l, hloans l hl hle, hle, hsub⟩

namespace Kept
variable {σ : Scoped t} {w : World t} {y : Slot t} {i : ℕ} {a : Lifetime}

lemma initial (mem : Mem t.usizeBits) : (Scoped.initial mem).Kept := by
  refine ⟨fun l hl => ?_, fun i slot hi => ?_, fun i slot hi => ?_, fun r hr => ?_⟩
  · cases hl
  · cases hi
  · cases hi
  · cases hr

lemma mapped (h : σ.Kept) (hsound : σ.sys.world.Sound)
    (hbalanced : Ledger.Balanced σ.sys.world.counts σ.sys.owners) {p : RawStr t}
    (hp : σ.Lent p a) : Mapped σ.sys.world.mem p.ptr p.len.toNat := by
  obtain ⟨l, hl, -, hsub⟩ := hp
  exact fun x hx => (h.backed l hl).mapped hsound hbalanced x (hsub x hx)

lemma borrowsAlive (h : σ.Kept) (hsound : σ.sys.world.Sound)
    (hbalanced : Ledger.Balanced σ.sys.world.counts σ.sys.owners) : σ.sys.BorrowsAlive := by
  intro slot hslot p hp
  obtain ⟨i, hi⟩ := List.getElem?_of_mem hslot
  exact h.mapped hsound hbalanced (h.lent i slot hi p hp)

lemma lifetime_eq (h : σ.Kept) {k : WrapperKind} {B : Backend} {v : Wrapper t k B}
    (hi : σ.sys.slots[i]? = some (.value k B v)) : k.lifetime (σ.lifetime i) = σ.lifetime i := by
  cases k with
  | lifetimeKind => rfl
  | staticKind => exact (h.static i _ hi rfl).symm

lemma closeScope (h : σ.Kept) {d : Lifetime}
    (hends : ∀ i slot, σ.sys.slots[i]? = some slot → d < σ.lifetime i → slot.endures = true) :
    Kept { σ with
      depth := d
      loans := σ.loans.filter fun l => l.lifetime ≤ d
      references := σ.references.filter fun r => r.lifetime ≤ d } := by
  have hkeep {a : Lifetime} (ha : a ≤ d) (l : Loan t) (hl : l ∈ σ.loans) (hle : l.lifetime ≤ a) :
      l ∈ σ.loans.filter fun l => l.lifetime ≤ d :=
    List.mem_filter.mpr ⟨hl, decide_eq_true (hle.trans ha)⟩
  refine ⟨fun l hl => h.backed l (List.mem_of_mem_filter hl), fun i slot hi p hp => ?_,
    h.static, fun r hr => ?_⟩
  · by_cases hd : d < σ.lifetime i
    · rw [Slot.borrows_of_endures (hends i slot hi hd)] at hp
      cases hp
    · exact Lent.of_loans (h.lent i slot hi p hp) (hkeep (Nat.le_of_not_lt hd))
  · obtain ⟨hr, hd⟩ := List.mem_filter.mp hr
    exact Lent.of_loans (h.referred r hr) (hkeep (of_decide_eq_true hd))

/-- One more loan takes nothing from the others. -/
lemma loan (h : σ.Kept) {l : Loan t} (hl : Backed σ.sys l) :
    Kept { σ with loans := l :: σ.loans } := by
  have hkeep {a : Lifetime} (l' : Loan t) (hl' : l' ∈ σ.loans) (_ : l'.lifetime ≤ a) :
      l' ∈ l :: σ.loans := List.mem_cons_of_mem _ hl'
  refine ⟨fun l' hl' => ?_, fun i slot hi p hp => Lent.of_loans (h.lent i slot hi p hp) hkeep,
    h.static, fun r hr => Lent.of_loans (h.referred r hr) hkeep⟩
  obtain rfl | hl' := List.mem_cons.mp hl'
  · exact hl
  · exact h.backed l' hl'

lemma hold (h : σ.Kept) {r : Reference t} (hr : σ.Lent r.slice.raw r.lifetime) :
    Kept { σ with references := r :: σ.references } := by
  refine ⟨h.backed, h.lent, h.static, fun r' hr' => ?_⟩
  obtain rfl | hr' := List.mem_cons.mp hr'
  · exact hr
  · exact h.referred r' hr'

lemma shorten (h : σ.Kept) {slot : Slot t} (hi : σ.sys.slots[i]? = some slot)
    (hkind : slot.isStatic = false) (hle : σ.lifetime i ≤ a) :
    Kept { σ with lifetime := Function.update σ.lifetime i a } := by
  refine ⟨h.backed, fun j slot' hj p hp => ?_, fun j slot' hj hstatic => ?_, h.referred⟩
  · refine Lent.mono (h.lent j slot' hj p hp) ?_
    by_cases hji : j = i
    · subst hji
      exact hle.trans (Function.update_self j a σ.lifetime).ge
    · exact (Function.update_of_ne hji a σ.lifetime).ge
  · by_cases hji : j = i
    · subst hji
      obtain rfl := Option.some.inj (hi.symm.trans hj)
      rw [hkind] at hstatic
      cases hstatic
    · exact (Function.update_of_ne hji a σ.lifetime).trans (h.static j slot' hj hstatic)

/-- What is lent stays as it is, whatever the program does with its other memory. -/
lemma unchanged (h : σ.Kept) {mem : Mem t.usizeBits}
    (hbalanced : Ledger.Balanced σ.sys.world.counts σ.sys.owners)
    (hheap : ∀ p a x, σ.sys.world.heap p = some a → Within p a.len.toNat x →
      mem x = σ.sys.world.mem x)
    (hloans : ∀ l ∈ σ.loans, σ.Keeps l → ∀ x, Within l.raw.ptr l.raw.len.toNat x →
      mem x = σ.sys.world.mem x) {p : RawStr t} (hp : σ.Lent p a) {x : Usize t}
    (hx : Within p.ptr p.len.toNat x) : mem x = σ.sys.world.mem x := by
  obtain ⟨l, hl, -, hsub⟩ := hp
  have hxl := hsub x hx
  cases h.backed l hl with
  | own hlender hmem =>
    refine hloans l hl (fun i hi => ?_) x hxl
    rw [hlender] at hi
    cases hi
  | @counted i slot o hlender hi ho hraw =>
    obtain ⟨a, ha, -, hlen⟩ := World.counts_ne_none_iff.mp
      (Slot.counted hbalanced (List.mem_of_getElem? hi) o ho)
    refine hheap o.raw.ptr a x ha ?_
    rwa [hlen, hraw]
  | @inline i slot hlender hi hinline hmem =>
    refine hloans l hl (fun j hj => ?_) x hxl
    obtain rfl := Option.some.inj (hlender.symm.trans hj)
    exact ⟨slot, hi, hinline⟩

lemma environment (h : σ.Kept) {mem : Mem t.usizeBits}
    (hkeep : ∀ p a, σ.Lent p a → ∀ x, Within p.ptr p.len.toNat x →
      mem x = σ.sys.world.mem x) :
    Kept { σ with sys := ⟨⟨mem, σ.sys.world.heap⟩, σ.sys.slots⟩ } := by
  refine ⟨fun l hl => ?_, h.lent, h.static, h.referred⟩
  refine (h.backed l hl).keep (fun x b hx hb => ⟨?_, hb.outside⟩) fun i slot _ hi => hi
  exact (hkeep l.raw l.lifetime ⟨l, hl, le_rfl, fun _ => id⟩ x hx).trans hb.mapped

/-- Something new refers to what is lent for its lifetime. -/
lemma put (h : σ.Kept) {slots' : List (Slot t)}
    (hforeign : ∀ x b, σ.sys.world.Foreign x b → w.Foreign x b)
    (hold : ∀ j slot, σ.Frozen j → σ.sys.slots[j]? = some slot → slots'[j]? = some slot)
    (hnew : ∀ j slot, slots'[j]? = some slot →
      j ≠ i ∧ σ.sys.slots[j]? = some slot ∨ j = i ∧ slot = y)
    (hlent : ∀ p ∈ y.borrows, σ.Lent p a) (hkind : y.isStatic = true → a = 0) :
    Kept { σ with sys := ⟨w, slots'⟩, lifetime := Function.update σ.lifetime i a } := by
  refine ⟨fun l hl => ?_, fun j slot hj p hp => ?_, fun j slot hj hstatic => ?_, h.referred⟩
  · exact (h.backed l hl).keep (fun x b _ => hforeign x b)
      fun j slot hlender hj => hold j slot ⟨l, hl, hlender⟩ hj
  · obtain ⟨hne, hj⟩ | ⟨rfl, rfl⟩ := hnew j slot hj
    · exact Lent.mono (h.lent j slot hj p hp) (Function.update_of_ne hne a σ.lifetime).ge
    · exact Lent.mono (hlent p hp) (Function.update_self j a σ.lifetime).ge
  · obtain ⟨hne, hj⟩ | ⟨rfl, rfl⟩ := hnew j slot hj
    · exact (Function.update_of_ne hne a σ.lifetime).trans (h.static j slot hj hstatic)
    · exact (Function.update_self j a σ.lifetime).trans (hkind hstatic)

lemma append (h : σ.Kept) (hforeign : ∀ x b, σ.sys.world.Foreign x b → w.Foreign x b)
    (hlent : ∀ p ∈ y.borrows, σ.Lent p a) (hkind : y.isStatic = true → a = 0) :
    Kept { σ with
      sys := ⟨w, σ.sys.slots ++ [y]⟩
      lifetime := Function.update σ.lifetime σ.sys.slots.length a } := by
  refine h.put hforeign (fun j slot _ hj => ?_) (fun j slot hj => ?_) hlent hkind
  · rwa [List.getElem?_append_left (List.getElem?_eq_some_iff.mp hj).1]
  · obtain hlt | hge := lt_or_ge j σ.sys.slots.length
    · rw [List.getElem?_append_left hlt] at hj
      exact Or.inl ⟨hlt.ne, hj⟩
    · rw [List.getElem?_append_right hge, List.getElem?_singleton] at hj
      split_ifs at hj with hzero
      exact Or.inr ⟨by omega, (Option.some.inj hj).symm⟩

/-- What has lent nothing may be replaced. -/
lemma set (h : σ.Kept) (hfree : ¬ σ.Frozen i)
    (hforeign : ∀ x b, σ.sys.world.Foreign x b → w.Foreign x b)
    (hlent : ∀ p ∈ y.borrows, σ.Lent p a) (hkind : y.isStatic = true → a = 0) :
    Kept { σ with
      sys := ⟨w, σ.sys.slots.set i y⟩
      lifetime := Function.update σ.lifetime i a } := by
  refine h.put hforeign (fun j slot hfrozen hj => ?_) (fun j slot hj => ?_) hlent hkind
  · have hne : i ≠ j := by
      rintro rfl
      exact hfree hfrozen
    exact (List.getElem?_set_ne hne).trans hj
  · by_cases hij : i = j
    · subst hij
      have hlt := (List.getElem?_eq_some_iff.mp hj).1
      rw [List.length_set] at hlt
      rw [List.getElem?_set_self hlt] at hj
      exact Or.inr ⟨rfl, (Option.some.inj hj).symm⟩
    · rw [List.getElem?_set_ne hij] at hj
      exact Or.inl ⟨Ne.symm hij, hj⟩

end Kept

/-- Every reference still reads what it said. -/
def Reads (σ : Scoped t) : Prop := ∀ r ∈ σ.references,
  read σ.sys.world.mem r.slice.ptr r.slice.str.bytes.length = some r.slice.str.bytes

/-- What is kept along a run. -/
structure Safe (events : List (Event t)) (σ : Scoped t) : Prop where
  run : Sys.Run events σ.sys
  kept : σ.Kept
  reads : σ.Reads

namespace Safe
variable {σ : Scoped t} {events : List (Event t)} {event : Event t} {w : World t} {y : Slot t}
  {x : Text t} {i : ℕ} {a : Lifetime} {k : WrapperKind} {B : Backend} {v : Wrapper t k B}

/-- No operation changes what a reference reads. -/
lemma of_evolves (h : Safe events σ) {os os' : List (Owner t)} {slots' : List (Slot t)}
    {lifetime' : ℕ → Lifetime} (hev : World.Evolves σ.sys.world os w os')
    (hkept : Kept { σ with sys := ⟨w, slots'⟩, lifetime := lifetime' })
    (hbalanced : Ledger.Balanced w.counts (slots'.flatMap Slot.owners))
    (hstep : Sys.BorrowsAlive ⟨w, slots'⟩ → Sys.Step σ.sys event ⟨w, slots'⟩) :
    Safe (events ++ [event]) { σ with sys := ⟨w, slots'⟩, lifetime := lifetime' } := by
  have hsound := hev.sound h.run.inv.sound
  refine ⟨h.run.step (hstep (hkept.borrowsAlive hsound hbalanced)), hkept, fun r hr => ?_⟩
  have hmapped := hkept.mapped hsound hbalanced (hkept.referred r hr)
  rw [StrRef.raw, r.slice.str.len_toNat] at hmapped
  exact read_of_steady hev.steady (h.reads r hr) hmapped

lemma append (h : Safe events σ) (hy : Yields σ.sys.world [] w y (some x))
    (hforeign : ∀ x b, σ.sys.world.Foreign x b → w.Foreign x b)
    (hlent : ∀ p ∈ x.borrows, σ.Lent p a) (hkind : y.isStatic = true → a = 0)
    (hstep : Sys.BorrowsAlive ⟨w, σ.sys.slots ++ [y]⟩ →
      Sys.Step σ.sys event ⟨w, σ.sys.slots ++ [y]⟩) :
    Safe (events ++ [event]) { σ with
      sys := ⟨w, σ.sys.slots ++ [y]⟩
      lifetime := Function.update σ.lifetime σ.sys.slots.length a } := by
  have hborrows : y.borrows = x.borrows := hy.holds.borrows_eq
  have hkept := h.kept.append hforeign (fun p hp => hlent p (hborrows ▸ hp)) hkind
  exact h.of_evolves hy.evolves hkept
    (Ledger.Updates.append hy.evolves.updates h.run.inv.balanced) hstep

lemma set (h : Safe events σ) {slot : Slot t} {x : Option (Text t)}
    (hi : σ.sys.slots[i]? = some slot) (hfree : ¬ σ.Frozen i)
    (hy : Yields σ.sys.world slot.owners w y x)
    (hforeign : ∀ x b, σ.sys.world.Foreign x b → w.Foreign x b)
    (hlent : ∀ p ∈ x.elim [] Text.borrows, σ.Lent p a) (hkind : y.isStatic = true → a = 0)
    (hstep : Sys.BorrowsAlive ⟨w, σ.sys.slots.set i y⟩ →
      Sys.Step σ.sys event ⟨w, σ.sys.slots.set i y⟩) :
    Safe (events ++ [event]) { σ with
      sys := ⟨w, σ.sys.slots.set i y⟩
      lifetime := Function.update σ.lifetime i a } := by
  have hkept := h.kept.set hfree hforeign (fun p hp => hlent p (hy.holds.borrows_eq ▸ hp)) hkind
  exact h.of_evolves hy.evolves hkept
    (Ledger.Updates.set hi hy.evolves.updates h.run.inv.balanced) hstep

lemma environment (h : Safe events σ) {mem : Mem t.usizeBits}
    (hheap : ∀ p a x, σ.sys.world.heap p = some a → Within p a.len.toNat x →
      mem x = σ.sys.world.mem x)
    (hloans : ∀ l ∈ σ.loans, σ.Keeps l → ∀ x, Within l.raw.ptr l.raw.len.toNat x →
      mem x = σ.sys.world.mem x) :
    Safe (events ++ [.environment mem]) { σ with
      sys := ⟨⟨mem, σ.sys.world.heap⟩, σ.sys.slots⟩ } := by
  have hkeep := fun p a (hp : σ.Lent p a) x (hx : Within p.ptr p.len.toNat x) =>
    h.kept.unchanged h.run.inv.balanced hheap hloans hp hx
  refine ⟨h.run.step (.environment fun x hx => ?_), h.kept.environment hkeep, fun r hr => ?_⟩
  · obtain ⟨p, a, ha, hin⟩ | ⟨slot, hslot, p, hp, hin⟩ := hx
    · exact hheap p a x ha hin
    · obtain ⟨i, hi⟩ := List.getElem?_of_mem hslot
      exact hkeep p _ (h.kept.lent i slot hi p hp) x hin
  · refine (read_congr fun x hx => ?_).trans (h.reads r hr)
    refine hkeep r.slice.raw _ (h.kept.referred r hr) x ?_
    rwa [StrRef.raw, r.slice.str.len_toNat]

/-- What is made of references refers to what they refer to. -/
lemma create (h : Safe events σ) {A : Allocator t} {c : Creation t}
    (hheld : ∀ s ∈ c.references, ∃ r ∈ σ.references, r.slice = s ∧ r.lifetime ≤ a)
    (hrun : c.run A σ.sys.world = .ok y w) (hkind : y.isStatic = true → a = 0) :
    Safe (events ++ [.create c]) { σ with
      sys := ⟨w, σ.sys.slots ++ [y]⟩
      lifetime := Function.update σ.lifetime σ.sys.slots.length a } := by
  have hread : c.Readable σ.sys.world := c.readable_of fun s hs => by
    obtain ⟨r, hr, rfl, -⟩ := hheld s hs
    exact h.reads r hr
  have hy := (Creation.run_outcome hread).result hrun
  refine h.append hy (fun x b hb => hb.create hrun) (fun p hp => ?_) hkind (.create hread hrun)
  obtain ⟨s, hs, rfl⟩ := c.mem_references hp
  obtain ⟨r, hr, rfl, hle⟩ := hheld s hs
  exact (h.kept.referred r hr).mono hle

lemma copy (h : Safe events σ) {A : Allocator t} {c : Copying} {slot : Slot t}
    {m : Exec t (Slot t)} (hi : σ.sys.slots[i]? = some slot) (hm : c.run A slot = some m)
    (hrun : m σ.sys.world = .ok y w) :
    Safe (events ++ [.copy c i]) { σ with
      sys := ⟨w, σ.sys.slots ++ [y]⟩
      lifetime := Function.update σ.lifetime σ.sys.slots.length (c.lifetime (σ.lifetime i)) } := by
  have hx := h.run.inv.holds i slot hi
  obtain ⟨x, hstore⟩ := Sys.exists_text_of_copy hx hm
  rw [hstore] at hx
  have hy := (Copying.run_outcome hx hm).result hrun
  refine h.append hy (fun x b hb => hb.copy hm hrun) (fun p hp => ?_)
    (fun hstatic => Copying.lifetime_of_isStatic hm hrun hstatic (h.kept.static i slot hi))
    (.copy hi hm hrun)
  obtain ⟨hp, hsame⟩ := Copying.mem_borrows hx hp (σ.lifetime i)
  rw [hsame]
  exact h.kept.lent i slot hi p hp

lemma consume (h : Safe events σ) {A : Allocator t} {c : Consuming} {slot : Slot t}
    {m : Exec t (Slot t)} (hi : σ.sys.slots[i]? = some slot) (hm : c.run A slot = some m)
    (hfree : ¬ σ.Frozen i) (hrun : m σ.sys.world = .ok y w)
    (hkind : y.isStatic = true → c.lifetime (σ.lifetime i) = 0) :
    Safe (events ++ [.consume c i]) { σ with
      sys := ⟨w, σ.sys.slots.set i y⟩
      lifetime := Function.update σ.lifetime i (c.lifetime (σ.lifetime i)) } := by
  have hinv := h.run.inv
  have hx := hinv.holds i slot hi
  obtain ⟨x, hstore⟩ := Sys.exists_text_of_consume hx hm
  rw [hstore] at hx
  have hy := (Consuming.run_outcome hinv.sound hx hm).result hrun
  refine h.set hi hfree hy (fun x b hb => hb.consume hm hrun) (fun p hp => ?_) hkind
    (.consume hi hm hrun)
  obtain ⟨hp, hsame⟩ := Consuming.mem_borrows hx hm hp (σ.lifetime i)
  rw [hsame]
  exact h.kept.lent i slot hi p hp

lemma loan (h : Safe events σ) {l : Loan t} (hl : Backed σ.sys l) :
    Safe events { σ with loans := l :: σ.loans } :=
  ⟨h.run, h.kept.loan hl, h.reads⟩

lemma hold (h : Safe events σ) {s : StrRef t} (hlent : σ.Lent s.raw a)
    (hread : read σ.sys.world.mem s.ptr s.str.bytes.length = some s.str.bytes) :
    Safe events { σ with references := ⟨s, a⟩ :: σ.references } := by
  refine ⟨h.run, h.kept.hold hlent, fun r hr => ?_⟩
  obtain rfl | hr := List.mem_cons.mp hr
  · exact hread
  · exact h.reads r hr

/-- The text of a value that borrows may be referred to for as long as the type allows. -/
lemma source (h : Safe events σ) (hi : σ.sys.slots[i]? = some (.value k B v)) {s : StrRef t}
    (hx : v.inner.Represents σ.sys.world ⟨s.str, .borrowed s.ptr⟩) :
    σ.Lent s.raw (σ.lifetime i) ∧
      read σ.sys.world.mem s.ptr s.str.bytes.length = some s.str.bytes := by
  refine ⟨h.kept.lent i _ hi s.raw ?_, ?_⟩
  · rw [Slot.borrows, hx.borrows_borrowed]
    exact List.mem_cons_self
  · rw [← hx.encodes.rawPtr_eq]
    exact hx.read (by simp)

/-- A `Cow` of a value may outlive it. -/
lemma cow (h : Safe events σ) (hi : σ.sys.slots[i]? = some (.value k B v))
    (hx : v.inner.Represents σ.sys.world x) :
    Safe events { σ with
      references := x.cow.references (k.lifetime (σ.lifetime i)) ++ σ.references } := by
  rw [h.kept.lifetime_eq hi]
  obtain ⟨s, ptr | _ | _⟩ := x
  · obtain ⟨hlent, hread⟩ := h.source (s := ⟨ptr, s⟩) hi hx
    exact h.hold hlent hread
  · exact h
  · exact h

lemma borrowedStaticStr (h : Safe events σ) (hi : σ.sys.slots[i]? = some (.value k B v))
    (hzero : σ.lifetime i = 0) {s : StrRef t}
    (hrun : v.inner.borrowedStaticStr σ.sys.world = .ok (some s) w) :
    Safe events { σ with references := ⟨s, 0⟩ :: σ.references } := by
  obtain ⟨x, -, hx⟩ := h.run.inv.represents hi
  by_cases hborrowed : x.origin.tag = .borrowed
  · obtain ⟨r, ptr | _ | _⟩ := x
    · have hsome := hrun.symm.trans hx.run_borrowedStaticStr_borrowed
      obtain rfl := Option.some.inj (EStateM.Result.ok.inj hsome).1
      obtain ⟨hlent, hread⟩ := h.source (s := ⟨ptr, r⟩) hi hx
      exact h.hold (hzero ▸ hlent) hread
    · cases hborrowed
    · cases hborrowed
  · rw [hx.run_borrowedStaticStr hborrowed] at hrun
    cases hrun

lemma intoCow (h : Safe events σ) (hi : σ.sys.slots[i]? = some (.value k B v))
    (hfree : ¬ σ.Frozen i) {c : Cow t} (hrun : v.intoCow σ.sys.world = .ok c w) :
    Safe (events ++ [.consume .intoCow i]) { σ with
      sys := ⟨w, σ.sys.slots.set i .gone⟩
      references := c.references (k.lifetime (σ.lifetime i)) ++ σ.references } := by
  obtain ⟨x, -, hx⟩ := h.run.inv.represents hi
  obtain ⟨rfl, rfl⟩ := EStateM.Result.ok.inj (hrun.symm.trans hx.run_intoCow)
  have hsafe := (h.cow hi hx).consume (c := .intoCow) (A := .firstFit []) hi rfl hfree
    (run_bind hrun _) fun hstatic => nomatch hstatic
  simpa only [Consuming.lifetime, Function.update_eq_self] using hsafe

lemma intoStrUnchecked (h : Safe events σ) (hi : σ.sys.slots[i]? = some (.value k B v))
    (hfree : ¬ σ.Frozen i) (hborrowed : v.isBorrowed = true) {s : StrRef t}
    (hrun : v.intoStrUnchecked σ.sys.world = .ok s w) :
    Safe (events ++ [.consume .intoCow i]) { σ with
      sys := ⟨w, σ.sys.slots.set i .gone⟩
      references := ⟨s, k.lifetime (σ.lifetime i)⟩ :: σ.references } := by
  have hcow : v.intoCow σ.sys.world = .ok (.borrowed s) w :=
    (congrFun (if_pos hborrowed) σ.sys.world).trans (run_bind hrun _)
  exact h.intoCow hi hfree hcow

/-- The contents are lent by the value, unless it borrows them itself. -/
lemma asStr (h : Safe events σ) (hi : σ.sys.slots[i]? = some (.value k B v)) {s : Str t}
    {place : Usize t} (hplace : v.isInline = true → v.inner.LiesAt σ.sys.world place)
    (hrun : v.asStr σ.sys.world = .ok s w) (hle : σ.lifetime i ≤ a) :
    Safe events { σ with
      loans := if v.isBorrowed then σ.loans
        else ⟨⟨v.inner.strPtr place, s.len⟩, a, some i⟩ :: σ.loans
      references := ⟨⟨v.inner.strPtr place, s⟩, a⟩ :: σ.references } := by
  obtain ⟨x, -, hx⟩ := h.run.inv.represents hi
  obtain rfl := (EStateM.Result.ok.inj (hrun.symm.trans hx.run_asStr)).1
  have hborrowed : v.isBorrowed = decide (x.origin.tag = .borrowed) := hx.encodes.isBorrowed_eq
  have hinline : v.inner.isInline = decide (x.origin.tag = .inline) := hx.encodes.isInline_eq
  have hlend (p : Usize t) (hl : Backed σ.sys ⟨⟨p, x.str.len⟩, a, some i⟩)
      (hread : read σ.sys.world.mem p x.str.bytes.length = some x.str.bytes) :
      Safe events { σ with
        loans := ⟨⟨p, x.str.len⟩, a, some i⟩ :: σ.loans
        references := ⟨⟨p, x.str⟩, a⟩ :: σ.references } :=
    (h.loan hl).hold (s := ⟨p, x.str⟩) ⟨_, List.mem_cons_self, le_rfl, fun _ => id⟩ hread
  rw [strPtr, hborrowed, hinline]
  obtain ⟨s, ptr | _ | _⟩ := x
  · obtain ⟨hlent, hread⟩ := h.source (s := ⟨ptr, s⟩) hi hx
    have hptr : v.inner.parts.asPtr = ptr := hx.encodes.rawPtr_eq
    simp only [hptr]
    exact h.hold (hlent.mono hle) hread
  · have hlies := hplace hinline
    exact hlend place (.inline rfl hi hinline (hlies.foreignSlice hx.encodes))
      (hlies.read hx.encodes)
  · refine hlend v.inner.parts.asPtr (.counted rfl hi (o := ⟨B, ⟨v.inner.parts.asPtr, s.len⟩⟩)
      ?_ rfl) (hx.read (by simp))
    rw [Slot.owners, hx.owners_shared]
    exact List.mem_cons_self

end Safe

/-- Every step is one of the model, in which the sources of what is borrowed are alive. -/
lemma Step.safe {events new : List (Event t)} {σ σ' : Scoped t} (hstep : Step σ new σ')
    (h : Safe events σ) : Safe (events ++ new) σ' := by
  have hkept := h.kept
  cases hstep with
  | openScope =>
    rw [List.append_nil]
    exact ⟨h.run, ⟨hkept.backed, hkept.lent, hkept.static, hkept.referred⟩, h.reads⟩
  | closeScope hd hends =>
    rw [List.append_nil]
    exact ⟨h.run, hkept.closeScope hends, fun r hr => h.reads r (List.mem_of_mem_filter hr)⟩
  | lend ha hp =>
    rw [List.append_nil]
    exact h.loan (.own rfl hp)
  | borrow hi ho ha =>
    rw [List.append_nil]
    exact h.loan (.counted rfl hi ho rfl)
  | slice hlent ha hread =>
    rw [List.append_nil]
    exact h.hold hlent hread
  | asStr hi hplace hrun hle ha =>
    rw [List.append_nil]
    exact h.asStr hi hplace hrun hle
  | asCow hi hrun =>
    rw [List.append_nil]
    obtain ⟨x, -, hx⟩ := h.run.inv.represents hi
    obtain rfl := (EStateM.Result.ok.inj (hrun.symm.trans (Wrapper.run_asCow hx))).1
    exact h.cow hi hx
  | borrowedStaticStr hi hzero hrun =>
    rw [List.append_nil]
    exact h.borrowedStaticStr hi hzero hrun
  | intoCow hi hfree hrun => exact h.intoCow hi hfree hrun
  | intoStrUnchecked hi hfree hborrowed hrun => exact h.intoStrUnchecked hi hfree hborrowed hrun
  | shorten hi hkind hle ha =>
    rw [List.append_nil]
    exact ⟨h.run, hkept.shorten hi hkind hle, h.reads⟩
  | environment hheap hloans => exact h.environment hheap hloans
  | create hheld hrun hkind ha => exact h.create hheld hrun hkind
  | copy hi hm hrun => exact h.copy hi hm hrun
  | consume hi hm hfree hrun hkind => exact h.consume hi hm hfree hrun hkind

lemma Run.safe {events : List (Event t)} {σ : Scoped t} (h : Run events σ) : Safe events σ := by
  induction h with
  | initial mem => exact ⟨.initial mem, .initial mem, fun r hr => nomatch hr⟩
  | step _ hstep ih => exact hstep.safe ih

/-- A program that keeps to the lifetimes is a program of the model, in which all borrowed sources
are alive at every step. What it holds refers to memory that is lent for its lifetime, what has a
`'static` type to memory that is lent for ever, and every reference reads what it said. -/
theorem lifetimes_suffice {events : List (Event t)} {σ : Scoped t} (h : Run events σ) :
    Sys.Run events σ.sys ∧
      (∀ i slot, σ.sys.slots[i]? = some slot →
        ∀ p ∈ slot.borrows, σ.Lent p (σ.lifetime i)) ∧
      (∀ (i : ℕ) (B : Backend) (v : Wrapper t .staticKind B),
        σ.sys.slots[i]? = some (.value .staticKind B v) →
          ∀ p ∈ v.inner.borrows, σ.Lent p 0) ∧
      (∀ r ∈ σ.references, σ.Lent r.slice.raw r.lifetime ∧
        read σ.sys.world.mem r.slice.ptr r.slice.str.bytes.length =
          some r.slice.str.bytes) ∧
      ∀ l ∈ σ.loans, Backed σ.sys l ∧
        Mapped σ.sys.world.mem l.raw.ptr l.raw.len.toNat := by
  obtain ⟨hrun, hkept, hreads⟩ := h.safe
  refine ⟨hrun, hkept.lent, fun i B v hi p hp => ?_,
    fun r hr => ⟨hkept.referred r hr, hreads r hr⟩, fun l hl => ⟨hkept.backed l hl, ?_⟩⟩
  · have hlent := hkept.lent i _ hi p hp
    rwa [hkept.static i _ hi rfl] at hlent
  · exact (hkept.backed l hl).mapped hrun.inv.sound hrun.inv.balanced

/-- Three letters are lent for a scope, and the value that borrows them is promoted before the
scope ends. Its `Cow` outlives it, and a reference into the promoted value freezes that one. -/
theorem lifetimes_suffice_letters : ∃ (events events' : List (Event .x64LE))
    (σ σ' : Scoped .x64LE) (s r : StrRef .x64LE)
    (v : Wrapper .x64LE .staticKind .sharedBackend), Run events σ ∧ Run events' σ' ∧
      σ.references = [⟨r, 1⟩, ⟨s, 1⟩, ⟨s, 1⟩] ∧ σ.Frozen 0 ∧
      read σ.sys.world.mem r.ptr r.str.bytes.length = some r.str.bytes ∧
      read σ.sys.world.mem s.ptr s.str.bytes.length = some s.str.bytes ∧
      σ'.depth = 0 ∧ σ'.loans = [] ∧ σ'.references = [] ∧ σ'.sys.slots = [.value _ _ v] ∧
      v.isInline = true ∧ v.inner.borrows = [] := by
  let s : StrRef .x64LE := ⟨4096#64, .letters 3 (by decide)⟩
  have hs : s.str.bytes.length ≤ Target.x64LE.inlineCapacity := by decide
  obtain ⟨q, hq, -⟩ := RawParts.packInline_bytes hs
  have hlen : q.bytes.length = 16 := by
    simp [RawParts.bytes, Arch.toNeBytes, Target.wordBytes, Target.x64LE]
  have hapart (x : BitVec 64) (hx : Within 12288#64 16 x) : ¬ Within 4096#64 3 x := by
    unfold Within at hx ⊢
    bv_omega
  let lent : World .x64LE := ⟨write (fun _ => none) 4096#64 s.str.bytes, fun _ => none⟩
  let w : World .x64LE := ⟨write lent.mem 12288#64 q.bytes, fun _ => none⟩
  have hv : (⟨q⟩ : RefStrCore .x64LE .sharedBackend).Represents w ⟨s.str, .inline⟩ := .inline hs hq
  have hlies : (⟨q⟩ : RefStrCore .x64LE .sharedBackend).LiesAt w 12288#64 :=
    .write (w := lent) ⟨q⟩ (hlen.trans_le (by decide)) fun x _ p a ha => by cases ha
  have hfresh : Fresh lent.mem 12288#64 q.bytes.length := by
    rw [hlen]
    exact fun x hx => if_neg (hapart x hx)
  have hread : read w.mem s.ptr s.str.bytes.length = some s.str.bytes :=
    read_of_extends (extends_write hfresh) (read_write (by decide))
  have hc : s.str.Compressible := Str.compressible_of_le hs
  have hborrowed : (⟨.ofStr s.ptr .borrowed s.str hc⟩ : RefStrCore .x64LE .sharedBackend).Represents
      w ⟨s.str, .borrowed s.ptr⟩ := .borrowed hc hread
  have hkept : ¬ (⟨⟨q⟩⟩ : Wrapper _ .staticKind .sharedBackend).isBorrowed = true :=
    hv.encodes.isBorrowed_iff.not.mpr (by simp)
  have hpromoted : (fromOwnedLike (.firstFit []) s.str : Exec _ (RefStrCore _ .sharedBackend)) w =
      .ok ⟨q⟩ w := by
    obtain ⟨q', hq', hrun⟩ := run_fromOwnedLike_inline (B := .sharedBackend) (A := .firstFit [])
      (w := w) hs
    rwa [← Except.ok.inj (hq.symm.trans hq')] at hrun
  have hslice := (((Run.initial w.mem).step .openScope).step (.lend (p := s.raw) (a := 1) le_rfl
    (World.ForeignSlice.of_read hread rfl fun _ => rfl))).step
    (.slice (s := s) (a := 1) ⟨_, List.mem_cons_self, le_rfl, fun _ => id⟩ le_rfl hread)
  have hmake := hslice.step (.create (A := .firstFit []) (a := 1)
    (c := .fromStr .lifetimeKind .sharedBackend s)
    (fun r hr => ⟨_, List.mem_cons_self, (List.mem_singleton.mp hr).symm, le_rfl⟩)
    (run_map (run_lift ((Wrapper.fromStr_eq _).trans (dif_pos hc))) _)
    (fun hstatic => by cases hstatic) le_rfl)
  have hcow := hmake.step (.asCow (i := 0) rfl (Wrapper.run_asCow (k := .lifetimeKind) hborrowed))
  have hpromote := hcow.step (.consume (i := 0) (c := .intoStaticStr) (A := .firstFit []) rfl rfl
    (by
      rintro ⟨l, hl, hlender⟩
      obtain rfl := List.mem_singleton.mp hl
      cases hlender)
    (run_map (run_map (hborrowed.run_intoStaticCore_borrowed.trans hpromoted) _) _) fun _ => rfl)
  have hfrozen := hpromote.step (.asStr (i := 0) (k := .staticKind) (v := ⟨⟨q⟩⟩) (a := 1) rfl
    (fun _ => hlies) hv.run_asStr (Nat.zero_le _) le_rfl)
  rw [if_neg hkept] at hfrozen
  have hclose := hfrozen.step (.closeScope (d := 0) rfl fun i slot hi hlt => by
    cases i with
    | zero => cases hlt
    | succ i => cases hi)
  obtain ⟨-, -, -, hreads, -⟩ := lifetimes_suffice hfrozen
  obtain ⟨-, -, hstatic, -, -⟩ := lifetimes_suffice hclose
  refine ⟨_, _, _, _, s, _, ⟨⟨q⟩⟩, hfrozen, hclose, rfl, ⟨_, List.mem_cons_self, rfl⟩,
    (hreads _ List.mem_cons_self).2,
    (hreads ⟨s, 1⟩ (List.mem_cons_of_mem _ List.mem_cons_self)).2, rfl, rfl, rfl, rfl,
    hv.encodes.isInline_eq, ?_⟩
  refine List.eq_nil_iff_forall_not_mem.mpr fun p hp => ?_
  obtain ⟨l, hl, -⟩ := hstatic 0 _ _ rfl p hp
  cases hl

end Scoped
end RefStr
