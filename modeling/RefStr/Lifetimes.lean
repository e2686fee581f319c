import RefStr.Frame

/-! Lifetimes. The signatures of the operations carry lifetimes: a borrowed value keeps that of
its source, a promoted one has `'static`, and a reference into a value freezes it. The steps
here are those of a program that keeps to them, as the borrow checker makes it do. -/
namespace RefStr
open ByteMemory
variable {t : Target}

/-- The depth of the scope at whose end it ends. The outermost, `'static`, never ends. -/
abbrev Lifetime := ℕ

/-- Memory that is lent for a lifetime: by a slot, or by the program, whose own it is. -/
structure Loan (t : Target) where
  raw : RawStr t
  lifetime : Lifetime
  lender : Option ℕ

/-- A reference `&'a str` that the program holds. -/
structure Reference (t : Target) where
  slice : StrRef t
  lifetime : Lifetime

/-- The reference in a `Cow<'a, str>`. -/
def Cow.references : Cow t → Lifetime → List (Reference t)
  | borrowed s, a => [⟨s, a⟩]
  | owned _, _ => []

/-- The lifetime in the type of a wrapper. -/
def WrapperKind.lifetime : WrapperKind → Lifetime → Lifetime
  | lifetimeKind, a => a
  | staticKind, _ => 0

namespace RefStrCore
variable {B : Backend}

/-- Where `as_str` finds the bytes of a value that lies at `place`. -/
def strPtr (self : RefStrCore t B) (place : Usize t) : Usize t :=
  if self.isInline then place else self.parts.asPtr

/-- The two words of the value lie there, in no allocation of the crate. -/
def LiesAt (w : World t) (self : RefStrCore t B) (place : Usize t) : Prop :=
  ∀ j b, self.parts.bytes[j]? = some b → w.Foreign (place + BitVec.ofNat _ j) b

end RefStrCore

lemma Text.borrows_detach (x : Text t) : x.detach.borrows = x.borrows := by
  rcases x with ⟨_, _ | _ | _⟩ <;> rfl

namespace Slot
variable {slot : Slot t}

/-- Its type has no lifetime. -/
def endures : Slot t → Bool
  | handle _ _ => true
  | raw _ _ => true
  | gone => true
  | _ => false

/-- Its text is in its own two words. -/
def isInline : Slot t → Bool
  | value _ _ v => v.isInline
  | _ => false

/-- The only lifetime of its type is `'static`. -/
def isStatic : Slot t → Bool
  | value .staticKind _ _ => true
  | _ => false

lemma borrows_of_endures (h : slot.endures = true) : slot.borrows = [] := by
  cases slot with
  | value | parts | pointer => cases h
  | handle | raw | gone => rfl

end Slot

/-- The references that are passed with the lifetime of the result. -/
def Creation.references : Creation t → List (StrRef t)
  | fromStr _ _ s => [s]
  | ofCow _ _ (.borrowed s) => [s]
  | _ => []

lemma Creation.readable_of (c : Creation t) {w : World t} (h : ∀ s ∈ c.references,
    read w.mem s.ptr s.str.bytes.length = some s.str.bytes) : c.Readable w := by
  cases c with
  | fromStr k B s => exact h s List.mem_cons_self
  | ofCow k B c =>
    cases c with
    | borrowed s => exact h s List.mem_cons_self
    | owned s => trivial
  | handle | fromOwnedLike | ofString | ofBoxedStr => trivial

lemma Creation.mem_references (c : Creation t) {p : RawStr t} (hp : p ∈ c.text.borrows) :
    ∃ s ∈ c.references, p = s.raw := by
  have howned : ∀ s : Str t, p ∉ (Text.owned s).borrows := fun s hp => by
    rw [Text.borrows_eq_nil (Text.owned_tag_ne_borrowed s)] at hp
    cases hp
  cases c with
  | handle B s => cases hp
  | fromStr k B s => exact ⟨s, List.mem_cons_self, List.mem_singleton.mp hp⟩
  | fromOwnedLike k B s => exact absurd hp (howned s)
  | ofString k B s => exact absurd hp (howned s)
  | ofBoxedStr k B s => exact absurd hp (howned s)
  | ofCow k B c =>
    cases c with
    | borrowed s => exact ⟨s, List.mem_cons_self, List.mem_singleton.mp hp⟩
    | owned s => exact absurd hp (howned s)

/-- `to_static_str` is the only copy that does not keep the lifetime of its source. -/
def Copying.lifetime : Copying → Lifetime → Lifetime
  | toStaticStr, _ => 0
  | _, a => a

def Consuming.lifetime : Consuming → Lifetime → Lifetime
  | intoStaticStr, _ => 0
  | fromShared _, _ => 0
  | _, a => a

section Signatures
variable {A : Allocator t} {w : World t} {slot : Slot t} {x : Text t} {m : Exec t (Slot t)}
  {p : RawStr t}

/-- A copy that refers to memory refers to what its source refers to, for no longer. -/
lemma Copying.mem_borrows {c : Copying} (hx : slot.Holds w (some x))
    (hp : p ∈ (c.text x).borrows) (a : Lifetime) : p ∈ slot.borrows ∧ c.lifetime a = a := by
  rw [hx.borrows_eq]
  cases c with
  | toStaticStr =>
    rw [Copying.text, Text.borrows_eq_nil x.promote_tag_ne_borrowed] at hp
    cases hp
  | cloneHandle | clone | incrementStrongCount => exact ⟨hp, rfl⟩

/-- A copy has the type of its source, except for the static promotion. -/
lemma Copying.lifetime_of_isStatic {c : Copying} (hm : c.run A slot = some m) {y : Slot t}
    {w' : World t} (hrun : m w = .ok y w') (hy : y.isStatic = true) {a : Lifetime}
    (ha : slot.isStatic = true → a = 0) : c.lifetime a = 0 := by
  cases c with
  | toStaticStr => rfl
  | cloneHandle =>
    cases slot with
    | handle B s =>
      cases hm
      obtain ⟨s', -, rfl⟩ := exists_of_run_map hrun
      cases hy
    | _ => cases hm
  | clone =>
    cases slot with
    | value k B v =>
      cases hm
      obtain ⟨v', -, rfl⟩ := exists_of_run_map hrun
      cases k with
      | lifetimeKind => cases hy
      | staticKind => exact ha rfl
    | _ => cases hm
  | incrementStrongCount =>
    rw [Copying.run] at hm
    split at hm
    · cases hm
      obtain ⟨u, -, rfl⟩ := exists_of_run_map hrun
      cases hy
    · cases hm

lemma Consuming.mem_borrows {c : Consuming} (hx : slot.Holds w (some x))
    (hm : c.run A slot = some m) (hp : p ∈ (c.text x).elim [] Text.borrows) (a : Lifetime) :
    p ∈ slot.borrows ∧ c.lifetime a = a := by
  cases c with
  | fromShared k =>
    have hp' : p ∈ x.borrows := hp
    cases hx with
    | handle h => cases hp'
    | value | parts | raw | pointer => cases hm
  | intoStaticStr =>
    have hp' : p ∈ x.promote.borrows := hp
    rw [Text.borrows_eq_nil x.promote_tag_ne_borrowed] at hp'
    cases hp'
  | intoRaw =>
    have hp' : p ∈ x.detach.borrows := hp
    rw [x.borrows_detach] at hp'
    exact ⟨hx.borrows_eq ▸ hp', rfl⟩
  | intoRawShared =>
    rw [Consuming.text] at hp
    split_ifs at hp
    · exact ⟨hx.borrows_eq ▸ hp, rfl⟩
    · cases hp
  | convert | rewrap | intoRawParts | fromRawParts | fromRaw =>
    exact ⟨hx.borrows_eq ▸ hp, rfl⟩
  | dropHandle | drop | intoCow | intoString | intoBoxedStr | intoBytes | forget => cases hp

end Signatures

/-- A state of a program, with the lifetimes of what it holds. -/
structure Scoped (t : Target) where
  sys : Sys t
  lifetime : ℕ → Lifetime
  loans : List (Loan t)
  references : List (Reference t)
  /-- How many scopes are open. -/
  depth : Lifetime

namespace Scoped

/-- The slice is lent for at least this long. -/
def Lent (σ : Scoped t) (p : RawStr t) (a : Lifetime) : Prop :=
  ∃ l ∈ σ.loans, l.lifetime ≤ a ∧
    ∀ x, Within p.ptr p.len.toNat x → Within l.raw.ptr l.raw.len.toNat x

/-- What has lent its contents may not be moved. -/
def Frozen (σ : Scoped t) (i : ℕ) : Prop := ∃ l ∈ σ.loans, l.lender = some i

/-- Memory that is lent by the program, or by a value whose words are the memory. -/
def Keeps (σ : Scoped t) (l : Loan t) : Prop :=
  ∀ i, l.lender = some i → ∃ slot, σ.sys.slots[i]? = some slot ∧ slot.isInline = true

def initial (mem : Mem t.usizeBits) : Scoped t := ⟨.initial mem, fun _ => 0, [], [], 0⟩

/-- One step of a program that keeps to the lifetimes. -/
inductive Step (σ : Scoped t) : List (Event t) → Scoped t → Prop
  | openScope : Step σ [] { σ with depth := σ.depth + 1 }
  /-- Nothing with the lifetime of a scope survives its end. -/
  | closeScope {d : Lifetime} (hd : σ.depth = d + 1)
      (hends : ∀ i slot, σ.sys.slots[i]? = some slot → d < σ.lifetime i →
        slot.endures = true) :
      Step σ [] { σ with
        depth := d
        loans := σ.loans.filter fun l => l.lifetime ≤ d
        references := σ.references.filter fun r => r.lifetime ≤ d }
  | lend {p : RawStr t} {a : Lifetime} (ha : a ≤ σ.depth) (hp : σ.sys.world.ForeignSlice p) :
      Step σ [] { σ with loans := ⟨p, a, none⟩ :: σ.loans }
  /-- A loan of the contents of an allocation freezes the slot that keeps it alive. -/
  | borrow {i : ℕ} {slot : Slot t} {o : Owner t} {a : Lifetime}
      (hi : σ.sys.slots[i]? = some slot) (ho : o ∈ slot.owners) (ha : a ≤ σ.depth) :
      Step σ [] { σ with loans := ⟨o.raw, a, some i⟩ :: σ.loans }
  /-- A reference to what is lent, for no longer than that. -/
  | slice {s : StrRef t} {a : Lifetime} (hlent : σ.Lent s.raw a) (ha : a ≤ σ.depth)
      (hread : read σ.sys.world.mem s.ptr s.str.bytes.length = some s.str.bytes) :
      Step σ [] { σ with references := ⟨s, a⟩ :: σ.references }
  /-- A reference into a value freezes it, unless the value borrows its text itself. -/
  | asStr {i : ℕ} {k : WrapperKind} {B : Backend} {v : Wrapper t k B} {s : Str t}
      {place : Usize t} {w : World t} {a : Lifetime}
      (hi : σ.sys.slots[i]? = some (.value k B v))
      (hplace : v.isInline = true → v.inner.LiesAt σ.sys.world place)
      (hrun : v.asStr σ.sys.world = .ok s w) (hle : σ.lifetime i ≤ a) (ha : a ≤ σ.depth) :
      Step σ [] { σ with
        loans := if v.isBorrowed then σ.loans
          else ⟨⟨v.inner.strPtr place, s.len⟩, a, some i⟩ :: σ.loans
        references := ⟨⟨v.inner.strPtr place, s⟩, a⟩ :: σ.references }
  /-- The lifetime is that of the type: the value itself is not frozen. -/
  | asCow {i : ℕ} {k : WrapperKind} {B : Backend} {v : Wrapper t k B} {c : Cow t} {w : World t}
      (hi : σ.sys.slots[i]? = some (.value k B v)) (hrun : v.asCow σ.sys.world = .ok c w) :
      Step σ [] { σ with
        references := c.references (k.lifetime (σ.lifetime i)) ++ σ.references }
  | borrowedStaticStr {i : ℕ} {k : WrapperKind} {B : Backend} {v : Wrapper t k B} {s : StrRef t}
      {w : World t} (hi : σ.sys.slots[i]? = some (.value k B v)) (hzero : σ.lifetime i = 0)
      (hrun : v.inner.borrowedStaticStr σ.sys.world = .ok (some s) w) :
      Step σ [] { σ with references := ⟨s, 0⟩ :: σ.references }
  | intoCow {i : ℕ} {k : WrapperKind} {B : Backend} {v : Wrapper t k B} {c : Cow t} {w : World t}
      (hi : σ.sys.slots[i]? = some (.value k B v)) (hfree : ¬ σ.Frozen i)
      (hrun : v.intoCow σ.sys.world = .ok c w) :
      Step σ [.consume .intoCow i] { σ with
        sys := ⟨w, σ.sys.slots.set i .gone⟩
        references := c.references (k.lifetime (σ.lifetime i)) ++ σ.references }
  /-- `into_cow` of a value that borrows, without the test. -/
  | intoStrUnchecked {i : ℕ} {k : WrapperKind} {B : Backend} {v : Wrapper t k B} {s : StrRef t}
      {w : World t} (hi : σ.sys.slots[i]? = some (.value k B v)) (hfree : ¬ σ.Frozen i)
      (hborrowed : v.isBorrowed = true) (hrun : v.intoStrUnchecked σ.sys.world = .ok s w) :
      Step σ [.consume .intoCow i] { σ with
        sys := ⟨w, σ.sys.slots.set i .gone⟩
        references := ⟨s, k.lifetime (σ.lifetime i)⟩ :: σ.references }
  /-- The lifetime of a type is covariant. -/
  | shorten {i : ℕ} {slot : Slot t} {a : Lifetime} (hi : σ.sys.slots[i]? = some slot)
      (hkind : slot.isStatic = false) (hle : σ.lifetime i ≤ a) (ha : a ≤ σ.depth) :
      Step σ [] { σ with lifetime := Function.update σ.lifetime i a }
  | environment {mem : Mem t.usizeBits}
      (hheap : ∀ p a x, σ.sys.world.heap p = some a → Within p a.len.toNat x →
        mem x = σ.sys.world.mem x)
      (hloans : ∀ l ∈ σ.loans, σ.Keeps l → ∀ x, Within l.raw.ptr l.raw.len.toNat x →
        mem x = σ.sys.world.mem x) :
      Step σ [.environment mem] { σ with sys := ⟨⟨mem, σ.sys.world.heap⟩, σ.sys.slots⟩ }
  /-- The references that are passed in are held, for as long as what is made of them. -/
  | create {A : Allocator t} {c : Creation t} {y : Slot t} {w : World t} {a : Lifetime}
      (hheld : ∀ s ∈ c.references, ∃ r ∈ σ.references, r.slice = s ∧ r.lifetime ≤ a)
      (hrun : c.run A σ.sys.world = .ok y w) (hkind : y.isStatic = true → a = 0)
      (ha : a ≤ σ.depth) :
      Step σ [.create c] { σ with
        sys := ⟨w, σ.sys.slots ++ [y]⟩
        lifetime := Function.update σ.lifetime σ.sys.slots.length a }
  | copy {A : Allocator t} {c : Copying} {i : ℕ} {x y : Slot t} {m : Exec t (Slot t)}
      {w : World t} (hx : σ.sys.slots[i]? = some x) (hm : c.run A x = some m)
      (hrun : m σ.sys.world = .ok y w) :
      Step σ [.copy c i] { σ with
        sys := ⟨w, σ.sys.slots ++ [y]⟩
        lifetime := Function.update σ.lifetime σ.sys.slots.length (c.lifetime (σ.lifetime i)) }
  | consume {A : Allocator t} {c : Consuming} {i : ℕ} {x y : Slot t} {m : Exec t (Slot t)}
      {w : World t} (hx : σ.sys.slots[i]? = some x) (hm : c.run A x = some m)
      (hfree : ¬ σ.Frozen i) (hrun : m σ.sys.world = .ok y w)
      (hkind : y.isStatic = true → c.lifetime (σ.lifetime i) = 0) :
      Step σ [.consume c i] { σ with
        sys := ⟨w, σ.sys.slots.set i y⟩
        lifetime := Function.update σ.lifetime i (c.lifetime (σ.lifetime i)) }

inductive Run : List (Event t) → Scoped t → Prop
  | initial (mem : Mem t.usizeBits) : Run [] (initial mem)
  | step {events new : List (Event t)} {σ σ' : Scoped t} (hrun : Run events σ)
      (hstep : Step σ new σ') : Run (events ++ new) σ'

end Scoped
end RefStr
