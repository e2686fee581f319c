import RefStr.Target
import RefStr.ByteMemory
import RefStr.Ledger

/-! Shared ownership through `Rc<str>` and `Arc<str>`: the memory and the counted
allocations, the allocator, and the operations of the two backends on them. -/
namespace RefStr
open ByteMemory
variable {t : Target}

inductive Backend
  /-- `Rc<str>`. -/
  | localBackend
  /-- `Arc<str>`. -/
  | sharedBackend
  deriving DecidableEq, Repr

/-- A counted string allocation, found at the address of its bytes. -/
structure Allocation (t : Target) where
  backend : Backend
  len : Usize t
  strong : ℕ
  deriving DecidableEq, Repr

structure World (t : Target) where
  mem : Mem t.usizeBits
  heap : Usize t → Option (Allocation t)

/-- One ownership of a counted allocation: the backend that counts it and the pointer. -/
structure Owner (t : Target) where
  backend : Backend
  raw : RawStr t
  deriving DecidableEq, Repr

def Owner.count (o : Owner t) (a : Allocation t) : Option ℕ :=
  if a.backend = o.backend ∧ a.len = o.raw.len then some a.strong else none

namespace World

/-- The strong count behind an owner whose pointer, length and backend are right. -/
def counts (w : World t) : Ledger.Counts (Owner t) := fun o =>
  (w.heap o.raw.ptr).bind o.count

/-- The strong count of the allocation at an address, zero once it is freed. -/
def strongCount (w : World t) (ptr : Usize t) : ℕ :=
  match w.heap ptr with
  | some a => a.strong
  | none => 0

def allocate (w : World t) (B : Backend) (ptr : Usize t) (s : Str t) : World t where
  mem := write w.mem ptr s.bytes
  heap := Function.update w.heap ptr (some ⟨B, s.len, 1⟩)

def retain (w : World t) (ptr : Usize t) : World t where
  mem := w.mem
  heap := Function.update w.heap ptr
    ((w.heap ptr).map fun a => { a with strong := a.strong + 1 })

/-- Give up one strong count; the last one frees the allocation. -/
def release (w : World t) (ptr : Usize t) : World t :=
  match w.heap ptr with
  | none => w
  | some a =>
    if a.strong ≤ 1 then
      { mem := unmap w.mem ptr a.len.toNat, heap := Function.update w.heap ptr none }
    else
      { mem := w.mem
        heap := Function.update w.heap ptr (some { a with strong := a.strong - 1 }) }

end World

/-- Neither an allocation nor a byte is there. -/
def World.Vacant (w : World t) (ptr : Usize t) (n : ℕ) : Prop :=
  w.heap ptr = none ∧ Fresh w.mem ptr n

/-- An allocator picks an address for a string of a given length, or gives up. -/
structure Allocator (t : Target) where
  pick : World t → ℕ → Option (Usize t)
  fresh : ∀ {w n ptr}, pick w n = some ptr → w.heap ptr = none ∧ Fresh w.mem ptr n

abbrev Exec (t : Target) := EStateM Fault (World t)

instance : MonadLift (Except Fault) (Exec t) where
  monadLift
    | .ok a => pure a
    | .error e => throw e

/-- Run `cleanup` when a panic unwinds out of `body`. -/
def onUnwind {α : Type} (cleanup : Exec t Unit) (body : Exec t α) : Exec t α := fun w =>
  match body w with
  | .error (.panic message) w' =>
    match cleanup w' with
    | .ok _ w'' => .error (.panic message) w''
    | .error e w'' => .error e w''
  | r => r

/-- Run `body` while a local value is live, and drop the value at the end of its scope. -/
def withLocal {α : Type} (cleanup : Exec t Unit) (body : Exec t α) : Exec t α := do
  let r ← onUnwind cleanup body
  cleanup
  return r

section Run
variable {α β : Type} {w w' w'' : World t}

lemma run_bind {x : Exec t α} {a : α} (h : x w = .ok a w') (f : α → Exec t β) :
    (x >>= f) w = f a w' := by
  change EStateM.bind x f w = f a w'
  rw [EStateM.bind, h]

lemma run_bind_error {x : Exec t α} {e : Fault} (h : x w = .error e w') (f : α → Exec t β) :
    (x >>= f) w = .error e w' := by
  change EStateM.bind x f w = .error e w'
  rw [EStateM.bind, h]

lemma run_bind_congr {x y : Exec t α} (h : x w = y w') (f : α → Exec t β) :
    (x >>= f) w = (y >>= f) w' := by
  change EStateM.bind x f w = EStateM.bind y f w'
  rw [EStateM.bind, EStateM.bind, h]

lemma run_map {x : Exec t α} {a : α} (h : x w = .ok a w') (f : α → β) :
    (do return f (← x) : Exec t β) w = .ok (f a) w' := run_bind h _

lemma exists_of_run_map {x : Exec t α} {f : α → β} {b : β}
    (h : (do return f (← x) : Exec t β) w = .ok b w') : ∃ a, x w = .ok a w' ∧ b = f a := by
  cases hx : x w with
  | ok a w'' =>
    rw [run_map hx] at h
    cases h
    exact ⟨a, rfl, rfl⟩
  | error e w'' =>
    rw [run_bind_error hx] at h
    cases h

lemma run_lift {x : Except Fault α} {a : α} (h : x = .ok a) : (x : Exec t α) w = .ok a w := by
  rw [h]
  rfl

lemma run_lift_error {x : Except Fault α} {e : Fault} (h : x = .error e) :
    (x : Exec t α) w = .error e w := by
  rw [h]
  rfl

lemma run_onUnwind {cleanup : Exec t Unit} {body : Exec t α} {a : α} (h : body w = .ok a w') :
    onUnwind cleanup body w = .ok a w' := by
  rw [onUnwind, h]

lemma run_withLocal {cleanup : Exec t Unit} {body : Exec t α} {a : α} (h : body w = .ok a w')
    (hc : cleanup w' = .ok () w'') : withLocal cleanup body w = .ok a w'' := by
  rw [withLocal, run_bind (run_onUnwind h), run_bind hc]
  rfl

lemma run_withLocal_aborted {cleanup : Exec t Unit} {body : Exec t α}
    (h : body w = .error .aborted w') : withLocal cleanup body w = .error .aborted w' := by
  rw [withLocal, run_bind_error]
  rw [onUnwind, h]

lemma withLocal_pure (body : Exec t α) : withLocal (pure ()) body w = body w := by
  rcases h : body w with ⟨a, w'⟩ | ⟨e, w'⟩
  · exact run_withLocal h rfl
  · rw [withLocal, run_bind_error]
    rw [onUnwind, h]
    cases e <;> rfl

end Run

/-- The bytes behind a raw pointer; reading unmapped memory is undefined behaviour. -/
def readRaw (p : RawStr t) : Exec t (List UInt8) := fun w =>
  match read w.mem p.ptr p.len.toNat with
  | some bytes => .ok bytes w
  | none => .error .undefined w

def derefRaw (p : RawStr t) : Exec t (StrRef t) := do
  return ⟨p.ptr, ← fromUtf8Unchecked t (← readRaw p)⟩

/-- `B::Shared`, the handle `Rc<str>` or `Arc<str>`. -/
structure Shared (t : Target) (B : Backend) where
  raw : RawStr t
  deriving DecidableEq, Repr

namespace Backend
variable (A : Allocator t) (B : Backend)

def intoRaw {B : Backend} (shared : Shared t B) : RawStr t := shared.raw

def incrementStrongCount (p : RawStr t) : Exec t Unit := fun w =>
  match w.counts ⟨B, p⟩ with
  | some _ => .ok () (w.retain p.ptr)
  | none => .error .undefined w

/-- Rebuild the handle; the pointer has to denote a live allocation of the backend. -/
def fromRaw (p : RawStr t) : Exec t (Shared t B) := fun w =>
  match w.counts ⟨B, p⟩ with
  | some _ => .ok ⟨p⟩ w
  | none => .error .undefined w

/-- `Rc::from(&str)` and its kin: a fresh allocation with a copy of the bytes. -/
def allocate (s : Str t) : Exec t (Shared t B) := fun w =>
  match A.pick w s.bytes.length with
  | some ptr => .ok ⟨⟨ptr, s.len⟩⟩ (w.allocate B ptr s)
  | none => .error .aborted w

def fromStr (s : Str t) : Exec t (Shared t B) := allocate A B s
def fromString (s : Str t) : Exec t (Shared t B) := allocate A B s
def fromBoxedStr (s : Str t) : Exec t (Shared t B) := allocate A B s

variable {B}

/-- `Rc::clone`. -/
def cloneShared (shared : Shared t B) : Exec t (Shared t B) := do
  incrementStrongCount B shared.raw
  return shared

def dropShared (shared : Shared t B) : Exec t Unit := fun w =>
  match w.counts ⟨B, shared.raw⟩ with
  | some _ => .ok () (w.release shared.raw.ptr)
  | none => .error .undefined w

def deref (shared : Shared t B) : Exec t (Str t) := do
  return (← derefRaw shared.raw).str

end Backend
end RefStr
