import RefStr.Wrappers
import RefStr.Represents

/-! Runs of a program that uses the crate. A state is the memory and everything the program
holds: values, handles, detached parts and raw pointers. Every operation adds one thing it
holds or replaces one; an abstract run assigns a text to each. -/
namespace RefStr
open ByteMemory
variable {t : Target}

/-- Something the program holds. -/
inductive Slot (t : Target)
  | value (k : WrapperKind) (B : Backend) (v : Wrapper t k B)
  /-- An outside `Rc<str>` or `Arc<str>`. -/
  | handle (B : Backend) (s : Shared t B)
  | parts (B : Backend) (p : RawParts t)
  /-- A raw pointer that owns a strong count. -/
  | raw (B : Backend) (p : RawStr t)
  /-- A raw pointer into borrowed memory. -/
  | pointer (p : RawStr t)
  | gone

namespace Slot

/-- The strong counts that a slot is responsible for. -/
def owners : Slot t → List (Owner t)
  | value _ _ v => v.inner.owners
  | handle B s => [⟨B, s.raw⟩]
  | parts B p => (RefStrCore.mk p : RefStrCore t B).owners
  | raw B p => [⟨B, p⟩]
  | pointer _ => []
  | gone => []

/-- The slices of the caller's memory that a slot refers to. -/
def borrows : Slot t → List (RawStr t)
  | value _ _ v => v.inner.borrows
  | parts B p => (RefStrCore.mk p : RefStrCore t B).borrows
  | pointer p => [p]
  | _ => []

end Slot

/-- Operations that make something new. `new`, `from_static`, `Default` and the conversions
from `&str` and `&String` are `from_str`. -/
inductive Creation (t : Target)
  | handle (B : Backend) (s : Str t)
  | fromStr (k : WrapperKind) (B : Backend) (s : StrRef t)
  | fromOwnedLike (k : WrapperKind) (B : Backend) (s : Str t)
  | ofString (k : WrapperKind) (B : Backend) (s : Str t)
  | ofBoxedStr (k : WrapperKind) (B : Backend) (s : Str t)
  | ofCow (k : WrapperKind) (B : Backend) (c : Cow t)

/-- Operations that make something new out of a slot and leave the slot as it is. -/
inductive Copying
  | cloneHandle
  | clone
  | toStaticStr
  | incrementStrongCount

/-- Operations that consume what is in a slot. -/
inductive Consuming
  | fromShared (k : WrapperKind)
  | intoStaticStr
  | convert
  | rewrap (k : WrapperKind)
  | intoRawParts
  | fromRawParts (k : WrapperKind)
  | intoRaw
  | intoRawShared
  | fromRaw
  | dropHandle
  | drop
  | intoCow
  | intoString
  | intoBoxedStr
  | intoBytes
  | forget

namespace Creation

def run (A : Allocator t) : Creation t → Exec t (Slot t)
  | handle B s => return .handle B (← Backend.fromStr A B s)
  | fromStr k B s => return .value k B (← Wrapper.fromStr s)
  | fromOwnedLike k B s => return .value k B (← Wrapper.fromOwnedLike A s)
  | ofString k B s => return .value k B (← Wrapper.ofString A s)
  | ofBoxedStr k B s => return .value k B (← Wrapper.ofBoxedStr A s)
  | ofCow k B c => return .value k B (← Wrapper.ofCow A c)

/-- A reference that is passed in refers to what it says. -/
def Readable (w : World t) : Creation t → Prop
  | fromStr _ _ s => read w.mem s.ptr s.str.bytes.length = some s.str.bytes
  | ofCow _ _ (.borrowed s) => read w.mem s.ptr s.str.bytes.length = some s.str.bytes
  | _ => True

def text : Creation t → Text t
  | handle _ s => ⟨s, .shared⟩
  | fromStr _ _ s => ⟨s.str, .borrowed s.ptr⟩
  | fromOwnedLike _ _ s => .owned s
  | ofString _ _ s => .owned s
  | ofBoxedStr _ _ s => .owned s
  | ofCow _ _ (.borrowed s) => ⟨s.str, .borrowed s.ptr⟩
  | ofCow _ _ (.owned s) => .owned s

end Creation

namespace Copying

/-- The computation on what a slot holds, where the operation applies to it. -/
def run (A : Allocator t) : Copying → Slot t → Option (Exec t (Slot t))
  | cloneHandle, .handle B s => some do return .handle B (← Backend.cloneShared s)
  | clone, .value k B v => some do return .value k B (← v.clone)
  | toStaticStr, .value .lifetimeKind B v =>
    some do return .value .staticKind B (← v.toStaticStr A)
  | incrementStrongCount, slot =>
    match slot.owners with
    | [o] => some do
      Wrapper.incrementStrongCount o.backend o.raw
      return .raw o.backend o.raw
    | _ => none
  | _, _ => none

def text (c : Copying) (x : Text t) : Text t :=
  match c with
  | toStaticStr => x.promote
  | _ => x

end Copying

namespace Consuming

/-- The computation on what a slot holds, where the operation applies to it. -/
def run (A : Allocator t) : Consuming → Slot t → Option (Exec t (Slot t))
  | fromShared k, .handle B s => some do return .value k B (← Wrapper.fromShared s)
  | intoStaticStr, .value .lifetimeKind B v =>
    some do return .value .staticKind B (← v.intoStaticStr A)
  | convert, .value k B v => some do return .value k B.other (← v.convert A)
  | rewrap k', .value _ B v => some do return .value k' B (v.rewrap k')
  | intoRawParts, .value _ B v => some do return .parts B v.intoRawParts
  | fromRawParts k, .parts B p => some do return .value k B (.fromRawParts p)
  | intoRaw, .value _ B v => some do
    let p ← v.intoRaw A
    return if v.isBorrowed then .pointer p else .raw B p
  | intoRawShared, .value _ B v => some do
    match ← v.intoRawShared with
    | some p => return .raw B p
    | none => return .gone
  | fromRaw, .raw B p => some do return .handle B (← Backend.fromRaw B p)
  | dropHandle, .handle _ s => some do
    Backend.dropShared s
    return .gone
  | drop, .value _ _ v => some do
    v.drop
    return .gone
  | intoCow, .value _ _ v => some do
    let _ ← v.intoCow
    return .gone
  | intoString, .value _ _ v => some do
    let _ ← v.intoString
    return .gone
  | intoBoxedStr, .value _ _ v => some do
    let _ ← v.intoBoxedStr
    return .gone
  | intoBytes, .value _ _ v => some do
    let _ ← v.intoBytes
    return .gone
  -- Parts and pointers that own nothing need not be taken back.
  | forget, .parts _ p => if p.isShared then none else some do return .gone
  | forget, .pointer _ => some do return .gone
  | _, _ => none

def text (c : Consuming) (x : Text t) : Option (Text t) :=
  match c with
  | intoStaticStr => some x.promote
  | intoRaw => some x.detach
  | intoRawShared => if x.origin.tag = .shared then some x else none
  | fromShared _ | convert | rewrap _ | intoRawParts | fromRawParts _ | fromRaw => some x
  | dropHandle | drop | intoCow | intoString | intoBoxedStr | intoBytes | forget => none

end Consuming

inductive Event (t : Target)
  /-- The program changes memory of its own. -/
  | environment (mem : Mem t.usizeBits)
  | create (c : Creation t)
  | copy (c : Copying) (i : ℕ)
  | consume (c : Consuming) (i : ℕ)

structure Sys (t : Target) where
  world : World t
  slots : List (Slot t)

namespace Sys

def initial (mem : Mem t.usizeBits) : Sys t := ⟨⟨mem, fun _ => none⟩, []⟩

/-- Every live owner of a strong count: outside handles, shared values, detached shared parts
and detached raw pointers. -/
def owners (sys : Sys t) : List (Owner t) := sys.slots.flatMap Slot.owners

/-- Every strong count is the number of the live owners of the allocation. -/
def Conserved (sys : Sys t) : Prop :=
  ∀ ptr, sys.world.strongCount ptr = sys.owners.countP fun o => o.raw.ptr = ptr

/-- The sources of everything borrowed are alive. -/
def BorrowsAlive (sys : Sys t) : Prop :=
  ∀ slot ∈ sys.slots, ∀ p ∈ slot.borrows, Mapped sys.world.mem p.ptr p.len.toNat

/-- Memory of a counted allocation, or memory that something refers to. -/
def Protected (sys : Sys t) (x : Usize t) : Prop :=
  (∃ p a, sys.world.heap p = some a ∧ Within p a.len.toNat x) ∨
    ∃ slot ∈ sys.slots, ∃ p ∈ slot.borrows, Within p.ptr p.len.toNat x

/-- One successful operation, with any allocator, while borrowed sources stay alive. -/
inductive Step (sys : Sys t) : Event t → Sys t → Prop
  | environment {mem : Mem t.usizeBits}
      (hkeep : ∀ x, sys.Protected x → mem x = sys.world.mem x) :
      Step sys (.environment mem) ⟨⟨mem, sys.world.heap⟩, sys.slots⟩
  | create {A : Allocator t} {c : Creation t} {y : Slot t} {w : World t}
      (hread : c.Readable sys.world) (hrun : c.run A sys.world = .ok y w)
      (halive : BorrowsAlive ⟨w, sys.slots ++ [y]⟩) :
      Step sys (.create c) ⟨w, sys.slots ++ [y]⟩
  | copy {A : Allocator t} {c : Copying} {i : ℕ} {x y : Slot t} {m : Exec t (Slot t)}
      {w : World t} (hx : sys.slots[i]? = some x) (hm : c.run A x = some m)
      (hrun : m sys.world = .ok y w) (halive : BorrowsAlive ⟨w, sys.slots ++ [y]⟩) :
      Step sys (.copy c i) ⟨w, sys.slots ++ [y]⟩
  | consume {A : Allocator t} {c : Consuming} {i : ℕ} {x y : Slot t} {m : Exec t (Slot t)}
      {w : World t} (hx : sys.slots[i]? = some x) (hm : c.run A x = some m)
      (hrun : m sys.world = .ok y w) (halive : BorrowsAlive ⟨w, sys.slots.set i y⟩) :
      Step sys (.consume c i) ⟨w, sys.slots.set i y⟩

/-- A finite run from a state in which nothing is held. -/
inductive Run : List (Event t) → Sys t → Prop
  | initial (mem : Mem t.usizeBits) : Run [] (initial mem)
  | step {events : List (Event t)} {sys sys' : Sys t} {event : Event t}
      (hrun : Run events sys) (hstep : Step sys event sys') : Run (events ++ [event]) sys'

def Reachable (sys : Sys t) : Prop := ∃ events, Run events sys

end Sys

abbrev Store (t : Target) := List (Option (Text t))

namespace Store

def get (store : Store t) (i : ℕ) : Option (Text t) := (store[i]?).join

def apply (store : Store t) : Event t → Store t
  | .environment _ => store
  | .create c => store ++ [some c.text]
  | .copy c i => store ++ [(store.get i).map c.text]
  | .consume c i => store.set i ((store.get i).bind c.text)

def ofEvents (events : List (Event t)) : Store t := events.foldl apply []

lemma ofEvents_append (events : List (Event t)) (event : Event t) :
    ofEvents (events ++ [event]) = (ofEvents events).apply event := by
  rw [ofEvents, List.foldl_append]
  rfl

end Store
end RefStr
