import RefStr.Ops

/-! The public wrappers. All four delegate to the core; they differ in the backend, in the
projection to `Cow`, and in which conversions they have. -/
namespace RefStr
variable {t : Target} {B : Backend}

namespace Backend

def other : Backend → Backend
  | .localBackend => .sharedBackend
  | .sharedBackend => .localBackend

end Backend

inductive WrapperKind
  /-- `RefStr<'a>` and `LocalRefStr<'a>`. -/
  | lifetimeKind
  /-- `StaticRefStr` and `LocalStaticRefStr`. -/
  | staticKind
  deriving DecidableEq, Repr

/-- `serde::de::Visitor`, as far as a format can hand it a string; `ε` is the format's error. -/
structure Visitor (t : Target) (ε α : Type) where
  visitBorrowedStr : StrRef t → Exec t (Except ε α)
  visitStr : StrRef t → Exec t (Except ε α)
  visitString : Str t → Exec t (Except ε α)

structure Wrapper (t : Target) (k : WrapperKind) (B : Backend) where
  inner : RefStrCore t B
  deriving DecidableEq

namespace Wrapper
variable {k : WrapperKind}

def fromInner (inner : RefStrCore t B) : Wrapper t k B := ⟨inner⟩

def intoRawPartsStruct (self : Wrapper t k B) : RawParts t := self.inner.parts

def intoInner (self : Wrapper t k B) : RefStrCore t B :=
  RefStrCore.fromRawPartsStruct self.intoRawPartsStruct

def fromStr (s : StrRef t) : Except Fault (Wrapper t k B) :=
  return fromInner (← RefStrCore.fromStr s)

def new (s : StrRef t) : Except Fault (Wrapper t k B) := return fromInner (← RefStrCore.new s)

def fromOwnedLike (A : Allocator t) (s : Str t) : Exec t (Wrapper t k B) :=
  return fromInner (← RefStrCore.fromOwnedLike A s)

def fromRawParts (parts : RawParts t) : Wrapper t k B :=
  fromInner (RefStrCore.fromRawParts parts)

def fromShared (s : Shared t B) : Exec t (Wrapper t k B) :=
  return fromInner (← RefStrCore.fromShared s)

def intoRawParts (self : Wrapper t k B) : RawParts t := self.intoRawPartsStruct

def intoRaw (A : Allocator t) (self : Wrapper t k B) : Exec t (RawStr t) :=
  self.intoInner.intoRaw A

def intoRawShared (self : Wrapper t k B) : Exec t (Option (RawStr t)) :=
  self.intoInner.intoRawShared

def incrementStrongCount (B : Backend) (p : RawStr t) : Exec t Unit :=
  RefStrCore.incrementStrongCount B p

def isShared (self : Wrapper t k B) : Bool := self.inner.isShared
def isBorrowed (self : Wrapper t k B) : Bool := self.inner.isBorrowed
def isInline (self : Wrapper t k B) : Bool := self.inner.isInline
def isAscii (self : Wrapper t k B) : Bool := self.inner.isAscii
def len (self : Wrapper t k B) : Usize t := self.inner.len
def isEmpty (self : Wrapper t k B) : Bool := self.inner.isEmpty

def asStr (self : Wrapper t k B) : Exec t (Str t) := self.inner.asStr

def intoBytes (self : Wrapper t k B) : Exec t (List UInt8) := self.intoInner.intoBytes
def intoBoxedStr (self : Wrapper t k B) : Exec t (Str t) := self.intoInner.intoBoxedStr
def intoString (self : Wrapper t k B) : Exec t (Str t) := self.intoInner.intoString
def intoCow (self : Wrapper t k B) : Exec t (Cow t) := self.intoInner.intoCow

def intoStrUnchecked (self : Wrapper t k B) : Exec t (StrRef t) :=
  self.intoInner.intoStrUnchecked

def drop (self : Wrapper t k B) : Exec t Unit := self.inner.drop

def clone (self : Wrapper t k B) : Exec t (Wrapper t k B) :=
  return fromInner (← self.inner.clone)

/-- Comparison of two values of one type compares the core values. -/
def eq (self other : Wrapper t k B) : Exec t Bool := self.inner.eq other.inner

def cmp (self other : Wrapper t k B) : Exec t Ordering := do
  return (← self.asStr).cmp (← other.asStr)

def hash {σ : Type} (H : Hasher t σ) (self : Wrapper t k B) (state : σ) : Exec t σ := do
  return (← self.asStr).hash H state

def borrow (self : Wrapper t k B) : Exec t (Str t) := self.asStr

/-- The `'static` wrappers project to `Cow` through the borrowed static string. -/
def asCow (self : Wrapper t k B) : Exec t (Cow t) :=
  match k with
  | .lifetimeKind => self.inner.asCow
  | .staticKind => do
    match ← self.inner.borrowedStaticStr with
    | some value => return .borrowed value
    | none => return .owned (← self.asStr)

def fromStatic (s : StrRef t) : Except Fault (Wrapper t .staticKind B) := fromStr s

def toStaticStr (A : Allocator t) (self : Wrapper t .lifetimeKind B) :
    Exec t (Wrapper t .staticKind B) :=
  return fromInner (← self.inner.toStaticCore A)

def intoStaticStr (A : Allocator t) (self : Wrapper t .lifetimeKind B) :
    Exec t (Wrapper t .staticKind B) :=
  return fromInner (← self.intoInner.intoStaticCore A)

/-- `From<&str>`. -/
def ofStr (value : StrRef t) : Except Fault (Wrapper t k B) :=
  return fromInner (← RefStrCore.ofStr value)

/-- `From<&String>`, which only the lifetime wrappers have. -/
def ofStringRef (value : StrRef t) : Except Fault (Wrapper t .lifetimeKind B) :=
  return fromInner (← RefStrCore.ofStringRef value)

def ofBoxedStr (A : Allocator t) (value : Str t) : Exec t (Wrapper t k B) :=
  return fromInner (← RefStrCore.fromOwnedBoxedStr A value)

def ofString (A : Allocator t) (value : Str t) : Exec t (Wrapper t k B) :=
  return fromInner (← RefStrCore.fromOwnedString A value)

/-- `From<Cow<str>>`; the `'static` wrappers dispatch on the variant themselves. -/
def ofCow (A : Allocator t) (value : Cow t) : Exec t (Wrapper t k B) :=
  match k with
  | .lifetimeKind => return fromInner (← RefStrCore.ofCow A value)
  | .staticKind =>
    match value with
    | .borrowed value => fromStr value
    | .owned value => ofString A value

def convert (A : Allocator t) (value : Wrapper t k B) : Exec t (Wrapper t k B.other) :=
  return fromInner (← RefStrCore.convert A B.other value.intoInner)

/-- `From<LocalRefStr> for RefStr` and `From<LocalStaticRefStr> for StaticRefStr`. -/
def ofLocal (A : Allocator t) (value : Wrapper t k .localBackend) :
    Exec t (Wrapper t k .sharedBackend) :=
  convert A value

/-- `From<RefStr> for LocalRefStr` and `From<StaticRefStr> for LocalStaticRefStr`. -/
def ofShared (A : Allocator t) (value : Wrapper t k .sharedBackend) :
    Exec t (Wrapper t k .localBackend) :=
  convert A value

/-- `From<F>`, where `into` is the conversion of what the closure returns. -/
def ofFn {R : Type} (into : R → Exec t (Wrapper t k B)) (f : Unit → Exec t R) :
    Exec t (Wrapper t k B) := do
  into (← f ())

/-- Only the lifetime wrappers keep a borrowed string borrowed. -/
def visitor (A : Allocator t) (ε : Type) : Visitor t ε (Wrapper t k B) where
  visitBorrowedStr v :=
    match k with
    | .lifetimeKind => return .ok (← ofStr v)
    | .staticKind => return .ok (← ofString A v.str)
  visitStr v := return .ok (← ofString A v.str)
  visitString v := return .ok (← ofString A v)

/-- `Deserialize::deserialize`, with the `deserialize_str` of a format. -/
def deserialize {ε : Type} (A : Allocator t)
    (deserializeStr : Visitor t ε (Wrapper t k B) → Exec t (Except ε (Wrapper t k B))) :
    Exec t (Except ε (Wrapper t k B)) :=
  deserializeStr (visitor A ε)

/-- Conversion between the dedicated `'static` wrapper and the lifetime-parameterized one. -/
def rewrap (k' : WrapperKind) (value : Wrapper t k B) : Wrapper t k' B :=
  fromInner value.intoInner

end Wrapper
end RefStr
