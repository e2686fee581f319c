import RefStr.Core

/-! Trait implementations of the core: conversions between the backends, comparison,
ordering and hashing. -/
namespace RefStr
variable {t : Target}

/-- `Hasher`, as far as a `str` feeds it. -/
structure Hasher (t : Target) (σ : Type) where
  writeStr : σ → Str t → σ

/-- `Hash for str`. -/
def Str.hash {σ : Type} (H : Hasher t σ) (s : Str t) (state : σ) : σ := H.writeStr state s

namespace RefStrCore

/-- A shared value is copied into the other backend; the words of the others are moved. -/
def convert (A : Allocator t) {B : Backend} (B' : Backend) (value : RefStrCore t B) :
    Exec t (RefStrCore t B') := do
  if value.isShared then
    withLocal value.drop do
      fromShared (← Backend.fromStr A B' (← value.asStr))
  else
    let parts := value.intoRawParts
    return fromRawParts parts

/-- `From<RefStrCore<LocalBackend>> for RefStrCore<SharedBackend>`. -/
def ofLocal (A : Allocator t) (value : RefStrCore t .localBackend) :
    Exec t (RefStrCore t .sharedBackend) :=
  convert A .sharedBackend value

/-- `From<RefStrCore<SharedBackend>> for RefStrCore<LocalBackend>`. -/
def ofShared (A : Allocator t) (value : RefStrCore t .sharedBackend) :
    Exec t (RefStrCore t .localBackend) :=
  convert A .localBackend value

variable {B : Backend}

/-- `From<&str>`. -/
def ofStr (value : StrRef t) : Except Fault (RefStrCore t B) := new value

/-- `From<&String>`, through the slice that the `String` refers to. -/
def ofStringRef (value : StrRef t) : Except Fault (RefStrCore t B) := ofStr value

/-- `From<Cow<str>>`. -/
def ofCow (A : Allocator t) (value : Cow t) : Exec t (RefStrCore t B) :=
  match value with
  | .borrowed s => fromStr s
  | .owned s => fromOwnedString A s

/-- `Default::default`; the empty literal lies at some address. -/
def default (empty : StrRef t) : Except Fault (RefStrCore t B) := fromStr empty

def borrow (self : RefStrCore t B) : Exec t (Str t) := self.asStr

def eq (self other : RefStrCore t B) : Exec t Bool := do
  if self.parts.rawPtr = other.parts.rawPtr ∧ self.parts.metaWord = other.parts.metaWord then
    return true
  if self.isInline || other.isInline then
    return decide ((← self.asStr) = (← other.asStr))
  if self.parts.cachedHash ≠ other.parts.cachedHash then
    return false
  if self.len ≠ other.len then
    return false
  return decide ((← self.asStr) = (← other.asStr))

def cmp (self other : RefStrCore t B) : Exec t Ordering := do
  return (← self.asStr).cmp (← other.asStr)

def hash {σ : Type} (H : Hasher t σ) (self : RefStrCore t B) (state : σ) : Exec t σ := do
  return (← self.asStr).hash H state

end RefStrCore
end RefStr
