import RefStr.Raw
import RefStr.Backend

/-! The backend-agnostic compact string: the layer that decides when a value stays
borrowed, becomes inline, or is stored in shared heap-backed form. -/
namespace RefStr
open Arch
variable {t : Target} {B : Backend}

structure RefStrCore (t : Target) (B : Backend) where
  parts : RawParts t
  deriving DecidableEq

inductive Cow (t : Target)
  | borrowed (s : StrRef t)
  | owned (s : Str t)
  deriving DecidableEq

/-- `AsRef<str>`. -/
def Cow.str : Cow t → Str t
  | .borrowed s => s.str
  | .owned s => s

namespace RefStrCore

def fromRawPartsStruct (parts : RawParts t) : RefStrCore t B := ⟨parts⟩

def fromRawParts (parts : RawParts t) : RefStrCore t B := fromRawPartsStruct parts

def fromStr (s : StrRef t) : Except Fault (RefStrCore t B) := do
  let rawPtr := s.ptr
  let hash := shortHash s.str.bytes
  let metaWord ← encodeLenTagHash s.str.len .borrowed hash
  let metaWord := if s.str.isAscii then metaWord ||| t.isAsciiMask else metaWord
  return fromRawPartsStruct (← RawParts.new rawPtr metaWord)

def new (s : StrRef t) : Except Fault (RefStrCore t B) := fromStr s

def fromShared (s : Shared t B) : Exec t (RefStrCore t B) := do
  let str ← onUnwind (Backend.dropShared s) (Backend.deref s)
  let len := str.len
  let isAscii := str.isAscii
  let hash := shortHash str.bytes
  -- The handle is given up here: no panic below releases it.
  let raw := Backend.intoRaw s
  let rawPtr := raw.ptr
  let metaWord ← encodeLenTagHash len .shared hash
  let metaWord := if isAscii then metaWord ||| t.isAsciiMask else metaWord
  return fromRawPartsStruct (← RawParts.new rawPtr metaWord)

def newInline (s : Str t) : Except Fault (RefStrCore t B) :=
  return fromRawPartsStruct (← RawParts.packInline s)

def fromOwnedLike (A : Allocator t) (s : Str t) : Exec t (RefStrCore t B) := do
  if supportsInlineLen s.len then newInline s
  else fromShared (← Backend.fromStr A B s)

def fromOwnedString (A : Allocator t) (value : Str t) : Exec t (RefStrCore t B) := do
  if supportsInlineLen value.len then newInline value
  else fromShared (← Backend.fromString A B value)

def fromOwnedBoxedStr (A : Allocator t) (value : Str t) : Exec t (RefStrCore t B) := do
  if supportsInlineLen value.len then newInline value
  else fromShared (← Backend.fromBoxedStr A B value)

/-- The two words of the value, which is not dropped. -/
def intoRawPartsStruct (self : RefStrCore t B) : RawParts t := self.parts

def intoRawParts (self : RefStrCore t B) : RawParts t := self.intoRawPartsStruct

def stateTag (self : RefStrCore t B) : Except Fault StateTag := self.parts.tag
def isShared (self : RefStrCore t B) : Bool := self.parts.isShared
def isBorrowed (self : RefStrCore t B) : Bool := self.parts.isBorrowed
def isInline (self : RefStrCore t B) : Bool := self.parts.isInline
def isAscii (self : RefStrCore t B) : Bool := self.parts.isAscii
def len (self : RefStrCore t B) : Usize t := self.parts.len
def isEmpty (self : RefStrCore t B) : Bool := self.len = 0#_

/-- The first bytes of the value's own two words; there are no more than `INLINE_TOTAL_BYTES`. -/
def readSelf (self : RefStrCore t B) (len : Usize t) : Except Fault (List UInt8) :=
  if len.toNat ≤ t.inlineTotalBytes then .ok (self.parts.bytes.take len.toNat)
  else .error .undefined

def asStr (self : RefStrCore t B) : Exec t (Str t) := do
  let parts := self.parts
  let metaWord := parts.metaWord
  let bytes ←
    if metaWord &&& t.inlineMask ≠ 0#_ then self.readSelf (inlineLenFromMeta metaWord)
    else readRaw ⟨parts.asPtr, decodeBorrowedOrSharedLen metaWord⟩
  fromUtf8Unchecked t bytes

def clone (self : RefStrCore t B) : Exec t (RefStrCore t B) := do
  let parts := self.parts
  let metaWord := parts.metaWord
  if metaWord &&& t.needsDropMask ≠ 0#_ then
    let len := decodeBorrowedOrSharedLen metaWord
    Backend.incrementStrongCount B ⟨parts.asPtr, len⟩
  return ⟨parts⟩

def drop (self : RefStrCore t B) : Exec t Unit := do
  let parts := self.parts
  let metaWord := parts.metaWord
  if metaWord &&& t.needsDropMask ≠ 0#_ then
    let len := decodeBorrowedOrSharedLen metaWord
    Backend.dropShared (← Backend.fromRaw B ⟨parts.asPtr, len⟩)

def intoRaw (A : Allocator t) (self : RefStrCore t B) : Exec t (RawStr t) := do
  let parts := self.parts
  if parts.isInline then
    withLocal self.drop do
      return Backend.intoRaw (← Backend.fromStr A B (← self.asStr))
  else return self.intoRawPartsStruct.intoRawNonInline

def intoRawShared (self : RefStrCore t B) : Exec t (Option (RawStr t)) := do
  let parts := self.parts
  if parts.isShared then return some self.intoRawPartsStruct.intoRawNonInline
  else withLocal self.drop (return none)

def incrementStrongCount (B : Backend) (p : RawStr t) : Exec t Unit :=
  Backend.incrementStrongCount B p

def toStaticCore (A : Allocator t) (self : RefStrCore t B) : Exec t (RefStrCore t B) := do
  match ← self.stateTag with
  | .shared =>
    let cloned ← self.clone
    let parts := cloned.intoRawParts
    return fromRawParts parts
  | .inline => return fromRawParts (← self.clone).intoRawParts
  | .borrowed =>
    if supportsInlineLen self.len then newInline (← self.asStr)
    else fromShared (← Backend.fromStr A B (← self.asStr))

def intoStaticCore (A : Allocator t) (self : RefStrCore t B) : Exec t (RefStrCore t B) := do
  match ← onUnwind self.drop self.stateTag with
  | .shared | .inline =>
    let parts := self.intoRawParts
    return fromRawParts parts
  | .borrowed =>
    withLocal self.drop do
      if supportsInlineLen self.len then newInline (← self.asStr)
      else fromShared (← Backend.fromStr A B (← self.asStr))

def intoBytes (self : RefStrCore t B) : Exec t (List UInt8) :=
  withLocal self.drop do
    let parts := self.parts
    let len := parts.len
    if parts.isInline then self.readSelf len else readRaw ⟨parts.asPtr, len⟩

def intoBoxedStr (self : RefStrCore t B) : Exec t (Str t) := withLocal self.drop self.asStr

def intoString (self : RefStrCore t B) : Exec t (Str t) := withLocal self.drop self.asStr

/-- The slice that the two words denote, as a reference of the source's lifetime. -/
def borrowedStrUnchecked (self : RefStrCore t B) : Exec t (StrRef t) :=
  let parts := self.parts
  let metaWord := parts.metaWord
  derefRaw ⟨parts.asPtr, decodeBorrowedOrSharedLen metaWord⟩

/-- Convert into `&'a str` without checking the state tag, and without dropping the value. -/
def intoStrUnchecked (self : RefStrCore t B) : Exec t (StrRef t) := do
  onUnwind self.drop
    (debugAssert t self.isBorrowed "into_str_unchecked requires a borrowed value")
  self.borrowedStrUnchecked

def intoCow (self : RefStrCore t B) : Exec t (Cow t) := do
  if self.isBorrowed then return .borrowed (← self.intoStrUnchecked)
  else return .owned (← self.intoString)

/-- `ToString::to_string` through `Display`, which writes the contents. -/
def toString (self : RefStrCore t B) : Exec t (Str t) := self.asStr

def asCow (self : RefStrCore t B) : Exec t (Cow t) := do
  if self.isBorrowed then return .borrowed (← self.borrowedStrUnchecked)
  else return .owned (← self.toString)

def fromStatic (s : StrRef t) : Except Fault (RefStrCore t B) := fromStr s

def borrowedStaticStr (self : RefStrCore t B) : Exec t (Option (StrRef t)) := do
  let parts := self.parts
  if parts.isBorrowed then return some (← self.borrowedStrUnchecked) else return none

end RefStrCore
end RefStr
