import RefStr.Arch

/-! The two-word payload: a pointer word and a non-zero metadata word, and the view of the
same two words as the bytes of a short string. -/
namespace RefStr
open Arch
variable {t : Target}

structure NonZeroUsize (t : Target) where
  get : Usize t
  ne_zero : get ≠ 0#_
  deriving DecidableEq

def NonZeroUsize.newUnchecked (x : Usize t) : Except Fault (NonZeroUsize t) :=
  if h : x ≠ 0#_ then .ok ⟨x, h⟩ else .error .undefined

@[ext] structure RawParts (t : Target) where
  rawPtr : Usize t
  nonZeroMeta : NonZeroUsize t
  deriving DecidableEq

def assertMsg (condition : Bool) (message : String) : Except Fault Unit :=
  if condition then .ok () else .error (.panic message)

namespace RawParts

def metaWord (self : RawParts t) : Usize t := self.nonZeroMeta.get

/-- The union view of the payload as bytes in memory order. -/
def bytes (self : RawParts t) : List UInt8 := toNeBytes self.rawPtr ++ toNeBytes self.metaWord

/-- The union view of bytes as a payload; a zero metadata word is not a value of the type. -/
def ofBytes (t : Target) (bytes : List UInt8) : Except Fault (RawParts t) := do
  let rawPtr := ByteOrder.ofNeBytes t.endian t.usizeBits (bytes.take t.wordBytes)
  let metaWord := ByteOrder.ofNeBytes t.endian t.usizeBits (bytes.drop t.wordBytes)
  return ⟨rawPtr, ← NonZeroUsize.newUnchecked metaWord⟩

def new (rawPtr metaWord : Usize t) : Except Fault (RawParts t) := do
  let tag ← match ← fromMetaChecked metaWord with
    | some tag => pure tag
    | none => throw (.panic "invalid tag for compressed string")
  match tag with
  | .borrowed | .shared =>
    assertMsg (decodeBorrowedOrSharedLen metaWord ≤ t.maxBorrowedOrSharedLen) tooLarge
  | .inline =>
    assertMsg ((inlineLenFromMeta metaWord).toNat ≤ t.inlineCapacity)
      "inline string too large to compress"
  return ⟨rawPtr, ← NonZeroUsize.newUnchecked metaWord⟩

/-- `buffer[0..source.len()].copy_from_slice(source)`, with the bounds check of the slice. -/
def copyToFront (buffer source : List UInt8) : Except Fault (List UInt8) :=
  if source.length ≤ buffer.length then .ok (source ++ buffer.drop source.length)
  else .error (.panic ("range end index " ++ toString source.length ++
    " out of range for slice of length " ++ toString buffer.length))

def packInline (s : Str t) : Except Fault (RawParts t) := do
  let len := s.len
  debugAssert t (supportsInlineLen len) "assertion failed: arch::supports_inline_len(len)"
  let bytes ← copyToFront (List.replicate t.inlineTotalBytes 0) s.bytes
  let tagByte ← inlineTagByte len s.isAscii
  ofBytes t (bytes.set t.bufferTagByteIndex tagByte)

def isAscii (self : RawParts t) : Bool := self.metaWord &&& t.isAsciiMask ≠ 0#_

def cachedHash (self : RawParts t) : Usize t := decodeCachedHash self.metaWord

def isBorrowed (self : RawParts t) : Bool :=
  self.metaWord &&& (t.inlineMask ||| t.needsDropMask) = 0#_

def isShared (self : RawParts t) : Bool := self.metaWord &&& t.needsDropMask ≠ 0#_

def isInline (self : RawParts t) : Bool := self.metaWord &&& t.inlineMask ≠ 0#_

def len (self : RawParts t) : Usize t :=
  if self.metaWord &&& t.inlineMask ≠ 0#_ then inlineLenFromMeta self.metaWord
  else decodeBorrowedOrSharedLen self.metaWord

def isEmpty (self : RawParts t) : Bool := self.len = 0#_

def intoFields (self : RawParts t) : Usize t × Usize t := (self.rawPtr, self.metaWord)

def asPtr (self : RawParts t) : Usize t := self.rawPtr

def tag (self : RawParts t) : Except Fault StateTag := fromMeta self.metaWord

def intoRawNonInline (self : RawParts t) : RawStr t :=
  ⟨self.rawPtr, decodeBorrowedOrSharedLen self.metaWord⟩

theorem ext_words {p q : RawParts t} (hp : p.rawPtr = q.rawPtr) (hm : p.metaWord = q.metaWord) :
    p = q := by
  obtain ⟨_, ⟨_, _⟩⟩ := p
  obtain ⟨_, ⟨_, _⟩⟩ := q
  cases hp
  cases hm
  rfl

theorem eq_iff_words (p q : RawParts t) :
    p = q ↔ p.rawPtr = q.rawPtr ∧ p.metaWord = q.metaWord :=
  ⟨fun h => ⟨congrArg rawPtr h, congrArg metaWord h⟩, fun h => ext_words h.1 h.2⟩

theorem metaWord_ne_zero (p : RawParts t) : p.metaWord ≠ 0#_ := p.nonZeroMeta.ne_zero

end RawParts
end RefStr
