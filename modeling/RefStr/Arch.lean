import RefStr.Target

/-! The metadata word: layout constants, the inline tag byte, and the encoding of length,
state tag, ASCII flag and cached hash for borrowed and shared payloads. -/
namespace RefStr

inductive StateTag
  | borrowed
  | shared
  | inline
  deriving DecidableEq, Repr

namespace Target

def tagBits : ℕ := 4

/-- Number of bits of the short hash cache; narrow targets store none. -/
def hashBits (t : Target) : ℕ :=
  match t.pointerWidth with
  | .w64 => 24
  | _ => 0

def inlineTotalBytes (t : Target) : ℕ := t.wordBytes * 2

def inlineCapacity (t : Target) : ℕ := t.inlineTotalBytes - 1

def bufferTagByteIndex (t : Target) : ℕ := t.inlineTotalBytes - 1

def metaTagByteIndex (t : Target) : ℕ := t.wordBytes - 1

def tagShift (t : Target) : ℕ :=
  match t.endian with
  | .little => t.usizeBits - tagBits
  | .big => 0

def lenShift (t : Target) : ℕ :=
  match t.endian with
  | .little => 0
  | .big => tagBits + t.hashBits + 1

def hashShift (t : Target) : ℕ :=
  match t.endian with
  | .little => t.usizeBits - tagBits - t.hashBits - 1
  | .big => tagBits

def stateMask (t : Target) : Usize t := 0b0111#_ <<< t.tagShift
def inlineMask (t : Target) : Usize t := 0b0010#_ <<< t.tagShift
def needsDropMask (t : Target) : Usize t := 0b0100#_ <<< t.tagShift
def isAsciiMask (t : Target) : Usize t := 0b1000#_ <<< t.tagShift

def hashMask (t : Target) : Usize t :=
  if t.hashBits = 0 then 0#_ else ((1#_ <<< t.hashBits) - 1#_) <<< t.hashShift

def hashValueMask (t : Target) : Usize t :=
  if t.hashBits = 0 then 0#_ else (1#_ <<< t.hashBits) - 1#_

def lenBits (t : Target) : ℕ := t.usizeBits - tagBits - t.hashBits - 1

def lenMask (t : Target) : Usize t := ((1#_ <<< t.lenBits) - 1#_) <<< t.lenShift

def maxBorrowedOrSharedLen (t : Target) : Usize t := (1#_ <<< t.lenBits) - 1#_

end Target

namespace Arch
variable {t : Target}

/-- The panic message of every length that the encoding cannot hold. -/
def tooLarge : String := "string too large to compress"

def supportsInlineLen (len : Usize t) : Bool := len.toNat ≤ t.inlineCapacity

/-- Compute the cached short hash: FNV-1a over the UTF-8 bytes. -/
def shortHash (bytes : List UInt8) : UInt64 :=
  bytes.foldl (fun hash b => (hash ^^^ b.toUInt64) * 0x100000001b3) 0xcbf29ce484222325

def tagBits (tag : StateTag) : Usize t :=
  match tag with
  | .borrowed => 0b01#_ <<< t.tagShift
  | .shared => 0b0101#_ <<< t.tagShift
  | .inline => 0b11#_ <<< t.tagShift

def asU8 (x : Usize t) : UInt8 := UInt8.ofBitVec (x.setWidth 8)

def inlineTagByte (len : Usize t) (isAscii : Bool) : Except Fault UInt8 := do
  debugAssert t (len.toNat ≤ t.inlineCapacity) "assertion failed: len <= INLINE_CAPACITY"
  let tag := asU8 (tagBits (t := t) .inline >>> t.tagShift) ||| if isAscii then 0b1000 else 0
  match t.endian with
  | .little => return (tag <<< 4) ||| asU8 len
  | .big => return (asU8 len <<< 4) ||| tag

def inlineLenFromTagByte (t : Target) (tagByte : UInt8) : Usize t :=
  match t.endian with
  | .little => (tagByte &&& 0b0000_1111).toBitVec.setWidth _
  | .big => ((tagByte &&& 0b1111_0000) >>> 4).toBitVec.setWidth _

def toNeBytes (x : Usize t) : List UInt8 := ByteOrder.toNeBytes t.endian t.wordBytes x

def inlineLenFromMeta (metaWord : Usize t) : Usize t :=
  inlineLenFromTagByte t ((toNeBytes metaWord).getD t.metaTagByteIndex 0)

def decodeBorrowedOrSharedLen (metaWord : Usize t) : Usize t :=
  match t.endian with
  -- On little-endian targets, the length already sits in the low bits.
  | .little => metaWord &&& t.lenMask
  | .big => (metaWord &&& t.lenMask) >>> t.lenShift

def decodeCachedHash (metaWord : Usize t) : Usize t :=
  (metaWord &&& t.hashMask) >>> t.hashShift

def encodeLenTagHash (len : Usize t) (tag : StateTag) (hash : UInt64) :
    Except Fault (Usize t) :=
  if len ≤ t.maxBorrowedOrSharedLen then
    let hash := (hash.toBitVec.setWidth _ &&& t.hashValueMask) <<< t.hashShift
    match t.endian with
    -- Keep the low bits as the raw length for the LE fast path.
    | .little => .ok (len ||| tagBits tag ||| hash)
    | .big => .ok ((len <<< t.lenShift) ||| tagBits tag ||| hash)
  else .error (.panic tooLarge)

/-- Decode a tag from a metadata word when the tag bits are known to be valid. -/
def fromMetaChecked (metaWord : Usize t) : Except Fault (Option StateTag) :=
  let state := metaWord &&& t.stateMask
  if state = 0b0001#_ <<< t.tagShift then .ok (some .borrowed)
  else if state = 0b0101#_ <<< t.tagShift then .ok (some .shared)
  else if state = 0b0011#_ <<< t.tagShift then .ok (some .inline)
  else .error .undefined

def fromMeta (metaWord : Usize t) : Except Fault StateTag := do
  match ← fromMetaChecked metaWord with
  | some tag => return tag
  | none => throw (.panic "invalid tag for compressed string")

end Arch
end RefStr
