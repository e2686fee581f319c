import RefStr.ByteOrder

/-! What the language gives the crate: the word size and byte order of the compilation
target, the ways in which a computation fails, and UTF-8 string values. -/
namespace RefStr
open ByteOrder

inductive PointerWidth
  | w16
  | w32
  | w64
  deriving DecidableEq, Repr

structure Target where
  pointerWidth : PointerWidth
  endian : Endian
  /-- `cfg(debug_assertions)`. -/
  debugAssertions : Bool
  deriving DecidableEq, Repr

namespace Target

/-- The targets `x64_LE` and `x86_BE` of the test matrix. -/
def x64LE : Target := ⟨.w64, .little, true⟩
def x86BE : Target := ⟨.w32, .big, true⟩

def wordBytes (t : Target) : ℕ :=
  match t.pointerWidth with
  | .w16 => 2
  | .w32 => 4
  | .w64 => 8

def usizeBits (t : Target) : ℕ := 8 * t.wordBytes

/-- `isize::MAX`, the largest size of an object in bytes. -/
def isizeMax (t : Target) : ℕ := 2 ^ (t.usizeBits - 1) - 1

theorem isizeMax_lt (t : Target) : t.isizeMax < 2 ^ t.usizeBits := by
  have hp : 2 ^ (t.usizeBits - 1) ≤ 2 ^ t.usizeBits := Nat.pow_le_pow_right (by omega) (by omega)
  have h1 := Nat.one_le_two_pow (n := t.usizeBits - 1)
  unfold isizeMax
  omega

end Target

/-- Machine words: lengths, metadata words and addresses. -/
abbrev Usize (t : Target) := BitVec t.usizeBits

inductive Fault
  | panic (message : String)
  | undefined
  /-- The allocator gave up and the process aborted. -/
  | aborted
  deriving DecidableEq, Repr

/-- `debug_assert!`: checked only in builds with debug assertions. -/
def debugAssert (t : Target) (condition : Bool) (message : String) : Except Fault Unit :=
  if t.debugAssertions && !condition then .error (.panic message) else .ok ()

@[simp] theorem debugAssert_true (t : Target) (message : String) :
    debugAssert t true message = .ok () := by
  simp [debugAssert]

def ValidUtf8 (bytes : List UInt8) : Prop := bytes.toByteArray.IsValidUTF8

instance (bytes : List UInt8) : Decidable (ValidUtf8 bytes) :=
  inferInstanceAs (Decidable bytes.toByteArray.IsValidUTF8)

/-- The contents of a `str` on the target: valid UTF-8 of at most `isize::MAX` bytes. -/
@[ext] structure Str (t : Target) where
  bytes : List UInt8
  valid : ValidUtf8 bytes
  fits : bytes.length ≤ t.isizeMax
  deriving DecidableEq

namespace Str
variable {t : Target}

def len (s : Str t) : Usize t := BitVec.ofNat _ s.bytes.length

def isAscii (s : Str t) : Bool := s.bytes.all (· < 128)

def cmp (s r : Str t) : Ordering := compare s.bytes r.bytes

theorem len_toNat (s : Str t) : s.len.toNat = s.bytes.length := by
  have h := s.fits
  have hm := t.isizeMax_lt
  simp only [len, BitVec.toNat_ofNat]
  exact Nat.mod_eq_of_lt (by omega)

theorem isAscii_iff (s : Str t) : s.isAscii = true ↔ ∀ b ∈ s.bytes, b < 128 := by
  simp [isAscii]

theorem cmp_eq_iff (s r : Str t) : s.cmp r = .eq ↔ s = r := by
  rw [cmp, Std.compare_eq_iff_eq]
  exact ⟨Str.ext, congrArg bytes⟩

end Str

/-- A reference `&str`: where the string lies and what it says. -/
@[ext] structure StrRef (t : Target) where
  ptr : Usize t
  str : Str t
  deriving DecidableEq

/-- A raw pointer `*const str`: an address and a length. -/
@[ext] structure RawStr (t : Target) where
  ptr : Usize t
  len : Usize t
  deriving DecidableEq, Repr

def StrRef.raw {t : Target} (s : StrRef t) : RawStr t := ⟨s.ptr, s.str.len⟩

/-- `str::from_utf8_unchecked` on a slice: other contents are undefined behaviour. -/
def fromUtf8Unchecked (t : Target) (bytes : List UInt8) : Except Fault (Str t) :=
  if h : ValidUtf8 bytes ∧ bytes.length ≤ t.isizeMax then .ok ⟨bytes, h.1, h.2⟩
  else .error .undefined

@[simp] theorem fromUtf8Unchecked_bytes {t : Target} (s : Str t) :
    fromUtf8Unchecked t s.bytes = .ok s := by
  simp [fromUtf8Unchecked, s.valid, s.fits]

end RefStr
