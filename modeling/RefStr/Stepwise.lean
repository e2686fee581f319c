import RefStr.Interleaving
import RefStr.System

/-! Every operation as the accesses to shared memory that it makes, one at a time: a byte read,
a strong count taken or given up, an allocation made. Run on its own each of them is the
operation of the model; between two accesses other threads may act. -/
namespace RefStr
open Interleaving ByteMemory
variable {t : Target} {B : Backend} {α β : Type}

/-- One access to what threads share. -/
inductive Action (t : Target)
  | readByte (x : Usize t)
  | incrementStrongCount (B : Backend) (p : RawStr t)
  | fromRaw (B : Backend) (p : RawStr t)
  | dropShared (B : Backend) (p : RawStr t)
  | allocate (A : Allocator t) (B : Backend) (s : Str t)

namespace Action

def Answer : Action t → Type
  | readByte _ => UInt8
  | incrementStrongCount _ _ => Unit
  | fromRaw B _ => Shared t B
  | dropShared _ _ => Unit
  | allocate _ B _ => Shared t B

/-- Reading unmapped memory is undefined behaviour. -/
def load (x : Usize t) : Exec t UInt8 := fun w =>
  match w.mem x with
  | some b => .ok b w
  | none => .error .undefined w

def handle : (i : Action t) → Exec t i.Answer
  | readByte x => load x
  | incrementStrongCount B p => Backend.incrementStrongCount B p
  | fromRaw B p => Backend.fromRaw B p
  | dropShared B p => Backend.dropShared (⟨p⟩ : Shared t B)
  | allocate A B s => Backend.allocate A B s

end Action

abbrev machine (t : Target) : Machine where
  State := World t
  Fault := Fault
  Action := Action t
  Answer := Action.Answer
  handle := Action.handle

abbrev Steps (t : Target) := Program (machine t)

instance : MonadLift (Except Fault) (Steps t) where
  monadLift := Program.ofExcept (M := machine t)

namespace Stepwise

def isPanic : Fault → Bool
  | .panic _ => true
  | _ => false

def onUnwind (cleanup : Steps t Unit) (body : Steps t α) : Steps t α :=
  .onFail (M := machine t) isPanic cleanup body

def withLocal (cleanup : Steps t Unit) (body : Steps t α) : Steps t α := do
  let r ← onUnwind cleanup body
  cleanup
  return r

def readByte (x : Usize t) : Steps t UInt8 := .perform (M := machine t) (.readByte x)

/-- The bytes of a slice, one after the other. -/
def readBytes (x : Usize t) : ℕ → Steps t (List UInt8)
  | 0 => return []
  | n + 1 => do
    let b ← readByte x
    let bs ← readBytes (x + 1#_) n
    return b :: bs

def readRaw (p : RawStr t) : Steps t (List UInt8) := readBytes p.ptr p.len.toNat

def derefRaw (p : RawStr t) : Steps t (StrRef t) := do
  return ⟨p.ptr, ← fromUtf8Unchecked t (← readRaw p)⟩

section Backend

def incrementStrongCount (B : Backend) (p : RawStr t) : Steps t Unit :=
  .perform (M := machine t) (.incrementStrongCount B p)

def fromRaw (B : Backend) (p : RawStr t) : Steps t (Shared t B) :=
  .perform (M := machine t) (.fromRaw B p)

def dropShared (shared : Shared t B) : Steps t Unit :=
  .perform (M := machine t) (.dropShared B shared.raw)

def allocate (A : Allocator t) (B : Backend) (s : Str t) : Steps t (Shared t B) :=
  .perform (M := machine t) (.allocate A B s)

def cloneShared (shared : Shared t B) : Steps t (Shared t B) := do
  incrementStrongCount B shared.raw
  return shared

def deref (shared : Shared t B) : Steps t (Str t) := do
  return (← derefRaw shared.raw).str

end Backend

section Core
open Arch
variable (A : Allocator t) (self : RefStrCore t B)

def fromShared (s : Shared t B) : Steps t (RefStrCore t B) := do
  let str ← onUnwind (dropShared s) (deref s)
  let len := str.len
  let isAscii := str.isAscii
  let hash := shortHash str.bytes
  let raw := Backend.intoRaw s
  let rawPtr := raw.ptr
  let metaWord ← encodeLenTagHash len .shared hash
  let metaWord := if isAscii then metaWord ||| t.isAsciiMask else metaWord
  return .fromRawPartsStruct (← RawParts.new rawPtr metaWord)

def fromOwnedLike (s : Str t) : Steps t (RefStrCore t B) := do
  if supportsInlineLen s.len then RefStrCore.newInline s
  else fromShared (← allocate A B s)

def asStr : Steps t (Str t) := do
  let parts := self.parts
  let metaWord := parts.metaWord
  let bytes ←
    if metaWord &&& t.inlineMask ≠ 0#_ then self.readSelf (inlineLenFromMeta metaWord)
    else readRaw ⟨parts.asPtr, decodeBorrowedOrSharedLen metaWord⟩
  fromUtf8Unchecked t bytes

def clone : Steps t (RefStrCore t B) := do
  let parts := self.parts
  let metaWord := parts.metaWord
  if metaWord &&& t.needsDropMask ≠ 0#_ then
    let len := decodeBorrowedOrSharedLen metaWord
    incrementStrongCount B ⟨parts.asPtr, len⟩
  return ⟨parts⟩

def drop : Steps t Unit := do
  let parts := self.parts
  let metaWord := parts.metaWord
  if metaWord &&& t.needsDropMask ≠ 0#_ then
    let len := decodeBorrowedOrSharedLen metaWord
    dropShared (← fromRaw B ⟨parts.asPtr, len⟩)

def intoRaw : Steps t (RawStr t) := do
  let parts := self.parts
  if parts.isInline then
    withLocal (drop self) do
      return Backend.intoRaw (← allocate A B (← asStr self))
  else return self.intoRawPartsStruct.intoRawNonInline

def intoRawShared : Steps t (Option (RawStr t)) := do
  let parts := self.parts
  if parts.isShared then return some self.intoRawPartsStruct.intoRawNonInline
  else withLocal (drop self) (return none)

def toStaticCore : Steps t (RefStrCore t B) := do
  match ← self.stateTag with
  | .shared =>
    let cloned ← clone self
    let parts := cloned.intoRawParts
    return .fromRawParts parts
  | .inline => return .fromRawParts (← clone self).intoRawParts
  | .borrowed =>
    if supportsInlineLen self.len then RefStrCore.newInline (← asStr self)
    else fromShared (← allocate A B (← asStr self))

def intoStaticCore : Steps t (RefStrCore t B) := do
  match ← onUnwind (drop self) self.stateTag with
  | .shared | .inline =>
    let parts := self.intoRawParts
    return .fromRawParts parts
  | .borrowed =>
    withLocal (drop self) do
      if supportsInlineLen self.len then RefStrCore.newInline (← asStr self)
      else fromShared (← allocate A B (← asStr self))

def intoBytes : Steps t (List UInt8) :=
  withLocal (drop self) do
    let parts := self.parts
    let len := parts.len
    if parts.isInline then self.readSelf len else readRaw ⟨parts.asPtr, len⟩

def intoBoxedStr : Steps t (Str t) := withLocal (drop self) (asStr self)

def intoString : Steps t (Str t) := withLocal (drop self) (asStr self)

def borrowedStrUnchecked : Steps t (StrRef t) :=
  let parts := self.parts
  let metaWord := parts.metaWord
  derefRaw ⟨parts.asPtr, decodeBorrowedOrSharedLen metaWord⟩

def intoStrUnchecked : Steps t (StrRef t) := do
  onUnwind (drop self)
    (debugAssert t self.isBorrowed "into_str_unchecked requires a borrowed value")
  borrowedStrUnchecked self

def intoCow : Steps t (Cow t) := do
  if self.isBorrowed then return .borrowed (← intoStrUnchecked self)
  else return .owned (← intoString self)

def asCow : Steps t (Cow t) := do
  if self.isBorrowed then return .borrowed (← borrowedStrUnchecked self)
  else return .owned (← asStr self)

def borrowedStaticStr : Steps t (Option (StrRef t)) := do
  let parts := self.parts
  if parts.isBorrowed then return some (← borrowedStrUnchecked self) else return none

def convert (B' : Backend) : Steps t (RefStrCore t B') := do
  if self.isShared then
    withLocal (drop self) do
      fromShared (← allocate A B' (← asStr self))
  else
    let parts := self.intoRawParts
    return .fromRawParts parts

def eq (other : RefStrCore t B) : Steps t Bool := do
  if self.parts.rawPtr = other.parts.rawPtr ∧ self.parts.metaWord = other.parts.metaWord then
    return true
  if self.isInline || other.isInline then
    return decide ((← asStr self) = (← asStr other))
  if self.parts.cachedHash ≠ other.parts.cachedHash then
    return false
  if self.len ≠ other.len then
    return false
  return decide ((← asStr self) = (← asStr other))

def cmp (other : RefStrCore t B) : Steps t Ordering := do
  return (← asStr self).cmp (← asStr other)

end Core

section Run
open Program
variable (A : Allocator t) (self : RefStrCore t B)

/-- No access panics: what unwinds is the program itself. -/
lemma isPanic_of_handle (i : Action t) (w : World t) (e : Fault) (w' : World t)
    (h : i.handle w = .error e w') : isPanic e = false := by
  cases i with
  | readByte x =>
    simp only [Action.handle, Action.load] at h
    split at h
    all_goals cases h
    rfl
  | incrementStrongCount B p =>
    simp only [Action.handle, Backend.incrementStrongCount] at h
    split at h
    all_goals cases h
    rfl
  | fromRaw B p =>
    simp only [Action.handle, Backend.fromRaw] at h
    split at h
    all_goals cases h
    rfl
  | dropShared B p =>
    simp only [Action.handle, Backend.dropShared] at h
    split at h
    all_goals cases h
    rfl
  | allocate A B s =>
    simp only [Action.handle, Backend.allocate] at h
    split at h
    all_goals cases h
    rfl

@[simp] lemma run_lift (x : Except Fault α) :
    run (liftM x : Steps t α) = (liftM x : Exec t α) := by
  cases x <;> rfl

@[simp] lemma run_onUnwind (cleanup : Steps t Unit) (body : Steps t α) :
    run (onUnwind cleanup body) = RefStr.onUnwind (run cleanup) (run body) := by
  funext w
  rw [onUnwind, run_onFail (M := machine t) (fun i w e w' h => isPanic_of_handle i w e w' h),
    RefStr.onUnwind]
  rcases run body w with ⟨a, w'⟩ | ⟨_ | _ | _, w'⟩
  · rfl
  · simp only [unwind, isPanic, if_true]
    cases run cleanup w' <;> rfl
  · rfl
  · rfl

@[simp] lemma run_withLocal (cleanup : Steps t Unit) (body : Steps t α) :
    run (withLocal cleanup body) = RefStr.withLocal (run cleanup) (run body) := by
  simp only [withLocal, RefStr.withLocal, Program.run_bind, run_onUnwind, Program.run_pure]

@[simp] lemma run_readByte (x : Usize t) : run (readByte x) = Action.load x :=
  run_perform (M := machine t) (.readByte x)

lemma run_readBytes (x : Usize t) (n : ℕ) (w : World t) : run (readBytes x n) w =
    match read w.mem x n with
    | some bytes => .ok bytes w
    | none => .error .undefined w := by
  induction n generalizing x with
  | zero => rfl
  | succ n ih =>
    rw [readBytes, Program.run_bind, run_readByte, ByteMemory.read]
    cases hx : w.mem x with
    | none =>
      refine run_bind_error ?_ _
      rw [Action.load, hx]
    | some b =>
      have hload : Action.load x w = .ok b w := by rw [Action.load, hx]
      refine (run_bind hload _).trans ?_
      rw [Program.run_bind]
      have hrest := ih (x + 1#_)
      cases hr : read w.mem (x + 1#_) n with
      | none =>
        rw [hr] at hrest
        exact run_bind_error hrest _
      | some bs =>
        rw [hr] at hrest
        exact run_bind hrest _

@[simp] lemma run_readRaw (p : RawStr t) : run (readRaw p) = RefStr.readRaw p := by
  funext w
  refine (run_readBytes p.ptr p.len.toNat w).trans ?_
  cases h : read w.mem p.ptr p.len.toNat <;> simp only [RefStr.readRaw, h]

@[simp] lemma run_derefRaw (p : RawStr t) : run (derefRaw p) = RefStr.derefRaw p := by
  simp only [derefRaw, RefStr.derefRaw, Program.run_bind, run_readRaw, run_lift, Program.run_pure]

@[simp] lemma run_incrementStrongCount (B : Backend) (p : RawStr t) :
    run (incrementStrongCount B p) = Backend.incrementStrongCount B p := run_perform _

@[simp] lemma run_fromRaw (B : Backend) (p : RawStr t) :
    run (fromRaw B p) = Backend.fromRaw B p := run_perform _

@[simp] lemma run_dropShared (shared : Shared t B) :
    run (dropShared shared) = Backend.dropShared shared := run_perform _

@[simp] lemma run_allocate (B : Backend) (s : Str t) :
    run (allocate A B s) = Backend.allocate A B s := run_perform _

@[simp] lemma run_cloneShared (shared : Shared t B) :
    run (cloneShared shared) = Backend.cloneShared shared := by
  simp only [cloneShared, Backend.cloneShared, Program.run_bind, run_incrementStrongCount,
    Program.run_pure]

@[simp] lemma run_deref (shared : Shared t B) : run (deref shared) = Backend.deref shared := by
  simp only [deref, Backend.deref, Program.run_bind, run_derefRaw, Program.run_pure]

@[simp] lemma run_fromShared (s : Shared t B) :
    run (fromShared s) = RefStrCore.fromShared s := by
  simp only [fromShared, RefStrCore.fromShared, Program.run_bind, run_onUnwind, run_dropShared,
    run_deref, run_lift, Program.run_pure]

@[simp] lemma run_fromOwnedLike (s : Str t) :
    run (fromOwnedLike A s : Steps t (RefStrCore t B)) = RefStrCore.fromOwnedLike A s := by
  simp only [fromOwnedLike, RefStrCore.fromOwnedLike, Backend.fromStr, apply_ite run, run_lift,
    Program.run_bind, run_allocate, run_fromShared]

@[simp] lemma run_asStr : run (asStr self) = self.asStr := by
  simp only [asStr, RefStrCore.asStr, Program.run_bind, run_lift, apply_ite run, run_readRaw]

@[simp] lemma run_clone : run (clone self) = self.clone := by
  simp only [clone, RefStrCore.clone, Program.run_bind, apply_ite run, Program.run_pure,
    run_incrementStrongCount]

@[simp] lemma run_drop : run (drop self) = self.drop := by
  simp only [drop, RefStrCore.drop, Program.run_bind, apply_ite run, Program.run_pure,
    run_fromRaw, run_dropShared]

@[simp] lemma run_intoRaw : run (intoRaw A self) = self.intoRaw A := by
  simp only [intoRaw, RefStrCore.intoRaw, Backend.fromStr, Program.run_bind, apply_ite run,
    Program.run_pure, run_withLocal, run_drop, run_asStr, run_allocate]

@[simp] lemma run_intoRawShared : run (intoRawShared self) = self.intoRawShared := by
  simp only [intoRawShared, RefStrCore.intoRawShared, apply_ite run, Program.run_pure,
    run_withLocal, run_drop]

@[simp] lemma run_toStaticCore : run (toStaticCore A self) = self.toStaticCore A := by
  simp only [toStaticCore, RefStrCore.toStaticCore, Backend.fromStr, Program.run_bind, run_lift]
  congr 1
  funext tag
  cases tag <;> simp only [Program.run_bind, apply_ite run, Program.run_pure, run_lift,
    run_clone, run_asStr, run_allocate, run_fromShared]

@[simp] lemma run_intoStaticCore : run (intoStaticCore A self) = self.intoStaticCore A := by
  simp only [intoStaticCore, RefStrCore.intoStaticCore, Backend.fromStr, Program.run_bind,
    run_onUnwind, run_lift, run_drop]
  congr 1
  funext tag
  cases tag <;> simp only [Program.run_bind, apply_ite run, Program.run_pure, run_lift,
    run_withLocal, run_drop, run_asStr, run_allocate, run_fromShared]

@[simp] lemma run_intoBytes : run (intoBytes self) = self.intoBytes := by
  simp only [intoBytes, RefStrCore.intoBytes, apply_ite run, run_lift, run_withLocal, run_drop,
    run_readRaw]

@[simp] lemma run_intoBoxedStr : run (intoBoxedStr self) = self.intoBoxedStr := by
  simp only [intoBoxedStr, RefStrCore.intoBoxedStr, run_withLocal, run_drop, run_asStr]

@[simp] lemma run_intoString : run (intoString self) = self.intoString := by
  simp only [intoString, RefStrCore.intoString, run_withLocal, run_drop, run_asStr]

@[simp] lemma run_borrowedStrUnchecked :
    run (borrowedStrUnchecked self) = self.borrowedStrUnchecked := run_derefRaw _

@[simp] lemma run_intoStrUnchecked : run (intoStrUnchecked self) = self.intoStrUnchecked := by
  simp only [intoStrUnchecked, RefStrCore.intoStrUnchecked, Program.run_bind, run_onUnwind,
    run_lift, run_drop, run_borrowedStrUnchecked]

@[simp] lemma run_intoCow : run (intoCow self) = self.intoCow := by
  simp only [intoCow, RefStrCore.intoCow, apply_ite run, Program.run_bind, Program.run_pure,
    run_intoStrUnchecked, run_intoString]

@[simp] lemma run_asCow : run (asCow self) = self.asCow := by
  simp only [asCow, RefStrCore.asCow, RefStrCore.toString, apply_ite run, Program.run_bind,
    Program.run_pure, run_borrowedStrUnchecked, run_asStr]

@[simp] lemma run_borrowedStaticStr : run (borrowedStaticStr self) = self.borrowedStaticStr := by
  simp only [borrowedStaticStr, RefStrCore.borrowedStaticStr, apply_ite run, Program.run_bind,
    Program.run_pure, run_borrowedStrUnchecked]

@[simp] lemma run_convert (B' : Backend) : run (convert A self B') = self.convert A B' := by
  simp only [convert, RefStrCore.convert, Backend.fromStr, apply_ite run, Program.run_bind,
    Program.run_pure, run_withLocal, run_drop, run_asStr, run_allocate, run_fromShared]

@[simp] lemma run_eq (other : RefStrCore t B) : run (eq self other) = self.eq other := by
  simp only [eq, RefStrCore.eq, apply_ite run, Program.run_bind, Program.run_pure, run_asStr]

@[simp] lemma run_cmp (other : RefStrCore t B) : run (cmp self other) = self.cmp other := by
  simp only [cmp, RefStrCore.cmp, Program.run_bind, Program.run_pure, run_asStr]

end Run

section Wrapper
variable (A : Allocator t) (k : WrapperKind) (B : Backend)

def ofCow (value : Cow t) : Steps t (Wrapper t k B) :=
  match k with
  | .lifetimeKind =>
    match value with
    | .borrowed s => return .fromInner (← RefStrCore.fromStr s)
    | .owned s => return .fromInner (← fromOwnedLike A s)
  | .staticKind =>
    match value with
    | .borrowed value => Wrapper.fromStr value
    | .owned value => return .fromInner (← fromOwnedLike A value)

lemma run_ofCow (value : Cow t) : Program.run (ofCow A k B value) = Wrapper.ofCow A value := by
  cases k <;> cases value <;> simp only [ofCow, Wrapper.ofCow, Wrapper.ofString,
    RefStrCore.ofCow, RefStrCore.fromOwnedString_eq, Program.run_bind, Program.run_pure, run_lift,
    run_fromOwnedLike]

/-- `as_cow` of a wrapper. -/
def wrapperAsCow (v : Wrapper t k B) : Steps t (Cow t) :=
  match k with
  | .lifetimeKind => asCow v.inner
  | .staticKind => do
    match ← borrowedStaticStr v.inner with
    | some value => return .borrowed value
    | none => return .owned (← asStr v.inner)

lemma run_wrapperAsCow (v : Wrapper t k B) : Program.run (wrapperAsCow k B v) = v.asCow := by
  cases k with
  | lifetimeKind => simp only [wrapperAsCow, Wrapper.asCow, run_asCow]
  | staticKind =>
    simp only [wrapperAsCow, Wrapper.asCow, Wrapper.asStr, Program.run_bind, run_borrowedStaticStr]
    congr 1
    funext r
    cases r <;> simp only [Program.run_bind, Program.run_pure, run_asStr]

end Wrapper
end Stepwise

namespace Creation

def steps (A : Allocator t) : Creation t → Steps t (Slot t)
  | handle B s => return .handle B (← Stepwise.allocate A B s)
  | fromStr k B s => return .value k B (← Wrapper.fromStr s)
  | fromOwnedLike k B s => return .value k B (.fromInner (← Stepwise.fromOwnedLike A s))
  | ofString k B s => return .value k B (.fromInner (← Stepwise.fromOwnedLike A s))
  | ofBoxedStr k B s => return .value k B (.fromInner (← Stepwise.fromOwnedLike A s))
  | ofCow k B c => return .value k B (← Stepwise.ofCow A k B c)

theorem run_steps (A : Allocator t) (c : Creation t) : (c.steps A).run = c.run A := by
  cases c <;> simp only [steps, run, Backend.fromStr, Wrapper.fromOwnedLike, Wrapper.ofString,
    Wrapper.ofBoxedStr, RefStrCore.fromOwnedString_eq, RefStrCore.fromOwnedBoxedStr_eq,
    Program.run_bind, Program.run_pure, Stepwise.run_allocate, Stepwise.run_lift,
    Stepwise.run_fromOwnedLike, Stepwise.run_ofCow, bind_assoc, pure_bind]

end Creation

namespace Copying

def steps (A : Allocator t) : Copying → Slot t → Option (Steps t (Slot t))
  | cloneHandle, .handle B s => some do return .handle B (← Stepwise.cloneShared s)
  | clone, .value k B v => some do return .value k B (.fromInner (← Stepwise.clone v.inner))
  | toStaticStr, .value .lifetimeKind B v =>
    some do return .value .staticKind B (.fromInner (← Stepwise.toStaticCore A v.inner))
  | incrementStrongCount, slot =>
    match slot.owners with
    | [o] => some do
      Stepwise.incrementStrongCount o.backend o.raw
      return .raw o.backend o.raw
    | _ => none
  | _, _ => none

theorem run_steps (A : Allocator t) (c : Copying) (slot : Slot t) :
    (c.steps A slot).map Program.run = c.run A slot := by
  cases c with
  | cloneHandle =>
    cases slot with
    | handle B s => simp [steps, run]
    | _ => rfl
  | clone =>
    cases slot with
    | value k B v => simp [steps, run, Wrapper.clone]
    | _ => rfl
  | toStaticStr =>
    cases slot with
    | value k B v =>
      cases k with
      | lifetimeKind => simp [steps, run, Wrapper.toStaticStr]
      | staticKind => rfl
    | _ => rfl
  | incrementStrongCount =>
    simp only [steps, run]
    generalize slot.owners = os
    rcases os with _ | ⟨o, _ | ⟨_, _⟩⟩
    · rfl
    · simp [Wrapper.incrementStrongCount, RefStrCore.incrementStrongCount]
    · rfl

end Copying

namespace Consuming

def steps (A : Allocator t) : Consuming → Slot t → Option (Steps t (Slot t))
  | fromShared k, .handle B s => some do
    return .value k B (.fromInner (← Stepwise.fromShared s))
  | intoStaticStr, .value .lifetimeKind B v => some do
    return .value .staticKind B (.fromInner (← Stepwise.intoStaticCore A v.intoInner))
  | convert, .value k B v => some do
    return .value k B.other (.fromInner (← Stepwise.convert A v.intoInner B.other))
  | rewrap k', .value _ B v => some do return .value k' B (v.rewrap k')
  | intoRawParts, .value _ B v => some do return .parts B v.intoRawParts
  | fromRawParts k, .parts B p => some do return .value k B (.fromRawParts p)
  | intoRaw, .value _ B v => some do
    let p ← Stepwise.intoRaw A v.intoInner
    return if v.isBorrowed then .pointer p else .raw B p
  | intoRawShared, .value _ B v => some do
    match ← Stepwise.intoRawShared v.intoInner with
    | some p => return .raw B p
    | none => return .gone
  | fromRaw, .raw B p => some do return .handle B (← Stepwise.fromRaw B p)
  | dropHandle, .handle _ s => some do
    Stepwise.dropShared s
    return .gone
  | drop, .value _ _ v => some do
    Stepwise.drop v.inner
    return .gone
  | intoCow, .value _ _ v => some do
    let _ ← Stepwise.intoCow v.intoInner
    return .gone
  | intoString, .value _ _ v => some do
    let _ ← Stepwise.intoString v.intoInner
    return .gone
  | intoBoxedStr, .value _ _ v => some do
    let _ ← Stepwise.intoBoxedStr v.intoInner
    return .gone
  | intoBytes, .value _ _ v => some do
    let _ ← Stepwise.intoBytes v.intoInner
    return .gone
  | forget, .parts _ p => if p.isShared then none else some do return .gone
  | forget, .pointer _ => some do return .gone
  | _, _ => none

theorem run_steps (A : Allocator t) (c : Consuming) (slot : Slot t) :
    (c.steps A slot).map Program.run = c.run A slot := by
  cases c with
  | fromShared k =>
    cases slot with
    | handle B s => simp [steps, run, Wrapper.fromShared]
    | _ => rfl
  | intoStaticStr =>
    cases slot with
    | value k B v =>
      cases k with
      | lifetimeKind => simp [steps, run, Wrapper.intoStaticStr]
      | staticKind => rfl
    | _ => rfl
  | convert =>
    cases slot with
    | value k B v => simp [steps, run, Wrapper.convert]
    | _ => rfl
  | rewrap k' =>
    cases slot with
    | value k B v => rfl
    | _ => rfl
  | intoRawParts =>
    cases slot with
    | value k B v => rfl
    | _ => rfl
  | fromRawParts k =>
    cases slot with
    | parts B p => rfl
    | _ => rfl
  | intoRaw =>
    cases slot with
    | value k B v => simp [steps, run, Wrapper.intoRaw]
    | _ => rfl
  | intoRawShared =>
    cases slot with
    | value k B v =>
      simp only [steps, run, Wrapper.intoRawShared, Option.map_some, Program.run_bind,
        Stepwise.run_intoRawShared]
      congr 2
      funext p
      cases p <;> rfl
    | _ => rfl
  | fromRaw =>
    cases slot with
    | raw B p => simp [steps, run]
    | _ => rfl
  | dropHandle =>
    cases slot with
    | handle B s => simp [steps, run]
    | _ => rfl
  | drop =>
    cases slot with
    | value k B v => simp [steps, run, Wrapper.drop]
    | _ => rfl
  | intoCow =>
    cases slot with
    | value k B v => simp [steps, run, Wrapper.intoCow]
    | _ => rfl
  | intoString =>
    cases slot with
    | value k B v => simp [steps, run, Wrapper.intoString]
    | _ => rfl
  | intoBoxedStr =>
    cases slot with
    | value k B v => simp [steps, run, Wrapper.intoBoxedStr]
    | _ => rfl
  | intoBytes =>
    cases slot with
    | value k B v => simp [steps, run, Wrapper.intoBytes]
    | _ => rfl
  | forget =>
    cases slot with
    | parts B p =>
      simp only [steps, run]
      split_ifs <;> rfl
    | pointer p => rfl
    | _ => rfl

end Consuming

/-- Operations that look at values and make nothing. -/
inductive Observing
  | asStr
  | asCow
  | eq
  | cmp

/-- What such an operation says. -/
inductive Reply (t : Target)
  | str (s : Str t)
  | cow (c : Cow t)
  | bool (b : Bool)
  | ordering (o : Ordering)

namespace Observing

/-- The second slot is the other side of a comparison; what looks at one value is given it
twice. -/
def run : Observing → Slot t → Slot t → Option (Exec t (Reply t))
  | asStr, .value _ _ v, .value _ _ _ => some do return .str (← v.asStr)
  | asCow, .value _ _ v, .value _ _ _ => some do return .cow (← v.asCow)
  | eq, .value _ B v, .value _ B' u =>
    if h : B' = B then some do return .bool (← v.inner.eq (h ▸ u.inner)) else none
  | cmp, .value _ B v, .value _ B' u =>
    if h : B' = B then some do return .ordering (← v.inner.cmp (h ▸ u.inner)) else none
  | _, _, _ => none

def steps : Observing → Slot t → Slot t → Option (Steps t (Reply t))
  | asStr, .value _ _ v, .value _ _ _ => some do return .str (← Stepwise.asStr v.inner)
  | asCow, .value k B v, .value _ _ _ => some do return .cow (← Stepwise.wrapperAsCow k B v)
  | eq, .value _ B v, .value _ B' u =>
    if h : B' = B then some do return .bool (← Stepwise.eq v.inner (h ▸ u.inner)) else none
  | cmp, .value _ B v, .value _ B' u =>
    if h : B' = B then some do return .ordering (← Stepwise.cmp v.inner (h ▸ u.inner)) else none
  | _, _, _ => none

/-- What the texts say. -/
def reply (o : Observing) (x y : Text t) : Reply t :=
  match o with
  | asStr => .str x.str
  | asCow => .cow x.cow
  | eq => .bool (decide (x.str = y.str))
  | cmp => .ordering (x.str.cmp y.str)

theorem run_steps (o : Observing) (slot slot' : Slot t) :
    (o.steps slot slot').map Program.run = o.run slot slot' := by
  cases o with
  | asStr =>
    cases slot with
    | value k B v =>
      cases slot' with
      | value k' B' u => simp [steps, run, Wrapper.asStr]
      | _ => rfl
    | _ => cases slot' <;> rfl
  | asCow =>
    cases slot with
    | value k B v =>
      cases slot' with
      | value k' B' u => simp [steps, run, Stepwise.run_wrapperAsCow]
      | _ => rfl
    | _ => cases slot' <;> rfl
  | eq =>
    cases slot with
    | value k B v =>
      cases slot' with
      | value k' B' u =>
        by_cases h : B' = B
        · subst h
          simp [steps, run]
        · simp [steps, run, h]
      | _ => rfl
    | _ => cases slot' <;> rfl
  | cmp =>
    cases slot with
    | value k B v =>
      cases slot' with
      | value k' B' u =>
        by_cases h : B' = B
        · subst h
          simp [steps, run]
        · simp [steps, run, h]
      | _ => rfl
    | _ => cases slot' <;> rfl

end Observing
end RefStr
