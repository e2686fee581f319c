import RefStr.Equality
import RefStr.Safety

/-! The other ways to look at a value: the order of the wrappers, comparison with strings and
handles of other types, and what the three `Debug` implementations report. All of them agree with
the text. -/
namespace RefStr
open RefStrCore
variable {t : Target} {k : WrapperKind} {B : Backend}

/-- What a wrapper can be compared with, other than a wrapper of its own type. -/
inductive Operand (t : Target)
  | str (s : Str t)
  | string (s : Str t)
  | cow (c : Cow t)
  | arc (s : Shared t .sharedBackend)
  | rc (s : Shared t .localBackend)

/-- `PartialEq<&str> for RefStrCore`. -/
def RefStrCore.eqStr (self : RefStrCore t B) (other : Str t) : Exec t Bool := do
  return decide ((← self.asStr) = other)

/-- `PartialEq<String> for RefStrCore`. -/
def RefStrCore.eqString (self : RefStrCore t B) (other : Str t) : Exec t Bool := do
  return decide ((← self.asStr) = other)

def RefStrCore.partialCmp (self other : RefStrCore t B) : Exec t (Option Ordering) := do
  return some (← self.cmp other)

namespace Wrapper

def partialCmp (self other : Wrapper t k B) : Exec t (Option Ordering) := do
  return some (← self.cmp other)

def eqOperand (lhs : Wrapper t k B) : Operand t → Exec t Bool
  | .str other => do return decide ((← lhs.asStr) = other)
  | .string other => do return decide ((← lhs.asStr) = other)
  | .cow other => do return decide ((← lhs.asStr) = other.str)
  | .arc other => do return decide ((← lhs.asStr) = (← Backend.deref other))
  | .rc other => do return decide ((← lhs.asStr) = (← Backend.deref other))

end Wrapper

/-- A field that is handed to a builder of a formatter. -/
inductive DebugField (t : Target)
  | label (s : String)
  | usize (n : Usize t)
  | pointer (ptr : Usize t)
  | str (s : Str t)
  deriving DecidableEq

/-- What is handed to the builders of a formatter. -/
inductive DebugOutput (t : Target)
  | debugStruct (name : String) (fields : List (String × DebugField t))
  | debugTuple (name : String) (value : Str t)
  deriving DecidableEq

def StateTag.debugName : StateTag → String
  | .borrowed => "Borrowed"
  | .shared => "Shared"
  | .inline => "Inline"

def RefStrCore.debug (self : RefStrCore t B) (alternate : Bool) : Exec t (DebugOutput t) := do
  if alternate then
    let state := (← self.stateTag).debugName
    return .debugStruct "RefStrCore"
      [("state", .label state), ("len", .usize self.len), ("value", .str (← self.asStr))]
  else return .debugTuple "RefStrCore" (← self.asStr)

def Wrapper.typeName (k : WrapperKind) (B : Backend) : String :=
  match k, B with
  | .lifetimeKind, .sharedBackend => "RefStr<'a>"
  | .staticKind, .sharedBackend => "StaticRefStr"
  | .lifetimeKind, .localBackend => "LocalRefStr<'a>"
  | .staticKind, .localBackend => "LocalStaticRefStr"

/-- The wrappers go by the state predicates instead of the tag. -/
def Wrapper.debug (self : Wrapper t k B) (alternate : Bool) : Exec t (DebugOutput t) := do
  if alternate then
    let state := if self.isShared then "Shared" else if self.isInline then "Inline" else "Borrowed"
    return .debugStruct (typeName k B)
      [("state", .label state), ("len", .usize self.len), ("value", .str (← self.asStr))]
  else return .debugTuple (typeName k B) (← self.asStr)

def RawParts.debug (self : RawParts t) : Except Fault (DebugOutput t) := do
  return .debugStruct "RawParts"
    [("raw_ptr", .pointer self.rawPtr), ("meta", .usize self.metaWord), ("len", .usize self.len),
      ("state", .label (← self.tag).debugName)]

section Agreement
variable {w : World t} {x : Text t} {v : Wrapper t k B}

def Operand.Reads (w : World t) (s : Str t) : Operand t → Prop
  | .str r => r = s
  | .string r => r = s
  | .cow c => c.str = s
  | .arc h => Handle w .sharedBackend h.raw s
  | .rc h => Handle w .localBackend h.raw s

lemma Wrapper.run_cmp {u : Wrapper t k B} {y : Text t} (hx : v.inner.Represents w x)
    (hy : u.inner.Represents w y) : v.cmp u w = .ok (x.str.cmp y.str) w :=
  (run_bind hx.run_asStr _).trans (run_bind hy.run_asStr _)

lemma Wrapper.run_eqOperand (hx : v.inner.Represents w x) {o : Operand t} {s : Str t}
    (ho : o.Reads w s) : v.eqOperand o w = .ok (decide (x.str = s)) w := by
  cases o with
  | str r | string r | cow r =>
    cases ho
    exact run_bind hx.run_asStr _
  | arc h | rc h => exact (run_bind hx.run_asStr _).trans (run_bind (Handle.run_deref ho) _)

/-- The output of a value that goes by `name` and is in the state `tag`. -/
def DebugOutput.ofValue (name : String) (tag : StateTag) (len : Usize t) (s : Str t) :
    Bool → DebugOutput t
  | true => .debugStruct name
      [("state", .label tag.debugName), ("len", .usize len), ("value", .str s)]
  | false => .debugTuple name s

lemma RefStrCore.run_debug {v : RefStrCore t B} (hx : v.Represents w x) (alternate : Bool) :
    v.debug alternate w =
      .ok (.ofValue "RefStrCore" x.origin.tag v.len x.str alternate) w := by
  cases alternate with
  | true => exact (run_bind hx.run_stateTag _).trans (run_bind hx.run_asStr _)
  | false => exact run_bind hx.run_asStr _

/-- The predicates lead to the same name as the tag. -/
lemma Wrapper.run_debug (hx : v.inner.Represents w x) (alternate : Bool) :
    v.debug alternate w =
      .ok (.ofValue (typeName k B) x.origin.tag v.len x.str alternate) w := by
  have hshared : v.isShared = decide (x.origin.tag = .shared) := hx.encodes.isShared_eq
  have hinline : v.isInline = decide (x.origin.tag = .inline) := hx.encodes.isInline_eq
  have hstate : (if v.isShared then "Shared" else if v.isInline then "Inline" else "Borrowed") =
      x.origin.tag.debugName := by
    rw [hshared, hinline]
    cases x.origin.tag <;> rfl
  cases alternate with
  | true =>
    rw [Wrapper.debug, hstate]
    exact run_bind hx.run_asStr _
  | false => exact run_bind hx.run_asStr _

lemma RawParts.debug_eq {v : RefStrCore t B} (hx : v.Represents w x) : v.parts.debug =
    .ok (.debugStruct "RawParts"
      [("raw_ptr", .pointer v.parts.rawPtr), ("meta", .usize v.parts.metaWord),
        ("len", .usize v.len), ("state", .label x.origin.tag.debugName)]) := by
  rw [RawParts.debug, hx.encodes.hasTag.tag_eq]
  rfl

end Agreement

namespace Sys
variable {events : List (Event t)} {sys : Sys t} {i j : ℕ} {k' : WrapperKind} {B' : Backend}

/-- The core values and the wrappers are ordered alike: as their contents. -/
theorem ordered_as_contents (hsys : Session events sys) {v u : Wrapper t k B}
    (hv : sys.slots[i]? = some (.value k B v)) (hu : sys.slots[j]? = some (.value k B u)) :
    ∃ s r : Str t, v.asStr sys.world = .ok s sys.world ∧ u.asStr sys.world = .ok r sys.world ∧
      v.cmp u sys.world = .ok (s.cmp r) sys.world ∧
      v.partialCmp u sys.world = .ok (some (s.cmp r)) sys.world ∧
      v.inner.partialCmp u.inner sys.world = .ok (some (s.cmp r)) sys.world ∧
      u.cmp v sys.world = .ok (s.cmp r).swap sys.world := by
  obtain ⟨x, hx⟩ := hsys.tenable.represents hv
  obtain ⟨y, hy⟩ := hsys.tenable.represents hu
  have hswap : y.str.cmp x.str = (x.str.cmp y.str).swap :=
    Std.OrientedOrd.eq_swap (a := y.str.bytes)
  exact ⟨x.str, y.str, hx.run_asStr, hy.run_asStr, Wrapper.run_cmp hx hy,
    run_bind (Wrapper.run_cmp hx hy) _, run_bind (hx.run_cmp hy) _,
    hswap ▸ Wrapper.run_cmp hy hx⟩

/-- Values that equal one string, of whatever type, have its contents, also where there is no
comparison between them. -/
theorem eq_of_eqOperand (hsys : Session events sys) {v : Wrapper t k B} {u : Wrapper t k' B'}
    (hv : sys.slots[i]? = some (.value k B v)) (hu : sys.slots[j]? = some (.value k' B' u))
    {o : Operand t} {s : Str t} (ho : o.Reads sys.world s)
    (hvo : v.eqOperand o sys.world = .ok true sys.world)
    (huo : u.eqOperand o sys.world = .ok true sys.world) :
    v.asStr sys.world = .ok s sys.world ∧ u.asStr sys.world = .ok s sys.world := by
  obtain ⟨x, hx⟩ := hsys.tenable.represents hv
  obtain ⟨y, hy⟩ := hsys.tenable.represents hu
  rw [Wrapper.run_eqOperand hx ho] at hvo
  rw [Wrapper.run_eqOperand hy ho] at huo
  have hxs := of_decide_eq_true (EStateM.Result.ok.inj hvo).1
  have hys := of_decide_eq_true (EStateM.Result.ok.inj huo).1
  exact ⟨hxs ▸ hx.run_asStr, hys ▸ hy.run_asStr⟩

/-- The outputs of a value, of what it wraps and of its parts name one state, the one that the
predicates tell. -/
theorem debug_outputs_agree (hsys : Session events sys) {v : Wrapper t k B}
    (hv : sys.slots[i]? = some (.value k B v)) : ∃ (tag : StateTag) (s : Str t),
      v.asStr sys.world = .ok s sys.world ∧ v.intoRawParts.tag = .ok tag ∧
      (∀ alternate, v.debug alternate sys.world =
        .ok (.ofValue (Wrapper.typeName k B) tag v.len s alternate) sys.world) ∧
      (∀ alternate, v.inner.debug alternate sys.world =
        .ok (.ofValue "RefStrCore" tag v.len s alternate) sys.world) ∧
      v.intoRawParts.debug = .ok (.debugStruct "RawParts"
        [("raw_ptr", .pointer v.intoRawParts.rawPtr), ("meta", .usize v.intoRawParts.metaWord),
          ("len", .usize v.len), ("state", .label tag.debugName)]) := by
  obtain ⟨x, hx⟩ := hsys.tenable.represents hv
  exact ⟨x.origin.tag, x.str, hx.run_asStr, hx.encodes.hasTag.tag_eq, Wrapper.run_debug hx,
    RefStrCore.run_debug hx, RawParts.debug_eq hx⟩

end Sys
end RefStr
