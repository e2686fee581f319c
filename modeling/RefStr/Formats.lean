import RefStr.Entries
import RefStr.Safety

/-! Data formats. A value is written as a plain string, and is read back through a visitor to
which the format hands the string in one of three ways. Through any number of hops, between the
wrappers, between formats and between targets, the contents stay what they were. -/
namespace RefStr
open RefStrCore ByteMemory
variable {t : Target}

namespace Wrapper
variable {k : WrapperKind} {B : Backend}

/-- `Serialize::serialize`, with the `serialize_str` of a format. -/
def serialize {ε Out : Type} (serializeStr : Str t → Except ε Out) (self : Wrapper t k B) :
    Exec t (Except ε Out) := do
  return serializeStr (← self.asStr)

/-- `Arbitrary::arbitrary`, with what an `Unstructured` gives for `&str` and for `bool`. -/
def arbitrary {ε : Type} (A : Allocator t) (str : Exec t (Except ε (StrRef t)))
    (bool : Exec t (Except ε Bool)) : Exec t (Except ε (Wrapper t k B)) := do
  match ← str with
  | .error e => return .error e
  | .ok value =>
    match k with
    | .lifetimeKind =>
      match ← bool with
      | .error e => return .error e
      | .ok true => return .ok (← ofString A value.str)
      | .ok false => return .ok (← ofStr value)
    | .staticKind => return .ok (← ofString A value.str)

end Wrapper

/-- A format hands the string to whatever visitor it is given, as part of its input if it
lends it. -/
inductive Hands {ε α : Type} (deserializeStr : Visitor t ε α → Exec t (Except ε α)) (s : Str t)
    (w₀ w : World t) : Option (Usize t) → Prop
  | visitStr (r : StrRef t) (hr : r.str = s) (h : ∀ v, deserializeStr v w₀ = v.visitStr r w) :
      Hands deserializeStr s w₀ w none
  | visitString (h : ∀ v, deserializeStr v w₀ = v.visitString s w) :
      Hands deserializeStr s w₀ w none
  | visitBorrowedStr (ptr : Usize t)
      (hread : read w.mem ptr s.bytes.length = some s.bytes)
      (h : ∀ v, deserializeStr v w₀ = v.visitBorrowedStr ⟨ptr, s⟩ w) :
      Hands deserializeStr s w₀ w (some ptr)

/-- What the visitor of a wrapper takes the string for. -/
def Cow.handed (s : Str t) : WrapperKind → Option (Usize t) → Cow t
  | .lifetimeKind, some ptr => .borrowed ⟨ptr, s⟩
  | _, _ => .owned s

def Cow.text : Cow t → Text t
  | .borrowed r => ⟨r.str, .borrowed r.ptr⟩
  | .owned s => .owned s

lemma Cow.text_handed_str (s : Str t) (k : WrapperKind) (lent : Option (Usize t)) :
    (Cow.handed s k lent).text.str = s := by
  cases k <;> cases lent <;> rfl

lemma Cow.handed_tag_ne_borrowed (s : Str t) {k : WrapperKind} (hk : k = .staticKind)
    (lent : Option (Usize t)) : (Cow.handed s k lent).text.origin.tag ≠ .borrowed := by
  subst hk
  exact Text.owned_tag_ne_borrowed s

lemma Cow.handed_eq_owned {s : Str t} {k : WrapperKind} {lent : Option (Usize t)}
    (h : (Cow.handed s k lent).text.origin.tag ≠ .borrowed) : Cow.handed s k lent = .owned s := by
  cases k with
  | staticKind => rfl
  | lifetimeKind =>
    cases lent with
    | none => rfl
    | some ptr => exact absurd rfl h

namespace Wrapper
variable {k : WrapperKind} {B : Backend} {A : Allocator t} {ε : Type} {s : Str t} {c : Cow t}
  {w₀ w w' : World t} {lent : Option (Usize t)} {u : Wrapper t k B}
  {d : Visitor t ε (Wrapper t k B) → Exec t (Except ε (Wrapper t k B))}

lemma represents_of_ofCow (hrun : ofCow A c w = .ok u w')
    (hread : ∀ r, c = .borrowed r → read w.mem r.ptr r.str.bytes.length = some r.str.bytes) :
    u.inner.Represents w' c.text := by
  cases c with
  | borrowed r =>
    rw [run_ofCow_borrowed] at hrun
    split_ifs at hrun with hs
    cases hrun
    exact .borrowed hs (hread r rfl)
  | owned s =>
    rw [run_ofCow_owned] at hrun
    obtain ⟨v, hv, rfl⟩ := exists_of_run_map hrun
    exact (Represents.of_fromOwnedLike hv).2

/-- Every call of the visitor is the conversion from a `Cow`. -/
lemma run_deserialize (h : Hands d s w₀ w lent) : deserialize A d w₀ =
    (do return .ok (← ofCow A (.handed s k lent)) : Exec t (Except ε (Wrapper t k B))) w := by
  cases h with
  | visitStr r hr h =>
    subst hr
    refine (h _).trans ((Visits.visitStr r).run_eq.trans ?_)
    cases k <;> rfl
  | visitString h =>
    refine (h _).trans ((Visits.visitString s).run_eq.trans ?_)
    cases k <;> rfl
  | visitBorrowedStr ptr hread h =>
    cases k with
    | lifetimeKind => exact (h _).trans (Visits.visitBorrowedStr ⟨ptr, s⟩).run_eq
    | staticKind => exact (h _).trans (Visits.visitBorrowedStr_static ⟨ptr, s⟩).run_eq

/-- A value that was read stands for the string that the format handed over. -/
lemma represents_of_deserialize (h : Hands d s w₀ w lent)
    (hrun : deserialize A d w₀ = .ok (.ok u) w') :
    u.inner.Represents w' (Cow.handed s k lent).text := by
  rw [run_deserialize h] at hrun
  obtain ⟨u', hu, heq⟩ := exists_of_run_map hrun
  cases heq
  refine represents_of_ofCow hu fun r hr => ?_
  cases h with
  | visitStr | visitString => cases k <;> cases hr
  | visitBorrowedStr ptr hread _ =>
    cases k with
    | lifetimeKind =>
      cases hr
      exact hread
    | staticKind => cases hr

/-- An arbitrary value is made of the string that was generated; a coin decides whether a wrapper
with a lifetime keeps it borrowed. -/
lemma run_arbitrary {str : Exec t (Except ε (StrRef t))} {bool : Exec t (Except ε Bool)}
    {r : StrRef t} {b : Bool} (hstr : str w₀ = .ok (.ok r) w)
    (hbool : k = .lifetimeKind → bool w = .ok (.ok b) w) : arbitrary A str bool w₀ =
      (do return .ok (← ofCow A (.handed r.str k (if b then none else some r.ptr))) :
        Exec t (Except ε (Wrapper t k B))) w := by
  have howned : ∀ {k : WrapperKind}, (do return .ok (← ofString A r.str) :
      Exec t (Except ε (Wrapper t k B))) w =
        (do return .ok (← ofCow A (.owned r.str)) : Exec t (Except ε (Wrapper t k B))) w :=
    run_bind_congr (run_ofCow_owned r.str w).symm _
  refine (run_bind hstr _).trans ?_
  cases k with
  | staticKind => exact howned
  | lifetimeKind =>
    refine (run_bind (hbool rfl) _).trans ?_
    cases b with
    | true => exact howned
    | false => exact run_bind_congr (run_ofStr r w) _

end Wrapper

/-- A value in a program that runs on some target. -/
structure Parcel where
  target : Target
  kind : WrapperKind
  backend : Backend
  world : World target
  value : Wrapper target kind backend

namespace Parcel

/-- The value of one program is written in some format, and another program reads a value from
what was written. The format hands over the bytes that were written. -/
inductive Hop (p q : Parcel) : Prop
  | hop {ε Out : Type} {serializeStr : Str p.target → Except ε Out} {out : Out}
      {d : Visitor q.target ε (Wrapper q.target q.kind q.backend) →
        Exec q.target (Except ε (Wrapper q.target q.kind q.backend))}
      {A : Allocator q.target} {w : World p.target} {w₀ : World q.target}
      (hwrite : p.value.serialize serializeStr p.world = .ok (.ok out) w)
      (hformat : ∀ s, serializeStr s = .ok out → ∃ s' w₁ lent, s'.bytes = s.bytes ∧
        Hands d s' w₀ w₁ lent)
      (hread : Wrapper.deserialize A d w₀ = .ok (.ok q.value) q.world) : Hop p q

/-- The value of the parcel stands for a text of these bytes. -/
def Carries (p : Parcel) (bytes : List UInt8) : Prop :=
  ∃ x, p.value.inner.Represents p.world x ∧ x.str.bytes = bytes

/-- A value that was read is not borrowed if its type is `'static`, and kept inline if it is
owned and short. -/
structure Received (p : Parcel) (bytes : List UInt8) : Prop where
  carries : p.Carries bytes
  static : p.kind = .staticKind → p.value.isBorrowed = false
  inline_iff : p.value.isBorrowed = false →
    (p.value.isInline = true ↔ bytes.length ≤ p.target.inlineCapacity)

variable {p q : Parcel} {bytes : List UInt8}

lemma run_serialize {k : WrapperKind} {B : Backend} {v : Wrapper t k B} {w : World t}
    {x : Text t} (hx : v.inner.Represents w x) {ε Out : Type}
    (serializeStr : Str t → Except ε Out) :
    v.serialize serializeStr w = .ok (serializeStr x.str) w := run_map hx.run_asStr _

lemma Hop.received (h : Hop p q) (hp : p.Carries bytes) : q.Received bytes := by
  obtain ⟨x, hx, rfl⟩ := hp
  obtain ⟨hwrite, hformat, hread⟩ := h
  rw [run_serialize hx] at hwrite
  obtain ⟨s, w₁, lent, hbytes, hhands⟩ := hformat x.str (EStateM.Result.ok.inj hwrite).1
  have hq := Wrapper.represents_of_deserialize hhands hread
  have hstr := Cow.text_handed_str s q.kind lent
  have hborrowed : q.value.isBorrowed = true ↔
      (Cow.handed s q.kind lent).text.origin.tag = .borrowed := hq.encodes.isBorrowed_iff
  have hinline : q.value.isInline = true ↔
      (Cow.handed s q.kind lent).text.origin.tag = .inline := hq.encodes.isInline_iff
  refine ⟨⟨_, hq, (congrArg Str.bytes hstr).trans hbytes⟩, fun hkind => ?_, fun hb => ?_⟩
  · exact Bool.eq_false_iff.mpr (hborrowed.not.mpr (Cow.handed_tag_ne_borrowed s hkind lent))
  · have howned := Cow.handed_eq_owned (hborrowed.not.mp (Bool.eq_false_iff.mp hb))
    rw [hinline, howned, ← hbytes]
    change (Text.owned s).origin.tag = .inline ↔ _
    by_cases hs : s.bytes.length ≤ q.target.inlineCapacity
    · rw [Text.owned_of_le s hs]
      exact iff_of_true rfl hs
    · rw [Text.owned_of_not_le s hs]
      exact iff_of_false (by simp) hs

lemma received_of_relay (h : Relation.TransGen Hop p q) (hp : p.Carries bytes) :
    q.Received bytes := by
  induction h with
  | single h => exact h.received hp
  | tail _ h ih => exact h.received ih.carries

/-- A value that is handed on from program to program, in any formats and by any of the wrappers
on any targets, arrives with the contents that it had, and its words say of them what those of
the first value did. -/
theorem relay_preserves {events : List (Event t)} {sys : Sys t} {i : ℕ} {k : WrapperKind}
    {B : Backend} {v : Wrapper t k B} (hsys : Sys.Session events sys)
    (hv : sys.slots[i]? = some (.value k B v))
    (h : Relation.TransGen Hop ⟨t, k, B, sys.world, v⟩ q) :
    ∃ (s : Str t) (s' : Str q.target), v.asStr sys.world = .ok s sys.world ∧
      q.value.asStr q.world = .ok s' q.world ∧ s'.bytes = s.bytes ∧
      q.value.len.toNat = v.len.toNat ∧ q.value.isAscii = v.isAscii ∧
      (q.kind = .staticKind → q.value.isBorrowed = false) ∧
      (q.value.isBorrowed = false →
        (q.value.isInline = true ↔ s.bytes.length ≤ q.target.inlineCapacity)) := by
  obtain ⟨x, hx⟩ := hsys.tenable.represents hv
  obtain ⟨⟨y, hy, hbytes⟩, hstatic, hinline⟩ := received_of_relay h ⟨x, hx, rfl⟩
  have hlen : v.len.toNat = x.str.bytes.length := hx.len_toNat
  have hlen' : q.value.len.toNat = y.str.bytes.length := hy.len_toNat
  have hascii : v.isAscii = x.str.isAscii := hx.encodes.hasTag.isAscii_eq
  have hascii' : q.value.isAscii = y.str.isAscii := hy.encodes.hasTag.isAscii_eq
  refine ⟨x.str, y.str, hx.run_asStr, hy.run_asStr, hbytes, ?_, ?_, hstatic, hinline⟩
  · rw [hlen, hlen', hbytes]
  · rw [hascii, hascii', Str.isAscii, Str.isAscii, hbytes]

/-- Twenty shared letters go from a 64-bit little endian target to a 32-bit big endian one, in a
format that writes the plain bytes, and become a `'static` value there. -/
theorem relay_preserves_letters : ∃ (v : Wrapper .x64LE .lifetimeKind .sharedBackend)
    (w : World .x64LE) (q : Parcel), v.isShared = true ∧ q.target = .x86BE ∧
      Relation.TransGen Hop ⟨.x64LE, _, _, w, v⟩ q ∧ q.value.isBorrowed = false ∧
      q.value.len.toNat = 20 := by
  let s : Str .x86BE := .letters 20 (by decide)
  let write : Str .x64LE → Except Unit (List UInt8) := fun s => .ok s.bytes
  let d : Visitor .x86BE Unit (Wrapper .x86BE .staticKind .localBackend) →
      Exec .x86BE (Except Unit (Wrapper .x86BE .staticKind .localBackend)) :=
    fun visitor => visitor.visitString s
  have hrun := Sys.Run.sharedTwenty .lifetimeKind .sharedBackend
  have hv := RefStrCore.sharedTwenty_represents .sharedBackend World.empty
  have hptr : (Allocator.firstFit (t := .x86BE) [16#32]).pick .empty s.bytes.length =
      some 16#32 := Allocator.firstFit_pick [] rfl fun _ _ => rfl
  obtain ⟨u, w, hu, -⟩ := Represents.exists_fromOwnedLike (B := .localBackend) (s := s)
    (by decide) fun _ => congrArg Option.isSome hptr
  have hhands : Hands d s .empty .empty none := .visitString fun _ => rfl
  have hread : Wrapper.deserialize (.firstFit (t := .x86BE) [16#32]) d .empty = .ok (.ok ⟨u⟩) w :=
    (Wrapper.run_deserialize hhands).trans (run_map (Wrapper.run_ofCow_ok hu) _)
  let q : Parcel := ⟨.x86BE, .staticKind, .localBackend, w, ⟨u⟩⟩
  have hhop : Hop ⟨.x64LE, .lifetimeKind, .sharedBackend, _, ⟨.sharedTwenty _⟩⟩ q :=
    .hop (run_serialize hv write) (fun r hr => ⟨s, _, _, Except.ok.inj hr ▸ rfl, hhands⟩) hread
  have hrelay := Relation.TransGen.single hhop
  obtain ⟨-, -, -, -, -, hlen, -, hstatic, -⟩ := relay_preserves (i := 0) hrun.session rfl hrelay
  exact ⟨⟨.sharedTwenty _⟩, _, q, hv.encodes.isShared_eq, rfl, hrelay, hstatic rfl,
    hlen.trans (by decide)⟩

end Parcel
end RefStr
