import RefStr.RawCodec
import RefStr.Text

/-! What two words say about a text. Every predicate and decoder of the payload is settled
here once, whichever constructor packed the words. -/
namespace RefStr
open Arch
variable {t : Target}

/-- The metadata word of a borrowed or shared payload. -/
def metaOf (tag : StateTag) (s : Str t) : Usize t :=
  packWord s.len tag s.isAscii (lowHash t (shortHash s.bytes))

/-- Lengths that the metadata word has room for. -/
def Str.Compressible (s : Str t) : Prop := s.len ≤ t.maxBorrowedOrSharedLen

instance (s : Str t) : Decidable s.Compressible := inferInstanceAs (Decidable (_ ≤ _))

lemma inlineCapacity_lt (t : Target) : t.inlineCapacity < 2 ^ t.lenBits := by
  rcases t with ⟨_ | _ | _, _ | _, _⟩ <;> decide +revert

lemma Str.compressible_of_le {s : Str t} (h : s.bytes.length ≤ t.inlineCapacity) :
    s.Compressible := by
  have hcap := inlineCapacity_lt t
  refine holds_len_iff.mp ?_
  change s.len.toNat < 2 ^ t.lenBits
  rw [s.len_toNat]
  omega

section Meta
variable {s : Str t} (h : s.Compressible) (tag : StateTag)
include h

lemma metaOf_bit {k : ℕ} (hk : k < 4) :
    (metaOf tag s).getLsbD (t.tagShift + k) = (tagNibble tag s.isAscii).testBit k :=
  packWord_bit tag _ (holds_len_iff.mpr h) (lowHash_holds t _) hk

lemma metaOf_len : decodeBorrowedOrSharedLen (metaOf tag s) = s.len := by
  rw [decodeBorrowedOrSharedLen_eq]
  exact packWord_len tag _ (holds_len_iff.mpr h) (lowHash_holds t _)

lemma metaOf_hash : decodeCachedHash (metaOf tag s) = lowHash t (shortHash s.bytes) := by
  rw [decodeCachedHash_eq]
  exact packWord_hash tag _ (holds_len_iff.mpr h) (lowHash_holds t _)

lemma metaOf_ne_zero : metaOf tag s ≠ 0#_ := ne_zero_of_bits _ fun _ hk => metaOf_bit h tag hk

end Meta

def RawParts.ofStr (ptr : Usize t) (tag : StateTag) (s : Str t) (h : s.Compressible) :
    RawParts t :=
  ⟨ptr, ⟨metaOf tag s, metaOf_ne_zero h tag⟩⟩

lemma encode_str (tag : StateTag) (s : Str t) :
    encodeLenTagHash s.len tag (shortHash s.bytes) =
      if s.Compressible then .ok (packWord s.len tag false (lowHash t (shortHash s.bytes)))
      else .error (.panic tooLarge) :=
  encodeLenTagHash_eq tag _

lemma encode_isAscii (tag : StateTag) (s : Str t) :
    (if s.isAscii then
      packWord s.len tag false (lowHash t (shortHash s.bytes)) ||| t.isAsciiMask
    else packWord s.len tag false (lowHash t (shortHash s.bytes))) = metaOf tag s := by
  rw [metaOf]
  cases s.isAscii with
  | false => rfl
  | true => exact packWord_or_isAsciiMask tag _

lemma RawParts.new_ofStr {tag : StateTag} (htag : tag ≠ .inline) (ptr : Usize t) {s : Str t}
    (h : s.Compressible) : RawParts.new ptr (metaOf tag s) = .ok (.ofStr ptr tag s h) := by
  obtain ⟨p, hp, hnew⟩ := new_packWord htag h (shortHash s.bytes) s.isAscii ptr
  obtain ⟨hptr, hm⟩ := Prod.ext_iff.mp hp
  rw [metaOf, hnew, ext_words (q := .ofStr ptr tag s h) hptr hm]

namespace RawParts

/-- The two words are those of the text. -/
inductive Encodes : RawParts t → Text t → Prop
  | borrowed (ptr : Usize t) (s : Str t) (h : s.Compressible) :
      Encodes (ofStr ptr .borrowed s h) ⟨s, .borrowed ptr⟩
  | shared (ptr : Usize t) (s : Str t) (h : s.Compressible) :
      Encodes (ofStr ptr .shared s h) ⟨s, .shared⟩
  | inline {p : RawParts t} {s : Str t} (hs : s.bytes.length ≤ t.inlineCapacity)
      (hp : packInline s = .ok p) : Encodes p ⟨s, .inline⟩

namespace Encodes
variable {p : RawParts t} {x : Text t}

lemma hasTag (h : p.Encodes x) : p.HasTag x.origin.tag x.str.isAscii := by
  cases h with
  | borrowed ptr s h => exact fun _ hk => metaOf_bit h .borrowed hk
  | shared ptr s h => exact fun _ hk => metaOf_bit h .shared hk
  | inline hs hp => exact packInline_hasTag hs (bytes_of_packInline hs hp)

lemma isInline_eq (h : p.Encodes x) : p.isInline = decide (x.origin.tag = .inline) :=
  h.hasTag.isInline_eq

lemma isShared_eq (h : p.Encodes x) : p.isShared = decide (x.origin.tag = .shared) :=
  h.hasTag.isShared_eq

lemma isBorrowed_eq (h : p.Encodes x) : p.isBorrowed = decide (x.origin.tag = .borrowed) :=
  h.hasTag.isBorrowed_eq

lemma isInline_iff (h : p.Encodes x) : p.isInline = true ↔ x.origin.tag = .inline := by
  rw [h.isInline_eq, decide_eq_true_iff]

lemma isShared_iff (h : p.Encodes x) : p.isShared = true ↔ x.origin.tag = .shared := by
  rw [h.isShared_eq, decide_eq_true_iff]

lemma isBorrowed_iff (h : p.Encodes x) : p.isBorrowed = true ↔ x.origin.tag = .borrowed := by
  rw [h.isBorrowed_eq, decide_eq_true_iff]

lemma inlineMask_iff (h : p.Encodes x) :
    p.metaWord &&& t.inlineMask ≠ 0#_ ↔ x.origin.tag = .inline :=
  decide_eq_decide.mp h.isInline_eq

lemma needsDropMask_iff (h : p.Encodes x) :
    p.metaWord &&& t.needsDropMask ≠ 0#_ ↔ x.origin.tag = .shared :=
  decide_eq_decide.mp h.isShared_eq

lemma decode_len (h : p.Encodes x) (hx : x.origin.tag ≠ .inline) :
    decodeBorrowedOrSharedLen p.metaWord = x.str.len := by
  cases h with
  | borrowed ptr s h => exact metaOf_len h _
  | shared ptr s h => exact metaOf_len h _
  | inline => exact absurd rfl hx

lemma cachedHash_eq (h : p.Encodes x) (hx : x.origin.tag ≠ .inline) :
    p.cachedHash = lowHash t (shortHash x.str.bytes) := by
  cases h with
  | borrowed ptr s h => exact metaOf_hash h _
  | shared ptr s h => exact metaOf_hash h _
  | inline => exact absurd rfl hx

lemma len_eq (h : p.Encodes x) : p.len = x.str.len := by
  by_cases hx : x.origin.tag = .inline
  · cases h with
    | borrowed => cases hx
    | shared => cases hx
    | inline hs hp => exact packInline_len hs (bytes_of_packInline hs hp)
  · rw [len, if_neg (h.inlineMask_iff.not.mpr hx), h.decode_len hx]

lemma compressible (h : p.Encodes x) (hx : x.origin.tag ≠ .inline) : x.str.Compressible := by
  cases h with
  | borrowed ptr s h => exact h
  | shared ptr s h => exact h
  | inline => exact absurd rfl hx

lemma bytes_take {s : Str t} (h : p.Encodes ⟨s, .inline⟩) :
    p.bytes.take s.bytes.length = s.bytes := by
  cases h with
  | inline hs hp => rw [bytes_of_packInline hs hp, inlineBuffer_take hs]

/-- Rebuilding a payload from its fields gives it back. -/
lemma new_eq (h : p.Encodes x) : RawParts.new p.rawPtr p.metaWord = .ok p := by
  cases h with
  | borrowed ptr s h => exact new_ofStr (by decide) ptr h
  | shared ptr s h => exact new_ofStr (by decide) ptr h
  | inline hs hp =>
    have hbytes := bytes_of_packInline hs hp
    refine (packInline_hasTag hs hbytes).new_eq.trans (if_pos ?_)
    rw [decodedLen, packInline_inlineLen hs hbytes, Str.len_toNat]
    exact hs

lemma packInline_eq {s : Str t} (h : p.Encodes ⟨s, .inline⟩) : packInline s = .ok p := by
  cases h with
  | inline hs hp => exact hp

lemma length_le (h : p.Encodes x) (hx : x.origin.tag = .inline) :
    x.str.bytes.length ≤ t.inlineCapacity := by
  cases h with
  | borrowed => cases hx
  | shared => cases hx
  | inline hs => exact hs

lemma metaWord_eq (h : p.Encodes x) (hx : x.origin.tag ≠ .inline) :
    p.metaWord = metaOf x.origin.tag x.str := by
  cases h with
  | borrowed => rfl
  | shared => rfl
  | inline => exact absurd rfl hx

/-- Payloads of one string in one state have one metadata word. -/
lemma metaWord_congr {q : RawParts t} {y : Text t} (h : p.Encodes x) (h' : q.Encodes y)
    (hstr : x.str = y.str) (htag : x.origin.tag = y.origin.tag) : p.metaWord = q.metaWord := by
  by_cases hx : x.origin.tag = .inline
  · cases h with
    | borrowed => cases hx
    | shared => cases hx
    | inline hs hp =>
      cases h' with
      | borrowed => cases htag
      | shared => cases htag
      | inline hs' hq =>
        obtain rfl : _ = _ := hstr
        rw [Except.ok.inj (hp.symm.trans hq)]
  · rw [h.metaWord_eq hx, h'.metaWord_eq (htag ▸ hx), hstr, htag]

lemma rawPtr_eq {s : Str t} {ptr : Usize t} (h : p.Encodes ⟨s, .borrowed ptr⟩) :
    p.rawPtr = ptr := by
  cases h
  rfl

end Encodes
end RawParts
end RefStr
