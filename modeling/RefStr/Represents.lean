import RefStr.Ops
import RefStr.Heap
import RefStr.Encoding

/-! What a value stands for in a given world, and what every operation of the core computes
on it: one equation for each operation, with the world it leaves behind. -/
namespace RefStr
open Arch ByteMemory
variable {t : Target} {B : Backend}

/-- A pointer to a live allocation of the backend that holds the string. -/
structure Handle (w : World t) (B : Backend) (p : RawStr t) (s : Str t) : Prop where
  len : p.len = s.len
  counted : w.counts ⟨B, p⟩ ≠ none
  read : read w.mem p.ptr s.bytes.length = some s.bytes

section Backend
variable {w : World t} {p : RawStr t} {s : Str t}

lemma run_readRaw (hl : p.len = s.len)
    (h : read w.mem p.ptr s.bytes.length = some s.bytes) : readRaw p w = .ok s.bytes w := by
  rw [readRaw, hl, s.len_toNat, h]

lemma run_derefRaw (hl : p.len = s.len)
    (h : read w.mem p.ptr s.bytes.length = some s.bytes) :
    derefRaw p w = .ok ⟨p.ptr, s⟩ w := by
  rw [derefRaw, run_bind (run_readRaw hl h), run_bind (run_lift (fromUtf8Unchecked_bytes s))]
  rfl

namespace Handle

lemma run_deref (h : Handle w B p s) : Backend.deref (⟨p⟩ : Shared t B) w = .ok s w := by
  rw [Backend.deref, run_bind (run_derefRaw h.len h.read)]
  rfl

lemma run_incrementStrongCount (h : Handle w B p s) :
    Backend.incrementStrongCount B p w = .ok () (w.retain p.ptr) := by
  obtain ⟨n, hn⟩ := Option.ne_none_iff_exists'.mp h.counted
  rw [Backend.incrementStrongCount, hn]

lemma run_fromRaw (h : Handle w B p s) : Backend.fromRaw B p w = .ok ⟨p⟩ w := by
  obtain ⟨n, hn⟩ := Option.ne_none_iff_exists'.mp h.counted
  rw [Backend.fromRaw, hn]

lemma run_cloneShared (h : Handle w B p s) :
    Backend.cloneShared (⟨p⟩ : Shared t B) w = .ok ⟨p⟩ (w.retain p.ptr) := by
  rw [Backend.cloneShared, run_bind h.run_incrementStrongCount]
  rfl

lemma run_dropShared (h : Handle w B p s) :
    Backend.dropShared (⟨p⟩ : Shared t B) w = .ok () (w.release p.ptr) := by
  obtain ⟨n, hn⟩ := Option.ne_none_iff_exists'.mp h.counted
  simp only [Backend.dropShared, hn]

end Handle

/-- A handle stays valid while its allocation stays counted. -/
lemma Handle.of_steady {w' : World t} (h : Handle w B p s) (hsound : w'.Sound)
    (hmem : Steady w.mem w'.mem) (hcount : w'.counts ⟨B, p⟩ ≠ none) : Handle w' B p s := by
  refine ⟨h.len, hcount, read_of_steady hmem h.read ?_⟩
  rw [← s.len_toNat, ← h.len]
  exact hsound.mapped_of_counts hcount

lemma Handle.release {o : Owner t} (h : Handle w B p s) (hsound : w.Sound)
    (ho : w.counts o ≠ none) (hne : p.ptr ≠ o.raw.ptr) :
    Handle (w.release o.raw.ptr) B p s := by
  refine h.of_steady (hsound.release _) (World.steady_release _ _) ?_
  have hne' : (⟨B, p⟩ : Owner t) ≠ o := by
    rintro rfl
    exact hne rfl
  rw [World.counts_release ho, Ledger.release, Function.update_of_ne hne']
  exact h.counted

lemma Handle.release_self (h : Handle w B p s) (hcount : 1 < w.strongCount p.ptr) :
    Handle (w.release p.ptr) B p s := by
  obtain ⟨a, ha, hB, hl⟩ := World.counts_ne_none_iff.mp h.counted
  rw [World.strongCount_of_eq_some ha] at hcount
  have hmem : (w.release p.ptr).mem = w.mem := by rw [World.mem_release ha, if_neg (by omega)]
  refine ⟨h.len, World.counts_ne_none_iff.mpr ⟨{ a with strong := a.strong - 1 }, ?_, hB, hl⟩,
    hmem.symm ▸ h.read⟩
  rw [World.heap_release ha, Function.update_self, if_neg (by omega)]

lemma Handle.retain (h : Handle w B p s) : Handle (w.retain p.ptr) B p s := by
  obtain ⟨n, hn⟩ := Option.ne_none_iff_exists'.mp h.counted
  refine ⟨h.len, ?_, h.read⟩
  rw [World.counts_retain (o := ⟨B, p⟩) h.counted, Ledger.retain, Function.update_self, hn]
  exact Option.some_ne_none _

lemma Handle.allocate (w : World t) (B : Backend) (ptr : Usize t) (s : Str t) :
    Handle (w.allocate B ptr s) B ⟨ptr, s.len⟩ s := by
  refine ⟨rfl, ?_, World.read_allocate w B ptr s⟩
  rw [World.counts_ne_none_iff]
  exact ⟨⟨B, s.len, 1⟩, by simp [World.heap_allocate], rfl, rfl⟩

lemma run_allocate {A : Allocator t} {ptr : Usize t}
    (h : A.pick w s.bytes.length = some ptr) :
    Backend.allocate A B s w = .ok ⟨⟨ptr, s.len⟩⟩ (w.allocate B ptr s) := by
  rw [Backend.allocate, h]

lemma run_allocate_error {A : Allocator t} (h : A.pick w s.bytes.length = none) :
    Backend.allocate A B s w = .error .aborted w := by
  rw [Backend.allocate, h]

end Backend

/-- The text as a `Cow`: borrowed from where it was taken, or owned. -/
def Text.cow (x : Text t) : Cow t :=
  match x.origin with
  | .borrowed ptr => .borrowed ⟨ptr, x.str⟩
  | _ => .owned x.str

@[simp] lemma Text.cow_str (x : Text t) : x.cow.str = x.str := by
  rcases x with ⟨_, _ | _ | _⟩ <;> rfl

namespace RefStrCore

/-- The value stands for the text: its words encode it, and the memory behind them is
readable, or counted and readable. -/
inductive Represents (w : World t) : RefStrCore t B → Text t → Prop
  | borrowed {ptr : Usize t} {s : Str t} (h : s.Compressible)
      (hread : read w.mem ptr s.bytes.length = some s.bytes) :
      Represents w ⟨.ofStr ptr .borrowed s h⟩ ⟨s, .borrowed ptr⟩
  | inline {p : RawParts t} {s : Str t} (hs : s.bytes.length ≤ t.inlineCapacity)
      (hp : RawParts.packInline s = .ok p) : Represents w ⟨p⟩ ⟨s, .inline⟩
  | shared {ptr : Usize t} {s : Str t} (h : s.Compressible)
      (hh : Handle w B ⟨ptr, s.len⟩ s) :
      Represents w ⟨.ofStr ptr .shared s h⟩ ⟨s, .shared⟩

def owners (v : RefStrCore t B) : List (Owner t) :=
  if v.isShared then [⟨B, v.parts.intoRawNonInline⟩] else []

def borrows (v : RefStrCore t B) : List (RawStr t) :=
  if v.isBorrowed then [v.parts.intoRawNonInline] else []

def afterClone (v : RefStrCore t B) (w : World t) : World t :=
  if v.isShared then w.retain v.parts.rawPtr else w

lemma mem_afterClone (v : RefStrCore t B) (w : World t) : (v.afterClone w).mem = w.mem := by
  rw [afterClone]
  split_ifs <;> rfl

def afterDrop (v : RefStrCore t B) (w : World t) : World t :=
  if v.isShared then w.release v.parts.rawPtr else w

section Construct
variable {w : World t} {A : Allocator t} {s : Str t} {p : RawStr t} {ptr : Usize t}

lemma fromStr_eq (s : StrRef t) : (fromStr s : Except Fault (RefStrCore t B)) =
    if h : s.str.Compressible then .ok ⟨.ofStr s.ptr .borrowed s.str h⟩
    else .error (.panic tooLarge) := by
  by_cases h : s.str.Compressible
  · have henc := (encode_str .borrowed s.str).trans (if_pos h)
    have hnew := RawParts.new_ofStr (by decide : StateTag.borrowed ≠ .inline) s.ptr h
    rw [dif_pos h, fromStr, henc]
    simp only [bind, Except.bind, pure, Except.pure, encode_isAscii, hnew, fromRawPartsStruct]
  · have henc := (encode_str .borrowed s.str).trans (if_neg h)
    rw [dif_neg h, fromStr, henc]
    rfl

/-- The handle is handed over whether or not the length fits: on a panic the count stays. -/
lemma run_fromShared (h : Handle w B p s) : fromShared (⟨p⟩ : Shared t B) w =
    if hs : s.Compressible then .ok ⟨.ofStr p.ptr .shared s hs⟩ w
    else .error (.panic tooLarge) w := by
  rw [fromShared, run_bind (run_onUnwind h.run_deref)]
  by_cases hs : s.Compressible
  · have henc := (encode_str .shared s).trans (if_pos hs)
    have hnew := RawParts.new_ofStr (by decide : StateTag.shared ≠ .inline) p.ptr hs
    rw [dif_pos hs]
    refine (run_bind (run_lift henc) _).trans ?_
    simp only [encode_isAscii]
    exact run_bind (run_lift hnew) _
  · have henc := (encode_str .shared s).trans (if_neg hs)
    rw [dif_neg hs]
    exact run_bind_error (run_lift_error henc) _

lemma newInline_eq (hs : s.bytes.length ≤ t.inlineCapacity) :
    ∃ q, RawParts.packInline s = .ok q ∧
      (newInline s : Except Fault (RefStrCore t B)) = .ok ⟨q⟩ := by
  obtain ⟨q, hq, -⟩ := RawParts.packInline_bytes hs
  refine ⟨q, hq, ?_⟩
  rw [newInline, hq]
  rfl

lemma supportsInlineLen_iff (s : Str t) :
    supportsInlineLen s.len = true ↔ s.bytes.length ≤ t.inlineCapacity := by
  rw [supportsInlineLen, decide_eq_true_iff, s.len_toNat]

lemma run_fromOwnedLike_inline (hs : s.bytes.length ≤ t.inlineCapacity) :
    ∃ q, RawParts.packInline s = .ok q ∧
      (fromOwnedLike A s : Exec t (RefStrCore t B)) w = .ok ⟨q⟩ w := by
  obtain ⟨q, hq, hnew⟩ := newInline_eq (B := B) hs
  refine ⟨q, hq, ?_⟩
  rw [fromOwnedLike, if_pos ((supportsInlineLen_iff s).mpr hs)]
  exact run_lift hnew

/-- A long string is copied into an allocation first, which a panic leaves behind. -/
lemma run_fromOwnedLike_shared (hs : ¬ s.bytes.length ≤ t.inlineCapacity)
    (hptr : A.pick w s.bytes.length = some ptr) :
    (fromOwnedLike A s : Exec t (RefStrCore t B)) w =
      if h : s.Compressible then .ok ⟨.ofStr ptr .shared s h⟩ (w.allocate B ptr s)
      else .error (.panic tooLarge) (w.allocate B ptr s) := by
  rw [fromOwnedLike, if_neg ((supportsInlineLen_iff s).not.mpr hs), Backend.fromStr,
    run_bind (run_allocate hptr)]
  exact run_fromShared (Handle.allocate w B ptr s)

lemma run_fromOwnedLike_aborted (hs : ¬ s.bytes.length ≤ t.inlineCapacity)
    (hptr : A.pick w s.bytes.length = none) :
    (fromOwnedLike A s : Exec t (RefStrCore t B)) w = .error .aborted w := by
  rw [fromOwnedLike, if_neg ((supportsInlineLen_iff s).not.mpr hs), Backend.fromStr]
  exact run_bind_error (run_allocate_error hptr) _

lemma fromOwnedString_eq (A : Allocator t) (s : Str t) :
    (fromOwnedString A s : Exec t (RefStrCore t B)) = fromOwnedLike A s := (rfl)

lemma fromOwnedBoxedStr_eq (A : Allocator t) (s : Str t) :
    (fromOwnedBoxedStr A s : Exec t (RefStrCore t B)) = fromOwnedLike A s := (rfl)

end Construct

namespace Represents
variable {w : World t} {v : RefStrCore t B} {x : Text t} {s : Str t} {ptr : Usize t}

lemma encodes (h : v.Represents w x) : v.parts.Encodes x := by
  cases h with
  | borrowed h => exact .borrowed _ _ h
  | inline hs hp => exact .inline hs hp
  | shared h => exact .shared _ _ h

lemma intoRawNonInline_eq (h : v.Represents w x) (hx : x.origin.tag ≠ .inline) :
    v.parts.intoRawNonInline = ⟨v.parts.rawPtr, x.str.len⟩ := by
  rw [RawParts.intoRawNonInline, h.encodes.decode_len hx]

lemma handle (h : v.Represents w ⟨s, .shared⟩) : Handle w B ⟨v.parts.rawPtr, s.len⟩ s := by
  cases h with
  | shared h hh => exact hh

lemma of_handle {w' : World t} (h : v.Represents w ⟨s, .shared⟩)
    (hh : Handle w' B ⟨v.parts.rawPtr, s.len⟩ s) : v.Represents w' ⟨s, .shared⟩ := by
  cases h with
  | shared h => exact .shared h hh

lemma len_toNat (h : v.Represents w x) : v.len.toNat = x.str.bytes.length := by
  rw [len, h.encodes.len_eq, x.str.len_toNat]

lemma owners_shared (h : v.Represents w ⟨s, .shared⟩) :
    v.owners = [⟨B, ⟨v.parts.rawPtr, s.len⟩⟩] := by
  rw [owners, isShared, h.encodes.isShared_eq, h.intoRawNonInline_eq (by simp)]
  rfl

lemma owners_eq_nil (h : v.Represents w x) (hx : x.origin.tag ≠ .shared) : v.owners = [] :=
  if_neg (h.encodes.isShared_iff.not.mpr hx)

lemma borrows_borrowed (h : v.Represents w ⟨s, .borrowed ptr⟩) :
    v.borrows = [⟨ptr, s.len⟩] := by
  rw [borrows, isBorrowed, h.encodes.isBorrowed_eq, h.intoRawNonInline_eq (by simp),
    h.encodes.rawPtr_eq]
  rfl

lemma afterClone_shared (h : v.Represents w ⟨s, .shared⟩) :
    v.afterClone w = w.retain v.parts.rawPtr :=
  if_pos (h.encodes.isShared_iff.mpr rfl)

lemma afterClone_eq (h : v.Represents w x) (hx : x.origin.tag ≠ .shared) :
    v.afterClone w = w :=
  if_neg (h.encodes.isShared_iff.not.mpr hx)

lemma afterDrop_shared (h : v.Represents w ⟨s, .shared⟩) (w' : World t) :
    v.afterDrop w' = w'.release v.parts.rawPtr :=
  if_pos (h.encodes.isShared_iff.mpr rfl)

lemma afterDrop_eq (h : v.Represents w x) (hx : x.origin.tag ≠ .shared) (w' : World t) :
    v.afterDrop w' = w' :=
  if_neg (h.encodes.isShared_iff.not.mpr hx)

lemma read (h : v.Represents w x) (hx : x.origin.tag ≠ .inline) :
    read w.mem v.parts.rawPtr x.str.bytes.length = some x.str.bytes := by
  cases h with
  | borrowed h hread => exact hread
  | shared h hh => exact hh.read
  | inline => exact absurd rfl hx

/-- The bytes are found in the caller's memory, in the value's own words, or in the heap. -/
lemma run_asStr (h : v.Represents w x) : v.asStr w = .ok x.str w := by
  have hmask := h.encodes.inlineMask_iff
  have hutf8 : (fromUtf8Unchecked t x.str.bytes : Exec t (Str t)) w = .ok x.str w :=
    run_lift (fromUtf8Unchecked_bytes x.str)
  rw [asStr]
  by_cases hx : x.origin.tag = .inline
  · rw [if_pos (hmask.mpr hx)]
    cases h with
    | borrowed => cases hx
    | shared => cases hx
    | @inline p s hs hp =>
      have henc : p.Encodes ⟨s, .inline⟩ := .inline hs hp
      have hlen := RawParts.packInline_inlineLen hs (RawParts.bytes_of_packInline hs hp)
      have hle : s.bytes.length ≤ t.inlineTotalBytes := hs.trans (Nat.sub_le _ _)
      have hread : readSelf (⟨p⟩ : RefStrCore t B) (inlineLenFromMeta p.metaWord) =
          .ok s.bytes := by
        rw [readSelf, hlen, s.len_toNat, if_pos hle, henc.bytes_take]
      exact (run_bind (run_lift hread) _).trans hutf8
  · rw [if_neg (hmask.not.mpr hx)]
    exact (run_bind (run_readRaw (h.encodes.decode_len hx) (h.read hx)) _).trans hutf8

/-- A value keeps its text while its memory is read as before and its owner is counted. -/
lemma frame {w' : World t} (h : v.Represents w x)
    (hread : x.origin.tag ≠ .inline →
      ByteMemory.read w'.mem v.parts.rawPtr x.str.bytes.length = some x.str.bytes)
    (hcount : ∀ o ∈ v.owners, w'.counts o ≠ none) : v.Represents w' x := by
  have howners : ∀ s, x = ⟨s, .shared⟩ → w'.counts ⟨B, ⟨v.parts.rawPtr, s.len⟩⟩ ≠ none := by
    rintro s rfl
    rw [h.owners_shared] at hcount
    exact hcount _ List.mem_cons_self
  cases h with
  | borrowed h _ => exact .borrowed h (hread (by simp))
  | shared h _ => exact .shared h ⟨rfl, howners _ rfl, hread (by simp)⟩
  | inline hs hp => exact .inline hs hp

lemma owners_counted (h : v.Represents w x) : ∀ o ∈ v.owners, w.counts o ≠ none := by
  by_cases hx : x.origin.tag = .shared
  · rw [Text.eq_shared hx] at h
    rw [h.owners_shared]
    rintro o ho
    obtain rfl := List.mem_singleton.mp ho
    exact h.handle.counted
  · rw [h.owners_eq_nil hx]
    rintro o ho
    cases ho

lemma allocate (h : v.Represents w x) {B' : Backend} (hheap : w.heap ptr = none)
    (hf : Fresh w.mem ptr s.bytes.length) : v.Represents (w.allocate B' ptr s) x :=
  h.frame (fun hx => read_of_extends (World.extends_allocate hf) (h.read hx))
    fun o ho => World.counts_allocate_ne_none (h.owners_counted o ho) hheap

lemma run_clone (h : v.Represents w x) : v.clone w = .ok v (v.afterClone w) := by
  by_cases hx : x.origin.tag = .shared
  · rw [Text.eq_shared hx] at h
    rw [h.afterClone_shared, clone, if_pos (h.encodes.needsDropMask_iff.mpr rfl),
      h.encodes.decode_len (by simp)]
    exact run_bind h.handle.run_incrementStrongCount _
  · rw [h.afterClone_eq hx, clone, if_neg (h.encodes.needsDropMask_iff.not.mpr hx)]
    rfl

lemma drop_eq_pure (h : v.Represents w x) (hx : x.origin.tag ≠ .shared) : v.drop = pure () := by
  rw [drop, if_neg (h.encodes.needsDropMask_iff.not.mpr hx)]

lemma run_drop (h : v.Represents w x) : v.drop w = .ok () (v.afterDrop w) := by
  by_cases hx : x.origin.tag = .shared
  · rw [Text.eq_shared hx] at h
    rw [h.afterDrop_shared, drop, if_pos (h.encodes.needsDropMask_iff.mpr rfl),
      h.encodes.decode_len (by simp)]
    exact (run_bind h.handle.run_fromRaw _).trans h.handle.run_dropShared
  · rw [h.afterDrop_eq hx, h.drop_eq_pure hx]
    rfl

section Convert
variable {A : Allocator t}

lemma run_stateTag (h : v.Represents w x) :
    (v.stateTag : Exec t StateTag) w = .ok x.origin.tag w :=
  run_lift h.encodes.hasTag.tag_eq

lemma run_toStaticCore_borrowed (h : v.Represents w ⟨s, .borrowed ptr⟩) :
    v.toStaticCore A w = fromOwnedLike A s w := by
  have hlen : v.len = s.len := h.encodes.len_eq
  rw [toStaticCore, fromOwnedLike]
  refine (run_bind h.run_stateTag _).trans ?_
  simp only [Origin.tag, hlen]
  by_cases hs : supportsInlineLen s.len = true
  · rw [if_pos hs, if_pos hs]
    exact run_bind h.run_asStr _
  · rw [if_neg hs, if_neg hs]
    exact run_bind h.run_asStr _

lemma run_toStaticCore (h : v.Represents w x) (hx : x.origin.tag ≠ .borrowed) :
    v.toStaticCore A w = .ok v (v.afterClone w) := by
  rw [toStaticCore]
  refine (run_bind h.run_stateTag _).trans ?_
  cases htag : x.origin.tag with
  | borrowed => exact absurd htag hx
  | inline => exact run_bind h.run_clone _
  | shared => exact run_bind h.run_clone _

lemma run_intoStaticCore_borrowed (h : v.Represents w ⟨s, .borrowed ptr⟩) :
    v.intoStaticCore A w = fromOwnedLike A s w := by
  have hlen : v.len = s.len := h.encodes.len_eq
  rw [intoStaticCore, fromOwnedLike, h.drop_eq_pure (by simp)]
  refine (run_bind (run_onUnwind h.run_stateTag) _).trans ?_
  simp only [Origin.tag, withLocal_pure, hlen]
  by_cases hs : supportsInlineLen s.len = true
  · rw [if_pos hs, if_pos hs]
    exact run_bind h.run_asStr _
  · rw [if_neg hs, if_neg hs]
    exact run_bind h.run_asStr _

lemma run_intoStaticCore (h : v.Represents w x) (hx : x.origin.tag ≠ .borrowed) :
    v.intoStaticCore A w = .ok v w := by
  rw [intoStaticCore]
  refine (run_bind (run_onUnwind h.run_stateTag) _).trans ?_
  cases htag : x.origin.tag with
  | borrowed => exact absurd htag hx
  | inline => rfl
  | shared => rfl

/-- The bytes are copied into the other backend before the source is released. -/
lemma run_convert_shared (h : v.Represents w ⟨s, .shared⟩) (hs : s.Compressible)
    (hptr : A.pick w s.bytes.length = some ptr) (B' : Backend) :
    v.convert A B' w = .ok ⟨.ofStr ptr .shared s hs⟩
      ((w.allocate B' ptr s).release v.parts.rawPtr) := by
  obtain ⟨hheap, hf⟩ := A.fresh hptr
  have hv : v.Represents (w.allocate B' ptr s) ⟨s, .shared⟩ := h.allocate hheap hf
  have hdrop := hv.run_drop
  rw [hv.afterDrop_shared] at hdrop
  have hfrom := run_fromShared (Handle.allocate w B' ptr s)
  rw [dif_pos hs] at hfrom
  have hshared : v.isShared = true := h.encodes.isShared_eq
  rw [convert, if_pos hshared]
  refine run_withLocal ?_ hdrop
  exact (run_bind h.run_asStr _).trans ((run_bind (run_allocate hptr) _).trans hfrom)

lemma run_convert_aborted (h : v.Represents w ⟨s, .shared⟩)
    (hptr : A.pick w s.bytes.length = none) (B' : Backend) :
    v.convert A B' w = .error .aborted w := by
  have hshared : v.isShared = true := h.encodes.isShared_eq
  rw [convert, if_pos hshared]
  refine run_withLocal_aborted ((run_bind h.run_asStr _).trans ?_)
  exact run_bind_error (run_allocate_error hptr) _

lemma of_convert_shared (h : v.Represents w ⟨s, .shared⟩) (hsound : w.Sound)
    (hs : s.Compressible) (hptr : A.pick w s.bytes.length = some ptr) (B' : Backend) :
    (⟨.ofStr ptr .shared s hs⟩ : RefStrCore t B').Represents
      ((w.allocate B' ptr s).release v.parts.rawPtr) ⟨s, .shared⟩ := by
  obtain ⟨hheap, hf⟩ := A.fresh hptr
  have ho := h.handle.counted
  exact .shared hs ((Handle.allocate w B' ptr s).release (hsound.allocate hf)
    (World.counts_allocate_ne_none ho hheap) (World.ne_of_counts ho hheap).symm)

lemma of_convert (h : v.Represents w x) (hx : x.origin.tag ≠ .shared) (B' : Backend) :
    (⟨v.parts⟩ : RefStrCore t B').Represents w x := by
  cases h with
  | borrowed h hread => exact .borrowed h hread
  | inline hs hp => exact .inline hs hp
  | shared => exact absurd rfl hx

lemma run_convert (h : v.Represents w x) (hx : x.origin.tag ≠ .shared) (B' : Backend) :
    v.convert A B' w = .ok ⟨v.parts⟩ w := by
  have hshared : ¬ v.isShared = true := h.encodes.isShared_iff.not.mpr hx
  rw [convert, if_neg hshared]
  rfl

lemma run_intoRaw_inline (h : v.Represents w ⟨s, .inline⟩)
    (hptr : A.pick w s.bytes.length = some ptr) :
    v.intoRaw A w = .ok ⟨ptr, s.len⟩ (w.allocate B ptr s) := by
  rw [intoRaw, if_pos (h.encodes.isInline_iff.mpr rfl), h.drop_eq_pure (by simp), withLocal_pure]
  exact (run_bind h.run_asStr _).trans (run_bind (run_allocate hptr) _)

lemma run_intoRaw_aborted (h : v.Represents w ⟨s, .inline⟩)
    (hptr : A.pick w s.bytes.length = none) : v.intoRaw A w = .error .aborted w := by
  rw [intoRaw, if_pos (h.encodes.isInline_iff.mpr rfl)]
  refine run_withLocal_aborted ((run_bind h.run_asStr _).trans ?_)
  exact run_bind_error (run_allocate_error hptr) _

lemma run_intoRaw (h : v.Represents w x) (hx : x.origin.tag ≠ .inline) :
    v.intoRaw A w = .ok ⟨v.parts.rawPtr, x.str.len⟩ w := by
  rw [intoRaw, if_neg (h.encodes.isInline_iff.not.mpr hx), ← h.intoRawNonInline_eq hx]
  rfl

lemma run_intoRawShared_shared (h : v.Represents w ⟨s, .shared⟩) :
    v.intoRawShared w = .ok (some ⟨v.parts.rawPtr, s.len⟩) w := by
  have hraw := h.intoRawNonInline_eq (by simp)
  rw [intoRawShared, if_pos (h.encodes.isShared_iff.mpr rfl), ← hraw]
  rfl

lemma run_intoRawShared (h : v.Represents w x) (hx : x.origin.tag ≠ .shared) :
    v.intoRawShared w = .ok none w := by
  rw [intoRawShared, if_neg (h.encodes.isShared_iff.not.mpr hx), h.drop_eq_pure hx,
    withLocal_pure]
  rfl

end Convert

section Ownership
variable {A : Allocator t} {w' : World t}

lemma evolves_clone (h : v.Represents w x) : World.Evolves w [] (v.afterClone w) v.owners := by
  by_cases hx : x.origin.tag = .shared
  · rw [Text.eq_shared hx] at h
    rw [h.afterClone_shared, h.owners_shared]
    exact World.Evolves.retain h.handle.counted
  · rw [h.afterClone_eq hx, h.owners_eq_nil hx]
    exact World.Evolves.refl w []

lemma evolves_drop (h : v.Represents w x) : World.Evolves w v.owners (v.afterDrop w) [] := by
  by_cases hx : x.origin.tag = .shared
  · rw [Text.eq_shared hx] at h
    rw [h.afterDrop_shared, h.owners_shared]
    exact World.Evolves.release h.handle.counted
  · rw [h.afterDrop_eq hx, h.owners_eq_nil hx]
    exact World.Evolves.refl w []

lemma afterClone (h : v.Represents w x) : v.Represents (v.afterClone w) x := by
  by_cases hx : x.origin.tag = .shared
  · rw [Text.eq_shared hx] at h ⊢
    rw [h.afterClone_shared]
    refine h.frame (fun _ => h.handle.read) fun o ho => ?_
    rw [h.owners_shared] at ho
    obtain rfl := List.mem_singleton.mp ho
    exact h.handle.retain.counted
  · rw [h.afterClone_eq hx]
    exact h

lemma exists_fromOwnedLike (hs : s.Compressible)
    (hroom : t.inlineCapacity < s.bytes.length → (A.pick w s.bytes.length).isSome) :
    ∃ (u : RefStrCore t B) (w' : World t), fromOwnedLike A s w = .ok u w' ∧
      (s.bytes.length ≤ t.inlineCapacity → w' = w) ∧
      (¬ s.bytes.length ≤ t.inlineCapacity →
        A.pick w s.bytes.length = some u.parts.rawPtr ∧
          w' = w.allocate B u.parts.rawPtr s) := by
  by_cases hlong : s.bytes.length ≤ t.inlineCapacity
  · obtain ⟨q, -, hrun⟩ := run_fromOwnedLike_inline (B := B) (A := A) (w := w) hlong
    exact ⟨_, _, hrun, fun _ => rfl, fun h => absurd hlong h⟩
  · obtain ⟨ptr, hptr⟩ := Option.isSome_iff_exists.mp (hroom (by omega))
    have hrun := run_fromOwnedLike_shared (B := B) hlong hptr
    rw [dif_pos hs] at hrun
    exact ⟨_, _, hrun, fun h => absurd h hlong, fun _ => ⟨hptr, rfl⟩⟩

/-- An owning constructor that succeeds makes a new owner of what it allocates. -/
lemma of_fromOwnedLike (h : fromOwnedLike A s w = .ok v w') :
    World.Evolves w [] w' v.owners ∧ v.Represents w' (.owned s) := by
  by_cases hs : s.bytes.length ≤ t.inlineCapacity
  · obtain ⟨q, hq, hrun⟩ := run_fromOwnedLike_inline (B := B) (A := A) (w := w) hs
    rw [hrun] at h
    cases h
    have hv : (⟨q⟩ : RefStrCore t B).Represents w ⟨s, .inline⟩ := .inline hs hq
    rw [Text.owned_of_le s hs, hv.owners_eq_nil (by simp)]
    exact ⟨World.Evolves.refl w [], hv⟩
  · cases hptr : A.pick w s.bytes.length with
    | none =>
      rw [run_fromOwnedLike_aborted hs hptr] at h
      cases h
    | some ptr =>
      obtain ⟨hheap, hf⟩ := A.fresh hptr
      rw [run_fromOwnedLike_shared hs hptr] at h
      split_ifs at h with hc
      · cases h
        have hv : (⟨.ofStr ptr .shared s hc⟩ : RefStrCore t B).Represents (w.allocate B ptr s)
            ⟨s, .shared⟩ := .shared hc (Handle.allocate w B ptr s)
        rw [Text.owned_of_not_le s hs, hv.owners_shared]
        exact ⟨World.Evolves.allocate hheap hf, hv⟩

/-- A value keeps its text while an owning constructor allocates. -/
lemma keep_fromOwnedLike {B' : Backend} {u : RefStrCore t B'} (h : v.Represents w x)
    (hrun : fromOwnedLike A s w = .ok u w') : v.Represents w' x := by
  by_cases hs : s.bytes.length ≤ t.inlineCapacity
  · obtain ⟨q, -, hq⟩ := run_fromOwnedLike_inline (B := B') (A := A) (w := w) hs
    rw [hq] at hrun
    cases hrun
    exact h
  · cases hptr : A.pick w s.bytes.length with
    | none =>
      rw [run_fromOwnedLike_aborted hs hptr] at hrun
      cases hrun
    | some ptr =>
      obtain ⟨hheap, hf⟩ := A.fresh hptr
      rw [run_fromOwnedLike_shared hs hptr] at hrun
      split_ifs at hrun
      · cases hrun
        exact h.allocate hheap hf

end Ownership

section Consume

lemma run_intoString (h : v.Represents w x) : v.intoString w = .ok x.str (v.afterDrop w) :=
  run_withLocal h.run_asStr h.run_drop

lemma run_intoBoxedStr (h : v.Represents w x) :
    v.intoBoxedStr w = .ok x.str (v.afterDrop w) :=
  run_withLocal h.run_asStr h.run_drop

lemma run_intoBytes (h : v.Represents w x) :
    v.intoBytes w = .ok x.str.bytes (v.afterDrop w) := by
  refine run_withLocal ?_ h.run_drop
  have hlen := h.encodes.len_eq
  by_cases hx : x.origin.tag = .inline
  · rw [if_pos (h.encodes.isInline_iff.mpr hx), hlen]
    cases h with
    | borrowed => cases hx
    | shared => cases hx
    | @inline p s hs hp =>
      have henc : p.Encodes ⟨s, .inline⟩ := .inline hs hp
      have hle : s.bytes.length ≤ t.inlineTotalBytes := hs.trans (Nat.sub_le _ _)
      refine run_lift ?_
      rw [readSelf, s.len_toNat, if_pos hle, henc.bytes_take]
  · rw [if_neg (h.encodes.isInline_iff.not.mpr hx)]
    exact run_readRaw hlen (h.read hx)

lemma run_borrowedStrUnchecked (h : v.Represents w x) (hx : x.origin.tag ≠ .inline) :
    v.borrowedStrUnchecked w = .ok ⟨v.parts.rawPtr, x.str⟩ w :=
  run_derefRaw (h.encodes.decode_len hx) (h.read hx)

/-- The debug assertion holds of a borrowed value. -/
lemma run_intoStrUnchecked (h : v.Represents w ⟨s, .borrowed ptr⟩) :
    v.intoStrUnchecked w = .ok ⟨ptr, s⟩ w := by
  have hb : v.isBorrowed = true := h.encodes.isBorrowed_iff.mpr rfl
  have hassert : (debugAssert t v.isBorrowed "into_str_unchecked requires a borrowed value" :
      Exec t Unit) w = .ok () w := by
    rw [hb]
    exact run_lift (debugAssert_true t _)
  rw [intoStrUnchecked, ← h.encodes.rawPtr_eq]
  exact (run_bind (run_onUnwind hassert) _).trans (h.run_borrowedStrUnchecked (by simp))

/-- Only a borrowed value is projected without a copy. -/
lemma run_intoCow (h : v.Represents w x) : v.intoCow w = .ok x.cow (v.afterDrop w) := by
  have hb : v.isBorrowed = true ↔ x.origin.tag = .borrowed := h.encodes.isBorrowed_iff
  have howned : x.origin.tag ≠ .borrowed →
      v.intoCow w = .ok (.owned x.str) (v.afterDrop w) := by
    intro hx
    rw [intoCow, if_neg (hb.not.mpr hx)]
    exact run_bind h.run_intoString _
  obtain ⟨s, ptr | _ | _⟩ := x
  · rw [intoCow, if_pos (hb.mpr rfl), h.afterDrop_eq (by simp)]
    exact run_bind h.run_intoStrUnchecked _
  · exact howned (by simp)
  · exact howned (by simp)

lemma run_asCow (h : v.Represents w x) : v.asCow w = .ok x.cow w := by
  have hb : v.isBorrowed = true ↔ x.origin.tag = .borrowed := h.encodes.isBorrowed_iff
  have howned : x.origin.tag ≠ .borrowed → v.asCow w = .ok (.owned x.str) w := by
    intro hx
    rw [asCow, if_neg (hb.not.mpr hx)]
    exact run_bind h.run_asStr _
  obtain ⟨s, ptr | _ | _⟩ := x
  · rw [asCow, if_pos (hb.mpr rfl), ← h.encodes.rawPtr_eq]
    exact run_bind (h.run_borrowedStrUnchecked (by simp)) _
  · exact howned (by simp)
  · exact howned (by simp)

lemma run_borrowedStaticStr_borrowed (h : v.Represents w ⟨s, .borrowed ptr⟩) :
    v.borrowedStaticStr w = .ok (some ⟨ptr, s⟩) w := by
  rw [borrowedStaticStr, if_pos (h.encodes.isBorrowed_iff.mpr rfl), ← h.encodes.rawPtr_eq]
  exact run_bind (h.run_borrowedStrUnchecked (by simp)) _

lemma run_borrowedStaticStr (h : v.Represents w x) (hx : x.origin.tag ≠ .borrowed) :
    v.borrowedStaticStr w = .ok none w := by
  rw [borrowedStaticStr, if_neg (h.encodes.isBorrowed_iff.not.mpr hx)]
  rfl

end Consume

end Represents

end RefStrCore
end RefStr
