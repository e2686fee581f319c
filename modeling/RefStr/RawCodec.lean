import RefStr.Raw
import RefStr.ArchCodec

/-! What the word predicates decode. The tag bits alone decide every state predicate. In an
inline payload the tag byte is the last byte of the buffer and the byte of the metadata word
that carries the tag bits, so the predicates read it while the other bytes keep the string. -/
namespace RefStr.RawParts
open Arch ByteOrder
variable {t : Target}

/-- The tag bits of the metadata word are those of a state and an ASCII flag. -/
def HasTag (p : RawParts t) (tag : StateTag) (isAscii : Bool) : Prop :=
  ∀ k < 4, p.metaWord.getLsbD (t.tagShift + k) = (tagNibble tag isAscii).testBit k

section HasTag
variable {p : RawParts t} {tag : StateTag} {isAscii : Bool}

theorem HasTag.tag_eq (h : p.HasTag tag isAscii) : p.tag = .ok tag := by
  rw [RawParts.tag, fromMeta, fromMetaChecked_of_bits _ h]
  rfl

theorem HasTag.stateMask_iff (h : p.HasTag tag isAscii) (tag' : StateTag) :
    p.metaWord &&& t.stateMask = Arch.tagBits tag' ↔ tag' = tag := by
  have hbits : Arch.tagBits (t := t) tag' =
      BitVec.ofNat _ (tagNibble tag' false) <<< t.tagShift := by
    cases tag' <;> rfl
  have hlt : tagNibble tag' false < 2 ^ 3 := by cases tag' <;> decide
  have hiff : (∀ k < 3, (tagNibble tag isAscii).testBit k = (tagNibble tag' false).testBit k) ↔
      tag' = tag := by
    cases tag <;> cases isAscii <;> cases tag' <;> decide
  rw [hbits, and_stateMask_eq_iff _ hlt, ← hiff]
  exact forall₂_congr fun k hk => by rw [h k (by omega)]

theorem HasTag.isInline_eq (h : p.HasTag tag isAscii) : p.isInline = decide (tag = .inline) := by
  rw [isInline, decide_eq_decide, and_inlineMask_ne_zero, h 1 (by decide)]
  cases tag <;> cases isAscii <;> decide

theorem HasTag.isShared_eq (h : p.HasTag tag isAscii) : p.isShared = decide (tag = .shared) := by
  rw [isShared, decide_eq_decide, and_needsDropMask_ne_zero, h 2 (by decide)]
  cases tag <;> cases isAscii <;> decide

theorem HasTag.isBorrowed_eq (h : p.HasTag tag isAscii) :
    p.isBorrowed = decide (tag = .borrowed) := by
  rw [isBorrowed, decide_eq_decide, and_borrowedMask_eq_zero, h 1 (by decide), h 2 (by decide)]
  cases tag <;> cases isAscii <;> decide

theorem HasTag.isAscii_eq (h : p.HasTag tag isAscii) : p.isAscii = isAscii := by
  rw [Bool.eq_iff_iff, RawParts.isAscii, decide_eq_true_eq, and_isAsciiMask_ne_zero,
    h 3 (by decide)]
  cases tag <;> cases isAscii <;> decide

end HasTag

/-- The length that a word has in a state. -/
def decodedLen (tag : StateTag) (metaWord : Usize t) : Usize t :=
  match tag with
  | .borrowed | .shared => decodeBorrowedOrSharedLen metaWord
  | .inline => inlineLenFromMeta metaWord

/-- The largest length that a state may have. -/
def capacity (t : Target) (tag : StateTag) : ℕ :=
  match tag with
  | .borrowed | .shared => t.maxBorrowedOrSharedLen.toNat
  | .inline => t.inlineCapacity

def lengthMessage (tag : StateTag) : String :=
  match tag with
  | .borrowed | .shared => tooLarge
  | .inline => "inline string too large to compress"

/-- Two words with valid state bits are accepted or refused by the length alone. -/
theorem HasTag.new_eq {p : RawParts t} {tag : StateTag} {isAscii : Bool}
    (h : p.HasTag tag isAscii) : RawParts.new p.rawPtr p.metaWord =
      if (decodedLen tag p.metaWord).toNat ≤ capacity t tag then .ok p
      else .error (.panic (lengthMessage tag)) := by
  have hnz : NonZeroUsize.newUnchecked p.metaWord = .ok p.nonZeroMeta :=
    dif_pos p.metaWord_ne_zero
  have hassert : ∀ (c : Prop) [Decidable c] (message : String),
      (do
        assertMsg c message
        return ⟨p.rawPtr, ← NonZeroUsize.newUnchecked p.metaWord⟩ : Except Fault (RawParts t)) =
        if c then .ok p else .error (.panic message) := by
    intro c _ message
    rw [hnz]
    by_cases hc : c
    · rw [decide_eq_true hc, if_pos hc]
      rfl
    · rw [decide_eq_false hc, if_neg hc]
      rfl
  rw [RawParts.new, fromMetaChecked_of_bits _ h]
  cases tag with
  | borrowed => exact hassert _ _
  | shared => exact hassert _ _
  | inline => exact hassert _ _

/-- The assertions hold for every word that was packed from a length that fits. -/
theorem new_packWord {len : Usize t} {tag : StateTag} (htag : tag ≠ .inline)
    (hlen : len ≤ t.maxBorrowedOrSharedLen) (hash : UInt64) (isAscii : Bool) (ptr : Usize t) :
    ∃ p : RawParts t, p.intoFields = (ptr, packWord len tag isAscii (lowHash t hash)) ∧
      RawParts.new ptr (packWord len tag isAscii (lowHash t hash)) = .ok p := by
  have hl := holds_len_iff.mpr hlen
  have hh := lowHash_holds t hash
  have hbits : ∀ k < 4, _ = (tagNibble tag isAscii).testBit k := fun k hk =>
    packWord_bit tag isAscii hl hh hk
  have hdecode := packWord_len tag isAscii hl hh
  rw [← decodeBorrowedOrSharedLen_eq] at hdecode
  let p : RawParts t := ⟨ptr, ⟨_, ne_zero_of_bits _ hbits⟩⟩
  refine ⟨p, rfl, (HasTag.new_eq (p := p) hbits).trans (if_pos ?_)⟩
  cases tag with
  | inline => exact absurd rfl htag
  | borrowed => exact (congrArg BitVec.toNat hdecode).trans_le hlen
  | shared => exact (congrArg BitVec.toNat hdecode).trans_le hlen

theorem exists_new_of_encode {len m : Usize t} {tag : StateTag} {hash : UInt64}
    (htag : tag ≠ .inline) (h : encodeLenTagHash len tag hash = .ok m) (isAscii : Bool)
    (ptr : Usize t) :
    ∃ p, RawParts.new ptr (if isAscii then m ||| t.isAsciiMask else m) = .ok p := by
  rw [encodeLenTagHash_eq] at h
  split_ifs at h with hlen
  obtain rfl := Except.ok.inj h
  obtain ⟨p, -, hnew⟩ := new_packWord htag hlen hash isAscii ptr
  refine ⟨p, Eq.trans ?_ hnew⟩
  cases isAscii with
  | false => rfl
  | true => exact congrArg _ (packWord_or_isAsciiMask tag _)

theorem wordBytes_pos (t : Target) : 2 ≤ t.wordBytes := by
  rcases t with ⟨_ | _ | _, _, _⟩ <;> simp [Target.wordBytes]

theorem inlineCapacity_le (t : Target) : t.inlineCapacity ≤ 15 := by
  rcases t with ⟨_ | _ | _, _, _⟩ <;>
    simp [Target.inlineCapacity, Target.inlineTotalBytes, Target.wordBytes]

/-- The position of the tag nibble inside the tag byte. -/
def nibbleShift (e : Endian) : ℕ :=
  match e with
  | .little => 4
  | .big => 0

theorem tagShift_eq (t : Target) :
    t.tagShift = lastShift t.endian t.wordBytes + nibbleShift t.endian := by
  rcases t with ⟨_ | _ | _, _ | _, _⟩ <;> rfl

def tagByte (m : Usize t) : UInt8 := (toNeBytes m).getD t.metaTagByteIndex 0

theorem tagByte_bit (m : Usize t) {k : ℕ} (hk : k < 4) :
    (tagByte m).toBitVec.getLsbD (nibbleShift t.endian + k) = m.getLsbD (t.tagShift + k) := by
  have hw := wordBytes_pos t
  have hj : nibbleShift t.endian + k < 8 := by
    cases t.endian <;> simp only [nibbleShift] <;> omega
  rw [tagByte, Arch.toNeBytes, Target.metaTagByteIndex,
    getLsbD_last_toNeBytes t.endian m (by omega) hj, tagShift_eq, Nat.add_assoc]

/-- What the inline tag byte is: the length in one nibble, the tag in the other. -/
def inlineByte (e : Endian) (n : UInt8) (isAscii : Bool) : UInt8 :=
  let tag : UInt8 := 0b0011 ||| if isAscii then 0b1000 else 0
  match e with
  | .little => (tag <<< 4) ||| n
  | .big => (n <<< 4) ||| tag

theorem inlineByte_bit (e : Endian) {n : ℕ} (hn : n < 16) (isAscii : Bool) {k : ℕ} (hk : k < 4) :
    (inlineByte e (UInt8.ofNat n) isAscii).toBitVec.getLsbD (nibbleShift e + k) =
      (tagNibble .inline isAscii).testBit k := by
  have h : ∀ n < 16, ∀ k < 4,
      (inlineByte e (UInt8.ofNat n) isAscii).toBitVec.getLsbD (nibbleShift e + k) =
        (tagNibble .inline isAscii).testBit k := by
    cases e <;> cases isAscii <;> decide
  exact h n hn k hk

theorem asU8_eq (len : Usize t) : asU8 len = UInt8.ofNat len.toNat := by
  apply UInt8.toBitVec_inj.mp
  apply BitVec.eq_of_toNat_eq
  simp [asU8]

theorem inlineTagByte_eq {len : Usize t} (h : len.toNat ≤ t.inlineCapacity) (isAscii : Bool) :
    inlineTagByte len isAscii = .ok (inlineByte t.endian (UInt8.ofNat len.toNat) isAscii) := by
  have htag : asU8 (tagBits (t := t) .inline >>> t.tagShift) = 0b0011 := by
    clear h len
    rcases t with ⟨_ | _ | _, _ | _, _ | _⟩ <;> decide
  rw [inlineTagByte, htag, asU8_eq]
  simp only [h, decide_true, debugAssert_true, inlineByte]
  rcases t with ⟨_, _ | _, _⟩ <;> rfl

theorem inlineLenFromTagByte_eq (t : Target) {n : ℕ} (hn : n < 16) (isAscii : Bool) :
    inlineLenFromTagByte t (inlineByte t.endian (UInt8.ofNat n) isAscii) = BitVec.ofNat _ n := by
  have hlow : ∀ n < 16, (inlineByte .little (UInt8.ofNat n) isAscii &&& 0b0000_1111).toNat = n := by
    cases isAscii <;> decide
  have hhigh : ∀ n < 16,
      ((inlineByte .big (UInt8.ofNat n) isAscii &&& 0b1111_0000) >>> 4).toNat = n := by
    cases isAscii <;> decide
  apply BitVec.eq_of_toNat_eq
  rcases t with ⟨_, _ | _, _⟩
  · simp only [inlineLenFromTagByte, BitVec.toNat_setWidth, UInt8.toNat_toBitVec, hlow n hn,
      BitVec.toNat_ofNat]
  · simp only [inlineLenFromTagByte, BitVec.toNat_setWidth, UInt8.toNat_toBitVec, hhigh n hn,
      BitVec.toNat_ofNat]

/-- The inline buffer: the string, zeros, and the tag byte at the end. -/
def inlineBuffer (s : Str t) : List UInt8 :=
  (s.bytes ++ List.replicate (t.inlineTotalBytes - s.bytes.length) 0).set t.bufferTagByteIndex
    (inlineByte t.endian (UInt8.ofNat s.bytes.length) s.isAscii)

section Buffer
variable {s : Str t} (hs : s.bytes.length ≤ t.inlineCapacity)
include hs

theorem inlineBuffer_length : (inlineBuffer s).length = t.inlineTotalBytes := by
  simp only [Target.inlineCapacity] at hs
  simp only [inlineBuffer, List.length_set, List.length_append, List.length_replicate]
  omega

theorem inlineBuffer_take : (inlineBuffer s).take s.bytes.length = s.bytes := by
  rw [inlineBuffer, List.take_set, List.take_left' rfl]
  exact List.set_eq_of_length_le hs

theorem inlineBuffer_tagByte : (inlineBuffer s).getD t.bufferTagByteIndex 0 =
    inlineByte t.endian (UInt8.ofNat s.bytes.length) s.isAscii := by
  have hw := wordBytes_pos t
  have hidx : t.bufferTagByteIndex < (inlineBuffer s).length := by
    rw [inlineBuffer_length hs, Target.bufferTagByteIndex, Target.inlineTotalBytes]
    omega
  rw [List.getD_eq_getElem _ 0 hidx]
  simp only [inlineBuffer, List.getElem_set_self]

end Buffer

theorem tagByte_metaWord (p : RawParts t) :
    tagByte p.metaWord = p.bytes.getD t.bufferTagByteIndex 0 := by
  have hw := wordBytes_pos t
  have hlen : (Arch.toNeBytes p.rawPtr).length = t.wordBytes := toNeBytes_length _ _ _
  rw [tagByte, bytes, Target.bufferTagByteIndex, Target.inlineTotalBytes,
    List.getD_append_right _ _ _ _ (by omega), hlen, Target.metaTagByteIndex]
  congr 1
  omega

/-- Reading a full buffer as a payload and the payload as bytes is the identity,
once the metadata word read is not zero. -/
theorem bytes_of_ofBytes {b : List UInt8} (hb : b.length = t.inlineTotalBytes) {p : RawParts t}
    (hp : ofBytes t b = .ok p) : p.bytes = b := by
  have hn : b.length = t.wordBytes * 2 := hb
  have hbits : 8 * t.wordBytes ≤ t.usizeBits := le_rfl
  simp only [ofBytes, NonZeroUsize.newUnchecked] at hp
  split_ifs at hp with h
  · obtain rfl := Except.ok.inj hp
    simp only [bytes, metaWord, Arch.toNeBytes]
    rw [toNeBytes_ofNeBytes _ (by simp; omega) hbits, toNeBytes_ofNeBytes _ (by simp; omega) hbits,
      List.take_append_drop]
  · cases hp

theorem exists_ofBytes {b : List UInt8} (hb : b.length = t.inlineTotalBytes)
    (hbit : (b.getD t.bufferTagByteIndex 0).toBitVec.getLsbD (nibbleShift t.endian) = true) :
    ∃ p, ofBytes t b = .ok p := by
  have hw := wordBytes_pos t
  have hn : b.length = t.wordBytes * 2 := hb
  let m := ofNeBytes t.endian t.usizeBits (b.drop t.wordBytes)
  have hround : Arch.toNeBytes m = b.drop t.wordBytes :=
    toNeBytes_ofNeBytes _ (by simp; omega) le_rfl
  have htag : tagByte m = b.getD t.bufferTagByteIndex 0 := by
    have hidx : t.wordBytes + t.metaTagByteIndex = t.bufferTagByteIndex := by
      simp only [Target.metaTagByteIndex, Target.bufferTagByteIndex, Target.inlineTotalBytes]
      omega
    rw [tagByte, hround, List.getD_eq_getElem?_getD, List.getElem?_drop, hidx,
      List.getD_eq_getElem?_getD]
  have hm : m ≠ 0#_ := by
    intro hz
    have h0 := tagByte_bit m (k := 0) (by decide)
    rw [htag, Nat.add_zero, hbit, hz, BitVec.getLsbD_zero] at h0
    cases h0
  refine ⟨⟨ofNeBytes t.endian t.usizeBits (b.take t.wordBytes), ⟨m, hm⟩⟩, ?_⟩
  show (do return ⟨_, ← NonZeroUsize.newUnchecked m⟩ : Except Fault (RawParts t)) = _
  rw [NonZeroUsize.newUnchecked, dif_pos hm]
  rfl

section Pack
variable {s : Str t}

/-- Packing a short string never fails and lays out the inline buffer. -/
theorem packInline_bytes (hs : s.bytes.length ≤ t.inlineCapacity) :
    ∃ p, packInline s = .ok p ∧ p.bytes = inlineBuffer s := by
  have hlen : s.len.toNat ≤ t.inlineCapacity := by rwa [s.len_toNat]
  have hcap := inlineCapacity_le t
  have hcopy : copyToFront (List.replicate t.inlineTotalBytes 0) s.bytes =
      .ok (s.bytes ++ List.replicate (t.inlineTotalBytes - s.bytes.length) 0) := by
    have hle : s.bytes.length ≤ t.inlineTotalBytes := hs.trans (Nat.sub_le _ _)
    simp [copyToFront, hle]
  have hpack : packInline s = ofBytes t (inlineBuffer s) := by
    rw [packInline, hcopy, inlineTagByte_eq hlen, s.len_toNat]
    simp only [supportsInlineLen, hlen, decide_true, debugAssert_true]
    rfl
  obtain ⟨p, hp⟩ := exists_ofBytes (inlineBuffer_length hs) (by
    rw [inlineBuffer_tagByte hs]
    exact (inlineByte_bit t.endian (by omega) s.isAscii (k := 0) (by decide)).trans
      (by cases s.isAscii <;> rfl))
  exact ⟨p, hpack.trans hp, bytes_of_ofBytes (inlineBuffer_length hs) hp⟩

theorem packInline_hasTag {p : RawParts t} (hs : s.bytes.length ≤ t.inlineCapacity)
    (hp : p.bytes = inlineBuffer s) : p.HasTag .inline s.isAscii := by
  intro k hk
  have hcap := inlineCapacity_le t
  rw [← tagByte_bit p.metaWord hk, tagByte_metaWord, hp, inlineBuffer_tagByte hs,
    inlineByte_bit t.endian (by omega) s.isAscii hk]

theorem packInline_inlineLen {p : RawParts t} (hs : s.bytes.length ≤ t.inlineCapacity)
    (hp : p.bytes = inlineBuffer s) : inlineLenFromMeta p.metaWord = s.len := by
  have hcap := inlineCapacity_le t
  have htag := tagByte_metaWord p
  rw [hp, inlineBuffer_tagByte hs] at htag
  rw [inlineLenFromMeta, ← tagByte, htag, inlineLenFromTagByte_eq t (by omega), Str.len]

theorem packInline_len {p : RawParts t} (hs : s.bytes.length ≤ t.inlineCapacity)
    (hp : p.bytes = inlineBuffer s) : p.len = s.len := by
  have hin := (packInline_hasTag hs hp).isInline_eq
  rw [len, if_pos (by simpa [isInline] using hin), packInline_inlineLen hs hp]

theorem bytes_of_packInline {p : RawParts t} (hs : s.bytes.length ≤ t.inlineCapacity)
    (hp : packInline s = .ok p) : p.bytes = inlineBuffer s := by
  obtain ⟨q, hq, hbytes⟩ := packInline_bytes hs
  obtain rfl := Except.ok.inj (hp.symm.trans hq)
  exact hbytes

/-- Inline codec: the words of a packed string decode to its state, length, ASCII flag and
bytes, and different strings have different words. -/
theorem packInline_codec (hs : s.bytes.length ≤ t.inlineCapacity) :
    (∃ p, packInline s = .ok p ∧ p.isInline = true ∧ p.isShared = false ∧
      p.isBorrowed = false ∧ p.tag = .ok .inline ∧ p.len = s.len ∧ p.isAscii = s.isAscii ∧
      (p.isAscii = true ↔ ∀ b ∈ s.bytes, b < 128) ∧ p.metaWord ≠ 0#_ ∧
      p.bytes.take p.len.toNat = s.bytes) ∧
    ∀ r : Str t, r.bytes.length ≤ t.inlineCapacity → ∀ p q, packInline s = .ok p →
      packInline r = .ok q → ((p.rawPtr = q.rawPtr ∧ p.metaWord = q.metaWord) ↔ s = r) := by
  constructor
  · obtain ⟨p, hp, hbytes⟩ := packInline_bytes hs
    have htag := packInline_hasTag hs hbytes
    have hlen := packInline_len hs hbytes
    have htake : p.bytes.take p.len.toNat = s.bytes := by
      rw [hlen, s.len_toNat, hbytes, inlineBuffer_take hs]
    have hascii : p.isAscii = true ↔ ∀ b ∈ s.bytes, b < 128 := by
      rw [htag.isAscii_eq, s.isAscii_iff]
    exact ⟨p, hp, htag.isInline_eq, htag.isShared_eq, htag.isBorrowed_eq, htag.tag_eq, hlen,
      htag.isAscii_eq, hascii, p.metaWord_ne_zero, htake⟩
  · intro r hr p q hp hq
    rw [← eq_iff_words]
    constructor
    · rintro rfl
      have hbuffer := (bytes_of_packInline hs hp).symm.trans (bytes_of_packInline hr hq)
      have hlen : s.len = r.len := by
        rw [← packInline_len hs (bytes_of_packInline hs hp),
          ← packInline_len hr (bytes_of_packInline hr hq)]
      have hlength : s.bytes.length = r.bytes.length := by
        rw [← s.len_toNat, ← r.len_toNat, hlen]
      apply Str.ext
      rw [← inlineBuffer_take hs, hbuffer, hlength, inlineBuffer_take hr]
    · rintro rfl
      exact Except.ok.inj (hp.symm.trans hq)

/-- Seven bytes fill the words of a 32-bit big-endian target up to the tag byte. -/
theorem packInline_codec_full :
    let s : Str Target.x86BE := ⟨[104, 195, 169, 108, 108, 111, 33], by decide, by decide⟩
    ∃ p, packInline s = .ok p ∧ p.len = 7#32 ∧ p.isAscii = false ∧
      p.bytes.take 7 = [104, 195, 169, 108, 108, 111, 33] := by
  intro s
  obtain ⟨⟨p, hp, -, -, -, -, hlen, hascii, -, -, hbytes⟩, -⟩ :=
    packInline_codec (s := s) (by decide)
  have h7 : p.len = 7#32 := hlen
  rw [h7] at hbytes
  exact ⟨p, hp, h7, hascii.trans (by decide), hbytes⟩

end Pack

end RefStr.RawParts
