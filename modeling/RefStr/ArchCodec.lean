import RefStr.Arch
import RefStr.WordFields

/-! The fields of the metadata word. Length and hash are bit fields apart from each other
and from the four tag bits, so every packed word decodes to what was packed. -/
namespace RefStr.Arch
open WordFields
variable {t : Target}

theorem tagShift_fits (t : Target) : t.tagShift + 4 ≤ t.usizeBits := by
  rcases t with ⟨_ | _ | _, _ | _, _⟩ <;> decide +revert

theorem lenField_fits (t : Target) : t.lenShift + t.lenBits ≤ t.usizeBits := by
  rcases t with ⟨_ | _ | _, _ | _, _⟩ <;> decide +revert

theorem hashField_fits (t : Target) : t.hashShift + t.hashBits ≤ t.usizeBits := by
  rcases t with ⟨_ | _ | _, _ | _, _⟩ <;> decide +revert

def lenField (t : Target) : Field t.usizeBits := ⟨t.lenShift, t.lenBits, lenField_fits t⟩
def hashField (t : Target) : Field t.usizeBits := ⟨t.hashShift, t.hashBits, hashField_fits t⟩
def tagField (t : Target) : Field t.usizeBits := ⟨t.tagShift, 4, tagShift_fits t⟩

theorem lenField_apart_hashField (t : Target) : (lenField t).Apart (hashField t) := by
  rcases t with ⟨_ | _ | _, _ | _, _⟩ <;> simp only [Field.Apart] <;> decide +revert

theorem lenField_apart_tagField (t : Target) : (lenField t).Apart (tagField t) := by
  rcases t with ⟨_ | _ | _, _ | _, _⟩ <;> simp only [Field.Apart] <;> decide +revert

theorem hashField_apart_tagField (t : Target) : (hashField t).Apart (tagField t) := by
  rcases t with ⟨_ | _ | _, _ | _, _⟩ <;> simp only [Field.Apart] <;> decide +revert

theorem decodeBorrowedOrSharedLen_eq (m : Usize t) :
    decodeBorrowedOrSharedLen m = (lenField t).get m := by
  rcases t with ⟨_, _ | _, _⟩
  · exact (BitVec.ushiftRight_zero _).symm
  · rfl

theorem decodeCachedHash_eq (m : Usize t) : decodeCachedHash m = (hashField t).get m := by
  unfold decodeCachedHash Target.hashMask
  split_ifs with h
  · rw [BitVec.and_zero, (hashField t).get_eq_zero]
    · simp
    · intro i h1 h2
      simp only [hashField, h] at h1 h2
      omega
  · rfl

/-- The tag nibble of a state, with the ASCII flag as its top bit. -/
def tagNibble (tag : StateTag) (isAscii : Bool) : ℕ :=
  (match tag with
    | .borrowed => 0b0001
    | .shared => 0b0101
    | .inline => 0b0011) + if isAscii then 0b1000 else 0

theorem tagNibble_lt (tag : StateTag) (isAscii : Bool) : tagNibble tag isAscii < 2 ^ 4 := by
  cases tag <;> cases isAscii <;> decide

def tagWord (t : Target) (tag : StateTag) (isAscii : Bool) : Usize t :=
  BitVec.ofNat _ (tagNibble tag isAscii)

theorem sixteen_lt (t : Target) : 2 ^ 4 < 2 ^ t.usizeBits := by
  have h16 : 16 ≤ t.usizeBits := by
    rcases t with ⟨_ | _ | _, _, _⟩ <;> simp [Target.usizeBits, Target.wordBytes]
  exact Nat.pow_lt_pow_right (by decide) (by omega)

theorem tagWord_holds (tag : StateTag) (isAscii : Bool) :
    (tagField t).Holds (tagWord t tag isAscii) := by
  have h := tagNibble_lt tag isAscii
  have hw := sixteen_lt t
  simp only [Field.Holds, tagWord, BitVec.toNat_ofNat, tagField]
  rwa [Nat.mod_eq_of_lt (by omega)]

theorem tagBits_eq (tag : StateTag) : tagBits tag = (tagField t).put (tagWord t tag false) := by
  cases tag <;> rfl

theorem tagBits_or_isAsciiMask (tag : StateTag) :
    tagBits tag ||| t.isAsciiMask = (tagField t).put (tagWord t tag true) := by
  have hm : t.isAsciiMask = (tagField t).put 0b1000#_ := rfl
  have hn : tagNibble tag true = tagNibble tag false ||| 0b1000 := by cases tag <;> rfl
  rw [tagBits_eq, hm, Field.put_or, tagWord, tagWord, hn, BitVec.ofNat_or]

/-- A metadata word put together from its fields. -/
def packWord (len : Usize t) (tag : StateTag) (isAscii : Bool) (hash : Usize t) : Usize t :=
  (lenField t).put len ||| (tagField t).put (tagWord t tag isAscii) ||| (hashField t).put hash

/-- The hash bits that the metadata word has room for. -/
def lowHash (t : Target) (hash : UInt64) : Usize t :=
  hash.toBitVec.setWidth _ &&& t.hashValueMask

section Packed
variable {len hash : Usize t} (tag : StateTag) (isAscii : Bool)

theorem packWord_len (hl : (lenField t).Holds len) (hh : (hashField t).Holds hash) :
    (lenField t).get (packWord len tag isAscii hash) = len := by
  rw [packWord, Field.get_or, Field.get_or, Field.get_put _ hl,
    Field.get_put_of_apart _ _ (lenField_apart_tagField t) (tagWord_holds tag isAscii),
    Field.get_put_of_apart _ _ (lenField_apart_hashField t) hh]
  simp

theorem packWord_hash (hl : (lenField t).Holds len) (hh : (hashField t).Holds hash) :
    (hashField t).get (packWord len tag isAscii hash) = hash := by
  rw [packWord, Field.get_or, Field.get_or, Field.get_put _ hh,
    Field.get_put_of_apart _ _ (hashField_apart_tagField t) (tagWord_holds tag isAscii),
    Field.get_put_of_apart _ _ (lenField_apart_hashField t).symm hl]
  simp

theorem packWord_bit (hl : (lenField t).Holds len) (hh : (hashField t).Holds hash)
    {k : ℕ} (hk : k < 4) :
    (packWord len tag isAscii hash).getLsbD (t.tagShift + k) =
      (tagNibble tag isAscii).testBit k := by
  have hfit := tagShift_fits t
  have hlenApart := lenField_apart_tagField t
  have hhashApart := hashField_apart_tagField t
  simp only [Field.Apart, lenField, hashField, tagField] at hlenApart hhashApart
  have hlen := (lenField t).getLsbD_put_outside hl (i := t.tagShift + k)
    (by simp only [lenField]; omega)
  have hhash := (hashField t).getLsbD_put_outside hh (i := t.tagShift + k)
    (by simp only [hashField]; omega)
  have hk' : t.tagShift + k - (tagField t).shift = k := Nat.add_sub_cancel_left _ _
  rw [packWord, BitVec.getLsbD_or, BitVec.getLsbD_or, hlen, hhash, Field.getLsbD_put, hk',
    tagWord, BitVec.getLsbD_ofNat]
  simp [tagField, show t.tagShift + k < t.usizeBits by omega, show k < t.usizeBits by omega]

end Packed

section TagBits
variable (m : Usize t)

theorem and_tagMask_ne_zero {k : ℕ} (hk : k < 4) :
    m &&& (BitVec.ofNat _ (2 ^ k) <<< t.tagShift) ≠ 0#_ ↔ m.getLsbD (t.tagShift + k) = true := by
  have hfit := tagShift_fits t
  rw [shifted_two_pow]
  exact and_twoPow_ne_zero m _ (by omega)

theorem and_inlineMask_ne_zero :
    m &&& t.inlineMask ≠ 0#_ ↔ m.getLsbD (t.tagShift + 1) = true := by
  have hm : t.inlineMask = BitVec.ofNat _ (2 ^ 1) <<< t.tagShift := rfl
  rw [hm]
  exact and_tagMask_ne_zero m (by decide)

theorem and_needsDropMask_ne_zero :
    m &&& t.needsDropMask ≠ 0#_ ↔ m.getLsbD (t.tagShift + 2) = true := by
  have hm : t.needsDropMask = BitVec.ofNat _ (2 ^ 2) <<< t.tagShift := rfl
  rw [hm]
  exact and_tagMask_ne_zero m (by decide)

theorem and_isAsciiMask_ne_zero :
    m &&& t.isAsciiMask ≠ 0#_ ↔ m.getLsbD (t.tagShift + 3) = true := by
  have hm : t.isAsciiMask = BitVec.ofNat _ (2 ^ 3) <<< t.tagShift := rfl
  rw [hm]
  exact and_tagMask_ne_zero m (by decide)

theorem and_borrowedMask_eq_zero :
    m &&& (t.inlineMask ||| t.needsDropMask) = 0#_ ↔
      m.getLsbD (t.tagShift + 1) = false ∧ m.getLsbD (t.tagShift + 2) = false := by
  rw [BitVec.and_or_distrib_left, BitVec.or_eq_zero_iff]
  have h1 := and_inlineMask_ne_zero m
  have h2 := and_needsDropMask_ne_zero m
  rw [← Bool.not_eq_true, ← Bool.not_eq_true, ← h1, ← h2, not_not, not_not]

theorem and_stateMask_eq_iff {c : ℕ} (hc : c < 2 ^ 3) :
    m &&& t.stateMask = BitVec.ofNat _ c <<< t.tagShift ↔
      ∀ k < 3, m.getLsbD (t.tagShift + k) = c.testBit k := by
  have hfit := tagShift_fits t
  have h16 := sixteen_lt t
  let f : Field t.usizeBits := ⟨t.tagShift, 3, by omega⟩
  have hwidth : f.width ≤ t.usizeBits := show 3 ≤ t.usizeBits by omega
  have hmask : t.stateMask = f.mask := by
    rw [Field.mask, ones_eq hwidth]
    rfl
  have hv : f.Holds (BitVec.ofNat t.usizeBits c) := by
    simp only [Field.Holds, BitVec.toNat_ofNat, f]
    rwa [Nat.mod_eq_of_lt (by omega)]
  rw [hmask]
  refine (f.and_mask_eq_put_iff hv).trans (forall₂_congr fun k hk => ?_)
  have hk3 : k < 3 := hk
  rw [BitVec.getLsbD_ofNat]
  simp only [show k < t.usizeBits by omega, decide_true, Bool.true_and]
  rfl

/-- Decoding a state reads exactly the three state bits. -/
theorem fromMetaChecked_eq :
    fromMetaChecked m =
      match m.getLsbD t.tagShift, m.getLsbD (t.tagShift + 1), m.getLsbD (t.tagShift + 2) with
      | true, false, false => .ok (some .borrowed)
      | true, false, true => .ok (some .shared)
      | true, true, false => .ok (some .inline)
      | _, _, _ => .error .undefined := by
  have hiff : ∀ c, c < 2 ^ 3 → (m &&& t.stateMask = BitVec.ofNat _ c <<< t.tagShift ↔
      m.getLsbD t.tagShift = c.testBit 0 ∧ m.getLsbD (t.tagShift + 1) = c.testBit 1 ∧
        m.getLsbD (t.tagShift + 2) = c.testBit 2) := by
    intro c hc
    rw [and_stateMask_eq_iff m hc]
    exact ⟨fun h => ⟨h 0 (by decide), h 1 (by decide), h 2 (by decide)⟩,
      fun ⟨h0, h1, h2⟩ k hk => by interval_cases k <;> assumption⟩
  simp only [fromMetaChecked, hiff 0b0001 (by decide), hiff 0b0101 (by decide),
    hiff 0b0011 (by decide)]
  cases m.getLsbD t.tagShift <;> cases m.getLsbD (t.tagShift + 1) <;>
    cases m.getLsbD (t.tagShift + 2) <;> rfl

theorem fromMetaChecked_of_bits {tag : StateTag} {isAscii : Bool}
    (h : ∀ k < 4, m.getLsbD (t.tagShift + k) = (tagNibble tag isAscii).testBit k) :
    fromMetaChecked m = .ok (some tag) := by
  rw [fromMetaChecked_eq, show m.getLsbD t.tagShift = _ from h 0 (by decide), h 1 (by decide),
    h 2 (by decide)]
  cases tag <;> cases isAscii <;> rfl

theorem ne_zero_of_bits {tag : StateTag} {isAscii : Bool}
    (h : ∀ k < 4, m.getLsbD (t.tagShift + k) = (tagNibble tag isAscii).testBit k) : m ≠ 0#_ := by
  rintro rfl
  have h0 := h 0 (by decide)
  rw [BitVec.getLsbD_zero] at h0
  cases tag <;> cases isAscii <;> cases h0

end TagBits

section Encode
variable {len : Usize t}

theorem holds_len_iff : (lenField t).Holds len ↔ len ≤ t.maxBorrowedOrSharedLen := by
  have hfit := lenField_fits t
  have hp := Nat.one_le_two_pow (n := t.lenBits)
  have hle : 2 ^ t.lenBits ≤ 2 ^ t.usizeBits := Nat.pow_le_pow_right (by decide) (by omega)
  rw [BitVec.le_def, Target.maxBorrowedOrSharedLen, ones_eq (by omega), BitVec.toNat_ofNat,
    Nat.mod_eq_of_lt (by omega)]
  simp only [Field.Holds, lenField]
  omega

theorem lowHash_toNat (t : Target) (hash : UInt64) :
    (lowHash t hash).toNat = hash.toNat % 2 ^ t.hashBits := by
  have hfit := hashField_fits t
  unfold lowHash Target.hashValueMask
  split_ifs with h
  · simp [h, Nat.mod_one]
  · have hp := Nat.one_le_two_pow (n := t.hashBits)
    have hle : 2 ^ t.hashBits ≤ 2 ^ t.usizeBits := Nat.pow_le_pow_right (by decide) (by omega)
    rw [ones_eq (by omega), BitVec.toNat_and, BitVec.toNat_setWidth, BitVec.toNat_ofNat,
      Nat.mod_eq_of_lt (show 2 ^ t.hashBits - 1 < 2 ^ t.usizeBits by omega),
      Nat.and_two_pow_sub_one_eq_mod]
    exact Nat.mod_mod_of_dvd _ (Nat.pow_dvd_pow 2 (by omega))

theorem lowHash_holds (t : Target) (hash : UInt64) : (hashField t).Holds (lowHash t hash) := by
  rw [Field.Holds, lowHash_toNat]
  exact Nat.mod_lt _ (Nat.two_pow_pos _)

/-- The encoder packs the fields, or panics when the length does not fit. -/
theorem encodeLenTagHash_eq (tag : StateTag) (hash : UInt64) :
    encodeLenTagHash len tag hash =
      if len ≤ t.maxBorrowedOrSharedLen then .ok (packWord len tag false (lowHash t hash))
      else .error (.panic tooLarge) := by
  rcases t with ⟨_, _ | _, _⟩
  · have hput : (lenField _).put len = len := BitVec.shiftLeft_zero _
    rw [packWord, hput, ← tagBits_eq]
    rfl
  · rw [packWord, ← tagBits_eq]
    rfl

theorem packWord_or_isAsciiMask (tag : StateTag) (hash : Usize t) :
    packWord len tag false hash ||| t.isAsciiMask = packWord len tag true hash := by
  rw [packWord, packWord, ← tagBits_eq, ← tagBits_or_isAsciiMask]
  ac_rfl

/-- Metadata codec: encoding succeeds exactly up to the maximal length, and then every
field reads back as it was packed, whether or not the ASCII flag is added afterwards. -/
theorem encodeLenTagHash_roundtrip (len : Usize t) {tag : StateTag} (htag : tag ≠ .inline)
    (hash : UInt64) :
    ((∃ m, encodeLenTagHash len tag hash = .ok m) ↔ len ≤ t.maxBorrowedOrSharedLen) ∧
    (¬ len ≤ t.maxBorrowedOrSharedLen →
      encodeLenTagHash len tag hash = .error (.panic tooLarge)) ∧
    ∀ m, encodeLenTagHash len tag hash = .ok m → ∀ isAscii : Bool,
      let m' := if isAscii then m ||| t.isAsciiMask else m
      decodeBorrowedOrSharedLen m' = len ∧
      (decodeCachedHash m').toNat = hash.toNat % 2 ^ t.hashBits ∧
      fromMeta m' = .ok tag ∧
      (m' &&& t.isAsciiMask ≠ 0#_ ↔ isAscii = true) ∧
      m' &&& t.inlineMask = 0#_ ∧
      (m' &&& t.needsDropMask ≠ 0#_ ↔ tag = .shared) := by
  rw [encodeLenTagHash_eq]
  split_ifs with hlen
  · refine ⟨by simp [hlen], fun h => absurd hlen h, ?_⟩
    intro m hm isAscii m'
    obtain rfl : packWord len tag false (lowHash t hash) = m := by simpa using hm
    have hm' : m' = packWord len tag isAscii (lowHash t hash) := by
      cases isAscii with
      | false => rfl
      | true => exact packWord_or_isAsciiMask tag _
    have hl := holds_len_iff.mpr hlen
    have hh := lowHash_holds t hash
    have hbit : ∀ k < 4, m'.getLsbD (t.tagShift + k) = (tagNibble tag isAscii).testBit k := by
      intro k hk
      rw [hm', packWord_bit tag isAscii hl hh hk]
    refine ⟨?_, ?_, ?_, ?_, ?_, ?_⟩
    · rw [decodeBorrowedOrSharedLen_eq, hm', packWord_len tag isAscii hl hh]
    · rw [decodeCachedHash_eq, hm', packWord_hash tag isAscii hl hh, lowHash_toNat]
    · rw [fromMeta, fromMetaChecked_of_bits m' hbit]
      rfl
    · rw [and_isAsciiMask_ne_zero, hbit 3 (by decide)]
      cases tag <;> cases isAscii <;> decide
    · rw [← not_not (a := m' &&& t.inlineMask = 0#_), ← ne_eq, and_inlineMask_ne_zero,
        hbit 1 (by decide)]
      cases tag <;> cases isAscii <;> simp_all <;> decide
    · rw [and_needsDropMask_ne_zero, hbit 2 (by decide)]
      cases tag <;> cases isAscii <;> simp_all <;> decide
  · exact ⟨by simp [hlen], fun _ => rfl, fun m hm => by cases hm⟩

/-- The longest shared length and a hash with all bits set, on a 64-bit target. -/
theorem encodeLenTagHash_roundtrip_longest :
    ∃ m, encodeLenTagHash Target.x64LE.maxBorrowedOrSharedLen .shared (-1) = .ok m ∧
      decodeBorrowedOrSharedLen m = Target.x64LE.maxBorrowedOrSharedLen ∧
      fromMeta m = .ok .shared := by
  obtain ⟨hiff, -, hdecode⟩ := encodeLenTagHash_roundtrip Target.x64LE.maxBorrowedOrSharedLen
    (by decide : StateTag.shared ≠ .inline) (-1)
  obtain ⟨m, hm⟩ := hiff.mpr (BitVec.le_refl _)
  obtain ⟨hlen, -, htag, -⟩ := hdecode m hm false
  exact ⟨m, hm, hlen, htag⟩

end Encode

end RefStr.Arch
