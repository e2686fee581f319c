import RefStr.Invariant

/-! Validation of metadata words. `RawParts::new` is meant to refuse words whose state bits are
not valid with a panic, but the tag is decoded by code that takes the bits to be valid: there
the arm for every other pattern is undefined behaviour. On valid bits the validation is exact. -/
namespace RefStr
open Arch
variable {t : Target}

namespace RawParts

/-- What validation of two words has to do. -/
structure Validated (rawPtr metaWord : Usize t) : Prop where
  defined : RawParts.new rawPtr metaWord ≠ .error .undefined
  outcome : (∃ message, RawParts.new rawPtr metaWord = .error (.panic message)) ∨
    ∃ p, RawParts.new rawPtr metaWord = .ok p ∧ p.intoFields = (rawPtr, metaWord)
  accepts_iff : (∃ p, RawParts.new rawPtr metaWord = .ok p) ↔
    ∃ tag, metaWord &&& t.stateMask = Arch.tagBits tag ∧
      (decodedLen tag metaWord).toNat ≤ capacity t tag
  accepted : ∀ p, RawParts.new rawPtr metaWord = .ok p → ∃ tag, p.tag = .ok tag ∧
    p.isBorrowed = decide (tag = .borrowed) ∧ p.isShared = decide (tag = .shared) ∧
      p.isInline = decide (tag = .inline) ∧ p.len.toNat ≤ capacity t tag

section Bits
variable {p : RawParts t} {tag : StateTag} {isAscii : Bool}

/-- The state bits leave only the ASCII flag open. -/
lemma bits_of_stateMask {m : Usize t} (h : m &&& t.stateMask = Arch.tagBits tag) :
    ∀ k < 4, m.getLsbD (t.tagShift + k) =
      (tagNibble tag (m.getLsbD (t.tagShift + 3))).testBit k := by
  have hbits : Arch.tagBits (t := t) tag =
      BitVec.ofNat _ (tagNibble tag false) <<< t.tagShift := by
    cases tag <;> rfl
  have hlt : tagNibble tag false < 2 ^ 3 := by cases tag <;> decide
  rw [hbits, and_stateMask_eq_iff _ hlt] at h
  intro k hk
  by_cases hk3 : k < 3
  · rw [h k hk3]
    generalize m.getLsbD (t.tagShift + 3) = isAscii
    revert k
    cases tag <;> cases isAscii <;> decide
  · obtain rfl : k = 3 := by omega
    cases tag <;> cases m.getLsbD (t.tagShift + 3) <;> rfl

lemma HasTag.len_eq (h : p.HasTag tag isAscii) : p.len = decodedLen tag p.metaWord := by
  have hmask : p.metaWord &&& t.inlineMask ≠ 0#_ ↔ tag = .inline :=
    decide_eq_decide.mp h.isInline_eq
  rw [len]
  cases tag with
  | borrowed => exact if_neg (hmask.not.mpr (by decide))
  | shared => exact if_neg (hmask.not.mpr (by decide))
  | inline => exact if_pos (hmask.mpr rfl)

/-- Without a valid state the code runs into the arm that it takes to be unreachable. -/
lemma new_undefined (rawPtr : Usize t) {m : Usize t}
    (h : ¬ ∃ tag, m &&& t.stateMask = Arch.tagBits tag) :
    RawParts.new rawPtr m = .error .undefined := by
  have hne : ∀ tag, m &&& t.stateMask ≠ Arch.tagBits tag := fun tag htag => h ⟨tag, htag⟩
  have hchecked : fromMetaChecked m = .error .undefined :=
    (if_neg (hne .borrowed)).trans ((if_neg (hne .shared)).trans (if_neg (hne .inline)))
  rw [RawParts.new, hchecked]
  rfl

lemma HasTag.validated (h : p.HasTag tag isAscii) : Validated p.rawPtr p.metaWord := by
  have hnew := h.new_eq
  by_cases hle : (decodedLen tag p.metaWord).toNat ≤ capacity t tag
  · rw [if_pos hle] at hnew
    refine ⟨?_, Or.inr ⟨p, hnew, rfl⟩, ⟨fun _ => ⟨tag, (h.stateMask_iff tag).mpr rfl, hle⟩,
      fun _ => ⟨p, hnew⟩⟩, fun q hq => ?_⟩
    · rw [hnew]
      intro h
      cases h
    · obtain rfl := Except.ok.inj (hnew.symm.trans hq)
      exact ⟨tag, h.tag_eq, h.isBorrowed_eq, h.isShared_eq, h.isInline_eq, h.len_eq ▸ hle⟩
  · rw [if_neg hle] at hnew
    have hno : ∀ q, RawParts.new p.rawPtr p.metaWord ≠ .ok q := by
      intro q hq
      rw [hnew] at hq
      cases hq
    refine ⟨?_, Or.inl ⟨_, hnew⟩, ⟨fun ⟨q, hq⟩ => absurd hq (hno q), fun ⟨tag', htag', hle'⟩ => ?_⟩,
      fun q hq => absurd hq (hno q)⟩
    · rw [hnew]
      intro h
      cases h
    · obtain rfl := (h.stateMask_iff tag').mp htag'
      exact absurd hle' hle

end Bits

/-- Validation does what it has to exactly when the state bits are valid, and it accepts the
fields of every value that a run reaches. -/
theorem validated_iff (rawPtr metaWord : Usize t) :
    (Validated rawPtr metaWord ↔ ∃ tag, metaWord &&& t.stateMask = Arch.tagBits tag) ∧
      ∀ (sys : Sys t), sys.Reachable → ∀ (i : ℕ) (k : WrapperKind) (B : Backend)
        (v : Wrapper t k B), sys.slots[i]? = some (.value k B v) →
          ∃ p, RawParts.new v.intoRawParts.intoFields.1 v.intoRawParts.intoFields.2 = .ok p ∧
            p.intoFields = v.intoRawParts.intoFields := by
  refine ⟨⟨fun h => ?_, fun ⟨tag, htag⟩ => ?_⟩, fun sys hsys i k B v hv => ?_⟩
  · by_contra hno
    exact h.defined (new_undefined rawPtr hno)
  · have hbits := bits_of_stateMask htag
    let p : RawParts t := ⟨rawPtr, ⟨metaWord, ne_zero_of_bits _ hbits⟩⟩
    exact HasTag.validated (p := p) hbits
  · obtain ⟨store, hinv⟩ := hsys.inv
    obtain ⟨x, -, h⟩ := hinv.represents hv
    exact ⟨_, h.encodes.new_eq, rfl⟩

/-- A word with all three state bits set is neither refused nor accepted. -/
theorem not_validated :
    RawParts.new (t := .x64LE) 0#64 0x7000000000000000#64 = .error .undefined ∧
      ¬ ∀ (t : Target) (rawPtr metaWord : Usize t), Validated rawPtr metaWord := by
  have hnew : RawParts.new (t := .x64LE) 0#64 0x7000000000000000#64 = .error .undefined := by
    rfl
  exact ⟨hnew, fun h => (h .x64LE _ _).defined hnew⟩

end RawParts
end RefStr
