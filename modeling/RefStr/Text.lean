import RefStr.Arch

/-! The abstract values: a string together with the place where a value keeps it. -/
namespace RefStr
variable {t : Target}

inductive Origin (t : Target)
  /-- In the caller's memory, at this address. -/
  | borrowed (ptr : Usize t)
  | inline
  | shared
  deriving DecidableEq

@[simp] def Origin.tag : Origin t → StateTag
  | .borrowed _ => .borrowed
  | .inline => .inline
  | .shared => .shared

structure Text (t : Target) where
  str : Str t
  origin : Origin t
  deriving DecidableEq

namespace Text

/-- Owned text is kept inline when it is short enough. -/
def owned (s : Str t) : Text t :=
  ⟨s, if s.bytes.length ≤ t.inlineCapacity then .inline else .shared⟩

/-- Static promotion copies what is borrowed. -/
def promote (x : Text t) : Text t :=
  match x.origin with
  | .borrowed _ => owned x.str
  | _ => x

/-- A raw pointer cannot point into the value itself. -/
def detach (x : Text t) : Text t :=
  match x.origin with
  | .inline => ⟨x.str, .shared⟩
  | _ => x

/-- The slice that is referred to. -/
def borrows (x : Text t) : List (RawStr t) :=
  match x.origin with
  | .borrowed ptr => [⟨ptr, x.str.len⟩]
  | _ => []

variable (x : Text t) (s : Str t)

lemma eq_shared {x : Text t} (hx : x.origin.tag = .shared) : x = ⟨x.str, .shared⟩ := by
  rcases x with ⟨_, _ | _ | _⟩
  · cases hx
  · cases hx
  · rfl

lemma borrows_eq_nil {x : Text t} (h : x.origin.tag ≠ .borrowed) : x.borrows = [] := by
  rcases x with ⟨_, _ | _ | _⟩
  · exact absurd rfl h
  · rfl
  · rfl

lemma owned_of_le (h : s.bytes.length ≤ t.inlineCapacity) : owned s = ⟨s, .inline⟩ := by
  rw [owned, if_pos h]

lemma owned_of_not_le (h : ¬ s.bytes.length ≤ t.inlineCapacity) : owned s = ⟨s, .shared⟩ := by
  rw [owned, if_neg h]

lemma owned_tag_ne_borrowed : (owned s).origin.tag ≠ .borrowed := by
  rw [owned]
  split_ifs <;> simp

variable {x} in
lemma promote_of_ne (hx : x.origin.tag ≠ .borrowed) : x.promote = x := by
  rcases x with ⟨_, _ | _ | _⟩
  · exact absurd rfl hx
  · rfl
  · rfl

lemma promote_tag_ne_borrowed : x.promote.origin.tag ≠ .borrowed := by
  rcases x with ⟨s, _ | _ | _⟩
  · exact owned_tag_ne_borrowed s
  · simp [promote]
  · simp [promote]

end Text
end RefStr
