import RefStr.StepwiseRules
import RefStr.Completion
import RefStr.Equality

/-! The calls that threads make. Next to whatever other threads do, a creation, a copy, a
consumption or an observation comes to what the texts say, or is refused for a string that is
too long. -/
namespace RefStr
open Interleaving ByteMemory RefStrCore Arch Stepwise
variable {t : Target} {B : Backend} {α β : Type}

namespace Stepwise
variable {c : Call (accounting t)} {own : List (Holding t)} {v : RefStrCore t B}
  {x y : Text t} {p : RawStr t} {s : Str t} {A : Allocator t} {k : WrapperKind}

/-- The words of a borrowed value stand for the reference that they were made of. -/
lemma becomes_borrowed {ptr : Usize t} (hs : s.Compressible) :
    Becomes c (.pointer c.party ⟨ptr, s.len⟩ s :: own)
      (.value c.party k (⟨.ofStr ptr .borrowed s hs⟩ : RefStrCore t B) ⟨s, .borrowed ptr⟩ ::
        own) := by
  have henc : (RawParts.ofStr ptr .borrowed s hs).Encodes ⟨s, .borrowed ptr⟩ := .borrowed _ _ hs
  let v : RefStrCore t B := ⟨.ofStr ptr .borrowed s hs⟩
  refine becomes_slot _ (owners_eq_nil (v := v) henc (by simp)) ?_ fun w hw => ?_
  · change v.borrows ⊆ [⟨ptr, s.len⟩]
    rw [borrows_borrowed (v := v) henc]
    exact List.Subset.refl _
  · cases hw with
    | pointer _ hread => exact .value (.borrowed hs hread)

/-- The reference is given up before the length is refused. -/
lemma safe_fromStr {ptr : Usize t}
    (hlong : ¬ s.Compressible → c.Excuses (.panic tooLarge)) :
    Safe c (fun u own' => own' = [⟨c.party, .value k B u, some ⟨s, .borrowed ptr⟩⟩])
      (liftM (Wrapper.fromStr ⟨ptr, s⟩ : Except Fault (Wrapper t k B)) :
        Steps t (Wrapper t k B)) [.pointer c.party ⟨ptr, s.len⟩ s] := by
  rw [Wrapper.fromStr_eq]
  by_cases hs : s.Compressible
  · rw [dif_pos hs]
    exact Safe.becomes (becomes_borrowed hs) (Safe.ret rfl)
  · rw [dif_neg hs]
    exact ⟨hlong hs, [], becomes_nil rfl, by simp⟩

/-- The fast paths of comparison answer as the texts do. -/
lemma computes_eq {u : RefStrCore t B} {w : World t} (h : Views c own v x) (h' : Views c own u y)
    (hv : v.Represents w x) (hu : u.Represents w y) :
    Computes c (eq v u) own (decide (x.str = y.str)) own := by
  have hrun := hv.run_eq hu
  have hanswer : ∀ b : Bool, (pure b : Exec t Bool) w = .ok (decide (x.str = y.str)) w →
      Computes c (pure b) own (decide (x.str = y.str)) own := by
    intro b hb
    obtain ⟨rfl, -⟩ := EStateM.Result.ok.inj hb
    exact Computes.ret
  have hread : Computes c (do return decide ((← asStr v) = (← asStr u))) own
      (decide (x.str = y.str)) own := (computes_asStr h).bind (computes_asStr h').map
  rw [RefStrCore.eq] at hrun
  rw [Stepwise.eq]
  by_cases hwords : v.parts.rawPtr = u.parts.rawPtr ∧ v.parts.metaWord = u.parts.metaWord
  · rw [if_pos hwords] at hrun ⊢
    exact hanswer true hrun
  rw [if_neg hwords] at hrun ⊢
  by_cases hinline : (v.isInline || u.isInline) = true
  · rw [if_pos hinline]
    exact hread
  rw [if_neg hinline] at hrun ⊢
  by_cases hhash : v.parts.cachedHash ≠ u.parts.cachedHash
  · rw [if_pos hhash] at hrun ⊢
    exact hanswer false hrun
  rw [if_neg hhash] at hrun ⊢
  by_cases hlen : v.len ≠ u.len
  · rw [if_pos hlen] at hrun ⊢
    exact hanswer false hrun
  · rw [if_neg hlen]
    exact hread

lemma computes_cmp {u : RefStrCore t B} (h : Views c own v x) (h' : Views c own u y) :
    Computes c (cmp v u) own (x.str.cmp y.str) own :=
  (computes_asStr h).bind (computes_asStr h').map

lemma computes_wrapperAsCow {v : Wrapper t k B} (h : Views c own v.inner x) :
    Computes c (wrapperAsCow k B v) own x.cow own := by
  cases k with
  | lifetimeKind => exact computes_asCow h
  | staticKind =>
    have hb : v.inner.parts.isBorrowed = true ↔ x.origin.tag = .borrowed :=
      h.encodes.isBorrowed_iff
    have howned : x.origin.tag ≠ .borrowed →
        Computes c (wrapperAsCow .staticKind B v) own (.owned x.str) own := by
      intro hx
      rw [wrapperAsCow, borrowedStaticStr, if_neg (hb.not.mpr hx)]
      exact (computes_asStr h).map
    obtain ⟨s, ptr | _ | _⟩ := x
    · have hread := computes_borrowedStrUnchecked h (by simp)
      rw [h.encodes.rawPtr_eq] at hread
      rw [wrapperAsCow, borrowedStaticStr, if_pos (hb.mpr rfl)]
      exact hread.map.bind Computes.ret
    · exact howned (by simp)
    · exact howned (by simp)

end Stepwise

section Requests
variable {c : Call (accounting t)} {A : Allocator t} {x y : Text t} {slot slot' : Slot t}
  {w : World t}

/-- What is handed over to a creation: a reference that is passed in. -/
def Creation.args (thread : ℕ) : Creation t → List (Holding t)
  | .fromStr _ _ s => [.pointer thread s.raw s.str]
  | .ofCow _ _ (.borrowed s) => [.pointer thread s.raw s.str]
  | _ => []

theorem Creation.safe {r : Creation t} (hlong : r.Oversized → c.Excuses (.panic tooLarge)) :
    Safe c (fun y own' => own' = [⟨c.party, y, some r.text⟩]) (r.steps A) (r.args c.party) := by
  have howned : ∀ (k : WrapperKind) (B : Backend) (s : Str t),
      (¬ s.Compressible → c.Excuses (.panic tooLarge)) →
      Safe c (fun u own' => own' = [.value c.party k u (.owned s)])
        (Stepwise.fromOwnedLike A s : Steps t (RefStrCore t B)) [] := by
    intro k B s hs
    refine (safe_fromOwnedLike (k := k) fun hlong => ⟨hs hlong, by simp⟩).mono ?_
    rintro u _ ⟨-, rfl⟩
    rfl
  cases r with
  | handle B s =>
    refine Safe.map (safe_allocate.mono ?_)
    rintro h _ ⟨-, rfl⟩
    rfl
  | fromStr k B s => exact Safe.map (safe_fromStr hlong)
  | fromOwnedLike k B s => exact Safe.map (howned k B s hlong)
  | ofString k B s => exact Safe.map (howned k B s hlong)
  | ofBoxedStr k B s => exact Safe.map (howned k B s hlong)
  | ofCow k B value =>
    refine Safe.map ?_
    cases value with
    | borrowed s =>
      cases k with
      | lifetimeKind =>
        have heq : Stepwise.ofCow A .lifetimeKind B (.borrowed s) =
            (liftM (Wrapper.fromStr s : Except Fault (Wrapper t .lifetimeKind B)) :
              Steps t (Wrapper t .lifetimeKind B)) := by
          rw [Stepwise.ofCow, Wrapper.fromStr]
          cases (RefStrCore.fromStr s : Except Fault (RefStrCore t B)) <;> rfl
        rw [heq]
        exact safe_fromStr hlong
      | staticKind => exact safe_fromStr hlong
    | owned s =>
      cases k with
      | lifetimeKind => exact Safe.map (howned _ B s hlong)
      | staticKind => exact Safe.map (howned _ B s hlong)

/-- The slot is looked at by a call of the thread that may look at it. -/
structure Sees (c : Call (accounting t)) (slot : Slot t) (x : Text t) : Prop where
  looks : ∃ thread, (⟨thread, slot, some x⟩ : Holding t) ∈ c.looks ∧
    ∀ o ∈ slot.owners, o.backend = .localBackend → thread = c.party
  borrows : slot.borrows ⊆ c.refs

lemma Sees.reaches (h : Sees c slot x) (own : List (Holding t)) :
    Reaches c own slot.owners := by
  obtain ⟨thread, hlooks, hlocal⟩ := h.looks
  exact fun o ho => ⟨_, List.mem_append_right _ hlooks, ho, hlocal o ho⟩

lemma Sees.views {k : WrapperKind} {B : Backend} {v : Wrapper t k B}
    (h : Sees c (.value k B v) x) (hv : v.inner.Represents w x) (own : List (Holding t)) :
    Views c own v.inner x := by
  obtain ⟨thread, hlooks, -⟩ := h.looks
  exact Views.of_looks (k := k) hv.encodes hlooks

/-- The handle behind a slot that is looked at and owns a strong count. -/
lemma Sees.handle {B : Backend} {p : RawStr t} {s : Str t} (h : Sees c slot ⟨s, .shared⟩)
    (howners : slot.owners = [⟨B, p⟩]) {rest : List (Holding t)} (hl : c.looks ⊆ rest)
    (hacc : w.Accounts rest) : Handle w B p s := by
  obtain ⟨thread, hlooks, -⟩ := h.looks
  have hx : slot.Holds w (some ⟨s, .shared⟩) := hacc.holds _ (hl hlooks)
  obtain ho | ⟨B', p', s', ho, hh, htext⟩ := hx.owners
  · rw [howners] at ho
    cases ho
  · rw [howners] at ho
    cases ho
    cases htext
    exact hh

/-- A copy holds the text of what it was made from, which stays where it is. -/
theorem Copying.safe {r : Copying} {p : Steps t (Slot t)} (hsees : Sees c slot x)
    (hx : slot.Holds w (some x)) (hp : r.steps A slot = some p) :
    Safe c (fun y own' => own' = [⟨c.party, y, some (r.text x)⟩]) p [] := by
  have hretain : ∀ (B : Backend) (p : RawStr t) (s : Str t) (y : Holding t),
      slot.owners = [⟨B, p⟩] → x = ⟨s, .shared⟩ → y.owners = [⟨B, p⟩] → y.thread = c.party →
      y.slot.borrows = [] → (∀ w : World t, Handle w B p s → y.slot.Holds w y.text) →
      Computes c (Stepwise.incrementStrongCount B p) [] () [y] := by
    rintro B p s y ho rfl hy hthread hborrows hholds
    refine computes_retain (o := ⟨B, p⟩) hy hthread hborrows
      (hsees.reaches [] _ (ho ▸ List.mem_cons_self)) fun w rest hl hacc => ?_
    exact hholds _ (hsees.handle ho hl hacc).retain
  cases r with
  | cloneHandle =>
    cases hx with
    | @handle B p s h =>
      cases hp
      have hretain := hretain B p s (.handle c.party ⟨p⟩ s) rfl rfl rfl rfl rfl
        fun w h => .handle h
      have hclone : Computes c (cloneShared (⟨p⟩ : Shared t B)) [] ⟨p⟩
          [.handle c.party (⟨p⟩ : Shared t B) s] := hretain.bind Computes.ret
      exact hclone.safe (Safe.ret rfl)
    | _ => cases hp
  | clone =>
    cases hx with
    | @value k B v _ h =>
      cases hp
      have hclone := computes_clone (k := k) (hsees.views h []) (hsees.reaches []) hsees.borrows
      exact hclone.safe (Safe.ret rfl)
    | _ => cases hp
  | toStaticStr =>
    cases hx with
    | @value k B v _ h =>
      cases k with
      | lifetimeKind =>
        cases hp
        refine Safe.map ((safe_toStaticCore (k := .staticKind) (hsees.views h [])
          (hsees.reaches []) hsees.borrows).mono ?_)
        rintro u _ ⟨-, rfl⟩
        rfl
      | staticKind => cases hp
    | _ => cases hp
  | incrementStrongCount =>
    obtain ho | ⟨B, p, s, ho, h, rfl⟩ := hx.owners
    · simp only [Copying.steps, ho] at hp
      cases hp
    · simp only [Copying.steps, ho, Option.some.injEq] at hp
      subst hp
      have hraw := hretain B p s (.raw c.party B p s) ho rfl rfl rfl rfl fun w h => .raw h
      refine hraw.safe (Safe.ret ?_)
      rfl

/-- What was consumed is released or handed over, and what takes its place holds its text. -/
theorem Consuming.safe {r : Consuming} {p : Steps t (Slot t)} (hx : slot.Holds w (some x))
    (hp : r.steps A slot = some p)
    (hlong : (∃ k, r = .fromShared k) → ¬ x.str.Compressible → c.Excuses (.panic tooLarge)) :
    Safe c (fun y own' => own' = [⟨c.party, y, r.text x⟩]) p [⟨c.party, slot, some x⟩] := by
  have hgone : ∀ (α : Type) (p : Steps t α) (a : α),
      Computes c p [⟨c.party, slot, some x⟩] a [] →
      Safe c (fun y own' => own' = [⟨c.party, y, none⟩]) (do let _ ← p; return Slot.gone)
        [⟨c.party, slot, some x⟩] := by
    intro α p a h
    exact h.safe (Safe.becomes becomes_gone (Safe.ret rfl))
  cases r with
  | fromShared k =>
    cases hx with
    | @handle B p s h =>
      cases hp
      refine Safe.map ((safe_fromShared (k := k) h.len fun hs =>
        ⟨hlong ⟨k, rfl⟩ hs, by simp⟩).mono ?_)
      rintro u _ ⟨-, rfl⟩
      rfl
    | _ => cases hp
  | intoStaticStr =>
    cases hx with
    | @value k B v _ h =>
      cases k with
      | lifetimeKind =>
        cases hp
        refine Safe.map ((safe_intoStaticCore (k := .lifetimeKind) .staticKind h.encodes).mono ?_)
        rintro u _ rfl
        rfl
      | staticKind => cases hp
    | _ => cases hp
  | convert =>
    cases hx with
    | @value k B v _ h =>
      cases hp
      refine Safe.map ((safe_convert (k := k) h.encodes).mono ?_)
      rintro u _ ⟨-, rfl⟩
      rfl
    | _ => cases hp
  | rewrap k' =>
    cases hx with
    | @value k B v _ h =>
      cases hp
      exact Safe.becomes (becomes_rewrap k k') (Safe.ret rfl)
    | _ => cases hp
  | intoRawParts =>
    cases hx with
    | @value k B v _ h =>
      cases hp
      refine Safe.becomes (becomes_slot (.parts B v.intoRawParts) rfl
        (List.Subset.refl _) fun w hw => ?_) (Safe.ret rfl)
      cases hw with
      | value h => exact .parts h
    | _ => cases hp
  | fromRawParts k =>
    cases hx with
    | @parts B p _ h =>
      cases hp
      refine Safe.becomes (becomes_slot (.value k B (.fromRawParts p)) rfl
        (List.Subset.refl _) fun w hw => ?_) (Safe.ret rfl)
      cases hw with
      | parts h => exact .value h
    | _ => cases hp
  | intoRaw =>
    cases hx with
    | @value k B v _ h =>
      cases hp
      refine Safe.map ((safe_intoRaw (k := k) h.encodes).mono ?_)
      rintro p _ rfl
      rfl
    | _ => cases hp
  | intoRawShared =>
    cases hx with
    | @value k B v _ h =>
      cases hp
      rw [Consuming.text]
      by_cases htag : x.origin.tag = .shared
      · rw [if_pos htag]
        rw [Text.eq_shared htag] at h ⊢
        exact (computes_intoRawShared_shared (k := k) h.encodes).safe (Safe.ret rfl)
      · rw [if_neg htag]
        exact (computes_intoRawShared (k := k) h.encodes htag).safe
          (Safe.becomes becomes_gone (Safe.ret rfl))
    | _ => cases hp
  | fromRaw =>
    cases hx with
    | @raw B p s h =>
      cases hp
      exact computes_fromRaw.safe (Safe.ret rfl)
    | _ => cases hp
  | dropHandle =>
    cases hx with
    | @handle B p s h =>
      cases hp
      exact hgone _ _ _ computes_dropShared
    | _ => cases hp
  | drop =>
    cases hx with
    | @value k B v _ h =>
      cases hp
      exact hgone _ _ _ (computes_drop h.encodes)
    | _ => cases hp
  | intoCow =>
    cases hx with
    | @value k B v _ h =>
      cases hp
      exact hgone _ _ _ (computes_intoCow h.encodes)
    | _ => cases hp
  | intoString =>
    cases hx with
    | @value k B v _ h =>
      cases hp
      exact hgone _ _ _ (computes_intoString h.encodes)
    | _ => cases hp
  | intoBoxedStr =>
    cases hx with
    | @value k B v _ h =>
      cases hp
      exact hgone _ _ _ (computes_intoBoxedStr h.encodes)
    | _ => cases hp
  | intoBytes =>
    cases hx with
    | @value k B v _ h =>
      cases hp
      exact hgone _ _ _ (computes_intoBytes h.encodes)
    | _ => cases hp
  | forget =>
    cases hx with
    | @parts B p _ h =>
      simp only [Consuming.steps] at hp
      split_ifs at hp with hshared
      cases hp
      exact Safe.becomes (becomes_nil (if_neg hshared)) (Safe.becomes becomes_gone (Safe.ret rfl))
    | pointer =>
      cases hp
      exact Safe.becomes (becomes_nil rfl) (Safe.becomes becomes_gone (Safe.ret rfl))
    | _ => cases hp

/-- What is looked at is what the texts say. -/
theorem Observing.safe {r : Observing} {p : Steps t (Reply t)} (hsees : Sees c slot x)
    (hsees' : Sees c slot' y) (hx : slot.Holds w (some x)) (hy : slot'.Holds w (some y))
    (hp : r.steps slot slot' = some p) : Computes c p [] (r.reply x y) [] := by
  cases r with
  | asStr =>
    cases hx with
    | @value k B v _ h =>
      cases hy with
      | value =>
        cases hp
        exact (computes_asStr (hsees.views h [])).map
      | _ => cases hp
    | _ => cases hy <;> cases hp
  | asCow =>
    cases hx with
    | @value k B v _ h =>
      cases hy with
      | value =>
        cases hp
        exact (computes_wrapperAsCow (hsees.views h [])).map
      | _ => cases hp
    | _ => cases hy <;> cases hp
  | eq =>
    cases hx with
    | @value k B v _ h =>
      cases hy with
      | @value k' B' u _ h' =>
        simp only [Observing.steps] at hp
        split_ifs at hp with hB
        subst hB
        cases hp
        exact (computes_eq (hsees.views h []) (hsees'.views h' []) h h').map
      | _ => cases hp
    | _ => cases hy <;> cases hp
  | cmp =>
    cases hx with
    | @value k B v _ h =>
      cases hy with
      | @value k' B' u _ h' =>
        simp only [Observing.steps] at hp
        split_ifs at hp with hB
        subst hB
        cases hp
        exact (computes_cmp (hsees.views h []) (hsees'.views h' [])).map
      | _ => cases hp
    | _ => cases hy <;> cases hp

end Requests
end RefStr
