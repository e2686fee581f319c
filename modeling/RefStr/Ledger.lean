import Mathlib

/-!
# Reference-count ledgers

A ledger lists the owners of counted resources, one entry for each ownership. A table of
counts is balanced by a ledger when it counts every resource once for each of its entries
and holds nothing that has no owner. Sharing, releasing and allocating keep the balance,
and they do so next to any further owners: they are frame-preserving updates.
-/
namespace Ledger

variable {α β : Type*} [DecidableEq α]

/-- Reference counts; a resource that is not allocated has none. -/
abbrev Counts (α : Type*) := α → Option ℕ

/-- The counts that a list of owners calls for. -/
def tally (owners : List α) : Counts α := fun a =>
  if a ∈ owners then some (owners.count a) else none

def Balanced (c : Counts α) (owners : List α) : Prop := ∀ a, c a = tally owners a

def retain (c : Counts α) (a : α) : Counts α := Function.update c a ((c a).map (· + 1))

/-- Give up one ownership; the last one frees the resource. -/
def release (c : Counts α) (a : α) : Counts α :=
  Function.update c a (match c a with
    | some (n + 2) => some (n + 1)
    | _ => none)

def allocate (c : Counts α) (a : α) : Counts α := Function.update c a (some 1)

section Balance
variable {c : Counts α} {owners owners' : List α} {a : α}

theorem Balanced.perm (h : Balanced c owners) (hp : owners.Perm owners') :
    Balanced c owners' := by
  intro a
  rw [h a, tally, tally, hp.count_eq]
  simp only [hp.mem_iff]

theorem balanced_nil : Balanced (fun _ : α => none) [] := by
  intro a
  simp [tally]

theorem Balanced.eq_some_count (h : Balanced c owners) (ha : a ∈ owners) :
    c a = some (owners.count a) := by
  rw [h a, tally, if_pos ha]

theorem Balanced.mem_of_ne_none (h : Balanced c owners) (ha : c a ≠ none) : a ∈ owners := by
  by_contra hn
  exact ha (by rw [h a, tally, if_neg hn])

theorem Balanced.retain (h : Balanced c owners) (ha : a ∈ owners) :
    Balanced (retain c a) (a :: owners) := by
  intro b
  by_cases hb : b = a
  · subst hb
    simp [Ledger.retain, h.eq_some_count ha, tally]
  · rw [Ledger.retain, Function.update_of_ne hb, h b]
    simp [tally, hb, List.count_cons_of_ne (Ne.symm hb)]

theorem Balanced.release (h : Balanced c (a :: owners)) : Balanced (release c a) owners := by
  intro b
  by_cases hb : b = a
  · subst hb
    have hc := h.eq_some_count List.mem_cons_self
    rw [List.count_cons_self] at hc
    rw [Ledger.release, Function.update_self, hc, tally]
    by_cases hm : b ∈ owners
    · obtain ⟨n, hn⟩ := Nat.exists_eq_succ_of_ne_zero (List.count_pos_iff.mpr hm).ne'
      simp [hm, hn]
    · simp [hm, List.count_eq_zero_of_not_mem hm]
  · rw [Ledger.release, Function.update_of_ne hb, h b]
    simp [tally, hb, List.count_cons_of_ne (Ne.symm hb)]

theorem Balanced.allocate (h : Balanced c owners) (ha : c a = none) :
    Balanced (allocate c a) (a :: owners) := by
  have hn : a ∉ owners := by
    intro hm
    rw [h.eq_some_count hm] at ha
    cases ha
  intro b
  by_cases hb : b = a
  · subst hb
    simp [Ledger.allocate, tally, List.count_eq_zero_of_not_mem hn]
  · rw [Ledger.allocate, Function.update_of_ne hb, h b]
    simp [tally, hb, List.count_cons_of_ne (Ne.symm hb)]

end Balance

/-- A frame-preserving update: it trades the owners `os` for `os'` and keeps the balance
whatever other owners there are. -/
def Updates (c : Counts α) (os : List α) (c' : Counts α) (os' : List α) : Prop :=
  ∀ rest, Balanced c (os ++ rest) → Balanced c' (os' ++ rest)

namespace Updates
variable {c c' c'' : Counts α} {os os' os'' : List α} {a : α}

theorem refl (c : Counts α) (os : List α) : Updates c os c os := fun _ h => h

theorem trans (h : Updates c os c' os') (h' : Updates c' os' c'' os'') :
    Updates c os c'' os'' := fun rest hb => h' rest (h rest hb)

theorem perm (h : Updates c os c' os') (hp : os'.Perm os'') : Updates c os c' os'' :=
  fun rest hb => (h rest hb).perm (hp.append_right rest)

theorem retain (ha : c a ≠ none) : Updates c os (retain c a) (a :: os) :=
  fun _ hb => hb.retain (hb.mem_of_ne_none ha)

theorem release : Updates c (a :: os) (release c a) os := fun _ hb => Balanced.release hb

theorem allocate (ha : c a = none) : Updates c os (allocate c a) (a :: os) :=
  fun _ hb => hb.allocate ha

/-- One holder of a list is replaced and the counts follow. -/
theorem set {own : β → List α} {l : List β} {i : ℕ} {x y : β} (hx : l[i]? = some x)
    (h : Updates c (own x) c' (own y)) (hb : Balanced c (l.flatMap own)) :
    Balanced c' ((l.set i y).flatMap own) := by
  obtain ⟨hi, rfl⟩ := List.getElem?_eq_some_iff.mp hx
  have hold : (l.flatMap own).Perm (own l[i] ++ (l.eraseIdx i).flatMap own) := by
    rw [← List.flatMap_cons]
    exact ((List.getElem_cons_eraseIdx_perm hi).symm).flatMap_right own
  have hnew : (own y ++ (l.eraseIdx i).flatMap own).Perm ((l.set i y).flatMap own) := by
    rw [← List.flatMap_cons]
    exact ((List.set_perm_cons_eraseIdx hi y).symm).flatMap_right own
  exact (h _ (hb.perm hold)).perm hnew

theorem append {own : β → List α} {l : List β} {y : β} (h : Updates c [] c' (own y))
    (hb : Balanced c (l.flatMap own)) : Balanced c' ((l ++ [y]).flatMap own) := by
  rw [List.flatMap_append, List.flatMap_singleton]
  exact (h _ hb).perm List.perm_append_comm

end Updates

end Ledger
