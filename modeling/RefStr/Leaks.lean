import RefStr.Safety
import RefStr.Ownership

/-! What panics cost. A session goes on after a panic was caught. A string that is too long is
lost once it has been handed over in an allocation, with the one count that its constructor was
given; nothing else ever is. So what is left of the heap when nothing is held any more are the
strings that were refused. -/
namespace RefStr
open Arch ByteMemory RefStrCore
variable {t : Target}

/-- The string that the operation is given to own. -/
def Creation.takes : Creation t → Option (Str t)
  | fromOwnedLike _ _ s | ofString _ _ s | ofBoxedStr _ _ s | ofCow _ _ (.owned s) => some s
  | handle _ _ | fromStr _ _ _ | ofCow _ _ (.borrowed _) => none

def Creation.isOversized : Creation t → Bool
  | handle _ _ => false
  | c => !decide c.text.str.Compressible

def Consuming.refuses : Consuming → Text t → Bool
  | fromShared _, x => !decide x.str.Compressible
  | _, _ => false

lemma Creation.isOversized_iff {c : Creation t} : c.isOversized = true ↔ c.Oversized := by
  cases c <;> simp [isOversized, Oversized]

lemma Creation.not_compressible (c : Creation t) (h : c.isOversized = true) :
    ¬ c.text.str.Compressible := by
  cases c with
  | handle B s => cases h
  | _ => simpa [isOversized] using h

lemma Creation.str_of_takes {c : Creation t} {s : Str t} (h : c.takes = some s) :
    s = c.text.str := by
  cases c with
  | handle | fromStr => cases h
  | fromOwnedLike | ofString | ofBoxedStr => exact (Option.some.inj h).symm
  | ofCow k B c =>
    cases c with
    | borrowed v => cases h
    | owned s => exact (Option.some.inj h).symm

lemma Consuming.not_compressible (c : Consuming) {x : Text t} (h : c.refuses x = true) :
    ¬ x.str.Compressible := by
  cases c with
  | fromShared k => simpa [refuses] using h
  | _ => cases h

/-- A session in the abstract: the texts, and the strings that were lost to panics. -/
structure Books (t : Target) where
  store : Store t
  lost : List (Str t)

namespace Books

def attempt (books : Books t) (event : Event t) : Books t :=
  match event with
  | .create c =>
    if c.isOversized then ⟨books.store, books.lost ++ c.takes.toList⟩
    else ⟨books.store.apply event, books.lost⟩
  | .consume c i =>
    match books.store.get i with
    | some x =>
      if c.refuses x then ⟨books.store.set i none, books.lost ++ [x.str]⟩
      else ⟨books.store.apply event, books.lost⟩
    | none => ⟨books.store.apply event, books.lost⟩
  | .environment _ | .copy _ _ => ⟨books.store.apply event, books.lost⟩

def ofEvents (events : List (Event t)) : Books t := events.foldl attempt ⟨[], []⟩

lemma ofEvents_append (events : List (Event t)) (event : Event t) :
    ofEvents (events ++ [event]) = (ofEvents events).attempt event := by
  rw [ofEvents, List.foldl_append]
  rfl

/-- Only strings that are too long are lost. -/
lemma not_compressible {events : List (Event t)} :
    ∀ s ∈ (ofEvents events).lost, ¬ s.Compressible := by
  induction events using List.reverseRecOn with
  | nil => exact fun s hs => absurd hs List.not_mem_nil
  | append_singleton events event ih =>
    rw [ofEvents_append]
    cases event with
    | environment mem => exact ih
    | copy c i => exact ih
    | create c =>
      rw [attempt]
      split_ifs with hlong
      · intro s hs
        obtain hs | hs := List.mem_append.mp hs
        · exact ih s hs
        · rw [Creation.str_of_takes (Option.mem_toList.mp hs)]
          exact c.not_compressible hlong
      · exact ih
    | consume c i =>
      rw [attempt]
      split
      · rename_i x hx
        split_ifs with hrefuses
        · intro s hs
          obtain hs | hs := List.mem_append.mp hs
          · exact ih s hs
          · obtain rfl := List.mem_singleton.mp hs
            exact c.not_compressible hrefuses
        · exact ih
      · exact ih

end Books

section Panics
variable {A : Allocator t} {B : Backend} {s : Str t} {w w' : World t} {message : String}

lemma error_of_map {α β : Type} {m : Exec t α} {f : α → β} {e : Fault}
    (h : (do return f (← m) : Exec t β) w = .error e w') : m w = .error e w' := by
  cases hm : m w with
  | ok a w'' =>
    rw [run_bind hm] at h
    cases h
  | error e' w'' =>
    rw [run_bind_error hm] at h
    obtain ⟨rfl, rfl⟩ := EStateM.Result.error.inj h
    rfl

/-- An owned string that is refused has been copied into an allocation first. -/
lemma allocate_of_panic
    (h : (fromOwnedLike A s : Exec t (RefStrCore t B)) w = .error (.panic message) w') :
    ∃ ptr, A.pick w s.bytes.length = some ptr ∧ w' = w.allocate B ptr s := by
  by_cases hshort : s.bytes.length ≤ t.inlineCapacity
  · obtain ⟨q, -, hrun⟩ := run_fromOwnedLike_inline (B := B) (A := A) (w := w) hshort
    rw [hrun] at h
    cases h
  · cases hptr : A.pick w s.bytes.length with
    | none =>
      rw [run_fromOwnedLike_aborted hshort hptr] at h
      cases h
    | some ptr =>
      rw [run_fromOwnedLike_shared hshort hptr] at h
      split_ifs at h
      obtain ⟨-, rfl⟩ := EStateM.Result.error.inj h
      exact ⟨ptr, rfl, rfl⟩

/-- A creation that panics has made an allocation of the string that it was given to own. -/
lemma Creation.world_of_panic {c : Creation t} (h : c.run A w = .error (.panic message) w') :
    match c.takes with
    | some s => ∃ B ptr, A.pick w s.bytes.length = some ptr ∧ w' = w.allocate B ptr s
    | none => w' = w := by
  have hborrowed : ∀ {k B} {v : StrRef t},
      (Wrapper.ofCow A (.borrowed v) : Exec t (Wrapper t k B)) w = .error (.panic message) w' →
        w' = w := by
    intro k B v hv
    rw [Wrapper.run_ofCow_borrowed] at hv
    split_ifs at hv
    exact (EStateM.Result.error.inj hv).2.symm
  cases c with
  | handle B s =>
    have hrun := error_of_map h
    rw [Backend.fromStr, Backend.allocate] at hrun
    split at hrun <;> cases hrun
  | fromStr k B v =>
    exact hborrowed ((Wrapper.run_ofStr v w).symm.trans (error_of_map h))
  | fromOwnedLike k B s => exact ⟨B, allocate_of_panic (error_of_map (error_of_map h))⟩
  | ofString k B s => exact ⟨B, allocate_of_panic (error_of_map (error_of_map h))⟩
  | ofBoxedStr k B s => exact ⟨B, allocate_of_panic (error_of_map (error_of_map h))⟩
  | ofCow k B c =>
    have hrun := error_of_map h
    cases c with
    | borrowed v => exact hborrowed hrun
    | owned s =>
      rw [Wrapper.run_ofCow_owned] at hrun
      exact ⟨B, allocate_of_panic (error_of_map hrun)⟩

/-- Only a handle on a string that is too long is refused, and it stays as it was. -/
lemma Consuming.of_panic {c : Consuming} {slot : Slot t} {x : Text t} {m : Exec t (Slot t)}
    (hsound : w.Sound) (hx : slot.Holds w (some x)) (hm : c.run A slot = some m)
    (h : m w = .error (.panic message) w') :
    w' = w ∧ c.refuses x = true ∧
      ∃ o : Owner t, slot = .handle o.backend ⟨o.raw⟩ ∧ x = ⟨x.str, .shared⟩ := by
  have hlong : c.Oversized slot := by
    have hcompletes := Consuming.completes hsound hx hm
    rw [h] at hcompletes
    cases hcompletes with
    | tooLarge hlong => exact hlong
  obtain ⟨k, B, ⟨p⟩, rfl, rfl, hlen⟩ := hlong
  cases hx with
  | @handle _ _ s hhandle =>
    cases hm
    have hs : ¬ s.Compressible := fun hs => hlen (hhandle.len.symm ▸ hs)
    have hrun := error_of_map (error_of_map h)
    rw [run_fromShared hhandle, dif_neg hs] at hrun
    refine ⟨(EStateM.Result.error.inj hrun).2.symm, ?_, ⟨B, p⟩, rfl, rfl⟩
    rw [Consuming.refuses, decide_eq_false hs]
    rfl

lemma Consuming.not_refuses_of_ok {c : Consuming} {slot y : Slot t} {x : Text t}
    {m : Exec t (Slot t)} (hsound : w.Sound) (hx : slot.Holds w (some x))
    (hm : c.run A slot = some m) (h : m w = .ok y w') : c.refuses x = false := by
  have hcompletes := Consuming.completes hsound hx hm
  rw [h] at hcompletes
  cases hcompletes with
  | ok hshort =>
    by_contra hrefuses
    rw [Bool.not_eq_false] at hrefuses
    cases c with
    | fromShared k =>
      cases hx with
      | @handle B p s hhandle =>
        refine hshort ⟨k, B, ⟨p⟩, rfl, rfl, fun hs => ?_⟩
        have hs' : s.Compressible := by rwa [Str.Compressible, ← hhandle.len]
        rw [Consuming.refuses, decide_eq_true hs'] at hrefuses
        cases hrefuses
      | _ => cases hm
    | _ => cases hrefuses

end Panics

namespace Sys
variable {sys sys' : Sys t} {books : Books t} {w : World t} {i : ℕ} {slot : Slot t}

section Pairs
variable {es es' lost : List (Slot t × Option (Text t))}

lemma get_pairs {e : Slot t × Option (Text t)} (h : es[i]? = some e) :
    Store.get (es.map Prod.snd) i = e.2 := by
  rw [Store.get, List.getElem?_map, h]
  rfl

lemma inv_pairs_iff : Inv ⟨w, es.map Prod.fst⟩ (es.map Prod.snd) ↔ w.Sound ∧
    Ledger.Balanced w.counts (es.flatMap fun e => e.1.owners) ∧ ∀ e ∈ es, e.1.Holds w e.2 := by
  have howners : (es.map Prod.fst).flatMap Slot.owners = es.flatMap fun e => e.1.owners :=
    List.flatMap_map ..
  constructor
  · rintro ⟨hsound, hbalanced, -, hholds⟩
    refine ⟨hsound, howners ▸ hbalanced, fun e he => ?_⟩
    obtain ⟨i, hi⟩ := List.mem_iff_getElem?.mp he
    rw [← get_pairs hi]
    exact hholds i e.1 (by rw [List.getElem?_map, hi]; rfl)
  · rintro ⟨hsound, hbalanced, hholds⟩
    refine ⟨hsound, howners.symm ▸ hbalanced, by simp, fun i slot hi => ?_⟩
    rw [List.getElem?_map, Option.map_eq_some_iff] at hi
    obtain ⟨e, he, rfl⟩ := hi
    rw [get_pairs he]
    exact hholds e (List.mem_of_getElem? he)

/-- The order in which things are held does not matter. -/
lemma Inv.perm (h : Inv ⟨w, es.map Prod.fst⟩ (es.map Prod.snd)) (hp : es.Perm es') :
    Inv ⟨w, es'.map Prod.fst⟩ (es'.map Prod.snd) := by
  obtain ⟨hsound, hbalanced, hholds⟩ := inv_pairs_iff.mp h
  exact inv_pairs_iff.mpr ⟨hsound, hbalanced.perm (hp.flatMap_right _),
    fun e he => hholds e (hp.mem_iff.mpr he)⟩

lemma alive_append {slots : List (Slot t)} (h : BorrowsAlive ⟨w, slots⟩)
    (hlost : ∀ e ∈ lost, e.1.borrows = []) : BorrowsAlive ⟨w, slots ++ lost.map Prod.fst⟩ := by
  intro slot hslot p hp
  obtain hslot | hslot := List.mem_append.mp hslot
  · exact h slot hslot p hp
  · obtain ⟨e, he, rfl⟩ := List.mem_map.mp hslot
    rw [hlost e he] at hp
    cases hp

lemma Inv.append_pair {w' : World t} {y : Slot t} {x : Text t}
    (h : Inv ⟨w, (es ++ lost).map Prod.fst⟩ ((es ++ lost).map Prod.snd))
    (hlost : ∀ e ∈ lost, e.1.borrows = []) (hy : Yields w [] w' y (some x))
    (halive : BorrowsAlive ⟨w', es.map Prod.fst ++ [y]⟩) :
    Inv ⟨w', ((es ++ [(y, some x)]) ++ lost).map Prod.fst⟩
      (((es ++ [(y, some x)]) ++ lost).map Prod.snd) := by
  have hp : (es ++ lost ++ [(y, some x)]).Perm (es ++ [(y, some x)] ++ lost) := by
    rw [List.append_assoc, List.append_assoc]
    exact List.perm_append_comm.append_left es
  have halive' : BorrowsAlive ⟨w', (es ++ lost).map Prod.fst ++ [y]⟩ := by
    intro slot hslot
    refine alive_append halive hlost slot ?_
    have hslot' : slot ∈ (es ++ lost ++ [(y, some x)]).map Prod.fst := by
      rwa [List.map_append]
    have hmem := (hp.map Prod.fst).mem_iff.mp hslot'
    rwa [List.map_append, List.map_append] at hmem
  have hnew := h.append hy halive'
  have hmap : ∀ {β : Type} (f : Slot t × Option (Text t) → β),
      (es ++ lost ++ [(y, some x)]).map f = (es ++ lost).map f ++ [f (y, some x)] := by
    intro β f
    rw [List.map_append]
    rfl
  exact Inv.perm (by rwa [hmap, hmap]) hp

lemma Inv.set_pair {w' : World t} {y : Slot t} {x : Option (Text t)}
    {e : Slot t × Option (Text t)}
    (h : Inv ⟨w, (es ++ lost).map Prod.fst⟩ ((es ++ lost).map Prod.snd))
    (hlost : ∀ e ∈ lost, e.1.borrows = []) (hi : es[i]? = some e)
    (hy : Yields w e.1.owners w' y x) (halive : BorrowsAlive ⟨w', (es.map Prod.fst).set i y⟩) :
    Inv ⟨w', (es.set i (y, x) ++ lost).map Prod.fst⟩
      ((es.set i (y, x) ++ lost).map Prod.snd) := by
  have hlt := (List.getElem?_eq_some_iff.mp hi).1
  have hset : ∀ {β : Type} (f : Slot t × Option (Text t) → β),
      (es.set i (y, x) ++ lost).map f = ((es ++ lost).map f).set i (f (y, x)) := by
    intro β f
    rw [List.map_append, List.map_append, List.map_set,
      List.set_append_left _ _ (by rwa [List.length_map])]
  rw [hset, hset]
  have hget : ((es ++ lost).map Prod.fst)[i]? = some e.1 := by
    rw [List.getElem?_map, List.getElem?_append_left hlt, hi]
    rfl
  refine h.set hget hy ?_
  rw [List.map_append, List.set_append_left _ _ (by rwa [List.length_map])]
  exact alive_append halive hlost

/-- What is held by a slot may be held elsewhere. -/
lemma Inv.move_pair {e : Slot t × Option (Text t)}
    (h : Inv ⟨w, (es ++ lost).map Prod.fst⟩ ((es ++ lost).map Prod.snd)) (hi : es[i]? = some e) :
    Inv ⟨w, (es.set i (.gone, none) ++ (lost ++ [e])).map Prod.fst⟩
      ((es.set i (.gone, none) ++ (lost ++ [e])).map Prod.snd) := by
  obtain ⟨hsound, hbalanced, hholds⟩ := inv_pairs_iff.mp h
  have hgone : Inv ⟨w, ((.gone, none) :: (es ++ lost)).map Prod.fst⟩
      (((.gone, none) :: (es ++ lost)).map Prod.snd) := by
    refine inv_pairs_iff.mpr ⟨hsound, hbalanced, fun e he => ?_⟩
    obtain rfl | he := List.mem_cons.mp he
    · exact .gone
    · exact hholds e he
  obtain ⟨hlt, rfl⟩ := List.getElem?_eq_some_iff.mp hi
  have hold := (List.getElem_cons_eraseIdx_perm hlt).symm
  have hnew := (List.set_perm_cons_eraseIdx hlt (Slot.gone, (none : Option (Text t)))).symm
  refine hgone.perm ?_
  have hsplit : ((.gone, none) :: (es ++ lost)).Perm
      (es[i] :: (((.gone, none) :: es.eraseIdx i) ++ lost)) :=
    ((hold.append_right lost).cons _).trans (List.Perm.swap _ _ _)
  refine hsplit.trans (((hnew.append_right lost).cons _).trans ?_)
  rw [← List.append_assoc]
  exact (List.perm_append_singleton _ _).symm

end Pairs

/-- A handle that nothing can give up any more. -/
def orphan (leak : Owner t × Str t) : Slot t × Option (Text t) :=
  (.handle leak.1.backend ⟨leak.1.raw⟩, some ⟨leak.2, .shared⟩)

/-- What is held and what was lost, with the texts: together they are as in a run without
panics. -/
def Kept (sys : Sys t) (books : Books t) (leaks : List (Owner t × Str t)) : Prop :=
  ∃ es : List (Slot t × Option (Text t)), sys.slots = es.map Prod.fst ∧
    books = ⟨es.map Prod.snd, leaks.map Prod.snd⟩ ∧
    Inv ⟨sys.world, (es ++ leaks.map orphan).map Prod.fst⟩
      ((es ++ leaks.map orphan).map Prod.snd)

lemma borrows_orphan {leaks : List (Owner t × Str t)} :
    ∀ e ∈ leaks.map orphan, e.1.borrows = [] := by
  intro e he
  obtain ⟨leak, -, rfl⟩ := List.mem_map.mp he
  rfl

namespace Kept
variable {leaks : List (Owner t × Str t)}

lemma initial (mem : Mem t.usizeBits) : (Sys.initial mem).Kept ⟨[], []⟩ [] :=
  ⟨[], rfl, rfl, inv_initial mem⟩

lemma holds (h : sys.Kept books leaks) (hi : sys.slots[i]? = some slot) :
    slot.Holds sys.world (books.store.get i) := by
  obtain ⟨es, hslots, rfl, hinv⟩ := h
  rw [hslots, List.getElem?_map, Option.map_eq_some_iff] at hi
  obtain ⟨e, he, rfl⟩ := hi
  rw [get_pairs he]
  exact (inv_pairs_iff.mp hinv).2.2 e (List.mem_append_left _ (List.mem_of_getElem? he))

lemma sound (h : sys.Kept books leaks) : sys.world.Sound := by
  obtain ⟨es, -, -, hinv⟩ := h
  exact hinv.sound

lemma environment (h : sys.Kept books leaks) {mem : Mem t.usizeBits}
    (hkeep : ∀ x, sys.Protected x → mem x = sys.world.mem x) :
    Kept ⟨⟨mem, sys.world.heap⟩, sys.slots⟩ books leaks := by
  obtain ⟨es, hslots, hbooks, hinv⟩ := h
  refine ⟨es, hslots, hbooks, hinv.environment fun x hx => hkeep x ?_⟩
  obtain hheap | ⟨slot, hslot, p, hp, hx⟩ := hx
  · exact Or.inl hheap
  · rw [List.map_append] at hslot
    obtain hslot | hslot := List.mem_append.mp hslot
    · exact Or.inr ⟨slot, hslots ▸ hslot, p, hp, hx⟩
    · obtain ⟨e, he, rfl⟩ := List.mem_map.mp hslot
      rw [borrows_orphan e he] at hp
      cases hp

lemma append (h : sys.Kept books leaks) {y : Slot t} {x : Text t}
    (hy : Yields sys.world [] w y (some x)) (halive : BorrowsAlive ⟨w, sys.slots ++ [y]⟩) :
    Kept ⟨w, sys.slots ++ [y]⟩ ⟨books.store ++ [some x], books.lost⟩ leaks := by
  obtain ⟨es, hslots, rfl, hinv⟩ := h
  rw [hslots] at halive
  refine ⟨es ++ [(y, some x)], ?_, ?_, hinv.append_pair borrows_orphan hy halive⟩
  · rw [hslots, List.map_append]
    rfl
  · rw [List.map_append]
    rfl

lemma set (h : sys.Kept books leaks) (hi : sys.slots[i]? = some slot) {y : Slot t}
    {x : Option (Text t)} (hy : Yields sys.world slot.owners w y x)
    (halive : BorrowsAlive ⟨w, sys.slots.set i y⟩) :
    Kept ⟨w, sys.slots.set i y⟩ ⟨books.store.set i x, books.lost⟩ leaks := by
  obtain ⟨es, hslots, rfl, hinv⟩ := h
  rw [hslots, List.getElem?_map, Option.map_eq_some_iff] at hi
  obtain ⟨e, he, rfl⟩ := hi
  rw [hslots] at halive
  refine ⟨es.set i (y, x), ?_, ?_, hinv.set_pair borrows_orphan he hy halive⟩
  · rw [hslots, List.map_set]
  · rw [List.map_set]

/-- A creation that is refused loses what it has allocated. -/
lemma lose_new (h : sys.Kept books leaks) {A : Allocator t} {B : Backend} {s : Str t}
    {ptr : Usize t} (hpick : A.pick sys.world s.bytes.length = some ptr)
    (halive : BorrowsAlive ⟨sys.world.allocate B ptr s, sys.slots⟩) :
    Kept ⟨sys.world.allocate B ptr s, sys.slots⟩ ⟨books.store, books.lost ++ [s]⟩
      (leaks ++ [(⟨B, ⟨ptr, s.len⟩⟩, s)]) := by
  obtain ⟨es, hslots, rfl, hinv⟩ := h
  obtain ⟨hheap, hfresh⟩ := A.fresh hpick
  have hy : Yields sys.world [] (sys.world.allocate B ptr s) (.handle B ⟨⟨ptr, s.len⟩⟩)
      (some ⟨s, .shared⟩) :=
    ⟨World.Evolves.allocate hheap hfresh, .handle (Handle.allocate sys.world B ptr s)⟩
  refine ⟨es, hslots, ?_, (hinv.append_pair borrows_orphan hy ?_).perm ?_⟩
  · rw [List.map_append]
    rfl
  · rw [← hslots]
    intro slot hslot p hp
    obtain hslot | hslot := List.mem_append.mp hslot
    · exact halive slot hslot p hp
    · obtain rfl := List.mem_singleton.mp hslot
      cases hp
  · rw [List.append_assoc, List.map_append]
    exact List.perm_append_comm.append_left es

/-- A handle that is refused is lost. -/
lemma lose_handle (h : sys.Kept books leaks) {o : Owner t} {s : Str t}
    (hi : sys.slots[i]? = some (.handle o.backend ⟨o.raw⟩))
    (hx : books.store.get i = some ⟨s, .shared⟩) :
    Kept ⟨sys.world, sys.slots.set i .gone⟩ ⟨books.store.set i none, books.lost ++ [s]⟩
      (leaks ++ [(o, s)]) := by
  obtain ⟨es, hslots, rfl, hinv⟩ := h
  rw [hslots, List.getElem?_map, Option.map_eq_some_iff] at hi
  obtain ⟨⟨slot, x⟩, he, rfl⟩ := hi
  rw [get_pairs he] at hx
  obtain rfl : x = some ⟨s, .shared⟩ := hx
  refine ⟨es.set i (.gone, none), ?_, ?_, ?_⟩
  · rw [hslots, List.map_set]
  · rw [List.map_set, List.map_append]
    rfl
  · have horphans : (leaks ++ [(o, s)]).map orphan = leaks.map orphan ++ [orphan (o, s)] :=
      List.map_append
    rw [horphans]
    exact hinv.move_pair he

/-- Every operation keeps the books, whether it succeeds or panics. -/
lemma attempt (h : sys.Kept books leaks) {event : Event t} (hstep : Attempt sys event sys') :
    ∃ leaks', sys'.Kept (books.attempt event) leaks' := by
  cases hstep with
  | done hstep =>
    refine ⟨leaks, ?_⟩
    cases hstep with
    | environment hkeep => exact h.environment hkeep
    | @create A c y w hread hrun halive =>
      have hshort : c.isOversized = false := by
        have hcompletes := c.completes (A := A) (w := sys.world)
        rw [hrun] at hcompletes
        cases hcompletes with
        | ok hshort => exact Bool.eq_false_iff.mpr fun hc => hshort (Creation.isOversized_iff.mp hc)
      rw [Books.attempt, if_neg (by simp [hshort])]
      exact h.append ((Creation.run_outcome hread).result hrun) halive
    | @copy A c i slot y m w hslot hm hrun halive =>
      have hx := h.holds hslot
      obtain ⟨x, htext⟩ := exists_text_of_copy hx hm
      rw [htext] at hx
      rw [Books.attempt, Store.apply, htext]
      exact h.append ((Copying.run_outcome hx hm).result hrun) halive
    | @consume A c i slot y m w hslot hm hrun halive =>
      have hx := h.holds hslot
      obtain ⟨x, htext⟩ := exists_text_of_consume hx hm
      rw [htext] at hx
      have hkeeps := Consuming.not_refuses_of_ok h.sound hx hm hrun
      simp only [Books.attempt, htext, hkeeps, Store.apply, Option.bind_some]
      exact h.set hslot ((Consuming.run_outcome h.sound hx hm).result hrun) halive
  | @create A c message w hread hrun halive =>
    have hlong : c.isOversized = true := by
      have hcompletes := c.completes (A := A) (w := sys.world)
      rw [hrun] at hcompletes
      cases hcompletes with
      | tooLarge hlong => exact Creation.isOversized_iff.mpr hlong
    have hworld := Creation.world_of_panic hrun
    rw [Books.attempt, if_pos hlong]
    cases htakes : c.takes with
    | none =>
      rw [htakes] at hworld
      obtain rfl : w = sys.world := hworld
      refine ⟨leaks, ?_⟩
      rw [Option.toList_none, List.append_nil]
      exact h
    | some s =>
      rw [htakes] at hworld
      obtain ⟨B, ptr, hpick, rfl⟩ := hworld
      exact ⟨_, h.lose_new hpick halive⟩
  | @copy A c i slot m message w hslot hm hrun halive =>
    have hx := h.holds hslot
    obtain ⟨x, htext⟩ := exists_text_of_copy hx hm
    rw [htext] at hx
    exact ((Copying.completes hx hm).leaves_of_panic hrun).elim
  | @consume A c i slot m message w hslot hm hrun halive =>
    have hx := h.holds hslot
    obtain ⟨x, htext⟩ := exists_text_of_consume hx hm
    rw [htext] at hx
    obtain ⟨rfl, hrefuses, o, rfl, hx'⟩ := Consuming.of_panic h.sound hx hm hrun
    simp only [Books.attempt, htext, hrefuses, if_true]
    rw [hx'] at htext
    exact ⟨_, h.lose_handle hslot htext⟩

end Kept

theorem Session.kept {events : List (Event t)} (h : Session events sys) :
    ∃ leaks, sys.Kept (.ofEvents events) leaks := by
  induction h with
  | initial mem => exact ⟨[], .initial mem⟩
  | attempt _ hstep ih =>
    obtain ⟨leaks, ih⟩ := ih
    rw [Books.ofEvents_append]
    exact ih.attempt hstep

namespace Kept
variable {leaks : List (Owner t × Str t)}

lemma owners_eq {es : List (Slot t × Option (Text t))} (hslots : sys.slots = es.map Prod.fst) :
    owners ⟨sys.world, (es ++ leaks.map orphan).map Prod.fst⟩ =
      sys.owners ++ leaks.map Prod.fst := by
  rw [owners, owners, hslots, List.map_append, List.flatMap_append, List.map_map,
    List.flatMap_map (l := leaks)]
  exact congrArg _ (List.flatMap_pure_eq_map Prod.fst leaks)

lemma handle (h : sys.Kept books leaks) {leak : Owner t × Str t} (hleak : leak ∈ leaks) :
    Handle sys.world leak.1.backend leak.1.raw leak.2 := by
  obtain ⟨es, -, -, hinv⟩ := h
  have hmem := List.mem_append_right es (List.mem_map_of_mem (f := orphan) hleak)
  obtain _ | _ | h := (inv_pairs_iff.mp hinv).2.2 _ hmem
  exact h

lemma strongCount_eq (h : sys.Kept books leaks) (ptr : Usize t) : sys.world.strongCount ptr =
    sys.owners.countP (fun o => o.raw.ptr = ptr) +
      leaks.countP fun leak => leak.1.raw.ptr = ptr := by
  obtain ⟨es, hslots, -, hinv⟩ := h
  have hconserved := hinv.conserved ptr
  rw [owners_eq hslots, List.countP_append, List.countP_map] at hconserved
  exact hconserved

/-- What is left of the heap when nothing is held are the strings that were refused. -/
lemma heap_eq_none_iff (h : sys.Kept books leaks) (hnone : sys.owners = []) (ptr : Usize t) :
    sys.world.heap ptr = none ↔ ∀ leak ∈ leaks, leak.1.raw.ptr ≠ ptr := by
  obtain ⟨es, hslots, -, hinv⟩ := h
  have hheap := hinv.heap_eq_none_iff ptr
  rw [owners_eq hslots, hnone, List.nil_append, List.forall_mem_map] at hheap
  exact hheap

lemma lost_eq (h : sys.Kept books leaks) : leaks.map Prod.snd = books.lost := by
  obtain ⟨es, -, rfl, -⟩ := h
  rfl

end Kept

/-- Over a session every strong count is the number of the live owners and of the strings that
were refused in that allocation. What was refused is too long, it is the allocations of such
strings that are left of the heap in the end, and everything held is what the texts say. -/
theorem leaks_exactly {events : List (Event t)} (h : Session events sys) :
    ∃ leaks : List (Owner t × Str t), leaks.map Prod.snd = (Books.ofEvents events).lost ∧
      (∀ leak ∈ leaks, Handle sys.world leak.1.backend leak.1.raw leak.2 ∧
        ¬ leak.2.Compressible) ∧
      (∀ (i : ℕ) (slot : Slot t), sys.slots[i]? = some slot →
        slot.Holds sys.world ((Books.ofEvents events).store.get i)) ∧
      (∀ ptr, sys.world.strongCount ptr =
        sys.owners.countP (fun o => o.raw.ptr = ptr) +
          leaks.countP fun leak => leak.1.raw.ptr = ptr) ∧
      (sys.owners = [] → ∀ ptr, sys.world.heap ptr = none ↔
        ∀ leak ∈ leaks, leak.1.raw.ptr ≠ ptr) := by
  obtain ⟨leaks, h⟩ := h.kept
  refine ⟨leaks, h.lost_eq, fun leak hleak => ⟨h.handle hleak, ?_⟩, fun i slot hi => h.holds hi,
    h.strongCount_eq, h.heap_eq_none_iff⟩
  have hlost : leak.2 ∈ (Books.ofEvents events).lost := by
    rw [← h.lost_eq]
    exact List.mem_map_of_mem hleak
  exact Books.not_compressible _ hlost

/-- A handle that was refused is gone, and its allocation is not. -/
lemma Session.refused {A : Allocator t} {B : Backend} {s : Str t} {ptr : Usize t}
    (hs : ¬ s.Compressible) (hptr : A.pick .empty s.bytes.length = some ptr) :
    Session [.create (.handle B s), .consume (.fromShared .lifetimeKind) 0]
      ⟨World.empty.allocate B ptr s, [.gone]⟩ := by
  have hmake := (Session.initial World.empty.mem).attempt (.done (.create (A := A)
    (c := .handle B s) trivial (run_map (run_allocate hptr) _) fun slot hslot => by
      obtain rfl := List.mem_singleton.mp hslot
      exact fun p hp => by cases hp))
  have hpanic := (run_fromShared (Handle.allocate .empty B ptr s)).trans (dif_neg hs)
  exact hmake.attempt (.consume (A := A) (c := .fromShared .lifetimeKind)
    (i := 0) rfl rfl (run_bind_error (run_bind_error hpanic _) _) fun slot hslot => by
      obtain rfl := List.mem_singleton.mp hslot
      exact fun p hp => by cases hp)

/-- On a 32-bit target a handle on `2^27` letters was refused. Nothing is held any more, and the
one count that is left is that of the refused handle. -/
theorem leaks_exactly_refused : ∃ (sys : Sys Target.x86BE)
    (leaks : List (Owner .x86BE × Str .x86BE)), sys.owners = [] ∧
      sys.world.strongCount 16#32 = 1 ∧
      leaks.countP (fun leak => leak.1.raw.ptr = 16#32) = 1 ∧
      ∀ leak ∈ leaks, Handle sys.world leak.1.backend leak.1.raw leak.2 ∧
        ¬ leak.2.Compressible := by
  let s : Str Target.x86BE := .letters (2 ^ 27) (by decide)
  have hs : ¬ s.Compressible := by
    rw [Str.Compressible, Str.len, Str.letters_length]
    decide
  have hptr : (Allocator.firstFit (t := .x86BE) [16#32]).pick .empty s.bytes.length =
      some 16#32 := Allocator.firstFit_pick [] rfl fun _ _ => rfl
  obtain ⟨leaks, -, hleaks, -, hcounts, -⟩ :=
    leaks_exactly (Session.refused (B := .sharedBackend) hs hptr)
  have hone : ((World.empty (t := .x86BE)).allocate .sharedBackend 16#32 s).strongCount 16#32 =
      1 := World.strongCount_allocate _ _ _ _
  have hcount := (Nat.zero_add _).symm.trans ((hcounts 16#32).symm.trans hone)
  exact ⟨⟨_, [.gone]⟩, leaks, rfl, hone, hcount, hleaks⟩

end Sys
end RefStr
