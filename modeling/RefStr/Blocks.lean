import RefStr.Entries

/-! A machine without addresses. It numbers the allocations in the order in which they are made,
and of each thing that is held it knows the type, the text and the number of the allocation that
it owns a count of. A run of a program is a run of this machine, read through the addresses that
an allocator happened to pick. -/
namespace RefStr
open RefStrCore ByteMemory
variable {t : Target}

inductive SlotType
  | value (k : WrapperKind) (B : Backend)
  | handle (B : Backend)
  | parts (B : Backend)
  | raw (B : Backend)
  | pointer
  | gone
  deriving DecidableEq, Repr

def Slot.type : Slot t → SlotType
  | value k B _ => .value k B
  | handle B _ => .handle B
  | parts B _ => .parts B
  | raw B _ => .raw B
  | pointer _ => .pointer
  | gone => .gone

def Creation.type : Creation t → SlotType
  | handle B _ => .handle B
  | fromStr k B _ => .value k B
  | fromOwnedLike k B _ => .value k B
  | ofString k B _ => .value k B
  | ofBoxedStr k B _ => .value k B
  | ofCow k B _ => .value k B

def Copying.type : Copying → SlotType → SlotType
  | toStaticStr, .value _ B => .value .staticKind B
  | incrementStrongCount, .value _ B => .raw B
  | incrementStrongCount, .handle B => .raw B
  | incrementStrongCount, .parts B => .raw B
  | _, ty => ty

/-- What takes the place of something that has the text `x`. -/
def Consuming.type (x : Text t) : Consuming → SlotType → SlotType
  | fromShared k, .handle B => .value k B
  | intoStaticStr, .value _ B => .value .staticKind B
  | convert, .value k B => .value k B.other
  | rewrap k, .value _ B => .value k B
  | intoRawParts, .value _ B => .parts B
  | fromRawParts k, .parts B => .value k B
  | intoRaw, .value _ B => if x.origin.tag = .borrowed then .pointer else .raw B
  | intoRawShared, .value _ B => if x.origin.tag = .shared then .raw B else .gone
  | fromRaw, .raw B => .handle B
  | _, _ => .gone

/-- Conversion to the other backend leaves the allocation behind. -/
def Consuming.leaves : Consuming → Bool
  | convert => true
  | _ => false

structure Item (t : Target) where
  type : SlotType
  text : Option (Text t)
  /-- The number of the allocation that is owned. -/
  block : Option ℕ

structure Inventory (t : Target) where
  items : List (Item t)
  /-- How many allocations have been made. -/
  blocks : ℕ

namespace Inventory

def texts (σ : Inventory t) : Store t := σ.items.map Item.text

/-- Shared text is in the allocation of what it was made from, or in a new one. -/
def block (σ : Inventory t) (source : Option ℕ) : Option (Text t) → Option ℕ
  | some ⟨_, .shared⟩ => some (source.getD σ.blocks)
  | _ => none

def blocksAfter (σ : Inventory t) (block : Option ℕ) : ℕ :=
  if block = some σ.blocks then σ.blocks + 1 else σ.blocks

def push (σ : Inventory t) (ty : SlotType) (x : Option (Text t)) (source : Option ℕ) :
    Inventory t :=
  ⟨σ.items ++ [⟨ty, x, σ.block source x⟩], σ.blocksAfter (σ.block source x)⟩

def replace (σ : Inventory t) (i : ℕ) (ty : SlotType) (x : Option (Text t)) (source : Option ℕ) :
    Inventory t :=
  ⟨σ.items.set i ⟨ty, x, σ.block source x⟩, σ.blocksAfter (σ.block source x)⟩

lemma texts_push (σ : Inventory t) (ty : SlotType) (x : Option (Text t)) (source : Option ℕ) :
    (σ.push ty x source).texts = σ.texts ++ [x] := List.map_append

lemma texts_replace (σ : Inventory t) (i : ℕ) (ty : SlotType) (x : Option (Text t))
    (source : Option ℕ) : (σ.replace i ty x source).texts = σ.texts.set i x := List.map_set

def apply (σ : Inventory t) : Event t → Inventory t
  | .environment _ => σ
  | .create c => σ.push c.type (some c.text) none
  | .copy c i =>
    match σ.items[i]? with
    | some ⟨ty, x, b⟩ => σ.push (c.type ty) (x.map c.text) b
    | none => σ
  | .consume c i =>
    match σ.items[i]? with
    | some ⟨ty, some x, b⟩ => σ.replace i (c.type x ty) (c.text x) (if c.leaves then none else b)
    | _ => σ

def ofEvents (events : List (Event t)) : Inventory t := events.foldl apply ⟨[], 0⟩

lemma ofEvents_append (events : List (Event t)) (event : Event t) :
    ofEvents (events ++ [event]) = (ofEvents events).apply event := by
  rw [ofEvents, List.foldl_append]
  rfl

/-- Something that is held owns a count of the allocation. -/
def InUse (σ : Inventory t) (n : ℕ) : Prop := ∃ item ∈ σ.items, item.block = some n

end Inventory

/-- What was made owns a count of what it was made from, or of a new allocation. -/
structure Stems (w : World t) (source : List (Owner t)) (y : Slot t) (ty : SlotType) :
    Prop where
  type : y.type = ty
  kept : source ≠ [] → y.owners ≠ [] →
    y.owners.map (fun o => o.raw.ptr) = source.map fun o => o.raw.ptr
  fresh : source = [] → ∀ o ∈ y.owners, w.heap o.raw.ptr = none

namespace Stems
variable {w : World t} {y : Slot t} {ty : SlotType} {source : List (Owner t)}

lemma same (htype : y.type = ty) (howners : y.owners = source) : Stems w source y ty := by
  refine ⟨htype, fun _ _ => by rw [howners], fun hnil o ho => ?_⟩
  rw [howners, hnil] at ho
  cases ho

lemma none (htype : y.type = ty) (howners : y.owners = []) : Stems w source y ty := by
  refine ⟨htype, fun _ hne => absurd howners hne, fun _ o ho => ?_⟩
  rw [howners] at ho
  cases ho

lemma new (htype : y.type = ty) (hfresh : ∀ o ∈ y.owners, w.heap o.raw.ptr = .none) :
    Stems w [] y ty := ⟨htype, fun hne => absurd rfl hne, fun _ => hfresh⟩

end Stems

lemma Slot.Holds.owners_eq_nil {w : World t} {slot : Slot t} {x : Text t}
    (h : slot.Holds w (some x)) (hx : x.origin.tag ≠ .shared) : slot.owners = [] := by
  obtain ho | ⟨B, p, s, -, -, rfl⟩ := h.owners
  · exact ho
  · exact absurd rfl hx

section Operations
variable {A : Allocator t} {w w' : World t} {B : Backend} {v : RefStrCore t B} {s : Str t}
  {x : Text t} {slot y : Slot t} {m : Exec t (Slot t)}

/-- An owning constructor owns nothing, or what it has just allocated. -/
lemma fresh_of_fromOwnedLike (h : fromOwnedLike A s w = .ok v w') :
    ∀ o ∈ v.owners, w.heap o.raw.ptr = none := by
  have hv := (Represents.of_fromOwnedLike h).2
  by_cases hs : s.bytes.length ≤ t.inlineCapacity
  · rw [Text.owned_of_le s hs] at hv
    rw [hv.owners_eq_nil (by simp)]
    simp
  · rw [Text.owned_of_not_le s hs] at hv
    rw [hv.owners_shared]
    cases hptr : A.pick w s.bytes.length with
    | none =>
      rw [run_fromOwnedLike_aborted hs hptr] at h
      cases h
    | some ptr =>
      rw [run_fromOwnedLike_shared hs hptr] at h
      split_ifs at h
      cases h
      intro o ho
      obtain rfl := List.mem_singleton.mp ho
      exact (A.fresh hptr).1

lemma fresh_of_allocate {h : Shared t B} (hrun : Backend.allocate A B s w = .ok h w') :
    w.heap h.raw.ptr = none := by
  cases hptr : A.pick w s.bytes.length with
  | none =>
    rw [run_allocate_error hptr] at hrun
    cases hrun
  | some ptr =>
    rw [run_allocate hptr] at hrun
    cases hrun
    exact (A.fresh hptr).1

lemma Creation.stems {c : Creation t} (hread : c.Readable w) (hrun : c.run A w = .ok y w') :
    Stems w [] y c.type := by
  have hholds := ((Creation.run_outcome hread).result hrun).holds
  have howned : ∀ {k : WrapperKind} {B : Backend} {s : Str t} {u : Wrapper t k B},
      Wrapper.fromOwnedLike A s w = .ok u w' → Stems w [] (.value k B u) (.value k B) := by
    intro k B s u hu
    obtain ⟨v, hv, rfl⟩ := exists_of_run_map hu
    exact .new rfl (fresh_of_fromOwnedLike hv)
  cases c with
  | handle B s =>
    obtain ⟨h, hh, rfl⟩ := exists_of_run_map hrun
    refine .new rfl fun o ho => ?_
    obtain rfl := List.mem_singleton.mp ho
    exact fresh_of_allocate hh
  | fromStr k B s =>
    obtain ⟨u, -, rfl⟩ := exists_of_run_map hrun
    exact .none rfl (hholds.owners_eq_nil (by simp [Creation.text]))
  | fromOwnedLike k B s =>
    obtain ⟨u, hu, rfl⟩ := exists_of_run_map hrun
    exact howned hu
  | ofString k B s =>
    obtain ⟨u, hu, rfl⟩ := exists_of_run_map hrun
    exact howned hu
  | ofBoxedStr k B s =>
    obtain ⟨u, hu, rfl⟩ := exists_of_run_map hrun
    exact howned hu
  | ofCow k B c =>
    obtain ⟨u, hu, rfl⟩ := exists_of_run_map hrun
    cases c with
    | borrowed s => exact .none rfl (hholds.owners_eq_nil (by simp [Creation.text]))
    | owned s => exact howned ((Wrapper.run_ofCow_owned s w).symm.trans hu)

lemma Slot.Holds.exists_owner (h : slot.Holds w (some ⟨s, .shared⟩)) :
    ∃ B p, slot.owners = [⟨B, p⟩] := by
  cases h with
  | value h => exact ⟨_, _, h.owners_shared⟩
  | parts h => exact ⟨_, _, h.owners_shared⟩
  | handle | raw => exact ⟨_, _, rfl⟩

/-- A promoted value is the value itself, or owns what it has just allocated. -/
lemma stems_of_promotion {m : Exec t (RefStrCore t B)} {u : RefStrCore t B} {w₁ : World t}
    (hx : v.Represents w x)
    (hborrowed : ∀ s ptr, x = ⟨s, .borrowed ptr⟩ → m w = fromOwnedLike A s w)
    (hother : x.origin.tag ≠ .borrowed → m w = .ok v w₁) (hrun : m w = .ok u w') :
    Stems w v.owners (.value .staticKind B ⟨u⟩) (.value .staticKind B) := by
  by_cases htag : x.origin.tag = .borrowed
  · obtain ⟨s, ptr | _ | _⟩ := x
    · rw [hx.owners_eq_nil (by simp)]
      rw [hborrowed s ptr rfl] at hrun
      exact .new rfl (fresh_of_fromOwnedLike hrun)
    · cases htag
    · cases htag
  · rw [hother htag] at hrun
    cases hrun
    exact .same rfl rfl

lemma Copying.stems {c : Copying} (hx : slot.Holds w (some x)) (hm : c.run A slot = some m)
    (hrun : m w = .ok y w') : Stems w slot.owners y (c.type slot.type) := by
  cases c with
  | cloneHandle =>
    cases hx with
    | handle h =>
      cases hm
      obtain ⟨u, hu, rfl⟩ := exists_of_run_map hrun
      rw [h.run_cloneShared] at hu
      cases hu
      exact .same rfl rfl
    | _ => cases hm
  | clone =>
    cases hx with
    | value h =>
      cases hm
      obtain ⟨u, hu, rfl⟩ := exists_of_run_map hrun
      obtain ⟨v, hv, rfl⟩ := exists_of_run_map hu
      rw [h.run_clone] at hv
      cases hv
      exact .same rfl rfl
    | _ => cases hm
  | toStaticStr =>
    cases hx with
    | @value k B v _ h =>
      cases k with
      | lifetimeKind =>
        cases hm
        obtain ⟨u, hu, rfl⟩ := exists_of_run_map hrun
        obtain ⟨v', hv', rfl⟩ := exists_of_run_map hu
        refine stems_of_promotion (A := A) h (fun s ptr hx => ?_) h.run_toStaticCore hv'
        subst hx
        exact h.run_toStaticCore_borrowed
      | staticKind => cases hm
    | _ => cases hm
  | incrementStrongCount =>
    rw [Copying.run] at hm
    split at hm
    · rename_i o ho
      cases hm
      obtain ⟨u, -, rfl⟩ := exists_of_run_map hrun
      refine .same ?_ ho.symm
      cases hx with
      | @value k B v _ h | @parts B p _ h =>
        change RefStrCore.owners _ = [o] at ho
        rw [RefStrCore.owners] at ho
        split_ifs at ho
        cases ho
        rfl
      | handle | raw =>
        cases ho
        rfl
      | pointer => cases ho
    · cases hm

lemma stems_of_fromShared {k : WrapperKind} {p : RawStr t} {u : Wrapper t k B}
    (h : Handle w B p s) (hrun : Wrapper.fromShared ⟨p⟩ w = .ok u w') :
    Stems w [⟨B, p⟩] (.value k B u) (.value k B) := by
  obtain ⟨v, hv, rfl⟩ := exists_of_run_map hrun
  rw [run_fromShared h] at hv
  split_ifs at hv with hs
  cases hv
  refine ⟨rfl, fun _ hne => ?_, fun hnil => by cases hnil⟩
  change RefStrCore.owners _ ≠ [] at hne
  change (RefStrCore.owners _).map _ = _
  rw [RefStrCore.owners] at hne ⊢
  split_ifs at hne ⊢
  · rfl
  · exact absurd rfl hne

lemma fresh_of_convert {B' : Backend} {u : RefStrCore t B'} (hx : v.Represents w x)
    (hrun : v.convert A B' w = .ok u w') : ∀ o ∈ u.owners, w.heap o.raw.ptr = none := by
  by_cases htag : x.origin.tag = .shared
  · rw [Text.eq_shared htag] at hx
    have hs := hx.encodes.compressible (by simp)
    cases hptr : A.pick w x.str.bytes.length with
    | none =>
      rw [hx.run_convert_aborted hptr] at hrun
      cases hrun
    | some ptr =>
      rw [hx.run_convert_shared hs hptr] at hrun
      cases hrun
      intro o ho
      rw [RefStrCore.owners] at ho
      split_ifs at ho
      · obtain rfl := List.mem_singleton.mp ho
        exact (A.fresh hptr).1
      · cases ho
  · rw [hx.run_convert htag] at hrun
    cases hrun
    rw [(hx.of_convert htag B').owners_eq_nil htag]
    simp

lemma stems_of_intoRaw {k : WrapperKind} {v : Wrapper t k B} {p : RawStr t}
    (hx : v.inner.Represents w x) (hrun : v.intoRaw A w = .ok p w') :
    Stems w v.inner.owners (if v.isBorrowed then .pointer p else .raw B p)
      (if x.origin.tag = .borrowed then .pointer else .raw B) := by
  have hrun' : v.inner.intoRaw A w = .ok p w' := hrun
  have hborrowed : v.isBorrowed = true ↔ x.origin.tag = .borrowed := hx.encodes.isBorrowed_iff
  by_cases htag : x.origin.tag = .borrowed
  · rw [if_pos htag, if_pos (hborrowed.mpr htag)]
    exact .none rfl rfl
  · rw [if_neg htag, if_neg (hborrowed.not.mpr htag)]
    obtain ⟨s, ptr | _ | _⟩ := x
    · exact absurd rfl htag
    · rw [hx.owners_eq_nil (by simp)]
      cases hptr : A.pick w s.bytes.length with
      | none =>
        rw [hx.run_intoRaw_aborted hptr] at hrun'
        cases hrun'
      | some ptr =>
        rw [hx.run_intoRaw_inline hptr] at hrun'
        cases hrun'
        refine .new rfl fun o ho => ?_
        obtain rfl := List.mem_singleton.mp ho
        exact (A.fresh hptr).1
    · rw [hx.run_intoRaw (by simp)] at hrun'
      cases hrun'
      rw [hx.owners_shared]
      exact ⟨rfl, fun _ _ => rfl, fun hnil => by cases hnil⟩

lemma Consuming.stems {c : Consuming} (hx : slot.Holds w (some x))
    (hm : c.run A slot = some m) (hrun : m w = .ok y w') :
    Stems w (if c.leaves then [] else slot.owners) y (c.type x slot.type) := by
  cases c with
  | fromShared k =>
    cases hx with
    | handle h =>
      cases hm
      obtain ⟨u, hu, rfl⟩ := exists_of_run_map hrun
      exact stems_of_fromShared h hu
    | _ => cases hm
  | intoStaticStr =>
    cases hx with
    | @value k B v _ h =>
      cases k with
      | lifetimeKind =>
        cases hm
        obtain ⟨u, hu, rfl⟩ := exists_of_run_map hrun
        obtain ⟨v', hv', rfl⟩ := exists_of_run_map hu
        refine stems_of_promotion (A := A) h (fun s ptr hx => ?_) h.run_intoStaticCore hv'
        subst hx
        exact h.run_intoStaticCore_borrowed
      | staticKind => cases hm
    | _ => cases hm
  | convert =>
    cases hx with
    | value h =>
      cases hm
      obtain ⟨u, hu, rfl⟩ := exists_of_run_map hrun
      obtain ⟨v', hv', rfl⟩ := exists_of_run_map hu
      exact .new rfl (fresh_of_convert h hv')
    | _ => cases hm
  | rewrap k' =>
    cases hx with
    | value h =>
      cases hm
      cases hrun
      exact .same rfl rfl
    | _ => cases hm
  | intoRawParts =>
    cases hx with
    | value h =>
      cases hm
      cases hrun
      exact .same rfl rfl
    | _ => cases hm
  | fromRawParts k =>
    cases hx with
    | parts h =>
      cases hm
      cases hrun
      exact .same rfl rfl
    | _ => cases hm
  | intoRaw =>
    cases hx with
    | value h =>
      cases hm
      obtain ⟨p, hp, rfl⟩ := exists_of_run_map hrun
      exact stems_of_intoRaw h hp
    | _ => cases hm
  | intoRawShared =>
    cases hx with
    | @value k B v _ h =>
      cases hm
      by_cases htag : x.origin.tag = .shared
      · rw [Text.eq_shared htag] at h ⊢
        cases (run_bind h.run_intoRawShared_shared _).symm.trans hrun
        refine ⟨rfl, fun _ _ => ?_, fun hnil => ?_⟩
        · change _ = v.inner.owners.map _
          rw [h.owners_shared]
          rfl
        · have hnil' : v.inner.owners = [] := hnil
          rw [h.owners_shared] at hnil'
          cases hnil'
      · cases (run_bind (h.run_intoRawShared htag) _).symm.trans hrun
        exact .none (if_neg htag).symm rfl
    | _ => cases hm
  | fromRaw =>
    cases hx with
    | raw h =>
      cases hm
      obtain ⟨u, hu, rfl⟩ := exists_of_run_map hrun
      rw [h.run_fromRaw] at hu
      cases hu
      exact .same rfl rfl
    | _ => cases hm
  | forget =>
    cases hx with
    | @parts B p _ h =>
      simp only [Consuming.run] at hm
      split_ifs at hm
      cases hm
      cases hrun
      exact .none rfl rfl
    | pointer =>
      cases hm
      cases hrun
      exact .none rfl rfl
    | _ => cases hm
  | dropHandle =>
    cases hx with
    | handle h =>
      cases hm
      obtain ⟨u, -, rfl⟩ := exists_of_run_map hrun
      exact .none rfl rfl
    | _ => cases hm
  | drop | intoCow | intoString | intoBoxedStr | intoBytes =>
    cases hx with
    | value h =>
      cases hm
      obtain ⟨u, -, rfl⟩ := exists_of_run_map hrun
      exact .none rfl rfl
    | _ => cases hm

end Operations

namespace Inventory

/-- The slots are what the items say, with `addr n` for the address of allocation `n`. -/
structure Matches (σ : Inventory t) (addr : ℕ → Usize t) (sys : Sys t) : Prop where
  inv : sys.Inv σ.texts
  item : ∀ (i : ℕ) (slot : Slot t) (item : Item t), sys.slots[i]? = some slot →
    σ.items[i]? = some item → slot.type = item.type ∧
      slot.owners.map (fun o => o.raw.ptr) = item.block.toList.map addr
  below : ∀ n, σ.InUse n → n < σ.blocks
  apart : ∀ m n, σ.InUse m → σ.InUse n → addr m = addr n → m = n

/-- The addresses with which something made is added to what matches. -/
structure Addressed (σ : Inventory t) (addr : ℕ → Usize t) (y : Slot t) (block : Option ℕ)
    (addr' : ℕ → Usize t) : Prop where
  old : ∀ n < σ.blocks, addr' n = addr n
  owners : y.owners.map (fun o => o.raw.ptr) = block.toList.map addr'
  apart : ∀ m n, (σ.InUse m ∨ block = some m) → (σ.InUse n ∨ block = some n) →
    addr' m = addr' n → m = n

namespace Matches
variable {σ : Inventory t} {addr : ℕ → Usize t} {sys : Sys t} {slot y : Slot t} {w : World t}
  {source : List (Owner t)} {b : Option ℕ} {ty : SlotType} {x : Option (Text t)} {i n : ℕ}

lemma initial (mem : Mem t.usizeBits) (addr : ℕ → Usize t) :
    (⟨[], 0⟩ : Inventory t).Matches addr (.initial mem) := by
  refine ⟨Sys.inv_initial mem, fun i slot item hi => ?_, fun n hn => ?_, fun m n hm => ?_⟩
  · cases hi
  · obtain ⟨item, hitem, -⟩ := hn
    cases hitem
  · obtain ⟨item, hitem, -⟩ := hm
    cases hitem

lemma length_eq (h : σ.Matches addr sys) : σ.items.length = sys.slots.length := by
  rw [h.inv.length_eq, texts, List.length_map]

lemma exists_item (h : σ.Matches addr sys) (hi : sys.slots[i]? = some slot) :
    ∃ item, σ.items[i]? = some item ∧ slot.type = item.type ∧
      slot.Holds sys.world item.text ∧
      slot.owners.map (fun o => o.raw.ptr) = item.block.toList.map addr := by
  have hlt := (List.getElem?_eq_some_iff.mp hi).1
  rw [← h.length_eq] at hlt
  have hitem := List.getElem?_eq_getElem hlt
  obtain ⟨htype, howners⟩ := h.item i slot _ hi hitem
  have hholds := h.inv.holds i slot hi
  rw [Store.get, texts, List.getElem?_map, hitem] at hholds
  exact ⟨_, hitem, htype, hholds, howners⟩

/-- The number of what is owned is in use, and its allocation is there. -/
lemma allocated (h : σ.Matches addr sys) (hn : σ.InUse n) : sys.world.heap (addr n) ≠ none := by
  obtain ⟨item, hitem, hblock⟩ := hn
  obtain ⟨i, hi⟩ := List.getElem?_of_mem hitem
  have hlt := (List.getElem?_eq_some_iff.mp hi).1
  rw [h.length_eq] at hlt
  have hslot := List.getElem?_eq_getElem hlt
  have howners := (h.item i _ item hslot hi).2
  rw [hblock] at howners
  have hmem : addr n ∈ sys.slots[i].owners.map fun o => o.raw.ptr := by
    rw [howners]
    exact List.mem_cons_self
  obtain ⟨o, ho, hptr⟩ := List.mem_map.mp hmem
  have hcount := h.inv.counted (List.mem_of_getElem? hslot) o ho
  obtain ⟨a, ha, -⟩ := World.counts_ne_none_iff.mp hcount
  rw [← hptr, ha]
  exact Option.some_ne_none a

/-- What is made has an address for its allocation, which is not one of those in use unless it is
what it was made from. -/
lemma exists_addr (h : σ.Matches addr sys) {w' : World t} (hy : y.Holds w' x)
    (hs : Stems sys.world source y ty)
    (hsource : source.map (fun o => o.raw.ptr) = b.toList.map addr)
    (hb : ∀ n, b = some n → σ.InUse n) :
    ∃ addr', σ.Addressed addr y (σ.block b x) addr' := by
  have hkeep : y.owners.map (fun o => o.raw.ptr) = (σ.block b x).toList.map addr →
      (∀ n, σ.block b x = some n → σ.InUse n) →
      ∃ addr', σ.Addressed addr y (σ.block b x) addr' := fun howners huse =>
    ⟨addr, fun _ _ => rfl, howners, fun m n hm hn => h.apart m n (hm.elim id (huse m))
      (hn.elim id (huse n))⟩
  obtain _ | ⟨s, ptr | _ | _⟩ := x
  · cases hy
    exact hkeep rfl fun _ hn => by cases hn
  · refine hkeep ?_ fun _ hn => by cases hn
    rw [hy.owners_eq_nil (by simp)]
    rfl
  · refine hkeep ?_ fun _ hn => by cases hn
    rw [hy.owners_eq_nil (by simp)]
    rfl
  · obtain ⟨B, p, ho⟩ := hy.exists_owner
    cases b with
    | some n =>
      refine hkeep ?_ fun n' hn' => hb n' hn'
      have hne : source ≠ [] := by
        rintro rfl
        cases hsource
      rw [hs.kept hne (ho ▸ List.cons_ne_nil _ _), hsource]
      rfl
    | none =>
      have hnil : source = [] := List.map_eq_nil_iff.mp hsource
      have hfresh := hs.fresh hnil ⟨B, p⟩ (ho ▸ List.mem_cons_self)
      have hold : ∀ n, σ.InUse n → Function.update addr σ.blocks p.ptr n = addr n :=
        fun n hn => Function.update_of_ne (h.below n hn).ne _ _
      have hapart : ∀ n, σ.InUse n → addr n ≠ p.ptr := fun n hn heq =>
        h.allocated hn (heq ▸ hfresh)
      refine ⟨Function.update addr σ.blocks p.ptr,
        fun n hn => Function.update_of_ne hn.ne _ _, ?_, fun m n hm hn heq => ?_⟩
      · rw [ho]
        exact congrArg (fun q => [q]) (Function.update_self σ.blocks p.ptr addr).symm
      · have hlast : ∀ n, σ.block none (some ⟨s, .shared⟩) = some n → n = σ.blocks :=
          fun n hn => (Option.some.inj hn).symm
        obtain hm | hm := hm
        · obtain hn | hn := hn
          · rw [hold m hm, hold n hn] at heq
            exact h.apart m n hm hn heq
          · rw [hlast n hn, hold m hm, Function.update_self] at heq
            exact absurd heq (hapart m hm)
        · obtain hn | hn := hn
          · rw [hlast m hm, hold n hn, Function.update_self] at heq
            exact absurd heq.symm (hapart n hn)
          · rw [hlast m hm, hlast n hn]

/-- One more item, or one in the place of another. -/
lemma put (h : σ.Matches addr sys) {items' : List (Item t)} {sys' : Sys t}
    {addr' : ℕ → Usize t} (hinv : sys'.Inv (items'.map Item.text)) (htype : y.type = ty)
    (ha : σ.Addressed addr y (σ.block b x) addr') (hb : ∀ n, b = some n → σ.InUse n)
    (hitems : ∀ item ∈ items', item ∈ σ.items ∨ item = ⟨ty, x, σ.block b x⟩)
    (hput : ∀ (i : ℕ) (slot : Slot t) (item : Item t), sys'.slots[i]? = some slot →
      items'[i]? = some item → sys.slots[i]? = some slot ∧ σ.items[i]? = some item ∨
        slot = y ∧ item = ⟨ty, x, σ.block b x⟩) :
    (⟨items', σ.blocksAfter (σ.block b x)⟩ : Inventory t).Matches addr' sys' := by
  have huse : ∀ n, (∃ item ∈ items', item.block = some n) →
      σ.InUse n ∨ σ.block b x = some n := by
    rintro n ⟨item, hitem, hn⟩
    obtain hold | rfl := hitems item hitem
    · exact Or.inl ⟨item, hold, hn⟩
    · exact Or.inr hn
  have hle : σ.blocks ≤ σ.blocksAfter (σ.block b x) := by
    rw [blocksAfter]
    split_ifs <;> omega
  refine ⟨hinv, fun i slot item hi hitem => ?_, fun n hn => ?_, fun m n hm hn => ?_⟩
  · obtain ⟨hslot, hold⟩ | ⟨rfl, rfl⟩ := hput i slot item hi hitem
    · obtain ⟨hty, howners⟩ := h.item i slot item hslot hold
      refine ⟨hty, howners.trans (List.map_congr_left fun n hn => ?_)⟩
      have hblock : item.block = some n := Option.mem_toList.mp hn
      exact (ha.old n (h.below n ⟨item, List.mem_of_getElem? hold, hblock⟩)).symm
    · exact ⟨htype, ha.owners⟩
  · obtain hn | hn := huse n hn
    · exact (h.below n hn).trans_le hle
    · change n < σ.blocksAfter (σ.block b x)
      rw [blocksAfter]
      split_ifs with heq
      · rw [hn] at heq
        rw [Option.some.inj heq]
        exact σ.blocks.lt_succ_self
      · obtain _ | ⟨s, ptr | _ | _⟩ := x
        · cases hn
        · cases hn
        · cases hn
        · cases b with
          | some n' =>
            obtain rfl := Option.some.inj hn
            exact h.below n' (hb n' rfl)
          | none => exact absurd rfl heq
  · exact ha.apart m n (huse m hm) (huse n hn)

lemma push (h : σ.Matches addr sys) {x : Text t} (hy : Yields sys.world [] w y (some x))
    (halive : Sys.BorrowsAlive ⟨w, sys.slots ++ [y]⟩) (hs : Stems sys.world source y ty)
    (hsource : source.map (fun o => o.raw.ptr) = b.toList.map addr)
    (hb : ∀ n, b = some n → σ.InUse n) :
    ∃ addr', (σ.push ty (some x) b).Matches addr' ⟨w, sys.slots ++ [y]⟩ := by
  obtain ⟨addr', ha⟩ := h.exists_addr hy.holds hs hsource hb
  have hinv := h.inv.append hy halive
  rw [← texts_push σ ty (some x) b] at hinv
  refine ⟨addr', h.put hinv hs.type ha hb (fun item hitem => ?_) fun i slot item hi hitem => ?_⟩
  · obtain hitem | hitem := List.mem_append.mp hitem
    · exact Or.inl hitem
    · exact Or.inr (List.mem_singleton.mp hitem)
  · obtain hlt | hge := lt_or_ge i sys.slots.length
    · rw [List.getElem?_append_left hlt] at hi
      rw [List.getElem?_append_left (h.length_eq ▸ hlt)] at hitem
      exact Or.inl ⟨hi, hitem⟩
    · rw [List.getElem?_append_right hge, List.getElem?_singleton] at hi
      rw [List.getElem?_append_right (h.length_eq ▸ hge), List.getElem?_singleton] at hitem
      split_ifs at hi hitem
      exact Or.inr ⟨(Option.some.inj hi).symm, (Option.some.inj hitem).symm⟩

lemma replace (h : σ.Matches addr sys) (hi : sys.slots[i]? = some slot)
    (hy : Yields sys.world slot.owners w y x)
    (halive : Sys.BorrowsAlive ⟨w, sys.slots.set i y⟩) (hs : Stems sys.world source y ty)
    (hsource : source.map (fun o => o.raw.ptr) = b.toList.map addr)
    (hb : ∀ n, b = some n → σ.InUse n) :
    ∃ addr', (σ.replace i ty x b).Matches addr' ⟨w, sys.slots.set i y⟩ := by
  obtain ⟨addr', ha⟩ := h.exists_addr hy.holds hs hsource hb
  have hinv := h.inv.set hi hy halive
  have hlt := (List.getElem?_eq_some_iff.mp hi).1
  rw [← texts_replace σ i ty x b] at hinv
  refine ⟨addr', h.put hinv hs.type ha hb (fun item hitem => List.mem_or_eq_of_mem_set hitem)
    fun j slot item hj hitem => ?_⟩
  by_cases hij : i = j
  · subst hij
    rw [List.getElem?_set_self hlt] at hj
    rw [List.getElem?_set_self (h.length_eq ▸ hlt)] at hitem
    exact Or.inr ⟨(Option.some.inj hj).symm, (Option.some.inj hitem).symm⟩
  · rw [List.getElem?_set_ne hij] at hj hitem
    exact Or.inl ⟨hj, hitem⟩

end Matches

/-- A step of a program is a step of the machine without addresses. -/
lemma Matches.step {σ : Inventory t} {addr : ℕ → Usize t} {sys sys' : Sys t} {event : Event t}
    (h : σ.Matches addr sys) (hstep : Sys.Step sys event sys') :
    ∃ addr', (σ.apply event).Matches addr' sys' := by
  cases hstep with
  | environment hkeep => exact ⟨addr, h.inv.environment hkeep, h.item, h.below, h.apart⟩
  | create hread hrun halive =>
    exact h.push ((Creation.run_outcome hread).result hrun) halive (Creation.stems hread hrun)
      rfl fun n hn => by cases hn
  | @copy A c i slot y m w hi hm hrun halive =>
    obtain ⟨⟨ty, x, b⟩, hitem, rfl, hx, howners⟩ := h.exists_item hi
    obtain ⟨x, rfl⟩ := Sys.exists_text_of_copy hx hm
    simp only [apply, hitem, Option.map_some]
    exact h.push ((Copying.run_outcome hx hm).result hrun) halive (Copying.stems hx hm hrun)
      howners fun n hn => ⟨_, List.mem_of_getElem? hitem, hn⟩
  | @consume A c i slot y m w hi hm hrun halive =>
    obtain ⟨⟨ty, x, b⟩, hitem, rfl, hx, howners⟩ := h.exists_item hi
    obtain ⟨x, rfl⟩ := Sys.exists_text_of_consume hx hm
    simp only [apply, hitem]
    refine h.replace hi ((Consuming.run_outcome h.inv.sound hx hm).result hrun) halive
      (Consuming.stems hx hm hrun) ?_ fun n hn => ?_
    · split_ifs
      · rfl
      · exact howners
    · split_ifs at hn
      exact ⟨_, List.mem_of_getElem? hitem, hn⟩

lemma matches_ofEvents {events : List (Event t)} {sys : Sys t} (h : Sys.Run events sys) :
    ∃ addr, (ofEvents events).Matches addr sys := by
  induction h with
  | initial mem => exact ⟨fun _ => 0#_, .initial mem _⟩
  | step _ hstep ih =>
    obtain ⟨addr, hmatches⟩ := ih
    rw [ofEvents_append]
    exact hmatches.step hstep

end Inventory
end RefStr
