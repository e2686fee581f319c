import RefStr.Holdings

/-! What the operations do one access at a time while other threads act: one rule for each of
them, for whatever holdings the others have. -/
namespace RefStr
open Interleaving ByteMemory RefStrCore Arch
variable {t : Target} {B : Backend} {α β : Type}

namespace Stepwise
variable {c : Call (accounting t)} {own own' : List (Holding t)} {v : RefStrCore t B}
  {x : Text t} {p : RawStr t} {s : Str t} {A : Allocator t} {k : WrapperKind}

/-- Whatever the others do, the value stands for the text. -/
structure Views (c : Call (accounting t)) (own : List (Holding t)) (v : RefStrCore t B)
    (x : Text t) : Prop where
  encodes : v.parts.Encodes x
  represents : ∀ (w : World t) (rest : List (Holding t)), c.looks ⊆ rest →
    w.Accounts (own ++ rest) → v.Represents w x

lemma represents_of_mem {w : World t} {es : List (Holding t)} (hacc : w.Accounts es)
    {thread : ℕ} (he : Holding.value thread k v x ∈ es) : v.Represents w x := by
  cases hacc.holds _ he with
  | value h => exact h

lemma Views.of_own {thread : ℕ} (henc : v.parts.Encodes x)
    (he : Holding.value thread k v x ∈ own) : Views c own v x :=
  ⟨henc, fun _ _ _ hacc => represents_of_mem hacc (List.mem_append_left _ he)⟩

lemma Views.of_looks {thread : ℕ} (henc : v.parts.Encodes x)
    (he : Holding.value thread k v x ∈ c.looks) : Views c own v x :=
  ⟨henc, fun _ _ hl hacc => represents_of_mem hacc (List.mem_append_right _ (hl he))⟩

section Access

/-- One access next to whatever the others hold. -/
lemma safe_perform {i : Action t} {Q : i.Answer → List (Holding t) → Prop}
    (h : ∀ (w : World t) (rest : List (Holding t)), c.looks ⊆ rest → c.Admits own →
      w.Accounts (own ++ rest) → i.handle w = .error .aborted w ∨
      ∃ r w' own', i.handle w = .ok r w' ∧ c.Admits own' ∧
        ((∀ e ∈ own ++ rest, ∀ p ∈ e.slot.borrows, Mapped w'.mem p.ptr p.len.toNat) →
          w'.Accounts (own' ++ rest)) ∧ Q r own') :
    Safe c Q (.perform (M := machine t) i) own := by
  intro w rest hl hc hacc
  obtain haborted | ⟨r, w', own', hr, hadmits, hacc', hq⟩ := h w rest hl hc hacc
  · simp only [haborted]
  · simp only [hr]
    refine ⟨own', hadmits, fun hrest hrefs => hacc' fun e he p hp => ?_, Safe.ret hq⟩
    obtain he | he := List.mem_append.mp he
    · exact hrefs p ((hc e he).2 hp)
    · exact hrest e he p hp

lemma computes_lift {a : α} {e : Except Fault α} (he : e = .ok a) :
    Computes c (liftM e : Steps t α) own a own := by
  rw [he]
  exact Computes.ret

/-- A strong count is taken on behalf of something that is held or looked at. -/
lemma computes_retain {o : Owner t} {y : Holding t} (hy : y.owners = [o]) (hyt : y.thread = c.party)
    (hyb : y.slot.borrows = [])
    (hfrom : ∃ d ∈ own ++ c.looks, o ∈ d.owners ∧
      (o.backend = .localBackend → d.thread = c.party))
    (hholds : ∀ (w : World t) (rest : List (Holding t)), c.looks ⊆ rest →
      w.Accounts (own ++ rest) → y.slot.Holds (w.retain o.raw.ptr) y.text) :
    Computes c (incrementStrongCount o.backend o.raw) own () (y :: own) := by
  refine safe_perform fun w rest hl hc hacc => Or.inr ?_
  obtain ⟨d, hd, hdo, hdt⟩ := hfrom
  have hd' : d ∈ own ++ rest := by
    obtain hd | hd := List.mem_append.mp hd
    · exact List.mem_append_left _ hd
    · exact List.mem_append_right _ (hl hd)
  have hcount := hacc.counted hd' hdo
  refine ⟨(), w.retain o.raw.ptr, y :: own, ?_, ?_, fun _ => ?_, rfl, rfl⟩
  · obtain ⟨n, hn⟩ := Option.ne_none_iff_exists'.mp hcount
    simp only [Action.handle, Backend.incrementStrongCount, hn]
    rfl
  · intro e he
    obtain rfl | he := List.mem_cons.mp he
    · exact ⟨hyt, by simp [hyb]⟩
    · exact hc e he
  · have hev : World.Evolves w (([] : List (Holding t)).flatMap Holding.owners)
        (w.retain o.raw.ptr) ([y].flatMap Holding.owners) := by
      rw [List.flatMap_singleton, hy]
      exact World.Evolves.retain hcount
    refine World.Accounts.trade c.party [] [y] hacc hev ?_ ?_ ?_
    · intro z hz
      obtain rfl := List.mem_singleton.mp hz
      exact hholds w rest hl hacc
    · intro z hz
      obtain rfl := List.mem_singleton.mp hz
      refine ⟨hyt, fun o' ho' hlocal => Or.inl ⟨d, hd', ?_⟩⟩
      rw [hy] at ho'
      obtain rfl := List.mem_singleton.mp ho'
      exact ⟨hdt hlocal, hdo⟩
    · exact fun e he => (hacc.holds e he).mapped

/-- A strong count is given up with the handle that holds it. -/
lemma computes_dropShared {thread : ℕ} {h : Shared t B} :
    Computes c (dropShared h) (.handle thread h s :: own) () own := by
  refine safe_perform fun w rest hl hc hacc => Or.inr ?_
  have hcount : w.counts ⟨B, h.raw⟩ ≠ none := hacc.counted List.mem_cons_self List.mem_cons_self
  refine ⟨(), w.release h.raw.ptr, own, ?_, fun e he => hc e (List.mem_cons_of_mem _ he),
    fun halive => ?_, rfl, rfl⟩
  · obtain ⟨n, hn⟩ := Option.ne_none_iff_exists'.mp hcount
    simp only [Action.handle, Backend.dropShared, hn]
    rfl
  · have hev : World.Evolves w ([Holding.handle thread h s].flatMap Holding.owners)
        (w.release h.raw.ptr) (([] : List (Holding t)).flatMap Holding.owners) :=
      World.Evolves.release (o := ⟨B, h.raw⟩) hcount
    refine World.Accounts.trade c.party [.handle thread h s] []
      hacc hev (by simp) (by simp) fun e he => halive e (List.mem_cons_of_mem _ he)

/-- A raw pointer that owns a count stands for the handle that it was. -/
lemma becomes_handle {thread : ℕ} : Becomes c (.raw thread B p s :: own)
    (.handle thread (⟨p⟩ : Shared t B) s :: own) := by
  refine becomes_slot _ rfl (List.nil_subset _) fun w h => ?_
  cases h with
  | raw h => exact .handle h

/-- A handle stands for the raw pointer that it is made of. -/
lemma becomes_owner {thread : ℕ} {h : Shared t B} : Becomes c (.handle thread h s :: own)
    (.raw thread B h.raw s :: own) := by
  refine becomes_slot _ rfl (List.nil_subset _) fun w h => ?_
  cases h with
  | handle h => exact .raw h

lemma computes_fromRaw {thread : ℕ} : Computes c (fromRaw B p) (.raw thread B p s :: own)
    ⟨p⟩ (.handle thread (⟨p⟩ : Shared t B) s :: own) := by
  refine safe_perform fun w rest hl hc hacc => Or.inr ?_
  have hcount : w.counts ⟨B, p⟩ ≠ none := hacc.counted List.mem_cons_self List.mem_cons_self
  refine ⟨⟨p⟩, w, .handle thread ⟨p⟩ s :: own, ?_, ?_, fun _ => ?_, rfl, rfl⟩
  · obtain ⟨n, hn⟩ := Option.ne_none_iff_exists'.mp hcount
    simp only [Action.handle, Backend.fromRaw, hn]
    rfl
  · exact becomes_handle.admits hc
  · exact becomes_handle.accounts w rest hl hc hacc

lemma safe_allocate :
    Safe c (fun h own' => h.raw.len = s.len ∧ own' = .handle c.party h s :: own)
      (allocate A B s) own := by
  refine safe_perform fun w rest hl hc hacc => ?_
  cases hptr : A.pick w s.bytes.length with
  | none =>
    left
    simp only [Action.handle, Backend.allocate, hptr]
    rfl
  | some ptr =>
    right
    obtain ⟨hheap, hf⟩ := A.fresh hptr
    let h : Shared t B := ⟨⟨ptr, s.len⟩⟩
    have hev : World.Evolves w (([] : List (Holding t)).flatMap Holding.owners)
        (w.allocate B ptr s) ([Holding.handle c.party h s].flatMap Holding.owners) :=
      World.Evolves.allocate hheap hf
    refine ⟨h, w.allocate B ptr s, .handle c.party h s :: own, ?_, ?_, fun halive => ?_,
      rfl, rfl⟩
    · simp only [Action.handle, Backend.allocate, hptr]
      rfl
    · intro e he
      obtain rfl | he := List.mem_cons.mp he
      · exact ⟨rfl, List.nil_subset _⟩
      · exact hc e he
    · refine World.Accounts.trade c.party [] [.handle c.party h s]
        hacc hev ?_ ?_ halive
      · intro y hy
        obtain rfl := List.mem_singleton.mp hy
        exact .handle (Handle.allocate w B ptr s)
      · intro y hy
        obtain rfl := List.mem_singleton.mp hy
        refine ⟨rfl, fun o ho _ => Or.inr ?_⟩
        obtain rfl := List.mem_singleton.mp ho
        rw [World.counts, hheap]
        rfl

/-- Bytes that stay as they are are read one after the other. -/
lemma computes_readBytes {bytes : List UInt8} {q : Usize t}
    (h : ∀ (w : World t) (rest : List (Holding t)), c.looks ⊆ rest →
      w.Accounts (own ++ rest) → read w.mem q bytes.length = some bytes) :
    Computes c (readBytes q bytes.length) own bytes own := by
  induction bytes generalizing q with
  | nil => exact Computes.ret
  | cons b bytes ih =>
    have hsplit : ∀ (w : World t) (rest : List (Holding t)), c.looks ⊆ rest →
        w.Accounts (own ++ rest) → w.mem q = some b ∧
          read w.mem (q + 1#_) bytes.length = some bytes := by
      intro w rest hl hacc
      have hread := h w rest hl hacc
      simp only [List.length_cons, ByteMemory.read, Option.bind_eq_bind,
        Option.bind_eq_some_iff] at hread
      obtain ⟨b', hb, bs, hbs, heq⟩ := hread
      obtain ⟨rfl, rfl⟩ := List.cons.inj (Option.some.inj heq)
      exact ⟨hb, hbs⟩
    have hfirst : Computes c (readByte q) own b own := by
      refine safe_perform fun w rest hl hc hacc =>
        Or.inr ⟨b, w, own, ?_, hc, fun _ => hacc, rfl, rfl⟩
      simp only [Action.handle, Action.load, (hsplit w rest hl hacc).1]
      rfl
    exact hfirst.bind ((ih fun w rest hl hacc => (hsplit w rest hl hacc).2).bind Computes.ret)

lemma computes_readRaw (hlen : p.len = s.len)
    (h : ∀ (w : World t) (rest : List (Holding t)), c.looks ⊆ rest →
      w.Accounts (own ++ rest) → read w.mem p.ptr s.bytes.length = some s.bytes) :
    Computes c (readRaw p) own s.bytes own := by
  rw [readRaw, hlen, s.len_toNat]
  exact computes_readBytes h

lemma computes_derefRaw (hlen : p.len = s.len)
    (h : ∀ (w : World t) (rest : List (Holding t)), c.looks ⊆ rest →
      w.Accounts (own ++ rest) → read w.mem p.ptr s.bytes.length = some s.bytes) :
    Computes c (derefRaw p) own ⟨p.ptr, s⟩ own :=
  (computes_readRaw hlen h).bind ((computes_lift (fromUtf8Unchecked_bytes s)).bind Computes.ret)

lemma computes_deref {thread : ℕ} {h : Shared t B} (henc : h.raw.len = s.len)
    (hh : Holding.handle thread h s ∈ own) : Computes c (deref h) own s own := by
  refine (computes_derefRaw henc fun w rest _ hacc => ?_).map
  cases hacc.holds _ (List.mem_append_left _ hh) with
  | handle h => exact h.read

end Access

section Value
variable {A : Allocator t}

lemma owners_shared (h : v.parts.Encodes ⟨s, .shared⟩) :
    v.owners = [⟨B, ⟨v.parts.rawPtr, s.len⟩⟩] := by
  rw [owners, isShared, h.isShared_eq, RawParts.intoRawNonInline, h.decode_len (by simp)]
  rfl

lemma owners_eq_nil (h : v.parts.Encodes x) (hx : x.origin.tag ≠ .shared) : v.owners = [] :=
  if_neg (h.isShared_iff.not.mpr hx)

lemma Views.read (h : Views c own v x) (hx : x.origin.tag ≠ .inline) (w : World t)
    (rest : List (Holding t)) (hl : c.looks ⊆ rest) (hacc : w.Accounts (own ++ rest)) :
    read w.mem v.parts.rawPtr x.str.bytes.length = some x.str.bytes :=
  (h.represents w rest hl hacc).read hx

lemma readSelf_eq (h : v.parts.Encodes ⟨s, .inline⟩) :
    v.readSelf v.parts.len = .ok s.bytes := by
  have hle : s.bytes.length ≤ t.inlineTotalBytes := (h.length_le rfl).trans (Nat.sub_le _ _)
  rw [readSelf, h.len_eq, s.len_toNat, if_pos hle, h.bytes_take]

lemma computes_asStr (h : Views c own v x) : Computes c (asStr v) own x.str own := by
  have hmask := h.encodes.inlineMask_iff
  have hutf8 : Computes c (liftM (fromUtf8Unchecked t x.str.bytes) : Steps t (Str t)) own
      x.str own := computes_lift (fromUtf8Unchecked_bytes x.str)
  rw [asStr]
  by_cases hx : x.origin.tag = .inline
  · rw [if_pos (hmask.mpr hx)]
    obtain ⟨s, _ | _ | _⟩ := x
    · cases hx
    · refine (computes_lift ?_).bind hutf8
      rw [← readSelf_eq h.encodes, RawParts.len, if_pos (hmask.mpr rfl)]
    · cases hx
  · rw [if_neg (hmask.not.mpr hx)]
    exact (computes_readRaw (h.encodes.decode_len hx) (h.read hx)).bind hutf8

/-- A value that owns nothing comes to be held, or to be held no more. -/
lemma becomes_value {thread : ℕ} (h : Views c own v x) (hx : x.origin.tag ≠ .shared)
    (hthread : thread = c.party) (hb : v.borrows ⊆ c.refs) :
    Becomes c own (.value thread k v x :: own) := by
  refine becomes_of [] [.value thread k v x] ?_ ?_ ?_
  · simpa [Holding.owners, Holding.value, Slot.owners] using owners_eq_nil h.encodes hx
  · intro _ y hy
    obtain rfl := List.mem_singleton.mp hy
    exact ⟨hthread, hb⟩
  · intro w rest hl hacc y hy
    obtain rfl := List.mem_singleton.mp hy
    exact .value (h.represents w rest hl hacc)

/-- A shared value stands for the raw pointer that it was made of. -/
lemma becomes_raw {thread : ℕ} (h : v.parts.Encodes ⟨s, .shared⟩) :
    Becomes c (.value thread k v ⟨s, .shared⟩ :: own)
      (.raw thread B ⟨v.parts.rawPtr, s.len⟩ s :: own) := by
  refine becomes_slot _ (owners_shared h).symm (List.nil_subset _) fun w hw => ?_
  cases hw with
  | value hv => exact .raw hv.handle

/-- The owners are looked at or held; those of local allocations by the same thread. -/
def Reaches (c : Call (accounting t)) (own : List (Holding t)) (os : List (Owner t)) : Prop :=
  ∀ o ∈ os, ∃ d ∈ own ++ c.looks, o ∈ d.owners ∧ (o.backend = .localBackend → d.thread = c.party)

lemma computes_clone (h : Views c own v x) (ho : Reaches c own v.owners)
    (hb : v.borrows ⊆ c.refs) :
    Computes c (clone v) own v (.value c.party k v x :: own) := by
  rw [clone]
  by_cases hx : x.origin.tag = .shared
  · rw [Text.eq_shared hx] at h ⊢
    have howners := owners_shared h.encodes
    rw [howners] at ho
    rw [if_pos (h.encodes.needsDropMask_iff.mpr rfl), h.encodes.decode_len (by simp)]
    have hretain : Computes c (incrementStrongCount B ⟨v.parts.rawPtr, x.str.len⟩) own ()
        (.value c.party k v ⟨x.str, .shared⟩ :: own) := by
      refine computes_retain (o := ⟨B, ⟨v.parts.rawPtr, x.str.len⟩⟩) howners rfl ?_
        (ho _ List.mem_cons_self) ?_
      · exact if_neg (h.encodes.isBorrowed_iff.not.mpr (by simp))
      · intro w rest hl hacc
        have hv := h.represents w rest hl hacc
        have hv' := hv.afterClone
        rw [hv.afterClone_shared] at hv'
        exact .value hv'
    exact hretain.bind Computes.ret
  · rw [if_neg (h.encodes.needsDropMask_iff.not.mpr hx)]
    exact Safe.becomes (becomes_value h hx rfl hb) Computes.ret

lemma computes_drop {thread : ℕ} (h : v.parts.Encodes x) :
    Computes c (drop v) (.value thread k v x :: own) () own := by
  rw [drop]
  by_cases hx : x.origin.tag = .shared
  · rw [Text.eq_shared hx] at h ⊢
    rw [if_pos (h.needsDropMask_iff.mpr rfl), h.decode_len (by simp)]
    exact Safe.becomes (becomes_raw h) (computes_fromRaw.bind computes_dropShared)
  · rw [if_neg (h.needsDropMask_iff.not.mpr hx)]
    exact Safe.becomes (becomes_nil (owners_eq_nil h hx)) Computes.ret

/-- Run a part of a program that never fails, then drop the value. -/
lemma safe_withLocal (k : WrapperKind) {body : Steps t α} {Q : α → List (Holding t) → Prop}
    (h : v.parts.Encodes x)
    (hbody : Safe c.strict (fun a own' => ∃ own'', own'.Perm (.value c.party k v x :: own'') ∧
      Q a own'') body own) : Safe c Q (withLocal (drop v) body) own := by
  refine hbody.onFail.bind ?_
  rintro a own' ⟨own'', hp, hq⟩
  exact Safe.becomes (Becomes.of_perm hp) ((computes_drop h).safe (Safe.ret hq))

/-- The words of a handle that is given up are those of a shared value. -/
lemma becomes_ofStr {thread : ℕ} {h : Shared t B} (hlen : h.raw.len = s.len)
    (hs : s.Compressible) : Becomes c (.handle thread h s :: own)
      (.value thread k (⟨.ofStr h.raw.ptr .shared s hs⟩ : RefStrCore t B) ⟨s, .shared⟩ ::
        own) := by
  obtain ⟨⟨ptr, _⟩⟩ := h
  obtain rfl := hlen
  have henc : (RawParts.ofStr ptr .shared s hs).Encodes ⟨s, .shared⟩ := .shared _ _ hs
  have hnil : (⟨.ofStr ptr .shared s hs⟩ : RefStrCore t B).borrows = [] :=
    if_neg (henc.isBorrowed_iff.not.mpr (by simp))
  refine becomes_slot _ (owners_shared (v := ⟨_⟩) henc) ?_ fun w hw => ?_
  · change RefStrCore.borrows _ ⊆ _
    rw [hnil]
    exact List.nil_subset _
  · cases hw with
    | handle h => exact .value (.shared hs h)

/-- The handle is handed over before the length is checked. -/
lemma safe_fromShared {thread : ℕ} {h : Shared t B} (hlen : h.raw.len = s.len)
    (hlong : ¬ s.Compressible → c.Excuses (.panic tooLarge) ∧ ∀ e ∈ own, e.slot.borrows = []) :
    Safe c (fun u own' => u.parts.Encodes ⟨s, .shared⟩ ∧
      own' = .value thread k u ⟨s, .shared⟩ :: own) (fromShared h) (.handle thread h s :: own) := by
  have hderef : Computes c.strict (deref h) (.handle thread h s :: own) s
      (.handle thread h s :: own) := computes_deref hlen List.mem_cons_self
  have hbody : Computes c (onUnwind (dropShared h) (deref h)) (.handle thread h s :: own) s
      (.handle thread h s :: own) := hderef.onFail
  refine hbody.safe ?_
  by_cases hs : s.Compressible
  · have henc := (encode_str .shared s).trans (if_pos hs)
    have hnew := RawParts.new_ofStr (by decide : StateTag.shared ≠ .inline) h.raw.ptr hs
    refine (computes_lift henc).safe ?_
    simp only [encode_isAscii]
    exact (computes_lift hnew).safe (Safe.becomes (becomes_ofStr hlen hs)
      (Safe.ret ⟨.shared _ _ hs, rfl⟩))
  · have henc := (encode_str .shared s).trans (if_neg hs)
    obtain ⟨hexcused, hown⟩ := hlong hs
    simp only [henc]
    refine ⟨hexcused, _, Becomes.refl c _, fun e he => ?_⟩
    obtain rfl | he := List.mem_cons.mp he
    · rfl
    · exact hown e he

lemma safe_newInline (hs : s.bytes.length ≤ t.inlineCapacity) :
    Safe c (fun u own' => u.parts.Encodes ⟨s, .inline⟩ ∧
      own' = .value c.party k u ⟨s, .inline⟩ :: own)
      (liftM (newInline s : Except Fault (RefStrCore t B)) : Steps t (RefStrCore t B)) own := by
  obtain ⟨q, hq, hnew⟩ := newInline_eq (B := B) hs
  have henc : q.Encodes ⟨s, .inline⟩ := .inline hs hq
  have hviews : Views c own (⟨q⟩ : RefStrCore t B) ⟨s, .inline⟩ :=
    ⟨henc, fun _ _ _ _ => .inline hs hq⟩
  rw [hnew]
  refine Safe.becomes (becomes_value hviews (by simp) rfl ?_) (Safe.ret ⟨henc, rfl⟩)
  rw [borrows, isBorrowed, henc.isBorrowed_eq]
  exact List.nil_subset _

/-- An owning constructor keeps short text inline and copies the rest. -/
lemma safe_fromOwnedLike
    (hlong : ¬ s.Compressible → c.Excuses (.panic tooLarge) ∧ ∀ e ∈ own, e.slot.borrows = []) :
    Safe c (fun u own' => u.parts.Encodes (.owned s) ∧
      own' = .value c.party k u (.owned s) :: own)
      (fromOwnedLike A s : Steps t (RefStrCore t B)) own := by
  rw [fromOwnedLike]
  by_cases hs : s.bytes.length ≤ t.inlineCapacity
  · rw [if_pos ((supportsInlineLen_iff s).mpr hs), Text.owned_of_le s hs]
    exact safe_newInline hs
  · rw [if_neg ((supportsInlineLen_iff s).not.mpr hs), Text.owned_of_not_le s hs]
    refine safe_allocate.bind ?_
    rintro h _ ⟨hlen, rfl⟩
    exact safe_fromShared hlen hlong

/-- Borrowed text is copied without a panic, since its length was encoded before. -/
lemma safe_promote {ptr : Usize t} (h : Views c own v ⟨s, .borrowed ptr⟩) :
    Safe c (fun u own' => u.parts.Encodes (.owned s) ∧
      own' = .value c.party k u (.owned s) :: own)
      (if supportsInlineLen v.len then do newInline (← asStr v)
        else do fromShared (← allocate A B (← asStr v)) : Steps t (RefStrCore t B)) own := by
  have hlen : v.len = s.len := h.encodes.len_eq
  have hs := h.encodes.compressible (by simp)
  have hcopy : Safe c (fun u own' => u.parts.Encodes (.owned s) ∧
      own' = .value c.party k u (.owned s) :: own)
      (fromOwnedLike A s : Steps t (RefStrCore t B)) own :=
    safe_fromOwnedLike fun hlong => absurd hs hlong
  rw [fromOwnedLike] at hcopy
  rw [hlen]
  by_cases hshort : supportsInlineLen s.len = true
  · rw [if_pos hshort] at hcopy ⊢
    exact (computes_asStr h).safe hcopy
  · rw [if_neg hshort] at hcopy ⊢
    exact (computes_asStr h).safe hcopy

lemma safe_toStaticCore (h : Views c own v x) (ho : Reaches c own v.owners)
    (hb : v.borrows ⊆ c.refs) :
    Safe c (fun u own' => u.parts.Encodes x.promote ∧
      own' = .value c.party k u x.promote :: own) (toStaticCore A v) own := by
  have htag : v.stateTag = .ok x.origin.tag := h.encodes.hasTag.tag_eq
  refine (computes_lift htag).safe ?_
  obtain ⟨s, ptr | _ | _⟩ := x
  · exact safe_promote h
  · exact (computes_clone h ho hb).safe (Safe.ret ⟨h.encodes, rfl⟩)
  · exact (computes_clone h ho hb).safe (Safe.ret ⟨h.encodes, rfl⟩)

/-- A value may be seen as one of another wrapper. -/
lemma becomes_rewrap {thread : ℕ} (k k' : WrapperKind) :
    Becomes c (.value thread k v x :: own) (.value thread k' v x :: own) := by
  refine becomes_slot _ rfl (List.Subset.refl _) fun w hw => ?_
  cases hw with
  | value h => exact .value h

lemma safe_intoStaticCore (k' : WrapperKind) (h : v.parts.Encodes x) :
    Safe c (fun u own' => own' = .value c.party k' u x.promote :: own) (intoStaticCore A v)
      (.value c.party k v x :: own) := by
  have htag : v.stateTag = .ok x.origin.tag := h.hasTag.tag_eq
  have hbody : Computes c (onUnwind (drop v) (liftM v.stateTag : Steps t StateTag))
      (.value c.party k v x :: own) x.origin.tag (.value c.party k v x :: own) :=
    Safe.onFail (computes_lift htag)
  refine hbody.safe ?_
  obtain ⟨s, ptr | _ | _⟩ := x
  · refine safe_withLocal k h ?_
    refine (safe_promote (k := k') (Views.of_own (c := c.strict) h List.mem_cons_self)).mono ?_
    rintro u _ ⟨-, rfl⟩
    exact ⟨_, List.Perm.swap _ _ _, rfl⟩
  · exact Safe.becomes (becomes_rewrap k k') (Safe.ret rfl)
  · exact Safe.becomes (becomes_rewrap k k') (Safe.ret rfl)

/-- The words of a value that owns nothing serve in the other backend. -/
lemma becomes_convert {B' : Backend} (h : v.parts.Encodes x) (hx : x.origin.tag ≠ .shared) :
    Becomes c (.value c.party k v x :: own)
      (.value c.party k (⟨v.parts⟩ : RefStrCore t B') x :: own) := by
  refine becomes_slot _ ?_ (List.Subset.refl _) fun w hw => ?_
  · exact (owners_eq_nil (B := B') (v := ⟨v.parts⟩) h hx).trans (owners_eq_nil h hx).symm
  · cases hw with
    | value hv => exact .value (hv.of_convert hx B')

/-- The text is copied into the other backend before the source is given up. -/
lemma safe_convert {B' : Backend} (h : v.parts.Encodes x) :
    Safe c (fun u own' => u.parts.Encodes x ∧ own' = .value c.party k u x :: own)
      (convert A v B') (.value c.party k v x :: own) := by
  have hshared : v.isShared = true ↔ x.origin.tag = .shared := h.isShared_iff
  rw [convert]
  by_cases hx : x.origin.tag = .shared
  · rw [if_pos (hshared.mpr hx)]
    rw [Text.eq_shared hx] at h ⊢
    refine safe_withLocal k h ?_
    refine (computes_asStr (Views.of_own (c := c.strict) h List.mem_cons_self)).safe ?_
    refine safe_allocate.bind ?_
    rintro g _ ⟨hlen, rfl⟩
    refine (safe_fromShared (k := k) hlen fun hs =>
      absurd (h.compressible (by simp)) hs).mono ?_
    rintro u _ ⟨henc, rfl⟩
    exact ⟨_, List.Perm.swap _ _ _, henc, rfl⟩
  · rw [if_neg (hshared.not.mpr hx)]
    exact Safe.becomes (becomes_convert h hx) (Safe.ret ⟨h, rfl⟩)

/-- A borrowed value refers to the slice that it was made of. -/
lemma borrows_borrowed {ptr : Usize t} (h : v.parts.Encodes ⟨s, .borrowed ptr⟩) :
    v.borrows = [⟨ptr, s.len⟩] := by
  rw [borrows, isBorrowed, h.isBorrowed_eq, RawParts.intoRawNonInline, h.decode_len (by simp),
    h.rawPtr_eq]
  rfl

/-- A borrowed value stands for a pointer to what it borrows. -/
lemma becomes_pointer {ptr : Usize t} (h : v.parts.Encodes ⟨s, .borrowed ptr⟩) :
    Becomes c (.value c.party k v ⟨s, .borrowed ptr⟩ :: own)
      (.pointer c.party ⟨ptr, s.len⟩ s :: own) := by
  refine becomes_slot _ (owners_eq_nil h (by simp)).symm ?_ fun w hw => ?_
  · change [⟨ptr, s.len⟩] ⊆ v.borrows
    rw [borrows_borrowed h]
    exact List.Subset.refl _
  · cases hw with
    | value hv =>
      have hread := hv.read (by simp)
      rw [h.rawPtr_eq] at hread
      exact .pointer rfl hread

/-- A raw pointer into borrowed memory owns nothing, any other owns an allocation. -/
lemma safe_intoRaw (h : v.parts.Encodes x) :
    Safe c (fun p own' => own' =
        ⟨c.party, if v.isBorrowed then .pointer p else .raw B p, some x.detach⟩ :: own)
      (intoRaw A v) (.value c.party k v x :: own) := by
  have hb : v.isBorrowed = decide (x.origin.tag = .borrowed) := h.isBorrowed_eq
  have hraw : x.origin.tag ≠ .inline →
      v.intoRawPartsStruct.intoRawNonInline = ⟨v.parts.rawPtr, x.str.len⟩ := by
    intro hx
    rw [intoRawPartsStruct, RawParts.intoRawNonInline, h.decode_len hx]
  rw [hb, intoRaw]
  obtain ⟨s, ptr | _ | _⟩ := x
  · rw [if_neg (h.isInline_iff.not.mpr (by simp)), hraw (by simp), h.rawPtr_eq]
    exact Safe.becomes (becomes_pointer h) (Safe.ret rfl)
  · rw [if_pos (h.isInline_iff.mpr rfl)]
    refine safe_withLocal k h ?_
    refine (computes_asStr (Views.of_own (c := c.strict) h List.mem_cons_self)).safe ?_
    refine safe_allocate.bind ?_
    rintro g _ ⟨-, rfl⟩
    refine Safe.becomes becomes_owner (Safe.ret ⟨_, List.Perm.swap _ _ _, rfl⟩)
  · rw [if_neg (h.isInline_iff.not.mpr (by simp)), hraw (by simp)]
    exact Safe.becomes (becomes_raw h) (Safe.ret rfl)

lemma computes_intoRawShared_shared (h : v.parts.Encodes ⟨s, .shared⟩) :
    Computes c (intoRawShared v) (.value c.party k v ⟨s, .shared⟩ :: own)
      (some ⟨v.parts.rawPtr, s.len⟩) (.raw c.party B ⟨v.parts.rawPtr, s.len⟩ s :: own) := by
  have hraw : v.intoRawPartsStruct.intoRawNonInline = ⟨v.parts.rawPtr, s.len⟩ := by
    rw [intoRawPartsStruct, RawParts.intoRawNonInline, h.decode_len (by simp)]
  rw [intoRawShared, if_pos (h.isShared_iff.mpr rfl), hraw]
  exact Safe.becomes (becomes_raw h) Computes.ret

/-- A part of a program that never fails and leaves the value for the end of its scope. -/
lemma computes_withLocal {body : Steps t α} {a : α} (k : WrapperKind) (h : v.parts.Encodes x)
    (hbody : Computes c.strict body (.value c.party k v x :: own) a
      (.value c.party k v x :: own)) :
    Computes c (withLocal (drop v) body) (.value c.party k v x :: own) a own := by
  refine safe_withLocal k h (hbody.mono ?_)
  rintro _ _ ⟨rfl, rfl⟩
  exact ⟨_, List.Perm.refl _, rfl, rfl⟩

lemma computes_intoRawShared (h : v.parts.Encodes x) (hx : x.origin.tag ≠ .shared) :
    Computes c (intoRawShared v) (.value c.party k v x :: own) none own := by
  rw [intoRawShared, if_neg (h.isShared_iff.not.mpr hx)]
  exact computes_withLocal k h Computes.ret

lemma computes_intoString (h : v.parts.Encodes x) :
    Computes c (intoString v) (.value c.party k v x :: own) x.str own :=
  computes_withLocal k h (computes_asStr (Views.of_own h List.mem_cons_self))

lemma computes_intoBoxedStr (h : v.parts.Encodes x) :
    Computes c (intoBoxedStr v) (.value c.party k v x :: own) x.str own :=
  computes_intoString h

lemma computes_intoBytes (h : v.parts.Encodes x) :
    Computes c (intoBytes v) (.value c.party k v x :: own) x.str.bytes own := by
  refine computes_withLocal k h ?_
  by_cases hx : x.origin.tag = .inline
  · rw [if_pos (h.isInline_iff.mpr hx)]
    obtain ⟨s, _ | _ | _⟩ := x
    · cases hx
    · exact computes_lift (readSelf_eq h)
    · cases hx
  · rw [if_neg (h.isInline_iff.not.mpr hx)]
    exact computes_readRaw h.len_eq ((Views.of_own h List.mem_cons_self).read hx)

lemma computes_borrowedStrUnchecked (h : Views c own v x) (hx : x.origin.tag ≠ .inline) :
    Computes c (borrowedStrUnchecked v) own ⟨v.parts.rawPtr, x.str⟩ own :=
  computes_derefRaw (h.encodes.decode_len hx) (h.read hx)

lemma computes_asCow (h : Views c own v x) : Computes c (asCow v) own x.cow own := by
  have hb : v.isBorrowed = true ↔ x.origin.tag = .borrowed := h.encodes.isBorrowed_iff
  have howned : x.origin.tag ≠ .borrowed → Computes c (asCow v) own (.owned x.str) own := by
    intro hx
    rw [asCow, if_neg (hb.not.mpr hx)]
    exact (computes_asStr h).map
  obtain ⟨s, ptr | _ | _⟩ := x
  · rw [asCow, if_pos (hb.mpr rfl)]
    have hborrowed := (computes_borrowedStrUnchecked h (by simp)).map (f := Cow.borrowed)
    rwa [h.encodes.rawPtr_eq] at hborrowed
  · exact howned (by simp)
  · exact howned (by simp)

/-- The debug assertion holds of a borrowed value, and nothing is dropped. -/
lemma computes_intoStrUnchecked {ptr : Usize t} (h : v.parts.Encodes ⟨s, .borrowed ptr⟩) :
    Computes c (intoStrUnchecked v) (.value c.party k v ⟨s, .borrowed ptr⟩ :: own) ⟨ptr, s⟩
      own := by
  have hassert : (debugAssert t v.isBorrowed
      "into_str_unchecked requires a borrowed value") = .ok () := by
    have hb : v.isBorrowed = true := h.isBorrowed_iff.mpr rfl
    rw [hb, debugAssert_true]
  have hview : Views c (.value c.party k v ⟨s, .borrowed ptr⟩ :: own) v ⟨s, .borrowed ptr⟩ :=
    Views.of_own h List.mem_cons_self
  have hread := computes_borrowedStrUnchecked hview (by simp)
  rw [h.rawPtr_eq] at hread
  have hchecked : Computes c (onUnwind (drop v) (liftM (debugAssert t v.isBorrowed
      "into_str_unchecked requires a borrowed value") : Steps t Unit))
      (.value c.party k v ⟨s, .borrowed ptr⟩ :: own) () _ := Safe.onFail (computes_lift hassert)
  have hnone : (Holding.value c.party k v ⟨s, .borrowed ptr⟩).owners = [] :=
    owners_eq_nil h (by simp)
  exact (hchecked.bind hread).becomes (becomes_nil hnone)

lemma computes_intoCow (h : v.parts.Encodes x) :
    Computes c (intoCow v) (.value c.party k v x :: own) x.cow own := by
  have hb : v.isBorrowed = true ↔ x.origin.tag = .borrowed := h.isBorrowed_iff
  have howned : x.origin.tag ≠ .borrowed →
      Computes c (intoCow v) (.value c.party k v x :: own) (.owned x.str) own := by
    intro hx
    rw [intoCow, if_neg (hb.not.mpr hx)]
    exact (computes_intoString h).map
  obtain ⟨s, ptr | _ | _⟩ := x
  · rw [intoCow, if_pos (hb.mpr rfl)]
    exact (computes_intoStrUnchecked h).map
  · exact howned (by simp)
  · exact howned (by simp)

end Value
end Stepwise
end RefStr
