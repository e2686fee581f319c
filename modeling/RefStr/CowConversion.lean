import RefStr.Refinement
import RefStr.Promotion
import RefStr.Entries

/-! Conversion to a `Cow` and back. A `Cow` borrows exactly when the value does, from the slice
that was passed in when the value was first made. The round trip keeps the words of a value
that is not shared, and moves a shared string to where an owning entry point puts it. -/
namespace RefStr
open RefStrCore ByteMemory
variable {t : Target}

/-- The slice that a constructor is told to refer to. -/
def Creation.source : Creation t → Option (StrRef t)
  | .fromStr _ _ r => some r
  | .ofCow _ _ (.borrowed r) => some r
  | _ => none

section Source
variable {s : Str t} {ptr : Usize t} {x : Text t}

lemma Creation.source_eq {c : Creation t} (h : c.text = ⟨s, .borrowed ptr⟩) :
    c.source = some ⟨ptr, s⟩ := by
  have howned : ∀ r : Str t, Text.owned r ≠ ⟨s, .borrowed ptr⟩ := fun r hr =>
    Text.owned_tag_ne_borrowed r (congrArg (fun x => x.origin.tag) hr)
  cases c with
  | handle => cases h
  | fromStr k B r =>
    cases h
    rfl
  | fromOwnedLike => exact absurd h (howned _)
  | ofString => exact absurd h (howned _)
  | ofBoxedStr => exact absurd h (howned _)
  | ofCow k B c =>
    cases c with
    | borrowed r =>
      cases h
      rfl
    | owned => exact absurd h (howned _)

lemma Text.cow_eq_borrowed_iff {r : StrRef t} :
    x.cow = .borrowed r ↔ x = ⟨r.str, .borrowed r.ptr⟩ := by
  obtain ⟨s, ptr | _ | _⟩ := x <;> simp [Text.cow, StrRef.ext_iff, and_comm]

lemma Text.exists_cow_borrowed : (∃ r, x.cow = .borrowed r) ↔ x.origin.tag = .borrowed := by
  obtain ⟨s, ptr | _ | _⟩ := x <;> simp [Text.cow]

lemma Text.of_promote (h : x.promote = ⟨s, .borrowed ptr⟩) : x = ⟨s, .borrowed ptr⟩ :=
  absurd (congrArg (fun x => x.origin.tag) h) x.promote_tag_ne_borrowed

lemma Copying.of_text {c : Copying} (h : c.text x = ⟨s, .borrowed ptr⟩) :
    x = ⟨s, .borrowed ptr⟩ := by
  cases c with
  | toStaticStr => exact Text.of_promote h
  | _ => exact h

lemma Consuming.of_text {c : Consuming} (h : c.text x = some ⟨s, .borrowed ptr⟩) :
    x = ⟨s, .borrowed ptr⟩ := by
  cases c with
  | intoStaticStr => exact Text.of_promote (Option.some.inj h)
  | intoRaw =>
    obtain ⟨r, p | _ | _⟩ := x
    · exact Option.some.inj h
    · cases h
    · cases h
  | intoRawShared =>
    simp only [Consuming.text] at h
    split_ifs at h
    exact Option.some.inj h
  | fromShared | convert | rewrap | intoRawParts | fromRawParts | fromRaw => exact Option.some.inj h
  | _ => cases h

namespace Store
variable {store : Store t} {events : List (Event t)} {i : ℕ}

lemma get_append {y : Option (Text t)} (h : get (store ++ [y]) i = some x) :
    store.get i = some x ∨ y = some x := by
  simp only [get, Option.join_eq_some_iff] at h ⊢
  by_cases hi : i < store.length
  · rw [List.getElem?_append_left hi] at h
    exact Or.inl h
  · rw [List.getElem?_append_right (by omega), List.getElem?_singleton] at h
    split_ifs at h
    exact Or.inr (Option.some.inj h)

lemma get_set {j : ℕ} {y : Option (Text t)} (h : get (store.set j y) i = some x) :
    store.get i = some x ∨ y = some x := by
  simp only [get, Option.join_eq_some_iff] at h ⊢
  by_cases hij : j = i
  · subst hij
    rw [List.getElem?_set_self'] at h
    cases hj : store[j]? with
    | none =>
      rw [hj] at h
      cases h
    | some z =>
      rw [hj] at h
      exact Or.inr (Option.some.inj h)
  · rw [List.getElem?_set_ne hij] at h
    exact Or.inl h

/-- An operation hands on what is borrowed already, or it is given the slice. -/
lemma of_apply {event : Event t} (h : (store.apply event).get i = some ⟨s, .borrowed ptr⟩) :
    (∃ j, store.get j = some ⟨s, .borrowed ptr⟩) ∨
      ∃ c, event = .create c ∧ c.source = some ⟨ptr, s⟩ := by
  cases event with
  | environment mem => exact Or.inl ⟨i, h⟩
  | create c =>
    obtain h | h := get_append h
    · exact Or.inl ⟨i, h⟩
    · exact Or.inr ⟨c, rfl, Creation.source_eq (Option.some.inj h)⟩
  | copy c j =>
    obtain h | h := get_append h
    · exact Or.inl ⟨i, h⟩
    · obtain ⟨x, hx, htext⟩ := Option.map_eq_some_iff.mp h
      obtain rfl := Copying.of_text htext
      exact Or.inl ⟨j, hx⟩
  | consume c j =>
    obtain h | h := get_set h
    · exact Or.inl ⟨i, h⟩
    · obtain ⟨x, hx, htext⟩ := Option.bind_eq_some_iff.mp h
      obtain rfl := Consuming.of_text htext
      exact Or.inl ⟨j, hx⟩

/-- Whatever a run holds borrowed is a slice that a constructor of the run was given. -/
theorem exists_source (h : (ofEvents events).get i = some ⟨s, .borrowed ptr⟩) :
    ∃ c, .create c ∈ events ∧ c.source = some ⟨ptr, s⟩ := by
  induction events using List.reverseRecOn generalizing i with
  | nil => cases h
  | append_singleton events event ih =>
    rw [ofEvents_append] at h
    obtain ⟨j, hj⟩ | ⟨c, rfl, hc⟩ := of_apply h
    · obtain ⟨c, hmem, hc⟩ := ih hj
      exact ⟨c, List.mem_append_left _ hmem, hc⟩
    · exact ⟨c, List.mem_append_right _ List.mem_cons_self, hc⟩

end Store
end Source

namespace Wrapper
variable {k : WrapperKind} {B : Backend} {A : Allocator t} {w w₁ w' : World t}
  {v u : Wrapper t k B} {x : Text t} {s : Str t}

/-- What has to come back as `u` from the `Cow` of `v`, taken in `w` and leaving `w₁`. -/
structure CameBack (w : World t) (v : Wrapper t k B) (w₁ : World t) (u : Wrapper t k B)
    (w' : World t) : Prop where
  content : ∃ s, v.asStr w = .ok s w ∧ u.asStr w' = .ok s w'
  borrowed : u.isBorrowed = v.isBorrowed
  words : v.isShared = false → u.intoRawParts = v.intoRawParts ∧ w' = w
  short : v.isShared = true → v.len.toNat ≤ t.inlineCapacity → u.isInline = true ∧ w' = w₁
  long : v.isShared = true → t.inlineCapacity < v.len.toNat → u.isShared = true ∧
    u.intoRawParts.metaWord = v.intoRawParts.metaWord ∧
    w₁.Vacant u.intoRawParts.rawPtr v.len.toNat ∧
    w'.heap u.intoRawParts.rawPtr = some ⟨B, v.len, 1⟩
  settled : u.isShared = true → t.inlineCapacity < u.len.toNat
  equal : (v.isShared = true → 1 < w.strongCount v.intoRawParts.rawPtr) →
    v.eq u w' = .ok true w'

/-- No short string comes back shared, so nothing changes once more. -/
lemma CameBack.again {w'' : World t} {u' : Wrapper t k B} (h : CameBack w v w₁ u w')
    {w₂ : World t} (h' : CameBack w' u w₂ u' w'') :
    u'.intoRawParts.metaWord = u.intoRawParts.metaWord := by
  cases hu : u.isShared with
  | true => exact (h'.long hu (h.settled hu)).2.1
  | false => rw [(h'.words hu).1]

lemma cameBack_self (h : v.inner.Represents w x) (hx : x.origin.tag ≠ .shared) :
    CameBack w v w v w := by
  have hno : ¬ v.isShared = true := h.encodes.isShared_iff.not.mpr hx
  exact ⟨⟨x.str, h.run_asStr, h.run_asStr⟩, rfl, fun _ => ⟨rfl, rfl⟩, fun h => absurd h hno,
    fun h => absurd h hno, fun h => absurd h hno, fun _ => h.run_eq_true h rfl⟩

lemma exists_cameBack_shared (h : v.inner.Represents w ⟨s, .shared⟩)
    (hroom : t.inlineCapacity < s.bytes.length →
      (A.pick (v.inner.afterDrop w) s.bytes.length).isSome) :
    ∃ (u : Wrapper t k B) (w' : World t), ofCow A (.owned s) (v.inner.afterDrop w) = .ok u w' ∧
      u.inner.Represents w' (.owned s) ∧ CameBack w v (v.inner.afterDrop w) u w' := by
  have hs := h.encodes.compressible (by simp)
  have hshared : v.isShared = true := h.encodes.isShared_iff.mpr rfl
  have hborrowed : v.isBorrowed = false := h.encodes.isBorrowed_eq
  have hlen : v.len = s.len := h.encodes.len_eq
  have hlength : v.len.toNat = s.bytes.length := h.len_toNat
  obtain ⟨p, hp⟩ := exists_encodes hs
  obtain ⟨u, w', hrun, hu⟩ := exists_stored (B := B) (k := k) hp hs hroom
  have hrep := (Represents.of_fromOwnedLike hrun).2
  refine ⟨⟨u⟩, w', run_ofCow_ok hrun, hrep, ⟨s, h.run_asStr, hu.content⟩,
    hu.notBorrowed.trans hborrowed.symm, fun hno => ?_, fun _ hle => ?_, fun _ hlt => ?_,
    fun hush => ?_, fun hmany => ?_⟩
  · rw [hshared] at hno
    cases hno
  · rw [hlength] at hle
    exact ⟨hu.inline_iff.mpr hle, (hu.short hle).2⟩
  · rw [hlength] at hlt
    obtain ⟨hush, hfree, hone⟩ := hu.long hlt
    rw [Text.owned_of_not_le s (not_le.mpr hlt)] at hp
    exact ⟨hush, hu.metaWord.trans (hp.metaWord_congr h.encodes rfl rfl),
      hlength ▸ hfree, hlen ▸ hone⟩
  · have hulen : u.len.toNat = s.bytes.length := hrep.len_toNat
    by_contra hle
    have hle' : s.bytes.length ≤ t.inlineCapacity := not_lt.mp (hulen ▸ hle)
    rw [Text.owned_of_le s hle'] at hrep
    have htag := hrep.encodes.isShared_iff.mp hush
    cases htag
  · -- Another owner is left, so the text of `v` can still be read.
    have hkept : v.inner.Represents (v.inner.afterDrop w) ⟨s, .shared⟩ := by
      rw [h.afterDrop_shared]
      exact h.of_handle (h.handle.release_self (hmany hshared))
    exact (hkept.keep_fromOwnedLike hrun).run_eq_true hrep rfl

lemma exists_cameBack (h : v.inner.Represents w x)
    (hroom : v.isShared = true → t.inlineCapacity < v.len.toNat →
      (A.pick (v.inner.afterDrop w) v.len.toNat).isSome) :
    ∃ (u : Wrapper t k B) (w' : World t) (y : Text t),
      ofCow A x.cow (v.inner.afterDrop w) = .ok u w' ∧ u.inner.Represents w' y ∧
        CameBack w v (v.inner.afterDrop w) u w' := by
  obtain ⟨s, ptr | _ | _⟩ := x
  · have hs := h.encodes.compressible (by simp)
    have hself := cameBack_self h (by simp)
    have hwords : v.inner = ⟨.ofStr ptr .borrowed s hs⟩ := by
      cases hv : v.inner
      rw [hv] at h
      cases h
      rfl
    rw [h.afterDrop_eq (by simp)]
    refine ⟨v, w, _, ?_, h, hself⟩
    refine ((run_ofCow_borrowed ⟨ptr, s⟩ w).trans (dif_pos hs)).trans ?_
    rw [← hwords]
  · have hshort := h.encodes.length_le rfl
    have hp := h.encodes
    rw [← Text.owned_of_le s hshort] at hp
    obtain ⟨u, w', hrun, hu⟩ := exists_stored (A := A) (B := B) (k := k) (w := w) hp
      (Str.compressible_of_le hshort) fun hlt => absurd hshort (not_le.mpr hlt)
    obtain ⟨hwords, rfl⟩ := hu.short hshort
    obtain rfl : u = v.inner := congrArg RefStrCore.mk hwords
    rw [h.afterDrop_eq (by simp)]
    exact ⟨v, w', _, run_ofCow_ok hrun, h, cameBack_self h (by simp)⟩
  · have hshared : v.isShared = true := h.encodes.isShared_iff.mpr rfl
    have hlength : v.len.toNat = s.bytes.length := h.len_toNat
    rw [hlength] at hroom
    obtain ⟨u, w', hrun, hu, hback⟩ := exists_cameBack_shared h (hroom hshared)
    exact ⟨u, w', _, hrun, hu, hback⟩

end Wrapper

namespace Sys
variable {sys : Sys t} {events : List (Event t)} {i : ℕ} {k : WrapperKind} {B : Backend}

/-- The slice was given to the run, and it depends on nothing that the value keeps or counts. -/
structure Lends (events : List (Event t)) (sys : Sys t) (i : ℕ) (v : Wrapper t k B)
    (r : StrRef t) : Prop where
  given : ∃ c, .create c ∈ events ∧ c.source = some r
  text : (Store.ofEvents events).get i = some ⟨r.str, .borrowed r.ptr⟩
  notInline : v.isInline = false
  owners : v.inner.owners = []
  drop : v.drop sys.world = .ok () sys.world

lemma lends_of_get {v : Wrapper t k B} {s : Str t} {ptr : Usize t}
    (hget : (Store.ofEvents events).get i = some ⟨s, .borrowed ptr⟩)
    (h : v.inner.Represents sys.world ⟨s, .borrowed ptr⟩) : Lends events sys i v ⟨ptr, s⟩ := by
  have hdrop := h.run_drop
  rw [h.afterDrop_eq (by simp)] at hdrop
  exact ⟨Store.exists_source hget, hget, h.encodes.isInline_eq, h.owners_eq_nil (by simp), hdrop⟩

/-- Both projections of a value of a run select the same `Cow`, which borrows exactly when the
value does. What comes back from it equals the value, and comes back again as it is. -/
theorem cow_round_trip (hrun : Run events sys) {v : Wrapper t k B}
    (hv : sys.slots[i]? = some (.value k B v)) :
    ∃ s c w, v.asStr sys.world = .ok s sys.world ∧ v.asCow sys.world = .ok c sys.world ∧
      v.intoCow sys.world = .ok c w ∧ c.str = s ∧
      ((∃ r, c = .borrowed r) ↔ v.isBorrowed = true) ∧
      (∀ r, c = .borrowed r → Lends events sys i v r ∧ w = sys.world) ∧
      ∀ A : Allocator t, (v.isShared = true → t.inlineCapacity < v.len.toNat →
          (A.pick w v.len.toNat).isSome) →
        ∃ u w', Wrapper.ofCow A c w = .ok u w' ∧ v.CameBack sys.world w u w' ∧
          ∃ c' w₁, u.intoCow w' = .ok c' w₁ ∧
            ∀ A' : Allocator t, (u.isShared = true → t.inlineCapacity < u.len.toNat →
                (A'.pick w₁ u.len.toNat).isSome) →
              ∃ u' w'', Wrapper.ofCow A' c' w₁ = .ok u' w'' ∧ u.CameBack w' w₁ u' w'' ∧
                u'.intoRawParts.metaWord = u.intoRawParts.metaWord ∧
                u'.intoRawParts.tag = u.intoRawParts.tag := by
  obtain ⟨x, hget, h⟩ := hrun.inv.represents hv
  have hb : v.isBorrowed = true ↔ x.origin.tag = .borrowed := h.encodes.isBorrowed_iff
  refine ⟨x.str, x.cow, _, h.run_asStr, Wrapper.run_asCow h, h.run_intoCow, x.cow_str, ?_, ?_,
    fun A hroom => ?_⟩
  · exact Text.exists_cow_borrowed.trans hb.symm
  · intro r hr
    obtain rfl := Text.cow_eq_borrowed_iff.mp hr
    exact ⟨lends_of_get hget h, h.afterDrop_eq (by simp) _⟩
  · obtain ⟨u, w', y, hof, hu, hback⟩ := Wrapper.exists_cameBack h hroom
    refine ⟨u, w', hof, hback, y.cow, _, hu.run_intoCow, fun A' hroom' => ?_⟩
    obtain ⟨u', w'', z, hof', -, hback'⟩ := Wrapper.exists_cameBack hu hroom'
    have hmeta := hback.again hback'
    exact ⟨u', w'', hof', hback', hmeta, congrArg Arch.fromMeta hmeta⟩

/-- A value that borrows from a live handle has a `Cow` that points into its allocation. -/
theorem cow_points_into_allocation : ¬ ∀ (events : List (Event Target.x64LE))
    (sys : Sys Target.x64LE), Run events sys →
      ∀ (i : ℕ) (k : WrapperKind) (B : Backend) (v : Wrapper Target.x64LE k B) (r : StrRef _),
        sys.slots[i]? = some (.value k B v) → v.asCow sys.world = .ok (.borrowed r) sys.world →
          ∀ p a, sys.world.heap p = some a → ¬ Within p a.len.toNat r.ptr := by
  let w : World Target.x64LE := World.twenty.allocate .localBackend 8192#64 .twenty
  have hread : read w.mem 8192#64 Str.twenty.bytes.length = some Str.twenty.bytes :=
    (Handle.allocate World.twenty .localBackend 8192#64 .twenty).read
  have hv : (⟨.ofStr 8192#64 .borrowed .twenty Str.twenty_compressible⟩ :
      RefStrCore .x64LE .sharedBackend).Represents w ⟨.twenty, .borrowed 8192#64⟩ :=
    .borrowed Str.twenty_compressible hread
  have hrun := ((Run.initial World.twenty.mem).handle (B := .localBackend)
    World.pick_twenty).fromStr (k := .lifetimeKind) (B := .sharedBackend)
      Str.twenty_compressible hread
  have hwithin : Within 8192#64 Str.twenty.len.toNat 8192#64 := by decide
  intro h
  exact h _ _ hrun 1 .lifetimeKind .sharedBackend ⟨_⟩ ⟨8192#64, .twenty⟩ rfl
    (Wrapper.run_asCow (k := .lifetimeKind) hv) 8192#64 _ rfl hwithin

/-- Twenty letters, shared by one value only, come back in an allocation of their own. -/
theorem cow_round_trip_letters : ∃ (sys : Sys Target.x64LE)
    (v : Wrapper Target.x64LE .staticKind .localBackend) (A : Allocator Target.x64LE),
    sys.slots = [.value _ _ v] ∧ v.isShared = true ∧
      ∃ c w w', ∃ u : Wrapper _ .staticKind .localBackend,
        v.intoCow sys.world = .ok c w ∧ w.heap v.inner.parts.rawPtr = none ∧
        Wrapper.ofCow A c w = .ok u w' ∧ u.isShared = true ∧
        u.intoRawParts.metaWord = v.intoRawParts.metaWord := by
  let v : Wrapper Target.x64LE .staticKind .localBackend := ⟨.sharedTwenty .localBackend⟩
  have hv : v.inner.Represents _ _ := sharedTwenty_represents .localBackend World.empty
  have hshared : v.isShared = true := hv.encodes.isShared_eq
  have hlong : Target.x64LE.inlineCapacity < v.len.toNat := by
    rw [Wrapper.len, hv.len_toNat]
    decide
  obtain ⟨s, c, w, -, -, hinto, -, -, -, hback⟩ := cow_round_trip (i := 0) (v := v)
    (Run.sharedTwenty .staticKind .localBackend) rfl
  obtain rfl := (EStateM.Result.ok.inj (hinto.symm.trans hv.run_intoCow)).2
  rw [hv.afterDrop_shared] at hinto hback
  have hroom : ((Allocator.firstFit (t := .x64LE) [4096#64]).pick
      (((World.empty : World .x64LE).allocate .localBackend 8192#64 .twenty).release 8192#64)
      Str.twenty.bytes.length).isSome := by
    rfl
  rw [← hv.len_toNat] at hroom
  obtain ⟨u, w', hof, hu, -⟩ := hback _ fun _ _ => hroom
  refine ⟨_, v, _, rfl, hshared, c, _, w', u, hinto, ?_, hof, (hu.long hshared hlong).1,
    (hu.long hshared hlong).2.1⟩
  rfl

end Sys
end RefStr
