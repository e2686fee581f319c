import RefStr.Progress

/-! The entry points. Whatever a value is made from, with `From`, through a closure or by a
visitor, the argument comes to a `Cow` and the value is the one made from that `Cow`. So all
that take ownership agree, and all that borrow keep the slice. -/
namespace RefStr.Wrapper
open Arch
variable {t : Target} {k : WrapperKind} {B : Backend} {A : Allocator t}
  {m : Exec t (Wrapper t k B)} {w₀ w w' : World t} {c : Cow t} {s : Str t} {v : StrRef t}

/-- Run from `w₀`, the computation calls the closures that it is given, which leaves `w`, and
then it makes a value of the `Cow`. -/
inductive Makes (A : Allocator t) : {k : WrapperKind} → Exec t (Wrapper t k B) →
    World t → Cow t → World t → Prop
  | fromOwnedLike {k : WrapperKind} {w : World t} (s : Str t) :
      Makes A (fromOwnedLike A s : Exec t (Wrapper t k B)) w (.owned s) w
  | ofString {k : WrapperKind} {w : World t} (s : Str t) :
      Makes A (ofString A s : Exec t (Wrapper t k B)) w (.owned s) w
  | ofBoxedStr {k : WrapperKind} {w : World t} (s : Str t) :
      Makes A (ofBoxedStr A s : Exec t (Wrapper t k B)) w (.owned s) w
  | ofCow {k : WrapperKind} {w : World t} (c : Cow t) :
      Makes A (ofCow A c : Exec t (Wrapper t k B)) w c w
  | ofStr {k : WrapperKind} {w : World t} (v : StrRef t) :
      Makes A ((ofStr v : Except Fault (Wrapper t k B)) : Exec t (Wrapper t k B)) w
        (.borrowed v) w
  | ofStringRef {w : World t} (v : StrRef t) :
      Makes A ((ofStringRef v : Except Fault (Wrapper t .lifetimeKind B)) :
        Exec t (Wrapper t .lifetimeKind B)) w (.borrowed v) w
  | ofFn {k : WrapperKind} {R : Type} {into : R → Exec t (Wrapper t k B)}
      {f : Unit → Exec t R} {r : R} {w₀ w₁ w : World t} {c : Cow t}
      (hf : f () w₀ = .ok r w₁) (h : Makes A (into r) w₁ c w) :
      Makes A (ofFn into f) w₀ c w
  /-- A closure that returns what another entry point made. -/
  | ofFn_self {k : WrapperKind} {f : Unit → Exec t (Wrapper t k B)}
      {m : Exec t (Wrapper t k B)} {w₀ w₁ w : World t} {c : Cow t}
      (hf : f () w₀ = m w₁) (h : Makes A m w₁ c w) : Makes A (ofFn pure f) w₀ c w

/-- The same of a visitor, and of a deserializer once it hands a string to the visitor. -/
inductive Visits (A : Allocator t) {ε : Type} : {k : WrapperKind} →
    Exec t (Except ε (Wrapper t k B)) → World t → Cow t → World t → Prop
  | visitBorrowedStr {w : World t} (v : StrRef t) :
      Visits A ((visitor A ε : Visitor t ε (Wrapper t .lifetimeKind B)).visitBorrowedStr v) w
        (.borrowed v) w
  | visitBorrowedStr_static {w : World t} (v : StrRef t) :
      Visits A ((visitor A ε : Visitor t ε (Wrapper t .staticKind B)).visitBorrowedStr v) w
        (.owned v.str) w
  | visitStr {k : WrapperKind} {w : World t} (v : StrRef t) :
      Visits A ((visitor A ε : Visitor t ε (Wrapper t k B)).visitStr v) w (.owned v.str) w
  | visitString {k : WrapperKind} {w : World t} (s : Str t) :
      Visits A ((visitor A ε : Visitor t ε (Wrapper t k B)).visitString s) w (.owned s) w
  | deserialize {k : WrapperKind} {m : Exec t (Except ε (Wrapper t k B))}
      {d : Visitor t ε (Wrapper t k B) → Exec t (Except ε (Wrapper t k B))}
      {w₀ w₁ w : World t} {c : Cow t} (hd : d (visitor A ε) w₀ = m w₁)
      (h : Visits A m w₁ c w) : Visits A (deserialize A d) w₀ c w

section Cow

lemma run_ofCow_owned (s : Str t) (w : World t) :
    (ofCow A (.owned s) : Exec t (Wrapper t k B)) w = fromOwnedLike A s w := by
  cases k <;> rfl

lemma run_ofCow_borrowed (v : StrRef t) (w : World t) :
    (ofCow A (.borrowed v) : Exec t (Wrapper t k B)) w =
      if h : v.str.Compressible then .ok ⟨⟨.ofStr v.ptr .borrowed v.str h⟩⟩ w
      else .error (.panic tooLarge) w := by
  have hcore := RefStrCore.fromStr_eq (B := B) v
  have hwrapper := Wrapper.fromStr_eq (k := k) (B := B) v
  by_cases h : v.str.Compressible
  · rw [dif_pos h] at hcore hwrapper ⊢
    cases k with
    | lifetimeKind => exact run_bind (run_lift hcore) _
    | staticKind => exact run_lift hwrapper
  · rw [dif_neg h] at hcore hwrapper ⊢
    cases k with
    | lifetimeKind => exact run_bind_error (run_lift_error hcore) _
    | staticKind => exact run_lift_error hwrapper

lemma run_ofStr (v : StrRef t) (w : World t) :
    ((ofStr v : Except Fault (Wrapper t k B)) : Exec t (Wrapper t k B)) w =
      ofCow A (.borrowed v) w := by
  have hwrapper := Wrapper.fromStr_eq (k := k) (B := B) v
  rw [run_ofCow_borrowed]
  by_cases h : v.str.Compressible
  · rw [dif_pos h] at hwrapper ⊢
    exact run_lift hwrapper
  · rw [dif_neg h] at hwrapper ⊢
    exact run_lift_error hwrapper

end Cow

/-- Every entry point is the conversion from a `Cow`, once its argument has come to one. -/
lemma Makes.run_eq (h : Makes A m w₀ c w) : m w₀ = Wrapper.ofCow A c w := by
  induction h with
  | fromOwnedLike s => exact (run_ofCow_owned s _).symm
  | ofString s => exact (run_ofCow_owned s _).symm
  | ofBoxedStr s => exact (run_ofCow_owned s _).symm
  | ofCow c => rfl
  | ofStr v => exact run_ofStr v _
  | ofStringRef v => exact run_ofStr v _
  | ofFn hf _ ih => exact (run_bind hf _).trans ih
  | ofFn_self hf _ ih =>
    rw [Wrapper.ofFn, bind_pure]
    exact hf.trans ih

lemma Visits.run_eq {ε : Type} {m : Exec t (Except ε (Wrapper t k B))}
    (h : Visits A m w₀ c w) :
    m w₀ = (do return .ok (← Wrapper.ofCow A c) : Exec t (Except ε (Wrapper t k B))) w := by
  induction h with
  | visitBorrowedStr v => exact run_bind_congr (run_ofStr v _) _
  | visitBorrowedStr_static v => exact run_bind_congr (run_ofCow_owned v.str _).symm _
  | visitStr v => exact run_bind_congr (run_ofCow_owned v.str _).symm _
  | visitString s => exact run_bind_congr (run_ofCow_owned s _).symm _
  | deserialize hd _ ih => exact hd.trans ih

/-- What `u` has to be to own the string, when payloads of the string look like `p`. -/
structure Stored (s : Str t) (p : RawParts t) (w : World t) (u : Wrapper t k B) (w' : World t) :
    Prop where
  content : u.asStr w' = .ok s w'
  metaWord : u.intoRawParts.metaWord = p.metaWord
  notBorrowed : u.isBorrowed = false
  inline_iff : u.isInline = true ↔ s.bytes.length ≤ t.inlineCapacity
  short : s.bytes.length ≤ t.inlineCapacity → u.intoRawParts = p ∧ w' = w
  long : t.inlineCapacity < s.bytes.length → u.isShared = true ∧
    w.Vacant u.intoRawParts.rawPtr s.bytes.length ∧
    w'.heap u.intoRawParts.rawPtr = some ⟨B, s.len, 1⟩

/-- What `u` has to be to refer to the slice. -/
structure Borrows (v : StrRef t) (u : Wrapper t k B) : Prop where
  isBorrowed : u.isBorrowed = true
  rawPtr : u.intoRawParts.rawPtr = v.ptr
  len : u.len = v.str.len

lemma exists_encodes (hs : s.Compressible) : ∃ p : RawParts t, p.Encodes (.owned s) := by
  by_cases hshort : s.bytes.length ≤ t.inlineCapacity
  · obtain ⟨p, hp, -⟩ := RawParts.packInline_bytes hshort
    rw [Text.owned_of_le s hshort]
    exact ⟨p, .inline hshort hp⟩
  · rw [Text.owned_of_not_le s hshort]
    exact ⟨.ofStr 0#_ .shared s hs, .shared _ s hs⟩

lemma run_ofCow_ok {u : RefStrCore t B} (h : RefStrCore.fromOwnedLike A s w = .ok u w') :
    ofCow A (.owned s) w = .ok (⟨u⟩ : Wrapper t k B) w' :=
  (run_ofCow_owned s w).trans (run_map h _)

lemma exists_stored {p : RawParts t} (hp : p.Encodes (.owned s)) (hs : s.Compressible)
    (hroom : t.inlineCapacity < s.bytes.length → (A.pick w s.bytes.length).isSome) :
    ∃ (u : RefStrCore t B) (w' : World t), RefStrCore.fromOwnedLike A s w = .ok u w' ∧
      Stored s p w (⟨u⟩ : Wrapper t k B) w' := by
  obtain ⟨u, w', hrun, hshort, hlong⟩ :=
    RefStrCore.Represents.exists_fromOwnedLike (B := B) hs hroom
  have hu := (RefStrCore.Represents.of_fromOwnedLike hrun).2
  have henc := hu.encodes
  refine ⟨u, w', hrun, hu.run_asStr, henc.metaWord_congr hp rfl rfl, ?_, ?_, fun hle => ?_,
    fun hlt => ?_⟩
  · exact henc.isBorrowed_eq.trans (decide_eq_false (Text.owned_tag_ne_borrowed s))
  · refine henc.isInline_iff.trans ⟨fun htag => ?_, fun hle => ?_⟩
    · by_contra hle
      rw [Text.owned_of_not_le s hle] at htag
      cases htag
    · rw [Text.owned_of_le s hle]
      rfl
  · rw [Text.owned_of_le s hle] at hp henc
    exact ⟨Except.ok.inj (henc.packInline_eq.symm.trans hp.packInline_eq), hshort hle⟩
  · rw [← not_le] at hlt
    rw [Text.owned_of_not_le s hlt] at henc
    obtain ⟨hptr, rfl⟩ := hlong hlt
    exact ⟨henc.isShared_eq, A.fresh hptr, Function.update_self _ _ _⟩

lemma borrows_ofStr (h : v.str.Compressible) :
    Borrows v (⟨⟨.ofStr v.ptr .borrowed v.str h⟩⟩ : Wrapper t k B) := by
  have henc := RawParts.Encodes.borrowed v.ptr v.str h
  exact ⟨henc.isBorrowed_eq, rfl, henc.len_eq⟩

/-- All entry points agree: from a string that they own, they make one payload, inline exactly
when the string is short enough; from a slice, they make a value that refers to it. -/
theorem entry_points_agree (hs : s.Compressible) :
    (∃ p : RawParts t, ∀ (k : WrapperKind) (B : Backend) (A : Allocator t) (w₀ w : World t),
      (t.inlineCapacity < s.bytes.length → (A.pick w s.bytes.length).isSome) →
        (∀ m : Exec t (Wrapper t k B), Makes A m w₀ (.owned s) w →
          ∃ u w', m w₀ = .ok u w' ∧ Stored s p w u w') ∧
        ∀ (ε : Type) (m : Exec t (Except ε (Wrapper t k B))), Visits A m w₀ (.owned s) w →
          ∃ u w', m w₀ = .ok (.ok u) w' ∧ Stored s p w u w') ∧
    ∀ (v : StrRef t) (k : WrapperKind) (B : Backend) (A : Allocator t) (w₀ w : World t),
      (∀ m : Exec t (Wrapper t k B), Makes A m w₀ (.borrowed v) w →
        (v.str.Compressible → ∃ u, m w₀ = .ok u w ∧ Borrows v u) ∧
        (¬ v.str.Compressible → m w₀ = .error (.panic tooLarge) w)) ∧
      ∀ (ε : Type) (m : Exec t (Except ε (Wrapper t k B))), Visits A m w₀ (.borrowed v) w →
        (v.str.Compressible → ∃ u, m w₀ = .ok (.ok u) w ∧ Borrows v u) ∧
        (¬ v.str.Compressible → m w₀ = .error (.panic tooLarge) w) := by
  obtain ⟨p, hp⟩ := exists_encodes hs
  refine ⟨⟨p, fun k B A w₀ w hroom => ⟨fun m hm => ?_, fun ε m hm => ?_⟩⟩,
    fun v k B A w₀ w => ⟨fun m hm => ?_, fun ε m hm => ?_⟩⟩
  · obtain ⟨u, w', hrun, hu⟩ := exists_stored hp hs hroom
    exact ⟨⟨u⟩, w', hm.run_eq.trans (run_ofCow_ok hrun), hu⟩
  · obtain ⟨u, w', hrun, hu⟩ := exists_stored hp hs hroom
    exact ⟨⟨u⟩, w', hm.run_eq.trans (run_map (run_ofCow_ok hrun) _), hu⟩
  · have hrun := hm.run_eq.trans (run_ofCow_borrowed v w)
    exact ⟨fun h => ⟨_, hrun.trans (dif_pos h), borrows_ofStr h⟩, fun h => hrun.trans (dif_neg h)⟩
  · have hrun := run_ofCow_borrowed (k := k) (B := B) (A := A) v w
    refine ⟨fun h => ⟨_, hm.run_eq.trans (run_map (hrun.trans (dif_pos h)) _), borrows_ofStr h⟩,
      fun h => hm.run_eq.trans (run_bind_error (hrun.trans (dif_neg h)) _)⟩

/-- Twenty letters, from a closure that returns a closure, and from the visitor of a `'static`
wrapper that is handed a borrowed string. -/
theorem entry_points_agree_letters : ∃ (A : Allocator Target.x64LE)
    (u : Wrapper .x64LE .lifetimeKind .localBackend)
    (v : Wrapper .x64LE .staticKind .sharedBackend) (w w' : World .x64LE),
    ofFn (ofFn (ofString A)) (fun _ => pure fun _ => pure .twenty) World.twenty = .ok u w ∧
      (visitor A Unit).visitBorrowedStr ⟨4096#64, .twenty⟩ World.twenty = .ok (.ok v) w' ∧
      u.isShared = true ∧ v.isShared = true ∧
      u.intoRawParts.metaWord = v.intoRawParts.metaWord := by
  have hroom := congrArg Option.isSome World.pick_twenty
  have hfn (A : Allocator .x64LE) : Makes A (ofFn (ofFn (ofString A))
      (fun _ => pure fun _ => pure .twenty) : Exec _ (Wrapper _ .lifetimeKind .localBackend))
      World.twenty (.owned .twenty) World.twenty :=
    .ofFn rfl (.ofFn rfl (.ofString .twenty))
  obtain ⟨⟨p, hp⟩, -⟩ := entry_points_agree Str.twenty_compressible
  obtain ⟨u, w, hu, hu'⟩ := (hp _ _ _ _ _ fun _ => hroom).1 _ (hfn _)
  obtain ⟨v, w', hv, hv'⟩ := (hp .staticKind .sharedBackend _ _ _ fun _ => hroom).2 Unit _
    (.visitBorrowedStr_static (⟨4096#64, .twenty⟩ : StrRef .x64LE))
  have hlong : Target.x64LE.inlineCapacity < Str.twenty.bytes.length := by decide
  exact ⟨_, u, v, w, w', hu, hv, (hu'.long hlong).1, (hv'.long hlong).1,
    hu'.metaWord.trans hv'.metaWord.symm⟩

end RefStr.Wrapper
