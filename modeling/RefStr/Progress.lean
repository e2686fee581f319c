import RefStr.Invariant

/-! Runs that exist. With an allocator that has room, constructions of strings that are not
too long succeed from every reachable state. -/
namespace RefStr
open ByteMemory RefStrCore
variable {t : Target}

def World.isFree (w : World t) (n : ℕ) (ptr : Usize t) : Bool :=
  (w.heap ptr).isNone && (List.range n).all fun i => (w.mem (ptr + BitVec.ofNat _ i)).isNone

lemma World.isFree_iff {w : World t} {n : ℕ} {ptr : Usize t} :
    w.isFree n ptr = true ↔ w.heap ptr = none ∧ Fresh w.mem ptr n := by
  simp only [isFree, Bool.and_eq_true, Option.isNone_iff_eq_none, List.all_eq_true,
    List.mem_range, Fresh]
  refine and_congr_right fun _ => ⟨fun h x hx => ?_, fun h i hi => h _ (within_offset ptr hi)⟩
  obtain ⟨i, hi, rfl⟩ := exists_offset hx
  exact h i hi

/-- Takes the first of some addresses that is free. -/
def Allocator.firstFit (addresses : List (Usize t)) : Allocator t where
  pick w n := addresses.find? (w.isFree n)
  fresh h := World.isFree_iff.mp (List.find?_some h)

lemma Allocator.firstFit_pick {w : World t} {n : ℕ} {ptr : Usize t} (ptrs : List (Usize t))
    (hheap : w.heap ptr = none) (hf : Fresh w.mem ptr n) :
    (firstFit (ptr :: ptrs)).pick w n = some ptr :=
  List.find?_cons_of_pos (World.isFree_iff.mpr ⟨hheap, hf⟩)

lemma validUtf8_letters (n : ℕ) : ValidUtf8 (List.replicate n 97) := by
  refine ⟨List.replicate n 'a', ?_⟩
  rw [List.utf8Encode]
  congr 1
  induction n with
  | zero => rfl
  | succ n ih =>
    rw [List.replicate_succ, List.replicate_succ, List.flatMap_cons, ← ih]
    rfl

def Str.letters (n : ℕ) (h : n ≤ t.isizeMax) : Str t :=
  ⟨List.replicate n 97, validUtf8_letters n, by rwa [List.length_replicate]⟩

@[simp] lemma Str.letters_length (n : ℕ) (h : n ≤ t.isizeMax) :
    (Str.letters n h).bytes.length = n := List.length_replicate

namespace Sys.Run
variable {events : List (Event t)} {sys : Sys t} {A : Allocator t} {B : Backend}
  {k : WrapperKind} {s : Str t} {ptr : Usize t}

/-- Borrowed sources stay alive when nothing is unmapped. -/
lemma borrowsAlive_append (h : Run events sys) {w : World t} {y : Slot t} {x : Option (Text t)}
    (hmem : Extends sys.world.mem w.mem) (hy : y.Holds w x) :
    BorrowsAlive ⟨w, sys.slots ++ [y]⟩ := by
  intro slot hslot p hp
  rcases List.mem_append.mp hslot with hslot | hslot
  · exact hmem.mapped (h.inv.borrowsAlive slot hslot p hp)
  · obtain rfl := List.mem_singleton.mp hslot
    exact hy.mapped p hp

lemma create (h : Run events sys) {c : Creation t} {y : Slot t} {w : World t}
    (hread : c.Readable sys.world) (hrun : c.run A sys.world = .ok y w)
    (hmem : Extends sys.world.mem w.mem) :
    Run (events ++ [.create c]) ⟨w, sys.slots ++ [y]⟩ :=
  h.step (.create hread hrun
    (h.borrowsAlive_append hmem ((Creation.run_outcome hread).result hrun).holds))

lemma handle (h : Run events sys) (hptr : A.pick sys.world s.bytes.length = some ptr) :
    Run (events ++ [.create (.handle B s)])
      ⟨sys.world.allocate B ptr s, sys.slots ++ [.handle B ⟨⟨ptr, s.len⟩⟩]⟩ :=
  h.create (c := .handle B s) trivial (run_map (run_allocate hptr) _)
    (World.extends_allocate (A.fresh hptr).2)

lemma fromStr (h : Run events sys) (hs : s.Compressible)
    (hread : read sys.world.mem ptr s.bytes.length = some s.bytes) :
    Run (events ++ [.create (.fromStr k B ⟨ptr, s⟩)])
      ⟨sys.world, sys.slots ++ [.value k B ⟨⟨.ofStr ptr .borrowed s hs⟩⟩]⟩ := by
  have hrun : Wrapper.fromStr ⟨ptr, s⟩ = .ok (⟨⟨.ofStr ptr .borrowed s hs⟩⟩ : Wrapper t k B) :=
    (Wrapper.fromStr_eq _).trans (dif_pos hs)
  exact h.create (A := .firstFit []) (c := .fromStr k B ⟨ptr, s⟩) hread
    (run_map (run_lift hrun) _) fun _ _ h => h

lemma fromOwnedLike (h : Run events sys) (hs : s.Compressible)
    (hlong : ¬ s.bytes.length ≤ t.inlineCapacity)
    (hptr : A.pick sys.world s.bytes.length = some ptr) :
    Run (events ++ [.create (.fromOwnedLike k B s)])
      ⟨sys.world.allocate B ptr s,
        sys.slots ++ [.value k B ⟨⟨.ofStr ptr .shared s hs⟩⟩]⟩ := by
  have hrun := run_fromOwnedLike_shared (B := B) hlong hptr
  rw [dif_pos hs] at hrun
  exact h.create (c := .fromOwnedLike k B s) trivial
    (run_map (run_map hrun _) _)
    (World.extends_allocate (A.fresh hptr).2)

lemma clone (h : Run events sys) {i : ℕ} {v : Wrapper t k B}
    (hv : sys.slots[i]? = some (.value k B v)) :
    Run (events ++ [.copy .clone i])
      ⟨v.inner.afterClone sys.world, sys.slots ++ [.value k B v]⟩ := by
  obtain ⟨x, -, hx⟩ := h.inv.represents hv
  have hrun : v.clone sys.world = .ok v (v.inner.afterClone sys.world) :=
    run_map hx.run_clone _
  have hmem : Extends sys.world.mem (v.inner.afterClone sys.world).mem := by
    rw [mem_afterClone]
    exact fun _ _ h => h
  exact h.step (.copy (A := .firstFit []) (c := .clone) hv rfl
    (run_map hrun _) (h.borrowsAlive_append hmem (.value hx.afterClone)))

end Sys.Run

section Letters

/-- Twenty letters, too many to be kept inline. -/
def Str.twenty : Str Target.x64LE := .letters 20 (by decide)

lemma Str.twenty_compressible : Str.twenty.Compressible := by decide

def World.empty : World t := ⟨fun _ => none, fun _ => none⟩

/-- The letters lie in the memory of the program. -/
def World.twenty : World Target.x64LE :=
  ⟨write (fun _ => none) 4096#64 Str.twenty.bytes, fun _ => none⟩

lemma World.read_twenty :
    read World.twenty.mem 4096#64 Str.twenty.bytes.length = some Str.twenty.bytes :=
  read_write (by decide)

lemma World.pick_twenty : (Allocator.firstFit (t := .x64LE) [8192#64]).pick World.twenty
    Str.twenty.bytes.length = some 8192#64 := by rfl

variable (k : WrapperKind) (B : Backend)

/-- A value that is borrowed from the program. -/
def RefStrCore.borrowedTwenty : RefStrCore .x64LE B :=
  ⟨.ofStr 4096#64 .borrowed .twenty Str.twenty_compressible⟩

lemma RefStrCore.borrowedTwenty_represents :
    (borrowedTwenty B).Represents World.twenty ⟨.twenty, .borrowed 4096#64⟩ :=
  .borrowed Str.twenty_compressible World.read_twenty

/-- A value that owns a copy. -/
def RefStrCore.sharedTwenty : RefStrCore .x64LE B :=
  ⟨.ofStr 8192#64 .shared .twenty Str.twenty_compressible⟩

lemma RefStrCore.sharedTwenty_represents (w : World .x64LE) :
    (sharedTwenty B).Represents (w.allocate B 8192#64 .twenty) ⟨.twenty, .shared⟩ :=
  .shared Str.twenty_compressible (Handle.allocate w B _ _)

lemma Sys.Run.borrowedTwenty :
    Run [.create (.fromStr k B (⟨4096#64, .twenty⟩ : StrRef .x64LE))]
      ⟨World.twenty, [.value k B ⟨.borrowedTwenty B⟩]⟩ :=
  (Run.initial World.twenty.mem).fromStr Str.twenty_compressible World.read_twenty

lemma Sys.Run.sharedTwenty :
    Run [.create (.fromOwnedLike k B .twenty)]
      ⟨World.empty.allocate B 8192#64 .twenty, [.value k B ⟨.sharedTwenty B⟩]⟩ :=
  (Run.initial World.empty.mem).fromOwnedLike Str.twenty_compressible (by decide)
    (Allocator.firstFit_pick [] rfl fun _ _ => rfl)

end Letters
end RefStr
