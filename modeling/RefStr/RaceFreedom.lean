import RefStr.ThreadSafety

/-! Data races. Counts of `Arc` allocations are changed atomically and allocators order what they
do among themselves; everything else is an ordinary access. Two accesses race when both could be
made next, by different threads, to one place, and one of them writes and one is ordinary. -/
namespace RefStr
open Interleaving ByteMemory Arch
variable {t : Target}

/-- What an access can be to. -/
inductive Place (t : Target)
  | byte (x : Usize t)
  | count (ptr : Usize t)

def World.Live (w : World t) : Place t → Prop
  | .byte x => w.mem x ≠ none
  | .count ptr => w.heap ptr ≠ none

namespace Action

/-- The places that an access is to, with whether it writes and whether it is ordered with others
of its kind. The last owner of an allocation destroys it. -/
inductive Touches (w : World t) : Action t → Place t → Bool → Bool → Prop
  | readByte (x : Usize t) : Touches w (.readByte x) (.byte x) false false
  | incrementStrongCount (B : Backend) (p : RawStr t) :
      Touches w (.incrementStrongCount B p) (.count p.ptr) true (B == .sharedBackend)
  | dropShared (B : Backend) (p : RawStr t) :
      Touches w (.dropShared B p) (.count p.ptr) true (B == .sharedBackend)
  | destroy {B : Backend} {p : RawStr t} (hlast : w.counts ⟨B, p⟩ = some 1) :
      Touches w (.dropShared B p) (.count p.ptr) true false
  | free {B : Backend} {p : RawStr t} {x : Usize t} (hlast : w.counts ⟨B, p⟩ = some 1)
      (hx : Within p.ptr p.len.toNat x) : Touches w (.dropShared B p) (.byte x) true false
  | allocate {A : Allocator t} {B : Backend} {s : Str t} {ptr : Usize t}
      (hpick : A.pick w s.bytes.length = some ptr) :
      Touches w (.allocate A B s) (.count ptr) true true
  | fill {A : Allocator t} {B : Backend} {s : Str t} {ptr x : Usize t}
      (hpick : A.pick w s.bytes.length = some ptr) (hx : Within ptr s.bytes.length x) :
      Touches w (.allocate A B s) (.byte x) true true

def Races (w : World t) (i j : Action t) : Prop :=
  ∃ place writes writes' ordered ordered', Touches w i place writes ordered ∧
    Touches w j place writes' ordered' ∧ (writes || writes') = true ∧
      (ordered && ordered') = false

/-- What an access relies on in memory. -/
def Needs (i : Action t) (w : World t) : Prop :=
  match i with
  | .readByte x => w.mem x ≠ none
  | .incrementStrongCount B p | .fromRaw B p | .dropShared B p => w.counts ⟨B, p⟩ ≠ none
  | .allocate _ _ _ => True

def isAllocate : Action t → Bool
  | .allocate _ _ _ => true
  | _ => false

/-- The access is to the strong count of the owner. -/
def Counts (i : Action t) (o : Owner t) : Prop :=
  i = .incrementStrongCount o.backend o.raw ∨ i = .dropShared o.backend o.raw

/-- The access takes the place away. -/
def Destroys (w : World t) (i : Action t) (place : Place t) : Prop :=
  ∃ B p, i = .dropShared B p ∧ ¬ (w.release p.ptr).Live place

section Touching
variable {w w' : World t} {i j : Action t} {place : Place t} {writes ordered : Bool}

lemma needs_of_ok {r : i.Answer} (h : i.handle w = .ok r w') : i.Needs w := by
  cases i with
  | readByte x =>
    rw [handle, load] at h
    split at h
    · exact Option.ne_none_iff_exists'.mpr ⟨_, by assumption⟩
    · cases h
  | incrementStrongCount B p =>
    rw [handle, Backend.incrementStrongCount] at h
    split at h
    · exact Option.ne_none_iff_exists'.mpr ⟨_, by assumption⟩
    · cases h
  | fromRaw B p =>
    rw [handle, Backend.fromRaw] at h
    split at h
    · exact Option.ne_none_iff_exists'.mpr ⟨_, by assumption⟩
    · cases h
  | dropShared B p =>
    rw [handle, Backend.dropShared] at h
    split at h
    · exact Option.ne_none_iff_exists'.mpr ⟨_, by assumption⟩
    · cases h
  | allocate A B s => trivial

lemma needs_of_proceeds (h : Threads.Proceeds w i) : i.Needs w := by
  obtain ⟨r, w', hr⟩ | ⟨A, B, s, rfl, -⟩ := h
  · exact needs_of_ok hr
  · trivial

lemma heap_ne_none {o : Owner t} (h : w.counts o ≠ none) : w.heap o.raw.ptr ≠ none := by
  obtain ⟨a, ha, -⟩ := World.counts_ne_none_iff.mp h
  exact ha ▸ Option.some_ne_none a

/-- An access that makes no allocation is to places that are there. -/
lemma Touches.live (h : Touches w i place writes ordered) (hi : i.isAllocate = false)
    (hsound : w'.Sound) (hneeds : i.Needs w') : w'.Live place := by
  cases h with
  | readByte x => exact hneeds
  | incrementStrongCount B p => exact heap_ne_none hneeds
  | dropShared B p => exact heap_ne_none hneeds
  | destroy hlast => exact heap_ne_none hneeds
  | @free B p x hlast hx =>
    obtain ⟨a, ha, -, hlen⟩ := World.counts_ne_none_iff.mp hneeds
    have hmapped := hsound.mapped _ _ ha x (hlen ▸ hx)
    exact Option.isSome_iff_ne_none.mp hmapped
  | allocate hpick => cases hi
  | fill hpick hx => cases hi

/-- An allocation is made where nothing is. -/
lemma Touches.fresh (h : Touches w i place writes ordered) (hi : i.isAllocate = true) :
    ordered = true ∧ ¬ w.Live place := by
  cases h with
  | allocate hpick => exact ⟨rfl, fun hlive => hlive (Allocator.fresh _ hpick).1⟩
  | fill hpick hx => exact ⟨rfl, fun hlive => hlive ((Allocator.fresh _ hpick).2 _ hx)⟩
  | _ => cases hi

lemma not_live_release {B : Backend} {p : RawStr t} (h : w.counts ⟨B, p⟩ = some 1) :
    ¬ (w.release p.ptr).Live (.count p.ptr) ∧
      ∀ x, Within p.ptr p.len.toNat x → ¬ (w.release p.ptr).Live (.byte x) := by
  obtain ⟨a, ha, hB, hlen⟩ := World.counts_ne_none_iff.mp (h ▸ Option.some_ne_none 1)
  rw [World.counts_eq_some ha hB hlen] at h
  have hlast : a.strong ≤ 1 := (Option.some.inj h).le
  constructor
  · intro hlive
    apply hlive
    rw [World.heap_release ha, if_pos hlast, Function.update_self]
  · intro x hx hlive
    apply hlive
    rw [World.mem_release ha, if_pos hlast, unmap, if_pos (hlen ▸ hx)]

/-- An access that makes no allocation reads a byte, changes a count or takes the place away. -/
lemma Touches.cases (h : Touches w i place writes ordered) (hi : i.isAllocate = false) :
    (writes = false ∧ ∃ x, place = .byte x) ∨ Destroys w i place ∨
      ∃ o : Owner t, i.Counts o ∧ place = .count o.raw.ptr ∧
        ordered = (o.backend == .sharedBackend) := by
  cases h with
  | readByte x => exact Or.inl ⟨rfl, x, rfl⟩
  | incrementStrongCount B p => exact Or.inr (Or.inr ⟨⟨B, p⟩, Or.inl rfl, rfl, rfl⟩)
  | dropShared B p => exact Or.inr (Or.inr ⟨⟨B, p⟩, Or.inr rfl, rfl, rfl⟩)
  | destroy hlast => exact Or.inr (Or.inl ⟨_, _, rfl, (not_live_release hlast).1⟩)
  | free hlast hx => exact Or.inr (Or.inl ⟨_, _, rfl, (not_live_release hlast).2 _ hx⟩)
  | allocate hpick => cases hi
  | fill hpick hx => cases hi

lemma Counts.counted {o : Owner t} (hi : i.Counts o) (h : i.Needs w) : w.counts o ≠ none := by
  obtain rfl | rfl := hi <;> exact h

/-- An access to a count changes it. -/
lemma Counts.changes {o : Owner t} {r : i.Answer} (hi : i.Counts o) (h : i.handle w = .ok r w') :
    w'.counts o ≠ w.counts o := by
  have hcounted := hi.counted (needs_of_ok h)
  obtain ⟨n, hn⟩ := Option.ne_none_iff_exists'.mp hcounted
  obtain rfl | rfl := hi
  · have hw : w' = w.retain o.raw.ptr := by
      rw [handle, Backend.incrementStrongCount, hn] at h
      exact (EStateM.Result.ok.inj h).2.symm
    rw [hw, World.counts_retain hcounted, Ledger.retain, Function.update_self, hn]
    simp
  · have hw : w' = w.release o.raw.ptr := by
      rw [handle, Backend.dropShared, hn] at h
      exact (EStateM.Result.ok.inj h).2.symm
    rw [hw, World.counts_release hcounted, Ledger.release, Function.update_self, hn]
    rcases n with _ | _ | n <;> simp

end Touching
end Action

/-- An allocation has one kind of owner. -/
lemma World.eq_of_counted {w : World t} {o o' : Owner t} (h : w.counts o ≠ none)
    (h' : w.counts o' ≠ none) (hptr : o.raw.ptr = o'.raw.ptr) : o = o' := by
  obtain ⟨a, ha, hB, hlen⟩ := counts_ne_none_iff.mp h
  obtain ⟨b, hb, hB', hlen'⟩ := counts_ne_none_iff.mp h'
  obtain ⟨B, ⟨ptr, len⟩⟩ := o
  obtain ⟨B', ⟨ptr', len'⟩⟩ := o'
  obtain rfl : ptr = ptr' := hptr
  obtain rfl := Option.some.inj (ha.symm.trans hb)
  obtain rfl : a.backend = B := hB
  obtain rfl : a.backend = B' := hB'
  obtain rfl : a.len = len := hlen
  obtain rfl : a.len = len' := hlen'
  rfl

/-- A local count is changed by the thread that all its owners belong to. -/
lemma World.Accounts.thread_of_changed {w w' : World t} {xs ys rest : List (Holding t)}
    {thread : ℕ} {o : Owner t} (h : w.Accounts (xs ++ rest)) (h' : w'.Accounts (ys ++ rest))
    (hxs : ∀ e ∈ xs, e.thread = thread) (hys : ∀ e ∈ ys, e.thread = thread)
    (hlocal : o.backend = .localBackend) (hne : w'.counts o ≠ w.counts o) :
    ∀ e ∈ xs ++ rest, o ∈ e.owners → e.thread = thread := by
  have hmem : (∃ d ∈ xs, o ∈ d.owners) ∨ ∃ d ∈ ys, o ∈ d.owners := by
    by_contra hnone
    rw [not_or, ← List.mem_flatMap, ← List.mem_flatMap] at hnone
    apply hne
    rw [h.balanced o, h'.balanced o, Ledger.tally, Ledger.tally]
    simp only [List.flatMap_append, List.mem_append, List.count_append, hnone.1, hnone.2,
      List.count_eq_zero_of_not_mem hnone.1, List.count_eq_zero_of_not_mem hnone.2]
  intro e he ho
  obtain ⟨d, hd, hdo⟩ | ⟨d, hd, hdo⟩ := hmem
  · rw [← hxs d hd]
    exact h.confined e he d (List.mem_append_left _ hd) o ho hdo hlocal
  · obtain he | he := List.mem_append.mp he
    · exact hxs e he
    · rw [← hys d hd]
      exact h'.confined e (List.mem_append_right _ he) d (List.mem_append_left _ hd) o ho hdo
        hlocal

namespace Threads

/-- The call in progress can make this access next. -/
inductive Acts (th : Threads t) (n : ℕ) (i : Action t) : Threads t → Prop
  | act {task : Task t} {next : i.Answer → Steps t (Result t)} {r : i.Answer} {w : World t}
      (htask : th.tasks[n]? = some task) (hprogram : task.program = .act i next)
      (hrun : i.handle th.world = .ok r w) (halive : BorrowsAlive ⟨w, th.cells, th.tasks⟩) :
      Acts th n i ⟨w, th.cells, th.tasks.set n { task with program := next r }⟩

variable {log : List (Request t × Bool)} {th th₁ th₂ : Threads t} {n m : ℕ} {i j : Action t}

lemma Acts.step (h : Acts th n i th₁) : Step th none th₁ := by
  cases h with
  | act htask hprogram hrun halive => exact .act htask hprogram hrun halive

lemma Run.acts (h : Run log th) (hi : Acts th n i th₁) : Run log th₁ := by
  have hstep := h.step hi.step
  rwa [Option.toList_none, List.append_nil] at hstep

lemma Acts.needs (h : Acts th n i th₁) : i.Needs th.world := by
  cases h with
  | act htask hprogram hrun halive => exact Action.needs_of_ok hrun

lemma Run.sound (h : Run log th) : th.world.Sound := by
  obtain ⟨lost, es, crew, h, -⟩ := h.inv
  exact h.sound.accounts.sound

/-- Whatever another call does first, an access that can be made can still be made. -/
lemma Run.needs_after (h : Run log th) (hne : n ≠ m) (hi : Acts th n i th₁)
    (hj : Acts th m j th₂) : j.Needs th₁.world := by
  have hrun := h.acts hi
  cases hj with
  | @act task next r w htask hprogram hj halive =>
    have htask' : th₁.tasks[m]? = some task := by
      cases hi with
      | act => rw [List.getElem?_set_ne hne, htask]
    obtain ⟨lost, es, crew, h, -⟩ := hrun.inv
    exact Action.needs_of_proceeds (h.proceeds htask' hprogram)

/-- The thread of a call that is about to change a local count owns all of it. -/
lemma Shares.thread_of_counts {store : Store t} {lost es : List (Holding t)}
    {crew : List (Task t × Job (accounting t) (Result t))} (h : th.Shares store lost es crew)
    (hi : Acts th n i th₁) {o : Owner t} (hcounts : i.Counts o)
    (hlocal : o.backend = .localBackend) : ∃ task, th.tasks[n]? = some task ∧
      ∀ e ∈ lost ++ es ++ (crew.map Prod.snd).flatMap Job.own, o ∈ e.owners →
        e.thread = task.thread := by
  cases hi with
  | @act task next r w htask hprogram hrun halive =>
    refine ⟨task, htask, ?_⟩
    obtain ⟨job, hjob, hserves⟩ := h.exists_job htask
    have hjob := getElem?_jobs hjob
    have hlt := (List.getElem?_eq_some_iff.mp hjob).1
    have hact := h.sound.act hjob (hserves.program.trans hprogram)
    have hrun' : (machine t).handle i th.world = .ok r w := hrun
    rw [hrun'] at hact
    obtain ⟨own', hsound⟩ := hact (h.alive halive)
    have hxs : ∀ e ∈ job.own, e.thread = task.thread := fun e he =>
      hserves.party ▸ (h.sound.admits job (List.mem_of_getElem? hjob) e he).1
    have hys : ∀ e ∈ own', e.thread = task.thread := fun e he =>
      hserves.party ▸ (hsound.admits _ (List.mem_set hlt _) e he).1
    -- What is held before and after differs in what the call itself holds.
    have hbefore := World.Accounts.perm h.sound.accounts (Sound.perm_own hjob)
    have hafter := World.Accounts.perm hsound.accounts
      (Sound.perm_set hlt { job with program := next r, own := own' }).symm
    intro e he
    exact hbefore.thread_of_changed hafter hxs hys hlocal (hcounts.changes hrun) e
      ((Sound.perm_own hjob).mem_iff.mp he)

/-- Only one call at a time can come to change a local count. -/
lemma Shares.eq_of_counts {store : Store t} {lost es : List (Holding t)}
    {crew : List (Task t × Job (accounting t) (Result t))} (h : th.Shares store lost es crew)
    (hi : Acts th n i th₁) (hj : Acts th m j th₂) {o : Owner t} (hcounts : i.Counts o)
    (hcounts' : j.Counts o) (hlocal : o.backend = .localBackend) : n = m := by
  obtain ⟨task, htask, hthread⟩ := h.thread_of_counts hi hcounts hlocal
  obtain ⟨task', htask', hthread'⟩ := h.thread_of_counts hj hcounts' hlocal
  obtain ⟨e, he, ho⟩ := h.sound.accounts.exists_owner (hcounts.counted hi.needs)
  have hbusy : (busy th.tasks)[n]? = (busy th.tasks)[m]? := by
    rw [busy, List.filterMap_eq_map', List.getElem?_map, List.getElem?_map, htask, htask',
      Option.map_some, Option.map_some, ← hthread e he ho, ← hthread' e he ho]
  refine (List.getElem?_inj ?_ h.threads).mp hbusy
  rw [busy, List.filterMap_eq_map', List.length_map]
  exact (List.getElem?_eq_some_iff.mp htask).1

lemma Acts.world_of_drop {B : Backend} {p : RawStr t} (h : Acts th n (.dropShared B p) th₁) :
    th₁.world = th.world.release p.ptr := by
  cases h with
  | act htask hprogram hrun halive =>
    rw [Action.handle, Backend.dropShared] at hrun
    split at hrun
    · exact (EStateM.Result.ok.inj hrun).2.symm
    · cases hrun

/-- What a call takes away is not what another call is about to touch. -/
lemma Run.not_destroys (h : Run log th) (hne : n ≠ m) (hi : Acts th n i th₁)
    (hj : Acts th m j th₂) (hmakes : j.isAllocate = false) {place : Place t}
    {writes ordered : Bool} (htouch : j.Touches th.world place writes ordered) :
    ¬ i.Destroys th.world place := by
  rintro ⟨B, p, rfl, hgone⟩
  rw [← hi.world_of_drop] at hgone
  exact hgone (htouch.live hmakes (h.acts hi).sound (h.needs_after hne hi hj))

/-- A byte that a call is about to read is one that the program has to keep. -/
lemma Run.protected_of_read (h : Run log th) {x : Usize t} (hi : Acts th n (.readByte x) th₁) :
    th.Protected x := by
  by_contra hx
  cases hi with
  | act htask hprogram hrun halive =>
    have hfree := h.step (.environment (Function.update th.world.mem x none) ?_)
    · obtain ⟨lost, es, crew, h, -⟩ := hfree.inv
      exact Action.needs_of_proceeds (h.proceeds htask hprogram) (Function.update_self _ _ _)
    · rintro y hy
      refine Function.update_of_ne ?_ _ _
      rintro rfl
      exact hx hy

/-- No two threads ever race: in no interleaving can two calls be about to make accesses that are
not ordered, one of them a write, to one strong count or one byte. A call reads only memory that
the program keeps as it is. -/
theorem race_free (h : Run log th) (hi : Acts th n i th₁) :
    (∀ m j th₂, n ≠ m → Acts th m j th₂ → ¬ Action.Races th.world i j) ∧
    ∀ x, i = .readByte x → th.Protected x := by
  refine ⟨?_, fun x hx => ?_⟩
  · rintro m j th₂ hne hj ⟨place, writes, writes', ordered, ordered', hti, htj, hwrites, hordered⟩
    cases hmi : i.isAllocate <;> cases hmj : j.isAllocate
    · obtain ⟨rfl, x, rfl⟩ | hdestroys | ⟨o, ho, rfl, rfl⟩ := hti.cases hmi
      · obtain ⟨rfl, -⟩ | hdestroys | ⟨o, -, hplace, -⟩ := htj.cases hmj
        · cases hwrites
        · exact h.not_destroys hne.symm hj hi hmi hti hdestroys
        · cases hplace
      · exact h.not_destroys hne hi hj hmj htj hdestroys
      · obtain ⟨-, x, hplace⟩ | hdestroys | ⟨o', ho', hplace, rfl⟩ := htj.cases hmj
        · cases hplace
        · exact h.not_destroys hne.symm hj hi hmi hti hdestroys
        · obtain ⟨lost, es, crew, hshares, -⟩ := h.inv
          have ho_eq : o = o' := World.eq_of_counted (ho.counted hi.needs) (ho'.counted hj.needs)
            (Place.count.inj hplace)
          subst ho_eq
          refine hne (hshares.eq_of_counts hi hj ho ho' ?_)
          cases hB : o.backend with
          | localBackend => rfl
          | sharedBackend =>
            rw [hB] at hordered
            cases hordered
    · obtain ⟨-, hfresh⟩ := htj.fresh hmj
      exact hfresh (hti.live hmi h.sound hi.needs)
    · obtain ⟨-, hfresh⟩ := hti.fresh hmi
      exact hfresh (htj.live hmj h.sound hj.needs)
    · obtain ⟨rfl, -⟩ := hti.fresh hmi
      obtain ⟨rfl, -⟩ := htj.fresh hmj
      cases hordered
  · subst hx
    exact h.protected_of_read hi

/-- Two threads are about to give up the two owners of an allocation. -/
theorem race_free_drops : ∃ (th th₁ th₂ : Threads Target.x64LE) (p : RawStr .x64LE),
    Acts th 0 (.dropShared .sharedBackend p) th₁ ∧ Acts th 1 (.dropShared .sharedBackend p) th₂ ∧
      ¬ Action.Races th.world (.dropShared .sharedBackend p) (.dropShared .sharedBackend p) := by
  obtain ⟨log, w, p, hcounts, hrun⟩ := exists_two_drops
  let th : Threads .x64LE := ⟨w, [⟨0, .gone⟩, ⟨1, .gone⟩], [dropping 0 p, dropping 1 p]⟩
  have halive : BorrowsAlive ⟨w.release p.ptr, th.cells, th.tasks⟩ := by
    constructor <;> simp [th, dropping, Slot.borrows]
  have hfirst : Acts th 0 _ _ := .act rfl rfl (handle_dropShared hcounts) halive
  have hsecond : Acts th 1 _ _ := .act rfl rfl (handle_dropShared hcounts) halive
  exact ⟨_, _, _, p, hfirst, hsecond, (race_free hrun hfirst).1 1 _ _ (by decide) hsecond⟩

end Threads

end RefStr
