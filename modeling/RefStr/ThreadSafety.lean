import RefStr.Shares

/-! Thread safety. Whatever the order in which threads make their accesses, no access is undefined
behaviour, every call comes to what the texts say, and the strong counts are balanced by what
the slots and the calls in progress hold. -/
namespace RefStr
open Interleaving ByteMemory Arch
variable {t : Target}

namespace Threads

/-- The invariant of a run with the calls that ended in it. Only calls that panicked lose
anything. -/
def Inv (th : Threads t) (log : List (Request t × Bool)) : Prop :=
  ∃ lost es crew, th.Shares (.ofLog log) lost es crew ∧
    ((∀ entry ∈ log, entry.2 = true) → lost = [])

lemma inv_initial (mem : Mem t.usizeBits) : (initial mem).Inv [] := by
  obtain ⟨hsound, hbalanced, -, -⟩ := Sys.inv_initial mem
  refine ⟨[], [], [], ⟨⟨⟨hsound, hbalanced, by simp, by simp⟩, by simp, by simp, by simp⟩,
    by simp, rfl, rfl, by simp, rfl, by simp, List.nodup_nil, List.nodup_nil⟩, fun _ => rfl⟩

/-- Every step of any thread keeps the invariant. -/
lemma Inv.step {th th' : Threads t} {log : List (Request t × Bool)}
    {label : Option (Request t × Bool)} (h : th.Inv log) (hstep : Step th label th') :
    th'.Inv (log ++ label.toList) := by
  obtain ⟨lost, es, crew, h, hlost⟩ := h
  have hsame : ∀ es' crew', th'.Shares (.ofLog log) lost es' crew' → label = none →
      th'.Inv (log ++ label.toList) := by
    rintro es' crew' h' rfl
    rw [Option.toList_none, List.append_nil]
    exact ⟨lost, es', crew', h', hlost⟩
  cases hstep with
  | environment mem hkeep => exact hsame _ _ (h.environment hkeep) rfl
  | send i thread hcell hsend hfree =>
    obtain ⟨es', h'⟩ := h.send hcell hsend hfree
    exact hsame _ _ h' rfl
  | start A thread hidle hstart =>
    cases hstart with
    | create hread =>
      obtain ⟨crew', h'⟩ := h.start_create hread hidle
      exact hsame _ _ h' rfl
    | copy hcell hmay hp =>
      obtain ⟨crew', h'⟩ := h.start_copy hcell hmay hp hidle
      exact hsame _ _ h' rfl
    | consume hcell hthread hfree hp =>
      obtain ⟨es', crew', h'⟩ := h.start_consume hcell hthread hfree hp hidle
      exact hsame _ _ h' rfl
    | observe hcell hmay hcell' hmay' hp =>
      obtain ⟨crew', h'⟩ := h.start_observe hcell hmay hcell' hmay' hp hidle
      exact hsame _ _ h' rfl
  | act htask hprogram hrun halive =>
    obtain ⟨crew', h'⟩ := h.act htask hprogram hrun halive
    exact hsame _ _ h' rfl
  | finish htask hprogram =>
    obtain ⟨es', crew', h'⟩ := h.finish htask hprogram
    refine ⟨lost, es', crew', ?_, fun hdone => hlost fun entry hentry => ?_⟩
    · rwa [Option.toList_some, Store.ofLog_append]
    · exact hdone entry (List.mem_append_left _ hentry)
  | panic htask hprogram =>
    obtain ⟨-, lost', crew', h'⟩ := h.panic htask hprogram
    refine ⟨lost', es, crew', ?_, fun hdone => ?_⟩
    · rwa [Option.toList_some, Store.ofLog_append]
    · cases hdone _ (List.mem_append_right _ List.mem_cons_self)

theorem Run.inv {log : List (Request t × Bool)} {th : Threads t} (h : Run log th) :
    th.Inv log := by
  induction h with
  | initial mem => exact inv_initial mem
  | step _ hstep ih => exact ih.step hstep

/-- The access can be made, or the allocator has no room for it. -/
def Proceeds (w : World t) (i : Action t) : Prop :=
  (∃ r w', i.handle w = .ok r w') ∨
    ∃ A B s, i = .allocate A B s ∧ A.pick w s.bytes.length = none

lemma proceeds_of_stops {w : World t} {i : Action t}
    (h : ∀ e w', i.handle w = .error e w' → e = .aborted) : Proceeds w i := by
  cases hi : i.handle w with
  | ok r w' => exact Or.inl ⟨r, w', hi⟩
  | error e w' =>
    obtain rfl := h e w' hi
    right
    cases i with
    | allocate A B s =>
      refine ⟨A, B, s, rfl, ?_⟩
      rw [Action.handle, Backend.allocate] at hi
      split at hi
      · cases hi
      · assumption
    | readByte x =>
      rw [Action.handle, Action.load] at hi
      split at hi <;> cases hi
    | incrementStrongCount B p =>
      rw [Action.handle, Backend.incrementStrongCount] at hi
      split at hi <;> cases hi
    | fromRaw B p =>
      rw [Action.handle, Backend.fromRaw] at hi
      split at hi <;> cases hi
    | dropShared B p =>
      rw [Action.handle, Backend.dropShared] at hi
      split at hi <;> cases hi

/-- What a call gives back, by the texts. -/
def Returns (w : World t) (store : Store t) : Request t → Result t → Prop
  | .create c, r => ∃ y, r = .inl y ∧ y.Holds w (some c.text)
  | .copy c i, r => ∃ y, r = .inl y ∧ y.Holds w ((store.get i).map c.text)
  | .consume c i, r => ∃ y, r = .inl y ∧ y.Holds w ((store.get i).bind c.text)
  | .observe c i j, r => ∃ x y, store.get i = some x ∧ store.get j = some y ∧
      r = .inr (c.reply x y)

namespace Shares
variable {th : Threads t} {store : Store t} {lost es : List (Holding t)}
  {crew : List (Task t × Job (accounting t) (Result t))} {n : ℕ} {task : Task t}

lemma proceeds (h : th.Shares store lost es crew) (htask : th.tasks[n]? = some task)
    {i : Action t} {next : i.Answer → Steps t (Result t)} (hprogram : task.program = .act i next) :
    Proceeds th.world i := by
  obtain ⟨job, hjob, hserves⟩ := h.exists_job htask
  have hstep := h.sound.act (getElem?_jobs hjob) (hserves.program.trans hprogram)
  refine proceeds_of_stops fun e w' hi => ?_
  have hi' : (machine t).handle i th.world = .error e w' := hi
  rw [hi'] at hstep
  exact hstep

lemma returns (h : th.Shares store lost es crew) (htask : th.tasks[n]? = some task) {r : Result t}
    (hprogram : task.program = .ret r) : Returns th.world store task.request r := by
  obtain ⟨job, hjob, hserves⟩ := h.exists_job htask
  obtain ⟨own, hpost, -, hsound⟩ := h.sound.finish (getElem?_jobs hjob)
    (hserves.program.trans hprogram)
  have hpost := hserves.post r own hpost
  have hholds : ∀ e ∈ own, e.slot.Holds th.world e.text := fun e he =>
    hsound.accounts.holds e (List.mem_append_left _ (List.mem_append_left _ he))
  obtain ⟨thread, request, refs, program⟩ := task
  cases request with
  | create c =>
    obtain ⟨y, rfl, rfl⟩ := hpost
    exact ⟨y, rfl, hholds _ List.mem_cons_self⟩
  | copy c i =>
    obtain ⟨y, rfl, rfl⟩ := hpost
    exact ⟨y, rfl, hholds _ List.mem_cons_self⟩
  | consume c i =>
    obtain ⟨y, rfl, rfl⟩ := hpost
    exact ⟨y, rfl, hholds _ List.mem_cons_self⟩
  | observe c i j =>
    obtain ⟨x, y, hx, hy, rfl, -⟩ := hpost
    exact ⟨x, y, hx, hy, rfl⟩

lemma holds (h : th.Shares store lost es crew) {i : ℕ} {cell : Cell t}
    (hcell : th.cells[i]? = some cell) (hi : i ∉ consumed th.tasks) :
    cell.slot.Holds th.world (store.get i) := by
  rw [h.cells, List.getElem?_map, Option.map_eq_some_iff] at hcell
  obtain ⟨e, he, rfl⟩ := hcell
  rw [← (h.text i e he).resolve_right hi]
  exact h.sound.accounts.holds e
    (List.mem_append_left _ (List.mem_append_right _ (List.mem_of_getElem? he)))

/-- Where no call is in progress and nothing was lost, the threads have come to a state that a
single thread could have come to as well. -/
lemma quiescent (h : th.Shares store [] es crew) (hidle : th.tasks = []) :
    Sys.Inv ⟨th.world, th.cells.map Cell.slot⟩ store := by
  have hcrew : crew = [] := by
    rw [h.tasks] at hidle
    exact List.map_eq_nil_iff.mp hidle
  have hslots : th.cells.map Cell.slot = es.map Holding.slot := by
    rw [h.cells, List.map_map]
    rfl
  have hacc : th.world.Accounts es := by
    have hacc := h.sound.accounts
    rw [hcrew] at hacc
    simpa using hacc
  refine ⟨hacc.sound, ?_, ?_, fun i slot hi => ?_⟩
  · rw [hslots, List.flatMap_map]
    exact hacc.balanced
  · rw [hslots, List.length_map, h.length_eq]
  · rw [List.getElem?_map, Option.map_eq_some_iff] at hi
    obtain ⟨cell, hcell, rfl⟩ := hi
    refine h.holds hcell ?_
    rw [hidle]
    exact List.not_mem_nil

end Shares

/-- Whatever the order in which threads make their accesses, no access is undefined behaviour, a
call fails only where it refuses a string that is too long, and what comes back is what the
texts say. Once all calls are over the counts are balanced, as after a run of one thread. -/
theorem thread_safety {log : List (Request t × Bool)} {th : Threads t} (h : Run log th) :
    (∀ task ∈ th.tasks, ∀ i next, task.program = .act i next → Proceeds th.world i) ∧
    (∀ task ∈ th.tasks, ∀ e, task.program = .fail e →
      e = .panic tooLarge ∧ task.request.Oversized (.ofLog log)) ∧
    (∀ task ∈ th.tasks, ∀ r, task.program = .ret r →
      Returns th.world (.ofLog log) task.request r) ∧
    (∀ i cell, th.cells[i]? = some cell → i ∉ consumed th.tasks →
      cell.slot.Holds th.world ((Store.ofLog log).get i)) ∧
    (th.tasks = [] → (∀ entry ∈ log, entry.2 = true) →
      Sys.Inv ⟨th.world, th.cells.map Cell.slot⟩
        (.ofEvents (log.filterMap fun entry => entry.1.event))) := by
  obtain ⟨lost, es, crew, h, hlost⟩ := h.inv
  refine ⟨fun task htask i next hi => ?_, fun task htask e he => ?_, fun task htask r hr => ?_,
    fun i cell hcell hi => h.holds hcell hi, fun hidle hdone => ?_⟩
  · obtain ⟨n, hn⟩ := List.mem_iff_getElem?.mp htask
    exact h.proceeds hn hi
  · obtain ⟨n, hn⟩ := List.mem_iff_getElem?.mp htask
    exact (h.panic hn he).1
  · obtain ⟨n, hn⟩ := List.mem_iff_getElem?.mp htask
    exact h.returns hn hr
  · obtain rfl := hlost hdone
    rw [← Store.ofLog_eq_ofEvents hdone]
    exact h.quiescent hidle

section Example
variable {log : List (Request t × Bool)} {th : Threads t}

/-- Nothing that is held or in progress refers to memory of the program. -/
def Detached (th : Threads t) : Prop :=
  (∀ cell ∈ th.cells, cell.slot.borrows = []) ∧ ∀ task ∈ th.tasks, task.refs = []

lemma Detached.borrowsAlive (h : th.Detached) (w : World t) :
    BorrowsAlive ⟨w, th.cells, th.tasks⟩ := by
  constructor
  · intro cell hcell p hp
    rw [h.1 cell hcell] at hp
    cases hp
  · intro task htask p hp
    rw [h.2 task htask] at hp
    cases hp

/-- A call may run to its end while the other threads wait. -/
lemma Run.solo {n : ℕ} {task : Task t} {r : Result t} {w : World t} (h : Run log th)
    (hdetached : th.Detached) (htask : th.tasks[n]? = some task)
    (hrun : task.program.run th.world = .ok r w) :
    Run log ⟨w, th.cells, th.tasks.set n { task with program := .ret r }⟩ := by
  obtain ⟨thread, request, refs, program⟩ := task
  have hlt := (List.getElem?_eq_some_iff.mp htask).1
  have hrefs : refs = [] := hdetached.2 _ (List.mem_of_getElem? htask)
  induction program generalizing th with
  | ret a =>
    obtain ⟨rfl, rfl⟩ := EStateM.Result.ok.inj hrun
    rwa [← (List.getElem?_eq_some_iff.mp htask).2, List.set_getElem_self]
  | fail e => cases hrun
  | act i next ih =>
    rw [Program.run_act] at hrun
    split at hrun
    · rename_i a w' hi
      have hact := h.step (.act htask rfl hi (hdetached.borrowsAlive w'))
      have hset : (th.tasks.set n ⟨thread, request, refs, next a⟩)[n]? =
          some ⟨thread, request, refs, next a⟩ := List.getElem?_set_self hlt
      rw [Option.toList_none, List.append_nil] at hact
      have hdone := ih a hact ⟨hdetached.1, ?_⟩ hset hrun
        (List.length_set.symm ▸ hlt)
      · rwa [List.set_set] at hdone
      · intro other hother
        obtain hother | rfl := List.mem_or_eq_of_mem_set hother
        · exact hdetached.2 other hother
        · exact hrefs
    · cases hrun

/-- A call that a thread makes while the others wait. -/
lemma Run.call {task : Task t} {cells : List (Cell t)} {r : Result t} {w : World t}
    (h : Run log th) (A : Allocator t) (thread : ℕ) (hidle : th.tasks = [])
    (hstart : Starts th A thread task cells)
    (hdetached : (⟨th.world, cells, [task]⟩ : Threads t).Detached)
    (hrun : task.program.run th.world = .ok r w) :
    Run (log ++ [(task.request, true)]) ⟨w, task.request.place cells task.thread r, []⟩ := by
  have hgo := h.step (.start A thread (by simp [hidle]) hstart)
  rw [Option.toList_none, List.append_nil, hidle] at hgo
  have hend : ([] ++ [task]).set 0 { task with program := .ret r } =
      [{ task with program := .ret r }] := rfl
  have hdone := hgo.solo (n := 0) hdetached rfl hrun
  rw [hend] at hdone
  have htask : [{ task with program := .ret r }][0]? = some { task with program := .ret r } := rfl
  exact hdone.step (.finish htask rfl)

/-- The call that gives up the handle of a slot. -/
def dropping (i : ℕ) (p : RawStr t) : Task t :=
  ⟨i, .consume .dropHandle i, [], do
    Stepwise.dropShared (⟨p⟩ : Shared t .sharedBackend)
    return .inl .gone⟩

/-- Two threads are about to give up the two owners of an allocation. -/
lemma exists_two_drops : ∃ (log : List (Request Target.x64LE × Bool)) (w : World .x64LE)
    (p : RawStr .x64LE), w.counts ⟨.sharedBackend, p⟩ = some 2 ∧
      Run log ⟨w, [⟨0, .gone⟩, ⟨1, .gone⟩], [dropping 0 p, dropping 1 p]⟩ := by
  let A : Allocator .x64LE := .firstFit [4096#64]
  have hpick : A.pick World.empty Str.twenty.bytes.length = some 4096#64 :=
    Allocator.firstFit_pick [] rfl fun _ _ => rfl
  have hmake := (Run.initial World.empty.mem).call A 0 rfl
    (.create (r := .handle .sharedBackend .twenty) trivial)
    ⟨by simp [initial], by simp [Creation.borrows, Creation.args]⟩
    (run_map (run_map (run_allocate hpick) _) _)
  have hclone := hmake.call A 0 rfl
    (.copy (r := .cloneHandle) (i := 0) rfl (Or.inl rfl) rfl)
    ⟨by simp [initial, Request.place, Slot.borrows], by simp [Slot.borrows]⟩
    (run_map (run_map (run_map rfl _) _) _)
  have hsend := hclone.step (.send 1 1 rfl rfl (by simp))
  have hfirst := hsend.step (.start A 0 (by simp)
    (.consume (r := .dropHandle) (i := 0) rfl rfl (by simp) rfl))
  have hsecond := hfirst.step (.start A 1 (by simp)
    (.consume (r := .dropHandle) (i := 1) rfl rfl (by simp [Request.looks]) rfl))
  exact ⟨_, _, ⟨4096#64, Str.twenty.len⟩, by decide, hsecond⟩

lemma handle_dropShared {w : World t} {p : RawStr t} {m : ℕ}
    (h : w.counts ⟨.sharedBackend, p⟩ = some m) :
    (Action.dropShared .sharedBackend p).handle w = .ok () (w.release p.ptr) := by
  simp only [Action.handle, Backend.dropShared, h]
  rfl

/-- One of two threads that give up the last owners of an allocation has done so. The other one
goes on, although there is only one owner left. -/
theorem thread_safety_drops : ∃ (th : Threads Target.x64LE) (p : RawStr .x64LE),
    th.tasks = [{ dropping 0 p with program := .ret (.inl .gone) }, dropping 1 p] ∧
      th.world.counts ⟨.sharedBackend, p⟩ = some 1 ∧
      Proceeds th.world (.dropShared .sharedBackend p) := by
  obtain ⟨log, w, p, hcounts, hrun⟩ := exists_two_drops
  have hcounted : w.counts ⟨.sharedBackend, p⟩ ≠ none := hcounts ▸ Option.some_ne_none _
  have hnext := hrun.step (.act (n := 0) rfl rfl (handle_dropShared hcounts)
    (by constructor <;> simp [dropping, Slot.borrows]))
  refine ⟨_, p, rfl, ?_, (thread_safety hnext).1 (dropping 1 p) ?_ _ _ rfl⟩
  · change (w.release p.ptr).counts ⟨.sharedBackend, p⟩ = some 1
    rw [World.counts_release hcounted, Ledger.release, Function.update_self, hcounts]
  · exact List.mem_cons_of_mem _ List.mem_cons_self

end Example
end Threads
end RefStr
