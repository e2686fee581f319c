import RefStr.Requests

/-! The state of the threads, divided among those who hold something: calls that panicked, the
slots, and the calls in progress. Every step of a thread keeps the division. -/
namespace RefStr
open Interleaving ByteMemory Arch
variable {t : Target}

namespace Threads

/-- The slots whose contents were moved into calls in progress. -/
def consumed (tasks : List (Task t)) : List ℕ := tasks.filterMap Task.consumes

lemma filterMap_set {α β : Type} {f : α → Option β} {l : List α} {n : ℕ} {a b : α}
    (ha : l[n]? = some a) (hf : f b = f a) : (l.set n b).filterMap f = l.filterMap f := by
  induction l generalizing n with
  | nil => rfl
  | cons c l ih =>
    cases n with
    | zero =>
      obtain rfl := Option.some.inj ha
      rw [List.set_cons_zero, List.filterMap_cons, List.filterMap_cons, hf]
    | succ n =>
      rw [List.set_cons_succ, List.filterMap_cons, List.filterMap_cons, ih ha]

lemma consumed_perm {tasks : List (Task t)} {n : ℕ} {task : Task t}
    (htask : tasks[n]? = some task) : (consumed tasks).Perm
      (task.consumes.toList ++ consumed (tasks.eraseIdx n)) := by
  obtain ⟨hn, rfl⟩ := List.getElem?_eq_some_iff.mp htask
  have hp := (List.getElem_cons_eraseIdx_perm hn).symm.filterMap Task.consumes
  cases hc : tasks[n].consumes with
  | none =>
    rw [List.filterMap_cons_none hc] at hp
    exact hp
  | some i =>
    rw [List.filterMap_cons_some hc] at hp
    exact hp

lemma perm_cons_eraseIdx {α : Type} {xs ys zs : List α} {i : ℕ} {a : α} (ha : ys[i]? = some a) :
    (xs ++ ys ++ zs).Perm (a :: (xs ++ ys.eraseIdx i ++ zs)) := by
  obtain ⟨hi, rfl⟩ := List.getElem?_eq_some_iff.mp ha
  have hp := (List.getElem_cons_eraseIdx_perm hi).symm
  exact ((hp.append_left xs).trans List.perm_middle).append_right zs

lemma cons_eraseIdx_perm_set {α : Type} {xs ys zs : List α} {i : ℕ} (hi : i < ys.length) (a : α) :
    (a :: (xs ++ ys.eraseIdx i ++ zs)).Perm (xs ++ ys.set i a ++ zs) := by
  have hp := (List.set_perm_cons_eraseIdx hi a).symm
  exact (List.perm_middle.symm.trans (hp.append_left xs)).append_right zs

/-- The threads that have a call in progress. -/
def busy (tasks : List (Task t)) : List ℕ := tasks.filterMap fun task => some task.thread

def cellOf (e : Holding t) : Cell t := ⟨e.thread, e.slot⟩

/-- What each party holds in a state of the threads: `lost` by calls that panicked, the slots,
and the calls in progress. -/
structure Shares (th : Threads t) (store : Store t) (lost es : List (Holding t))
    (crew : List (Task t × Job (accounting t) (Result t))) : Prop where
  sound : Interleaving.Sound th.world (lost ++ es) (crew.map Prod.snd)
  lost : ∀ e ∈ lost, e.slot.borrows = []
  cells : th.cells = es.map cellOf
  tasks : th.tasks = crew.map Prod.fst
  serves : ∀ m ∈ crew, Serves store es m.1 m.2
  length_eq : es.length = store.length
  text : ∀ i e, es[i]? = some e → e.text = store.get i ∨ i ∈ consumed th.tasks
  threads : (busy th.tasks).Nodup
  consumers : (consumed th.tasks).Nodup

namespace Shares
variable {th : Threads t} {store : Store t} {lost es : List (Holding t)}
  {crew : List (Task t × Job (accounting t) (Result t))} {n : ℕ} {task : Task t}

lemma exists_job (h : th.Shares store lost es crew) (htask : th.tasks[n]? = some task) :
    ∃ job, crew[n]? = some (task, job) ∧ Serves store es task job := by
  rw [h.tasks, List.getElem?_map, Option.map_eq_some_iff] at htask
  obtain ⟨⟨_, job⟩, hjob, rfl⟩ := htask
  exact ⟨job, hjob, h.serves _ (List.mem_of_getElem? hjob)⟩

lemma getElem?_jobs {job : Job (accounting t) (Result t)} (h : crew[n]? = some (task, job)) :
    (crew.map Prod.snd)[n]? = some job := by
  rw [List.getElem?_map, h]
  rfl

/-- Nobody else depends on a slot whose contents were moved into a call. -/
lemma untouched (h : th.Shares store lost es crew) (htask : th.tasks[n]? = some task) {i : ℕ}
    (hi : task.consumes = some i) :
    ∀ m ∈ crew.eraseIdx n, i ∉ m.1.request.touches := by
  obtain ⟨job, hjob, hserves⟩ := h.exists_job htask
  intro m hm hmem
  have hm' := h.serves m (List.mem_of_mem_eraseIdx hm)
  obtain hlook | hconsume := List.mem_append.mp hmem
  · obtain ⟨e, x, hget, htext, -⟩ := hm'.text i hlook
    rw [(hserves.consumed i hi).1] at hget
    cases hget
    cases htext
  · have hnodup := (consumed_perm htask).nodup_iff.mp h.consumers
    rw [hi] at hnodup
    refine (List.nodup_cons.mp hnodup).1 (List.mem_filterMap.mpr ⟨m.1, ?_, ?_⟩)
    · rw [h.tasks, List.eraseIdx_map]
      exact List.mem_map_of_mem hm
    · exact Option.mem_toList.mp hconsume

/-- Nobody depends on a slot that is not looked at, unless its contents were moved. -/
lemma free (h : th.Shares store lost es crew) {i : ℕ}
    (hfree : ∀ task ∈ th.tasks, i ∉ task.request.looks) (hi : i ∉ consumed th.tasks) :
    ∀ m ∈ crew, i ∉ m.1.request.touches := by
  intro m hm hmem
  have hm' : m.1 ∈ th.tasks := h.tasks ▸ List.mem_map_of_mem hm
  obtain hlook | hconsume := List.mem_append.mp hmem
  · exact hfree m.1 hm' hlook
  · exact hi (List.mem_filterMap.mpr ⟨m.1, hm', Option.mem_toList.mp hconsume⟩)

/-- Memory that nobody refers to may change. -/
lemma environment (h : th.Shares store lost es crew) {mem : Mem t.usizeBits}
    (hkeep : ∀ x, th.Protected x → mem x = th.world.mem x) :
    Shares ⟨⟨mem, th.world.heap⟩, th.cells, th.tasks⟩ store lost es crew := by
  refine ⟨h.sound.congr (fun hacc => hacc.environment fun x hx => hkeep x ?_) h.sound.looks,
    h.lost, h.cells, h.tasks, h.serves, h.length_eq, h.text, h.threads, h.consumers⟩
  obtain hheap | ⟨slot, hslot, p, hp, hx⟩ := hx
  · exact Or.inl hheap
  · right
    obtain ⟨e, he, rfl⟩ := List.mem_map.mp hslot
    obtain he | he := List.mem_append.mp he
    · obtain he | he := List.mem_append.mp he
      · rw [h.lost e he] at hp
        cases hp
      · refine Or.inl ⟨cellOf e, ?_, p, hp, hx⟩
        rw [h.cells]
        exact List.mem_map_of_mem he
    · obtain ⟨j, hj, he⟩ := List.mem_flatMap.mp he
      have hrefs := (h.sound.admits j hj e he).2 hp
      obtain ⟨m, hm, rfl⟩ := List.mem_map.mp hj
      rw [(h.serves m hm).refs] at hrefs
      refine Or.inr ⟨m.1, ?_, p, hrefs, hx⟩
      rw [h.tasks]
      exact List.mem_map_of_mem hm

/-- What the parties refer to is alive. -/
lemma alive (h : th.Shares store lost es crew) {w : World t}
    (halive : BorrowsAlive ⟨w, th.cells, th.tasks⟩) :
    Alive (L := accounting t) w (lost ++ es) (crew.map Prod.snd) := by
  constructor
  · intro e he p hp
    obtain he | he := List.mem_append.mp he
    · rw [show (accounting t).refs e = [] from h.lost e he] at hp
      cases hp
    · refine halive.cells (cellOf e) ?_ p hp
      rw [h.cells]
      exact List.mem_map_of_mem he
  · intro j hj p hp
    obtain ⟨m, hm, rfl⟩ := List.mem_map.mp hj
    rw [(h.serves m hm).refs] at hp
    refine halive.tasks m.1 ?_ p hp
    rw [h.tasks]
    exact List.mem_map_of_mem hm

lemma act (h : th.Shares store lost es crew) (htask : th.tasks[n]? = some task) {i : Action t}
    {next : i.Answer → Steps t (Result t)} {r : i.Answer} {w : World t}
    (hprogram : task.program = .act i next) (hrun : i.handle th.world = .ok r w)
    (halive : BorrowsAlive ⟨w, th.cells, th.tasks⟩) : ∃ crew',
      Shares ⟨w, th.cells, th.tasks.set n { task with program := next r }⟩ store lost es crew' := by
  obtain ⟨job, hjob, hserves⟩ := h.exists_job htask
  have hstep := h.sound.act (getElem?_jobs hjob) (hserves.program.trans hprogram)
  have hrun' : (machine t).handle i th.world = .ok r w := hrun
  rw [hrun'] at hstep
  have hconsumed : consumed (th.tasks.set n { task with program := next r }) =
      consumed th.tasks := filterMap_set htask rfl
  obtain ⟨own', hsound⟩ := hstep (h.alive halive)
  refine ⟨crew.set n ({ task with program := next r },
    { job with program := next r, own := own' }), ?_, h.lost, h.cells, ?_, ?_, h.length_eq, ?_,
    ?_, ?_⟩
  · rw [List.map_set]
    exact hsound
  · rw [List.map_set, ← h.tasks]
  · intro m hm
    obtain hm | rfl := List.mem_or_eq_of_mem_set hm
    · exact h.serves m hm
    · exact ⟨rfl, hserves.party, hserves.refs, hserves.excuses, hserves.post, hserves.looks,
        hserves.text, hserves.consumed⟩
  · rw [hconsumed]
    exact h.text
  · have hbusy := filterMap_set (f := fun task => some task.thread) htask
      (b := { task with program := next r }) rfl
    rw [busy, hbusy]
    exact h.threads
  · rw [hconsumed]
    exact h.consumers

lemma looks_subset {job : Job (accounting t) (Result t)} (h : Serves store es task job) :
    job.call.looks ⊆ lost ++ es := by
  intro e he
  obtain ⟨i, -, hi⟩ := h.looks e he
  exact List.mem_append_right _ (List.mem_of_getElem? hi)

/-- A call that ends changes no slot but the one that it consumed, or adds one. -/
lemma leave (h : th.Shares store lost es crew) (htask : th.tasks[n]? = some task)
    {store' : Store t} {lost' es' own : List (Holding t)}
    (hsound : Interleaving.Sound th.world (own ++ (lost ++ es)) ((crew.map Prod.snd).eraseIdx n))
    (hacc : ∀ rest, th.world.Accounts (own ++ (lost ++ es) ++ rest) →
      th.world.Accounts (lost' ++ es' ++ rest))
    (hlost : ∀ e ∈ lost', e.slot.borrows = [])
    (hes : ∀ i e, task.consumes ≠ some i → es[i]? = some e → es'[i]? = some e)
    (hstore : ∀ i e, task.consumes ≠ some i → es[i]? = some e → store'.get i = store.get i)
    (hlength : es'.length = store'.length)
    (htext : ∀ i e, es'[i]? = some e → es[i]? ≠ some e ∨ task.consumes = some i →
      e.text = store'.get i) :
    Shares ⟨th.world, es'.map cellOf, th.tasks.eraseIdx n⟩ store' lost' es'
      (crew.eraseIdx n) := by
  have hserves : ∀ m ∈ crew.eraseIdx n, Serves store' es' m.1 m.2 := by
    intro m hm
    have hm' := h.serves m (List.mem_of_mem_eraseIdx hm)
    have hne : ∀ i ∈ m.1.request.touches, task.consumes ≠ some i :=
      fun i hi hc => h.untouched htask hc m hm hi
    refine hm'.congr (fun i hi e he => hes i e (hne i hi) he) fun i hi => ?_
    obtain hlook | hconsume := List.mem_append.mp hi
    · obtain ⟨e, x, hget, -, -⟩ := hm'.text i hlook
      exact hstore i e (hne i hi) hget
    · exact hstore i _ (hne i hi) (hm'.consumed i (Option.mem_toList.mp hconsume)).1
  have hperm := consumed_perm htask
  refine ⟨?_, hlost, rfl, ?_, hserves, hlength, ?_, ?_, ?_⟩
  · rw [← List.eraseIdx_map]
    refine hsound.congr (hacc _) fun j hj => ?_
    rw [List.eraseIdx_map] at hj
    obtain ⟨m, hm, rfl⟩ := List.mem_map.mp hj
    exact looks_subset (hserves m hm)
  · rw [h.tasks, List.eraseIdx_map]
  · intro i e he
    by_cases hc : task.consumes = some i
    · exact Or.inl (htext i e he (Or.inr hc))
    · by_cases hold : es[i]? = some e
      · obtain heq | hmem := h.text i e hold
        · exact Or.inl (heq.trans (hstore i e hc hold).symm)
        · right
          obtain hmem | hmem := List.mem_append.mp (hperm.mem_iff.mp hmem)
          · exact absurd (Option.mem_toList.mp hmem) hc
          · exact hmem
      · exact Or.inl (htext i e he (Or.inl hold))
  · exact h.threads.sublist ((List.eraseIdx_sublist _ _).filterMap _)
  · exact h.consumers.sublist ((List.eraseIdx_sublist _ _).filterMap _)

/-- A slot that holds something holds what the texts say. -/
lemma exists_text (h : th.Shares store lost es crew) {i : ℕ} {cell : Cell t}
    (hcell : th.cells[i]? = some cell) (hgone : cell.slot ≠ .gone) :
    ∃ x, es[i]? = some ⟨cell.thread, cell.slot, some x⟩ ∧ store.get i = some x ∧
      cell.slot.Holds th.world (some x) ∧ i ∉ consumed th.tasks := by
  rw [h.cells, List.getElem?_map, Option.map_eq_some_iff] at hcell
  obtain ⟨⟨thread, slot, text⟩, he, rfl⟩ := hcell
  have hmem : (⟨thread, slot, text⟩ : Holding t) ∈ lost ++ es ++ (crew.map Prod.snd).flatMap
      Job.own := List.mem_append_left _ (List.mem_append_right _ (List.mem_of_getElem? he))
  have hx : slot.Holds th.world text := h.sound.accounts.holds _ hmem
  cases text with
  | none =>
    cases hx with
    | gone => exact absurd rfl hgone
  | some x =>
    have hfree : i ∉ consumed th.tasks := by
      intro hi
      obtain ⟨task, htask, hi⟩ := List.mem_filterMap.mp hi
      rw [h.tasks] at htask
      obtain ⟨m, hm, rfl⟩ := List.mem_map.mp htask
      have hget := ((h.serves m hm).consumed i hi).1
      rw [he] at hget
      cases hget
    refine ⟨x, he, ?_, hx, hfree⟩
    obtain htext | hi := h.text i _ he
    · exact htext.symm
    · exact absurd hi hfree

/-- A call that starts takes over what it is given. -/
lemma join (h : th.Shares store lost es crew) {es' : List (Holding t)}
    (looks own : List (Holding t))
    (hacc : ∀ rest, th.world.Accounts (lost ++ es ++ rest) →
      th.world.Accounts (own ++ (lost ++ es') ++ rest))
    (hserves : Serves store es' task (task.job store looks own))
    (hadmits : ∀ e ∈ own, e.thread = task.thread ∧ e.slot.borrows ⊆ task.refs)
    (hsafe : Safe (task.call store looks) (task.request.Post store task.thread) task.program own)
    (hidle : ∀ other ∈ th.tasks, other.thread ≠ task.thread)
    (hfree : ∀ i, task.consumes = some i → ∀ m ∈ crew, i ∉ m.1.request.touches)
    (hes : ∀ i e, task.consumes ≠ some i → (es[i]? = some e ↔ es'[i]? = some e))
    (hlength : es'.length = es.length) : ∃ crew',
      Shares ⟨th.world, es'.map cellOf, th.tasks ++ [task]⟩ store lost es' crew' := by
  have hcrew : ∀ m ∈ crew, Serves store es' m.1 m.2 := by
    intro m hm
    refine (h.serves m hm).congr (fun i hi e he => ?_) fun i _ => rfl
    exact (hes i e fun hc => hfree i hc m hm hi).mp he
  have hconsumed : consumed (th.tasks ++ [task]) = consumed th.tasks ++ task.consumes.toList := by
    cases hc : task.consumes <;> simp [consumed, List.filterMap_append, hc]
  refine ⟨crew ++ [(task, task.job store looks own)], ?_, h.lost, rfl, ?_, ?_,
    hlength.trans h.length_eq, ?_, ?_, ?_⟩
  · rw [List.map_append]
    refine Interleaving.Sound.start own (h.sound.congr (hacc _) fun j hj => ?_)
      (fun j hj => ?_) (looks_subset hserves) rfl hadmits hsafe
    · obtain ⟨m, hm, rfl⟩ := List.mem_map.mp hj
      exact fun e he => List.mem_append_right _ (looks_subset (hcrew m hm) he)
    · obtain ⟨m, hm, rfl⟩ := List.mem_map.mp hj
      exact looks_subset (hcrew m hm)
  · rw [h.tasks, List.map_append]
    rfl
  · intro m hm
    obtain hm | hm := List.mem_append.mp hm
    · exact hcrew m hm
    · obtain rfl := List.mem_singleton.mp hm
      exact hserves
  · intro i e he
    rw [hconsumed]
    by_cases hc : task.consumes = some i
    · exact Or.inr (List.mem_append_right _ (Option.mem_toList.mpr hc))
    · exact (h.text i e ((hes i e hc).mpr he)).imp id (List.mem_append_left _)
  · rw [busy, List.filterMap_append]
    refine List.Nodup.append h.threads (by simp) ?_
    intro thread hbusy hthread
    obtain ⟨other, hother, hbusy⟩ := List.mem_filterMap.mp hbusy
    obtain rfl := Option.some.inj hbusy
    exact hidle other hother (by simpa using hthread)
  · rw [hconsumed]
    refine List.Nodup.append h.consumers (by cases task.consumes <;> simp) ?_
    intro i hi hc
    obtain ⟨other, hother, hi⟩ := List.mem_filterMap.mp hi
    rw [h.tasks] at hother
    obtain ⟨m, hm, rfl⟩ := List.mem_map.mp hother
    exact hfree i (Option.mem_toList.mp hc) m hm
      (List.mem_append_right _ (Option.mem_toList.mpr hi))

section Start
variable {A : Allocator t} {thread : ℕ}

lemma start_create (h : th.Shares store lost es crew) {r : Creation t}
    (hread : r.Readable th.world) (hidle : ∀ other ∈ th.tasks, other.thread ≠ thread) :
    ∃ crew', Shares ⟨th.world, th.cells, th.tasks ++
      [⟨thread, .create r, r.borrows, do return .inl (← r.steps A)⟩]⟩ store lost es crew' := by
  have hargs := Creation.mem_args thread hread
  rw [h.cells]
  refine h.join [] (r.args thread) (fun rest hacc => ?_)
    (Task.serves (by simp) (by simp [Request.looks]) (by simp [Task.consumes, Request.consumes]))
    (fun e he => (hargs e he).2.2) ?_ hidle (by simp [Task.consumes, Request.consumes])
    (fun i e _ => Iff.rfl) rfl
  · rw [List.append_assoc]
    exact hacc.append fun e he => ⟨(hargs e he).1, (hargs e he).2.1⟩
  · refine Safe.map ((Creation.safe ?_).mono ?_)
    · exact fun hlong => ⟨rfl, hlong⟩
    · rintro y _ rfl
      exact ⟨y, rfl, rfl⟩

/-- A slot that is the thread's own, or that all threads may see, may be looked at. -/
lemma sees_of_may {cell : Cell t} {x : Text t} {c : Call (accounting t)}
    (hmay : cell.thread = c.party ∨ cell.slot.isSync = true)
    (hlooks : ⟨cell.thread, cell.slot, some x⟩ ∈ c.looks) (hrefs : cell.slot.borrows ⊆ c.refs) :
    Sees c cell.slot x := by
  refine ⟨⟨cell.thread, hlooks, fun o ho hlocal => ?_⟩, hrefs⟩
  obtain hthread | hsync := hmay
  · exact hthread
  · exact absurd hlocal (Slot.isSync_owners hsync o ho)

lemma start_copy (h : th.Shares store lost es crew) {r : Copying} {i : ℕ} {cell : Cell t}
    {p : Steps t (Slot t)} (hcell : th.cells[i]? = some cell)
    (hmay : cell.thread = thread ∨ cell.slot.isSync = true) (hp : r.steps A cell.slot = some p)
    (hidle : ∀ other ∈ th.tasks, other.thread ≠ thread) :
    ∃ crew', Shares ⟨th.world, th.cells, th.tasks ++
      [⟨thread, .copy r i, cell.slot.borrows, do return .inl (← p)⟩]⟩ store lost es crew' := by
  obtain ⟨x, he, hstore, hx, -⟩ := h.exists_text hcell (Copying.ne_gone hp)
  rw [h.cells]
  refine h.join [⟨cell.thread, cell.slot, some x⟩] []
    (fun rest hacc => hacc) (Task.serves ?_ ?_ (by simp [Task.consumes, Request.consumes]))
    (by simp) ?_ hidle (by simp [Task.consumes, Request.consumes]) (fun i e _ => Iff.rfl) rfl
  · simpa [Request.looks] using he
  · simpa [Request.looks] using ⟨_, he, x, rfl, hstore⟩
  · refine Safe.map ((Copying.safe (sees_of_may hmay List.mem_cons_self (List.Subset.refl _)) hx
      hp).mono ?_)
    rintro y _ rfl
    refine ⟨y, rfl, ?_⟩
    rw [hstore]
    rfl

lemma start_observe (h : th.Shares store lost es crew) {r : Observing} {i j : ℕ}
    {cell cell' : Cell t} {p : Steps t (Reply t)} (hcell : th.cells[i]? = some cell)
    (hmay : cell.thread = thread ∨ cell.slot.isSync = true)
    (hcell' : th.cells[j]? = some cell')
    (hmay' : cell'.thread = thread ∨ cell'.slot.isSync = true)
    (hp : r.steps cell.slot cell'.slot = some p)
    (hidle : ∀ other ∈ th.tasks, other.thread ≠ thread) :
    ∃ crew', Shares ⟨th.world, th.cells, th.tasks ++ [⟨thread, .observe r i j,
      cell.slot.borrows ++ cell'.slot.borrows, do return .inr (← p)⟩]⟩ store lost es crew' := by
  obtain ⟨hgone, hgone'⟩ := Observing.ne_gone hp
  obtain ⟨x, he, hstore, hx, -⟩ := h.exists_text hcell hgone
  obtain ⟨y, he', hstore', hy, -⟩ := h.exists_text hcell' hgone'
  rw [h.cells]
  refine h.join [⟨cell.thread, cell.slot, some x⟩, ⟨cell'.thread, cell'.slot, some y⟩] []
    (fun rest hacc => hacc)
    (Task.serves ?_ ?_ (by simp [Task.consumes, Request.consumes]))
    (by simp) ?_ hidle (by simp [Task.consumes, Request.consumes]) (fun i e _ => Iff.rfl) rfl
  · simp only [Request.looks, List.mem_cons, List.not_mem_nil, or_false]
    rintro e (rfl | rfl)
    · exact ⟨i, Or.inl rfl, he⟩
    · exact ⟨j, Or.inr rfl, he'⟩
  · simp only [Request.looks, List.mem_cons, List.not_mem_nil, or_false]
    rintro k (rfl | rfl)
    · exact ⟨_, x, he, rfl, hstore⟩
    · exact ⟨_, y, he', rfl, hstore'⟩
  · refine (Observing.safe (sees_of_may hmay List.mem_cons_self ?_)
      (sees_of_may hmay' (List.mem_cons_of_mem _ List.mem_cons_self) ?_) hx hy hp).safe
      (Safe.ret ⟨x, y, hstore, hstore', rfl, rfl⟩)
    · exact List.subset_append_left _ _
    · exact List.subset_append_right _ _

lemma start_consume (h : th.Shares store lost es crew) {r : Consuming} {i : ℕ} {cell : Cell t}
    {p : Steps t (Slot t)} (hcell : th.cells[i]? = some cell) (hthread : cell.thread = thread)
    (hfree : ∀ task ∈ th.tasks, i ∉ task.request.looks) (hp : r.steps A cell.slot = some p)
    (hidle : ∀ other ∈ th.tasks, other.thread ≠ thread) :
    ∃ es' crew', Shares ⟨th.world, th.cells.set i ⟨thread, .gone⟩, th.tasks ++
      [⟨thread, .consume r i, cell.slot.borrows, do return .inl (← p)⟩]⟩ store lost es' crew' := by
  obtain ⟨x, he, hstore, hx, hi⟩ := h.exists_text hcell (Consuming.ne_gone hp)
  subst hthread
  have hlt := (List.getElem?_eq_some_iff.mp he).1
  let gone : Holding t := ⟨cell.thread, .gone, none⟩
  have hcells : th.cells.set i ⟨cell.thread, .gone⟩ = (es.set i gone).map cellOf := by
    rw [h.cells, List.map_set]
    rfl
  rw [hcells]
  refine ⟨es.set i gone, h.join [] [⟨cell.thread, cell.slot, some x⟩]
    (fun rest hacc => ?_) (Task.serves (by simp) (by simp [Request.looks]) ?_) ?_ ?_ hidle ?_ ?_
    (by simp)⟩
  · have hgone : (gone :: (⟨cell.thread, cell.slot, some x⟩ ::
        (lost ++ es.eraseIdx i ++ rest))).Perm
          ([⟨cell.thread, cell.slot, some x⟩] ++ (lost ++ es.set i gone) ++ rest) :=
      (List.Perm.swap _ _ _).trans (List.Perm.cons _ (cons_eraseIdx_perm_set hlt gone))
    exact ((hacc.perm (perm_cons_eraseIdx he)).cons (e := gone) rfl .gone).perm hgone
  · rintro j hj
    obtain rfl := Option.some.inj hj
    exact ⟨List.getElem?_set_self hlt, x, hstore⟩
  · intro e he
    obtain rfl := List.mem_singleton.mp he
    exact ⟨rfl, List.Subset.refl _⟩
  · refine Safe.map ((Consuming.safe hx hp ?_).mono ?_)
    · exact fun hk hlong => ⟨rfl, hk, x, hstore, hlong⟩
    · rintro y _ rfl
      refine ⟨y, rfl, ?_⟩
      rw [hstore]
      rfl
  · rintro j hj
    obtain rfl := Option.some.inj hj
    exact h.free hfree hi
  · intro j e hj
    rw [List.getElem?_set_ne fun hij => hj (congrArg some hij)]

end Start

section Finish

/-- A call that made something adds a slot. -/
lemma leave_append (h : th.Shares store lost es crew) (htask : th.tasks[n]? = some task)
    (hconsumes : task.consumes = none) {new : Holding t} (hthread : new.thread = task.thread)
    (hsound : Interleaving.Sound th.world ([new] ++ (lost ++ es))
      ((crew.map Prod.snd).eraseIdx n)) : ∃ es' crew',
    Shares ⟨th.world, th.cells ++ [⟨task.thread, new.slot⟩], th.tasks.eraseIdx n⟩
      (store ++ [new.text]) lost es' crew' := by
  have hcells : th.cells ++ [⟨task.thread, new.slot⟩] = (es ++ [new]).map cellOf := by
    rw [h.cells, List.map_append, ← hthread]
    rfl
  rw [hcells]
  refine ⟨_, _, h.leave htask hsound (fun rest hacc => hacc.perm ?_) h.lost ?_ ?_
    (by simp [h.length_eq]) ?_⟩
  · rw [← List.append_assoc lost]
    exact List.perm_append_comm.append_right rest
  · intro i e _ he
    rw [List.getElem?_append_left (List.getElem?_eq_some_iff.mp he).1, he]
  · intro i e _ he
    exact Store.get_append_left (h.length_eq ▸ (List.getElem?_eq_some_iff.mp he).1)
  · rintro i e he (hne | hc)
    · have hi := (List.getElem?_eq_some_iff.mp he).1
      have hlast : i = es.length := by
        by_contra hi'
        rw [List.length_append, List.length_singleton] at hi
        rw [List.getElem?_append_left (by omega)] at he
        exact hne he
      subst hlast
      rw [List.getElem?_concat_length] at he
      obtain rfl := Option.some.inj he
      rw [h.length_eq, Store.get_concat]
    · rw [hconsumes] at hc
      cases hc

/-- A call that consumed a slot puts what it made in its place. -/
lemma leave_set (h : th.Shares store lost es crew) (htask : th.tasks[n]? = some task) {i : ℕ}
    (hconsumes : task.consumes = some i) {new : Holding t} (hthread : new.thread = task.thread)
    (hsound : Interleaving.Sound th.world ([new] ++ (lost ++ es))
      ((crew.map Prod.snd).eraseIdx n)) : ∃ es' crew',
    Shares ⟨th.world, th.cells.set i ⟨task.thread, new.slot⟩, th.tasks.eraseIdx n⟩
      (store.set i new.text) lost es' crew' := by
  obtain ⟨job, -, hserves⟩ := h.exists_job htask
  have he := (hserves.consumed i hconsumes).1
  have hlt := (List.getElem?_eq_some_iff.mp he).1
  have hcells : th.cells.set i ⟨task.thread, new.slot⟩ = (es.set i new).map cellOf := by
    rw [h.cells, List.map_set, ← hthread]
    rfl
  rw [hcells]
  refine ⟨_, _, h.leave htask hsound (fun rest hacc => ?_) h.lost ?_ ?_
    (by simp [h.length_eq]) ?_⟩
  · have hsplit : ([new] ++ (lost ++ es) ++ rest).Perm
        (⟨task.thread, .gone, none⟩ :: (new :: (lost ++ es.eraseIdx i ++ rest))) :=
      (List.Perm.cons _ (perm_cons_eraseIdx he)).trans (List.Perm.swap _ _ _)
    exact ((hacc.perm hsplit).of_cons rfl).perm (cons_eraseIdx_perm_set hlt new)
  · intro j e hj he
    rw [List.getElem?_set_ne fun hij => hj (by rw [hconsumes, hij])]
    exact he
  · intro j e hj _
    exact Store.get_set_ne fun hij => hj (by rw [hconsumes, hij])
  · rintro j e he hj
    have hij : i = j := by
      by_contra hij
      rw [List.getElem?_set_ne hij] at he
      obtain hne | hc := hj
      · exact hne he
      · rw [hconsumes] at hc
        exact hij (Option.some.inj hc)
    subst hij
    rw [List.getElem?_set_self hlt] at he
    obtain rfl := Option.some.inj he
    exact (Store.get_set_self (h.length_eq ▸ hlt)).symm

/-- A call that neither made nor consumed anything leaves the slots as they are. -/
lemma leave_same (h : th.Shares store lost es crew) (htask : th.tasks[n]? = some task)
    {own : List (Holding t)} {store' : Store t}
    (hsound : Interleaving.Sound th.world (own ++ (lost ++ es)) ((crew.map Prod.snd).eraseIdx n))
    (hown : ∀ e ∈ own, e.slot.borrows = []) (hlength : store'.length = store.length)
    (hstore : ∀ i e, task.consumes ≠ some i → es[i]? = some e → store'.get i = store.get i)
    (htext : ∀ i, task.consumes = some i → store'.get i = none) : ∃ crew',
    Shares ⟨th.world, th.cells, th.tasks.eraseIdx n⟩ store' (own ++ lost) es crew' := by
  obtain ⟨job, -, hserves⟩ := h.exists_job htask
  rw [h.cells]
  refine ⟨_, h.leave htask hsound (fun rest hacc => ?_) ?_ (fun i e _ he => he) hstore
    (h.length_eq.trans hlength.symm) ?_⟩
  · rwa [List.append_assoc own]
  · intro e he
    obtain he | he := List.mem_append.mp he
    · exact hown e he
    · exact h.lost e he
  · rintro i e he (hne | hc)
    · exact absurd he hne
    · rw [(hserves.consumed i hc).1] at he
      obtain rfl := Option.some.inj he
      exact (htext i hc).symm

lemma finish (h : th.Shares store lost es crew) (htask : th.tasks[n]? = some task) {r : Result t}
    (hprogram : task.program = .ret r) : ∃ es' crew',
      Shares ⟨th.world, task.request.place th.cells task.thread r, th.tasks.eraseIdx n⟩
        (task.request.record store true) lost es' crew' := by
  obtain ⟨job, hjob, hserves⟩ := h.exists_job htask
  obtain ⟨own, hpost, -, hsound⟩ := h.sound.finish (getElem?_jobs hjob)
    (hserves.program.trans hprogram)
  have hpost := hserves.post r own hpost
  obtain ⟨thread, request, refs, program⟩ := task
  cases request with
  | create c =>
    obtain ⟨y, rfl, rfl⟩ := hpost
    exact h.leave_append htask rfl rfl hsound
  | copy c i =>
    obtain ⟨y, rfl, rfl⟩ := hpost
    exact h.leave_append htask rfl rfl hsound
  | consume c i =>
    obtain ⟨y, rfl, rfl⟩ := hpost
    exact h.leave_set htask rfl rfl hsound
  | observe c i j =>
    obtain ⟨x, y, -, -, rfl, rfl⟩ := hpost
    exact ⟨es, h.leave_same htask hsound (by simp) rfl (fun _ _ _ _ => rfl)
      fun i hi => by cases hi⟩

/-- A call that panics refuses a string that is too long, and loses what it holds. -/
lemma panic (h : th.Shares store lost es crew) (htask : th.tasks[n]? = some task) {e : Fault}
    (hprogram : task.program = .fail e) :
    (e = .panic tooLarge ∧ task.request.Oversized store) ∧ ∃ lost' crew',
      Shares ⟨th.world, th.cells, th.tasks.eraseIdx n⟩ (task.request.record store false) lost' es
        crew' := by
  obtain ⟨job, hjob, hserves⟩ := h.exists_job htask
  obtain ⟨hexcused, own, hown, hsound⟩ := h.sound.fail (getElem?_jobs hjob)
    (hserves.program.trans hprogram)
  refine ⟨hserves.excuses e hexcused, own ++ lost, ?_⟩
  obtain ⟨thread, request, refs, program⟩ := task
  have hsame : request.consumes = none → ∃ crew', Shares ⟨th.world, th.cells,
      th.tasks.eraseIdx n⟩ store (own ++ lost) es crew' := fun hnone =>
    h.leave_same htask hsound hown rfl (fun _ _ _ _ => rfl) fun i hi => by
      rw [Task.consumes, hnone] at hi
      cases hi
  cases request with
  | create c => exact hsame rfl
  | copy c i => exact hsame rfl
  | observe c i j => exact hsame rfl
  | consume c i =>
    refine h.leave_same htask hsound hown List.length_set ?_ ?_
    · exact fun j _ hj _ => Store.get_set_ne fun hij => hj (congrArg some hij)
    · rintro j hj
      obtain rfl := Option.some.inj hj
      have hlt := (List.getElem?_eq_some_iff.mp (hserves.consumed i rfl).1).1
      exact Store.get_set_self (h.length_eq ▸ hlt)

end Finish

/-- What other threads may see can be handed over to them. -/
lemma send (h : th.Shares store lost es crew) {i thread : ℕ} {cell : Cell t}
    (hcell : th.cells[i]? = some cell) (hsend : cell.slot.isSync = true)
    (hfree : ∀ task ∈ th.tasks, i ∉ task.request.looks) : ∃ es',
      Shares ⟨th.world, th.cells.set i ⟨thread, cell.slot⟩, th.tasks⟩ store lost es' crew := by
  have hgone : cell.slot ≠ .gone := by
    rintro hgone
    rw [hgone] at hsend
    cases hsend
  obtain ⟨x, he, hstore, hx, hi⟩ := h.exists_text hcell hgone
  have hlt := (List.getElem?_eq_some_iff.mp he).1
  let new : Holding t := ⟨thread, cell.slot, some x⟩
  have hserves : ∀ m ∈ crew, Serves store (es.set i new) m.1 m.2 := by
    intro m hm
    refine (h.serves m hm).congr (fun j hj e he => ?_) fun _ _ => rfl
    rw [List.getElem?_set_ne, he]
    rintro rfl
    exact h.free hfree hi m hm hj
  refine ⟨es.set i new, h.sound.congr (fun hacc => ?_) fun j hj => ?_, h.lost, ?_, h.tasks,
    hserves, List.length_set.trans h.length_eq, ?_, h.threads, h.consumers⟩
  · have hacc' : th.world.Accounts
        (new :: (lost ++ es.eraseIdx i ++ (crew.map Prod.snd).flatMap Job.own)) :=
      (World.Accounts.perm hacc (perm_cons_eraseIdx he)).rethread (Slot.isSync_owners hsend)
    exact hacc'.perm (cons_eraseIdx_perm_set hlt new)
  · obtain ⟨m, hm, rfl⟩ := List.mem_map.mp hj
    exact looks_subset (hserves m hm)
  · rw [h.cells, List.map_set]
    rfl
  · intro j e hj
    by_cases hij : i = j
    · subst hij
      rw [List.getElem?_set_self hlt] at hj
      obtain rfl := Option.some.inj hj
      exact Or.inl hstore.symm
    · rw [List.getElem?_set_ne hij] at hj
      exact h.text j e hj

end Shares

end Threads
end RefStr
