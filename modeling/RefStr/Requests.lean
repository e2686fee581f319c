import RefStr.Threads
import RefStr.Progress

/-! What the calls of a thread depend on and what they come to, by the texts. A call in progress
serves its request, and what other threads do to slots that it does not touch is no concern
of it. -/
namespace RefStr
open Interleaving ByteMemory Arch
variable {t : Target}

namespace Store
variable {store : Store t} {i j : ℕ} {y : Option (Text t)}

lemma get_append_left (hi : i < store.length) : Store.get (store ++ [y]) i = store.get i := by
  rw [get, List.getElem?_append_left hi]
  rfl

lemma get_set_ne (hne : i ≠ j) : Store.get (store.set i y) j = store.get j := by
  rw [get, List.getElem?_set_ne hne]
  rfl

lemma get_set_self (hi : i < store.length) : Store.get (store.set i y) i = y := by
  rw [get, List.getElem?_set_self hi]
  rfl

lemma get_concat : Store.get (store ++ [y]) store.length = y := by
  rw [get, List.getElem?_concat_length]
  rfl

lemma ofLog_append (log : List (Request t × Bool)) (entry : Request t × Bool) :
    ofLog (log ++ [entry]) = entry.1.record (ofLog log) entry.2 := by
  rw [ofLog, List.foldl_append]
  rfl

/-- Where no call panicked, the calls that ended are a run of operations. -/
lemma ofLog_eq_ofEvents {log : List (Request t × Bool)} (h : ∀ entry ∈ log, entry.2 = true) :
    ofLog log = ofEvents (log.filterMap fun entry => entry.1.event) := by
  induction log using List.reverseRecOn with
  | nil => rfl
  | append_singleton log entry ih =>
    obtain ⟨request, done⟩ := entry
    obtain rfl : done = true := h _ (List.mem_append_right _ List.mem_cons_self)
    rw [ofLog_append, ih fun entry he => h entry (List.mem_append_left _ he),
      List.filterMap_append, ofEvents, ofEvents, List.foldl_append]
    cases request <;> rfl

end Store

namespace Request
variable {store store' : Store t} {request : Request t}

/-- The slots that a call depends on while it is in progress. -/
def touches (request : Request t) : List ℕ := request.looks ++ request.consumes.toList

/-- What the call comes to. -/
def Post (store : Store t) (thread : ℕ) (request : Request t) (r : Result t)
    (own : List (Holding t)) : Prop :=
  match request with
  | create c => ∃ y, r = .inl y ∧ own = [⟨thread, y, some c.text⟩]
  | copy c i => ∃ y, r = .inl y ∧ own = [⟨thread, y, (store.get i).map c.text⟩]
  | consume c i => ∃ y, r = .inl y ∧ own = [⟨thread, y, (store.get i).bind c.text⟩]
  | observe c i j => ∃ x y, store.get i = some x ∧ store.get j = some y ∧
      r = .inr (c.reply x y) ∧ own = []

lemma Post.congr {thread : ℕ} {r : Result t} {own : List (Holding t)}
    (h : request.Post store thread r own)
    (hstore : ∀ i ∈ request.touches, store'.get i = store.get i) :
    request.Post store' thread r own := by
  cases request with
  | create c => exact h
  | copy c i => rwa [Post, hstore i (by simp [touches, looks])]
  | consume c i => rwa [Post, hstore i (by simp [touches, consumes])]
  | observe c i j =>
    rwa [Post, hstore i (by simp [touches, looks]), hstore j (by simp [touches, looks])]

lemma Oversized.congr (h : request.Oversized store)
    (hstore : ∀ i ∈ request.touches, store'.get i = store.get i) : request.Oversized store' := by
  cases request with
  | create c => exact h
  | copy c i => exact h
  | consume c i => rwa [Oversized, hstore i (by simp [touches, consumes])]
  | observe c i j => exact h

end Request

/-- The call in progress is the safe job that its request asks for. -/
structure Serves (store : Store t) (es : List (Holding t)) (task : Task t)
    (job : Job (accounting t) (Result t)) : Prop where
  program : job.program = task.program
  party : job.call.party = task.thread
  refs : job.call.refs = task.refs
  excuses : ∀ e, job.call.Excuses e → e = .panic tooLarge ∧ task.request.Oversized store
  post : ∀ r own, job.post r own → task.request.Post store task.thread r own
  looks : ∀ e ∈ job.call.looks, ∃ i ∈ task.request.looks, es[i]? = some e
  text : ∀ i ∈ task.request.looks, ∃ e x, es[i]? = some e ∧ e.text = some x ∧
    store.get i = some x
  consumed : ∀ i, task.consumes = some i →
    es[i]? = some ⟨task.thread, .gone, none⟩ ∧ ∃ x, store.get i = some x

/-- A call in progress is not affected by what happens to slots that it does not depend on. -/
lemma Serves.congr {store store' : Store t} {es es' : List (Holding t)} {task : Task t}
    {job : Job (accounting t) (Result t)} (h : Serves store es task job)
    (hes : ∀ i ∈ task.request.touches, ∀ e, es[i]? = some e → es'[i]? = some e)
    (hstore : ∀ i ∈ task.request.touches, store'.get i = store.get i) :
    Serves store' es' task job := by
  have hlook : ∀ i ∈ task.request.looks, i ∈ task.request.touches :=
    fun i hi => List.mem_append_left _ hi
  have hconsume : ∀ i, task.consumes = some i → i ∈ task.request.touches :=
    fun i hi => List.mem_append_right _ (Option.mem_toList.mpr hi)
  refine ⟨h.program, h.party, h.refs, fun e he => ?_, fun r own hp => ?_, fun e he => ?_,
    fun i hi => ?_, fun i hi => ?_⟩
  · obtain ⟨he, hover⟩ := h.excuses e he
    exact ⟨he, hover.congr hstore⟩
  · exact (h.post r own hp).congr hstore
  · obtain ⟨i, hi, hget⟩ := h.looks e he
    exact ⟨i, hi, hes i (hlook i hi) e hget⟩
  · obtain ⟨e, x, hget, htext, hx⟩ := h.text i hi
    exact ⟨e, x, hes i (hlook i hi) e hget, htext, (hstore i (hlook i hi)).trans hx⟩
  · obtain ⟨hget, x, hx⟩ := h.consumed i hi
    exact ⟨hes i (hconsume i hi) _ hget, x, (hstore i (hconsume i hi)).trans hx⟩

section Requests
variable {A : Allocator t} {slot slot' : Slot t}

/-- Values and handles that other threads may see own no local allocation. -/
lemma Slot.isSync_owners (h : slot.isSync = true) : ∀ o ∈ slot.owners,
    o.backend ≠ .localBackend := by
  intro o ho
  cases slot with
  | value k B v =>
    cases B with
    | localBackend => cases h
    | sharedBackend =>
      rw [owners, RefStrCore.owners] at ho
      split_ifs at ho
      · obtain rfl := List.mem_singleton.mp ho
        simp
      · cases ho
  | handle B s =>
    cases B with
    | localBackend => cases h
    | sharedBackend =>
      obtain rfl := List.mem_singleton.mp ho
      simp
  | _ => cases h

lemma Creation.mem_args {r : Creation t} (thread : ℕ) {w : World t} (hread : r.Readable w) :
    ∀ e ∈ r.args thread, e.owners = [] ∧ e.slot.Holds w e.text ∧ e.thread = thread ∧
      e.slot.borrows ⊆ r.borrows := by
  intro e he
  have hpointer : ∀ s : StrRef t, e ∈ [Holding.pointer thread s.raw s.str] →
      read w.mem s.ptr s.str.bytes.length = some s.str.bytes →
      e.owners = [] ∧ e.slot.Holds w e.text ∧ e.thread = thread ∧ e.slot.borrows = [s.raw] := by
    rintro s he hread
    obtain rfl := List.mem_singleton.mp he
    exact ⟨rfl, .pointer rfl hread, rfl, rfl⟩
  cases r with
  | handle | fromOwnedLike | ofString | ofBoxedStr => cases he
  | fromStr k B s =>
    obtain ⟨howners, hx, hthread, hborrows⟩ := hpointer s he hread
    exact ⟨howners, hx, hthread, hborrows ▸ List.Subset.refl _⟩
  | ofCow k B c =>
    cases c with
    | owned s => cases he
    | borrowed s =>
      obtain ⟨howners, hx, hthread, hborrows⟩ := hpointer s he hread
      exact ⟨howners, hx, hthread, hborrows ▸ List.Subset.refl _⟩

lemma Copying.ne_gone {r : Copying} {p : Steps t (Slot t)} (hp : r.steps A slot = some p) :
    slot ≠ .gone := by
  rintro rfl
  cases r <;> cases hp

lemma Consuming.ne_gone {r : Consuming} {p : Steps t (Slot t)} (hp : r.steps A slot = some p) :
    slot ≠ .gone := by
  rintro rfl
  cases r <;> cases hp

lemma Observing.ne_gone {r : Observing} {p : Steps t (Reply t)}
    (hp : r.steps slot slot' = some p) : slot ≠ .gone ∧ slot' ≠ .gone := by
  constructor
  · rintro rfl
    cases r <;> cases slot' <;> cases hp
  · rintro rfl
    cases r <;> cases slot <;> cases hp

end Requests

section Jobs

/-- The contract of a call: what its thread looks at, and that it may only refuse a string that is
too long. -/
def Task.call (task : Task t) (store : Store t) (looks : List (Holding t)) :
    Call (accounting t) where
  party := task.thread
  looks := looks
  refs := task.refs
  Excuses e := e = .panic tooLarge ∧ task.request.Oversized store

def Task.job (task : Task t) (store : Store t) (looks own : List (Holding t)) :
    Job (accounting t) (Result t) where
  call := task.call store looks
  post := task.request.Post store task.thread
  program := task.program
  own := own

variable {store : Store t} {es looks own : List (Holding t)} {task : Task t}

lemma Task.serves (hlooks : ∀ e ∈ looks, ∃ i ∈ task.request.looks, es[i]? = some e)
    (htext : ∀ i ∈ task.request.looks, ∃ e x, es[i]? = some e ∧ e.text = some x ∧
      store.get i = some x)
    (hconsumed : ∀ i, task.consumes = some i →
      es[i]? = some ⟨task.thread, .gone, none⟩ ∧ ∃ x, store.get i = some x) :
    Serves store es task (task.job store looks own) :=
  ⟨rfl, rfl, rfl, fun _ h => h, fun _ _ h => h, hlooks, htext, hconsumed⟩

end Jobs

end RefStr
