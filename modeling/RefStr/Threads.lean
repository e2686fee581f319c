import RefStr.Calls

/-! Threads that use the crate at the same time. A state is the shared world, what each thread
holds, and the calls in progress. Any call may make its next access at any time; the borrow
checker sees to it that a slot is not consumed while it is looked at, and `Send` and `Sync` to it
that only atomically counted values and handles are seen by other threads. -/
namespace RefStr
open Interleaving ByteMemory Arch
variable {t : Target}

/-- A slot and the thread that it belongs to. -/
structure Cell (t : Target) where
  thread : ℕ
  slot : Slot t

/-- `Send` and `Sync` hold of the types whose backend counts atomically. -/
def Slot.isSync : Slot t → Bool
  | value _ .sharedBackend _ => true
  | handle .sharedBackend _ => true
  | _ => false

inductive Request (t : Target)
  | create (r : Creation t)
  | copy (r : Copying) (i : ℕ)
  | consume (r : Consuming) (i : ℕ)
  | observe (r : Observing) (i j : ℕ)

/-- What a call comes to: something new for a slot, or an answer. -/
abbrev Result (t : Target) := Slot t ⊕ Reply t

namespace Request

/-- The slots that are borrowed while the call is in progress. -/
def looks : Request t → List ℕ
  | copy _ i => [i]
  | observe _ i j => [i, j]
  | _ => []

/-- The slot whose contents were moved into the call. -/
def consumes : Request t → Option ℕ
  | consume _ i => some i
  | _ => none

/-- The slots after the call. -/
def place (cells : List (Cell t)) (thread : ℕ) : Request t → Result t → List (Cell t)
  | create _, .inl y => cells ++ [⟨thread, y⟩]
  | copy _ _, .inl y => cells ++ [⟨thread, y⟩]
  | consume _ i, .inl y => cells.set i ⟨thread, y⟩
  | _, _ => cells

/-- The texts after the call, or after a panic out of it. -/
def record (store : Store t) (done : Bool) : Request t → Store t
  | create r => if done then store.apply (.create r) else store
  | copy r i => if done then store.apply (.copy r i) else store
  | consume r i => if done then store.apply (.consume r i) else store.set i none
  | observe _ _ _ => store

/-- The operation that the call is, if it makes or consumes anything. -/
def event : Request t → Option (Event t)
  | create r => some (.create r)
  | copy r i => some (.copy r i)
  | consume r i => some (.consume r i)
  | observe _ _ _ => none

/-- A string that is too long is handed over. -/
def Oversized (store : Store t) : Request t → Prop
  | create r => r.Oversized
  | consume r i => (∃ k, r = .fromShared k) ∧ ∃ x, store.get i = some x ∧ ¬ x.str.Compressible
  | _ => False

end Request

/-- A call in progress: the memory that its arguments refer to, and what is left to do. -/
structure Task (t : Target) where
  thread : ℕ
  request : Request t
  refs : List (RawStr t)
  program : Steps t (Result t)

def Task.consumes (task : Task t) : Option ℕ := task.request.consumes

structure Threads (t : Target) where
  world : World t
  cells : List (Cell t)
  tasks : List (Task t)

/-- The slices that a creation is given. -/
def Creation.borrows (r : Creation t) : List (RawStr t) :=
  (r.args 0).flatMap fun e => e.slot.borrows

namespace Threads

def initial (mem : Mem t.usizeBits) : Threads t := ⟨⟨mem, fun _ => none⟩, [], []⟩

/-- The sources of what is held, and of what is in progress, are alive. -/
structure BorrowsAlive (th : Threads t) : Prop where
  cells : ∀ cell ∈ th.cells, ∀ p ∈ cell.slot.borrows, Mapped th.world.mem p.ptr p.len.toNat
  tasks : ∀ task ∈ th.tasks, ∀ p ∈ task.refs, Mapped th.world.mem p.ptr p.len.toNat

/-- Memory of a counted allocation, or memory that something refers to. -/
def Protected (th : Threads t) (x : Usize t) : Prop :=
  (∃ p a, th.world.heap p = some a ∧ Within p a.len.toNat x) ∨
    (∃ cell ∈ th.cells, ∃ p ∈ cell.slot.borrows, Within p.ptr p.len.toNat x) ∨
      ∃ task ∈ th.tasks, ∃ p ∈ task.refs, Within p.ptr p.len.toNat x

/-- A thread makes a call. What it consumes is its own and is borrowed by no call in progress;
what it looks at is its own or may be seen by all threads. -/
inductive Starts (th : Threads t) (A : Allocator t) (thread : ℕ) :
    Task t → List (Cell t) → Prop
  | create {r : Creation t} (hread : r.Readable th.world) : Starts th A thread
      ⟨thread, .create r, r.borrows, do return .inl (← r.steps A)⟩ th.cells
  | copy {r : Copying} {i : ℕ} {cell : Cell t} {p : Steps t (Slot t)}
      (hcell : th.cells[i]? = some cell) (hmay : cell.thread = thread ∨ cell.slot.isSync = true)
      (hp : r.steps A cell.slot = some p) : Starts th A thread
        ⟨thread, .copy r i, cell.slot.borrows, do return .inl (← p)⟩ th.cells
  | consume {r : Consuming} {i : ℕ} {cell : Cell t} {p : Steps t (Slot t)}
      (hcell : th.cells[i]? = some cell) (hthread : cell.thread = thread)
      (hfree : ∀ task ∈ th.tasks, i ∉ task.request.looks)
      (hp : r.steps A cell.slot = some p) : Starts th A thread
        ⟨thread, .consume r i, cell.slot.borrows, do return .inl (← p)⟩
        (th.cells.set i ⟨thread, .gone⟩)
  | observe {r : Observing} {i j : ℕ} {cell cell' : Cell t} {p : Steps t (Reply t)}
      (hcell : th.cells[i]? = some cell) (hmay : cell.thread = thread ∨ cell.slot.isSync = true)
      (hcell' : th.cells[j]? = some cell')
      (hmay' : cell'.thread = thread ∨ cell'.slot.isSync = true)
      (hp : r.steps cell.slot cell'.slot = some p) : Starts th A thread
        ⟨thread, .observe r i j, cell.slot.borrows ++ cell'.slot.borrows,
          do return .inr (← p)⟩ th.cells

/-- One step of any thread. A step that ends a call is labelled with it, and with whether it
came to a result. -/
inductive Step (th : Threads t) : Option (Request t × Bool) → Threads t → Prop
  | environment (mem : Mem t.usizeBits)
      (hkeep : ∀ x, th.Protected x → mem x = th.world.mem x) :
      Step th none ⟨⟨mem, th.world.heap⟩, th.cells, th.tasks⟩
  | send (i thread : ℕ) {cell : Cell t} (hcell : th.cells[i]? = some cell)
      (hsend : cell.slot.isSync = true) (hfree : ∀ task ∈ th.tasks, i ∉ task.request.looks) :
      Step th none ⟨th.world, th.cells.set i ⟨thread, cell.slot⟩, th.tasks⟩
  | start (A : Allocator t) (thread : ℕ) {task : Task t} {cells : List (Cell t)}
      (hidle : ∀ task ∈ th.tasks, task.thread ≠ thread) (h : Starts th A thread task cells) :
      Step th none ⟨th.world, cells, th.tasks ++ [task]⟩
  | act {n : ℕ} {task : Task t} {i : Action t} {next : i.Answer → Steps t (Result t)}
      {r : i.Answer} {w : World t} (htask : th.tasks[n]? = some task)
      (hprogram : task.program = .act i next) (hrun : i.handle th.world = .ok r w)
      (halive : BorrowsAlive ⟨w, th.cells, th.tasks⟩) :
      Step th none ⟨w, th.cells, th.tasks.set n { task with program := next r }⟩
  | finish {n : ℕ} {task : Task t} {r : Result t} (htask : th.tasks[n]? = some task)
      (hprogram : task.program = .ret r) :
      Step th (some (task.request, true))
        ⟨th.world, task.request.place th.cells task.thread r, th.tasks.eraseIdx n⟩
  | panic {n : ℕ} {task : Task t} {message : String} (htask : th.tasks[n]? = some task)
      (hprogram : task.program = .fail (.panic message)) :
      Step th (some (task.request, false)) ⟨th.world, th.cells, th.tasks.eraseIdx n⟩

/-- A finite run of the threads, in any order, with the calls that ended in it. -/
inductive Run : List (Request t × Bool) → Threads t → Prop
  | initial (mem : Mem t.usizeBits) : Run [] (initial mem)
  | step {log : List (Request t × Bool)} {th th' : Threads t}
      {label : Option (Request t × Bool)} (hrun : Run log th) (hstep : Step th label th') :
      Run (log ++ label.toList) th'

end Threads

/-- The texts after the calls that have ended. -/
def Store.ofLog (log : List (Request t × Bool)) : Store t :=
  log.foldl (fun store entry => entry.1.record store entry.2) []

end RefStr
