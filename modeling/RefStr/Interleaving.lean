import Mathlib

/-!
# Interleaved programs

Programs act on a shared state one action at a time, and programs that run at once may have
their actions interleaved in any order. Accounts divide a state into entries, each of which
is held by one party. A program is safe when each action that it can come to succeeds next to
whatever the others hold, and trades what the program holds for something else. Safe programs
stay safe side by side: this is shown once, here, for every interleaving.
-/
namespace Interleaving

/-- What programs can do to a shared state in one step. -/
structure Machine where
  State : Type
  Fault : Type
  Action : Type
  Answer : Action → Type
  handle : (i : Action) → EStateM Fault State (Answer i)

variable {M : Machine} {α β : Type}

inductive Program (M : Machine) (α : Type)
  | ret (a : α)
  | fail (e : M.Fault)
  | act (i : M.Action) (next : M.Answer i → Program M α)

namespace Program

def bind (p : Program M α) (f : α → Program M β) : Program M β :=
  match p with
  | ret a => f a
  | fail e => fail e
  | act i next => act i fun r => (next r).bind f

instance : Monad (Program M) where
  pure := ret
  bind := bind

lemma bind_ret (p : Program M α) : p >>= pure = p := by
  change p.bind ret = p
  induction p with
  | ret a => rfl
  | fail e => rfl
  | act i next ih => simp only [bind, ih]

/-- One action, for its answer. -/
def perform (i : M.Action) : Program M (M.Answer i) := act i ret

def ofExcept (x : Except M.Fault α) : Program M α :=
  match x with
  | .ok a => ret a
  | .error e => fail e

/-- Do `cleanup` before the program ends with one of the faults that are caught. -/
def onFail (catches : M.Fault → Bool) (cleanup : Program M Unit) (p : Program M α) :
    Program M α :=
  match p with
  | ret a => ret a
  | fail e => if catches e then cleanup.bind fun _ => fail e else fail e
  | act i next => act i fun r => onFail catches cleanup (next r)

/-- The program on its own. -/
def run (p : Program M α) : EStateM M.Fault M.State α :=
  match p with
  | ret a => pure a
  | fail e => throw e
  | act i next => do run (next (← M.handle i))

@[simp] lemma run_pure (a : α) : run (pure a : Program M α) = pure a := (rfl)

@[simp] lemma run_bind (p : Program M α) (f : α → Program M β) :
    run (p >>= f) = run p >>= fun a => run (f a) := by
  change run (p.bind f) = _
  induction p with
  | ret a => exact (pure_bind a fun a => run (f a)).symm
  | fail e => rfl
  | act i next ih =>
    simp only [bind, run, ih, bind_assoc]

@[simp] lemma run_perform (i : M.Action) : run (perform i) = M.handle i := by
  simp [perform, run]

lemma run_act (i : M.Action) (next : M.Answer i → Program M α) (s : M.State) :
    run (act i next) s = match M.handle i s with
      | .ok r s' => run (next r) s'
      | .error e s' => .error e s' := by
  change EStateM.bind _ _ s = _
  rw [EStateM.bind]
  cases M.handle i s <;> rfl

/-- What every action keeps, a program keeps. -/
lemma keeps_run {P : M.State → Prop}
    (hkeep : ∀ (i : M.Action) s r s', M.handle i s = .ok r s' → P s → P s') (p : Program M α)
    {s s' : M.State} {a : α} (hs : P s) (hrun : run p s = .ok a s') : P s' := by
  induction p generalizing s with
  | ret a =>
    cases hrun
    exact hs
  | fail e => cases hrun
  | act i next ih =>
    rw [run_act] at hrun
    cases hi : M.handle i s with
    | ok r s'' =>
      rw [hi] at hrun
      exact ih r (hkeep i s r s'' hi hs) hrun
    | error e s'' =>
      rw [hi] at hrun
      cases hrun

/-- What is left to do when a computation has come to a fault. -/
def unwind (catches : M.Fault → Bool) (cleanup : EStateM M.Fault M.State Unit)
    (r : EStateM.Result M.Fault M.State α) : EStateM.Result M.Fault M.State α :=
  match r with
  | .ok a s => .ok a s
  | .error e s =>
    if catches e then
      match cleanup s with
      | .ok _ s' => .error e s'
      | .error e' s' => .error e' s'
    else .error e s

/-- Only the program itself, and no action, comes to a fault that is caught. -/
lemma run_onFail {catches : M.Fault → Bool} {cleanup : Program M Unit}
    (hcatch : ∀ (i : M.Action) s e s', M.handle i s = .error e s' → catches e = false)
    (p : Program M α) (s : M.State) :
    run (onFail catches cleanup p) s = unwind catches (run cleanup) (run p s) := by
  induction p generalizing s with
  | ret a => rfl
  | fail e =>
    change _ = unwind catches (run cleanup) (.error e s)
    rw [onFail, unwind]
    split_ifs
    · change run (cleanup >>= fun _ => fail e) s = _
      rw [run_bind]
      change EStateM.bind _ _ s = _
      rw [EStateM.bind]
      cases run cleanup s <;> rfl
    · rfl
  | act i next ih =>
    rw [onFail, run_act, run_act]
    cases hi : M.handle i s with
    | ok r s' => exact ih r s'
    | error e s' =>
      change _ = unwind catches (run cleanup) (.error e s')
      rw [unwind, hcatch i s e s' hi]
      rfl

end Program

/-- A division of states into entries that are held by parties. Entries may refer to parts of a
state that others are to keep alive. -/
structure Accounting (M : Machine) where
  Entry : Type
  Party : Type
  Ref : Type
  party : Entry → Party
  refs : Entry → List Ref
  Alive : M.State → Ref → Prop
  /-- The faults with which an action may stop everything. -/
  Stops : M.Fault → Prop
  Accounts : M.State → List Entry → Prop
  perm : ∀ {s es es'}, Accounts s es → es.Perm es' → Accounts s es'

/-- A party that runs a program, the entries of others that it looks at, what is kept alive for
it, and the faults with which the program may end. -/
structure Call (L : Accounting M) where
  party : L.Party
  looks : List L.Entry
  refs : List L.Ref
  Excuses : M.Fault → Prop

variable {L : Accounting M}

/-- The same call where no fault is excused. -/
def Call.strict (c : Call L) : Call L := { c with Excuses := fun _ => False }

/-- The entries may be held by the party. -/
def Call.Admits (c : Call L) (own : List L.Entry) : Prop :=
  ∀ e ∈ own, L.party e = c.party ∧ L.refs e ⊆ c.refs

/-- What is held may be seen as something else, whatever the others hold. -/
structure Becomes (c : Call L) (own own' : List L.Entry) : Prop where
  admits : c.Admits own → c.Admits own'
  accounts : ∀ s rest, c.looks ⊆ rest → c.Admits own → L.Accounts s (own ++ rest) →
    L.Accounts s (own' ++ rest)

namespace Becomes
variable {c : Call L} {own own' own'' : List L.Entry}

lemma refl (c : Call L) (own : List L.Entry) : Becomes c own own :=
  ⟨id, fun _ _ _ _ h => h⟩

lemma trans (h : Becomes c own own') (h' : Becomes c own' own'') : Becomes c own own'' :=
  ⟨fun hc => h'.admits (h.admits hc), fun s rest hl hc ha =>
    h'.accounts s rest hl (h.admits hc) (h.accounts s rest hl hc ha)⟩

lemma of_perm (hp : own.Perm own') : Becomes c own own' :=
  ⟨fun hc e he => hc e (hp.mem_iff.mpr he), fun _ rest _ _ ha =>
    L.perm ha (hp.append_right rest)⟩

end Becomes

/-- The program comes to a result as `Q` says, or to a fault that is excused; on the way every
action succeeds or stops everything, and keeps the accounts next to whatever others hold. -/
def Safe (c : Call L) (Q : α → List L.Entry → Prop) (p : Program M α) (own : List L.Entry) :
    Prop :=
  match p with
  | .ret a => ∃ own', Becomes c own own' ∧ Q a own'
  | .fail e => c.Excuses e ∧ ∃ own', Becomes c own own' ∧ ∀ e ∈ own', L.refs e = []
  | .act i next => ∀ s rest, c.looks ⊆ rest → c.Admits own → L.Accounts s (own ++ rest) →
    match M.handle i s with
    | .ok r s' => ∃ own', c.Admits own' ∧
        ((∀ e ∈ rest, ∀ p ∈ L.refs e, L.Alive s' p) → (∀ p ∈ c.refs, L.Alive s' p) →
          L.Accounts s' (own' ++ rest)) ∧ Safe c Q (next r) own'
    | .error e _ => L.Stops e

namespace Safe
variable {c : Call L} {Q R : α → List L.Entry → Prop} {S : β → List L.Entry → Prop}
  {own own' : List L.Entry} {p : Program M α}

lemma ret {a : α} (h : Q a own) : Safe c Q (pure a) own := ⟨own, Becomes.refl c own, h⟩

/-- What is held may be seen as something else at any time. -/
lemma becomes (hb : Becomes c own own') (h : Safe c Q p own') : Safe c Q p own := by
  cases p with
  | ret a =>
    obtain ⟨own'', hb', hq⟩ := h
    exact ⟨own'', hb.trans hb', hq⟩
  | fail e =>
    obtain ⟨he, own'', hb', hq⟩ := h
    exact ⟨he, own'', hb.trans hb', hq⟩
  | act i next =>
    intro s rest hl hc ha
    exact h s rest hl (hb.admits hc) (hb.accounts s rest hl hc ha)

/-- One program after another: the second takes over what the first one comes to hold. -/
lemma bind {f : α → Program M β} (h : Safe c R p own)
    (hf : ∀ a own', R a own' → Safe c S (f a) own') : Safe c S (p >>= f) own := by
  change Safe c S (p.bind f) own
  induction p generalizing own with
  | ret a =>
    obtain ⟨own', hb, hr⟩ := h
    exact becomes hb (hf a own' hr)
  | fail e => exact h
  | act i next ih =>
    intro s rest hl hc ha
    have hstep := h s rest hl hc ha
    cases hi : M.handle i s with
    | ok r s' =>
      rw [hi] at hstep
      obtain ⟨own', hc', hacc, hnext⟩ := hstep
      exact ⟨own', hc', hacc, ih r hnext⟩
    | error e s' =>
      rw [hi] at hstep
      exact hstep

lemma map {f : α → β} (h : Safe c (fun a => S (f a)) p own) :
    Safe c S (do return f (← p)) own :=
  h.bind fun _ _ => ret

lemma mono (h : Safe c Q p own) (hq : ∀ a own', Q a own' → R a own') : Safe c R p own := by
  rw [← Program.bind_ret p]
  exact h.bind fun a own' ha => ret (hq a own' ha)

/-- A part of a program that never fails needs no cleanup. -/
lemma onFail {catches : M.Fault → Bool} {cleanup : Program M Unit} {p : Program M α}
    (h : Safe c.strict Q p own) : Safe c Q (.onFail catches cleanup p) own := by
  induction p generalizing own with
  | ret a =>
    obtain ⟨own', hb, hq⟩ := h
    exact ⟨own', ⟨hb.admits, hb.accounts⟩, hq⟩
  | fail e => exact h.1.elim
  | act i next ih =>
    intro s rest hl hc ha
    have hstep := h s rest hl hc ha
    cases hi : M.handle i s with
    | ok r s' =>
      rw [hi] at hstep
      obtain ⟨own', hc', hacc, hnext⟩ := hstep
      exact ⟨own', hc', hacc, ih r hnext⟩
    | error e s' =>
      rw [hi] at hstep
      exact hstep

end Safe

/-- The program is safe, comes to `a`, and holds `own'` then. -/
def Computes (c : Call L) (p : Program M α) (own : List L.Entry) (a : α)
    (own' : List L.Entry) : Prop :=
  Safe c (fun r held => r = a ∧ held = own') p own

namespace Computes
variable {c : Call L} {S : β → List L.Entry → Prop} {own own' own'' : List L.Entry}
  {p : Program M α} {a : α} {b : β}

lemma ret : Computes c (pure a) own a own := Safe.ret ⟨rfl, rfl⟩

lemma safe {f : α → Program M β} (h : Computes c p own a own') (hf : Safe c S (f a) own') :
    Safe c S (p >>= f) own := by
  refine Safe.bind h ?_
  rintro _ _ ⟨rfl, rfl⟩
  exact hf

lemma bind {f : α → Program M β} (h : Computes c p own a own')
    (hf : Computes c (f a) own' b own'') : Computes c (p >>= f) own b own'' :=
  h.safe hf

lemma map {f : α → β} (h : Computes c p own a own') :
    Computes c (do return f (← p)) own (f a) own' :=
  h.bind ret

/-- What is held in the end may be seen as something else. -/
lemma becomes (h : Computes c p own a own') (hb : Becomes c own' own'') :
    Computes c p own a own'' := by
  rw [← Program.bind_ret p]
  exact h.bind (Safe.becomes hb ret)

end Computes

/-- A call in progress: its contract, what is left of its program, and what it holds. -/
structure Job (L : Accounting M) (α : Type) where
  call : Call L
  post : α → List L.Entry → Prop
  program : Program M α
  own : List L.Entry

/-- Safe jobs side by side, next to cells that none of them holds. -/
structure Sound (s : M.State) (cells : List L.Entry) (jobs : List (Job L α)) : Prop where
  accounts : L.Accounts s (cells ++ jobs.flatMap Job.own)
  looks : ∀ j ∈ jobs, j.call.looks ⊆ cells
  admits : ∀ j ∈ jobs, j.call.Admits j.own
  safe : ∀ j ∈ jobs, Safe j.call j.post j.program j.own

/-- What the cells and the jobs refer to is alive. -/
structure Alive (s : M.State) (cells : List L.Entry) (jobs : List (Job L α)) : Prop where
  cells : ∀ e ∈ cells, ∀ p ∈ L.refs e, L.Alive s p
  jobs : ∀ j ∈ jobs, ∀ p ∈ j.call.refs, L.Alive s p

namespace Sound
variable {s s' : M.State} {cells cells' own : List L.Entry} {jobs : List (Job L α)}
  {j : Job L α} {n : ℕ}

lemma perm_own (hj : jobs[n]? = some j) : (cells ++ jobs.flatMap Job.own).Perm
    (j.own ++ (cells ++ (jobs.eraseIdx n).flatMap Job.own)) := by
  obtain ⟨hn, rfl⟩ := List.getElem?_eq_some_iff.mp hj
  have hsplit : (jobs.flatMap Job.own).Perm
      (jobs[n].own ++ (jobs.eraseIdx n).flatMap Job.own) := by
    rw [← List.flatMap_cons]
    exact (List.getElem_cons_eraseIdx_perm hn).symm.flatMap_right Job.own
  exact (hsplit.append_left cells).trans (List.perm_append_comm_assoc _ _ _)

lemma perm_set (hn : n < jobs.length) (k : Job L α) :
    (k.own ++ (cells ++ (jobs.eraseIdx n).flatMap Job.own)).Perm
      (cells ++ (jobs.set n k).flatMap Job.own) := by
  have hsplit : ((jobs.set n k).flatMap Job.own).Perm
      (k.own ++ (jobs.eraseIdx n).flatMap Job.own) := by
    rw [← List.flatMap_cons]
    exact (List.set_perm_cons_eraseIdx hn k).flatMap_right Job.own
  exact (List.perm_append_comm_assoc _ _ _).trans (hsplit.symm.append_left cells)

/-- One action of one job, whatever the others are about to do. -/
lemma act (h : Sound s cells jobs) (hj : jobs[n]? = some j) {i : M.Action}
    {next : M.Answer i → Program M α} (hp : j.program = .act i next) :
    match M.handle i s with
    | .ok r s' => Alive s' cells jobs →
        ∃ own', Sound s' cells (jobs.set n { j with program := next r, own := own' })
    | .error e _ => L.Stops e := by
  have hmem := List.mem_of_getElem? hj
  have hsafe := h.safe j hmem
  rw [hp] at hsafe
  have hstep := hsafe s _ (fun e he => List.mem_append_left _ (h.looks j hmem he))
    (h.admits j hmem) (L.perm h.accounts (perm_own hj))
  cases hi : M.handle i s with
  | error e s' =>
    rw [hi] at hstep
    exact hstep
  | ok r s' =>
    rw [hi] at hstep
    obtain ⟨own', hadmits, hacc, hnext⟩ := hstep
    intro halive
    have hn := (List.getElem?_eq_some_iff.mp hj).1
    have hrest : ∀ e ∈ cells ++ (jobs.eraseIdx n).flatMap Job.own, ∀ p ∈ L.refs e,
        L.Alive s' p := by
      intro e he p hpe
      obtain he | he := List.mem_append.mp he
      · exact halive.cells e he p hpe
      · obtain ⟨k, hk, he⟩ := List.mem_flatMap.mp he
        have hk' := List.mem_of_mem_eraseIdx hk
        exact halive.jobs k hk' p ((h.admits k hk' e he).2 hpe)
    refine ⟨own', L.perm (hacc hrest fun p hp => halive.jobs j hmem p hp)
      (perm_set hn { j with program := next r, own := own' }), ?_, ?_, ?_⟩
    all_goals
      intro k hk
      obtain hk | rfl := List.mem_or_eq_of_mem_set hk
    · exact h.looks k hk
    · exact h.looks j hmem
    · exact h.admits k hk
    · exact hadmits
    · exact h.safe k hk
    · exact hnext

/-- A job that is gone leaves behind what became of what it held. -/
lemma leave (h : Sound s cells jobs) (hj : jobs[n]? = some j) (hb : Becomes j.call j.own own) :
    Sound s (own ++ cells) (jobs.eraseIdx n) := by
  have hmem := List.mem_of_getElem? hj
  refine ⟨?_, fun k hk => ?_, fun k hk => ?_, fun k hk => ?_⟩
  · rw [List.append_assoc]
    exact hb.accounts s _ (fun e he => List.mem_append_left _ (h.looks j hmem he))
      (h.admits j hmem) (L.perm h.accounts (perm_own hj))
  · exact fun e he =>
      List.mem_append_right _ (h.looks k (List.mem_of_mem_eraseIdx hk) he)
  · exact h.admits k (List.mem_of_mem_eraseIdx hk)
  · exact h.safe k (List.mem_of_mem_eraseIdx hk)

/-- A job that is over hands over what it holds. -/
lemma finish (h : Sound s cells jobs) (hj : jobs[n]? = some j) {a : α}
    (hp : j.program = .ret a) : ∃ own', j.post a own' ∧ j.call.Admits own' ∧
      Sound s (own' ++ cells) (jobs.eraseIdx n) := by
  have hmem := List.mem_of_getElem? hj
  have hsafe := h.safe j hmem
  rw [hp] at hsafe
  obtain ⟨own', hb, hq⟩ := hsafe
  exact ⟨own', hq, hb.admits (h.admits j hmem), h.leave hj hb⟩

/-- A job that has failed leaves behind what it holds, which refers to nothing. -/
lemma fail (h : Sound s cells jobs) (hj : jobs[n]? = some j) {e : M.Fault}
    (hp : j.program = .fail e) : j.call.Excuses e ∧ ∃ own', (∀ e ∈ own', L.refs e = []) ∧
      Sound s (own' ++ cells) (jobs.eraseIdx n) := by
  have hsafe := h.safe j (List.mem_of_getElem? hj)
  rw [hp] at hsafe
  obtain ⟨he, own', hb, hrefs⟩ := hsafe
  exact ⟨he, own', hrefs, h.leave hj hb⟩

/-- A job that starts takes over some of the cells. -/
lemma start (own : List L.Entry) (h : Sound s (own ++ cells) jobs)
    (hlooks : ∀ k ∈ jobs, k.call.looks ⊆ cells)
    (hj : j.call.looks ⊆ cells) (hown : j.own = own) (hadmits : j.call.Admits j.own)
    (hsafe : Safe j.call j.post j.program j.own) : Sound s cells (jobs ++ [j]) := by
  have hmem : ∀ k ∈ jobs ++ [j], k ∈ jobs ∨ k = j := by
    intro k hk
    simpa using hk
  refine ⟨?_, fun k hk => ?_, fun k hk => ?_, fun k hk => ?_⟩
  · have hacc := h.accounts
    refine L.perm hacc ?_
    rw [List.flatMap_append, List.flatMap_singleton, hown, List.append_assoc]
    exact List.perm_append_comm.trans (by rw [List.append_assoc])
  all_goals obtain hk | rfl := hmem k hk
  · exact hlooks k hk
  · exact hj
  · exact h.admits k hk
  · exact hadmits
  · exact h.safe k hk
  · exact hsafe

/-- The state and the cells may change where the accounts follow. -/
lemma congr (h : Sound s cells jobs)
    (hacc : L.Accounts s (cells ++ jobs.flatMap Job.own) →
      L.Accounts s' (cells' ++ jobs.flatMap Job.own))
    (hlooks : ∀ k ∈ jobs, k.call.looks ⊆ cells') : Sound s' cells' jobs :=
  ⟨hacc h.accounts, hlooks, h.admits, h.safe⟩

end Sound

end Interleaving
