import RefStr.Stepwise
import RefStr.Invariant

/-! Who holds what while threads run. A holding is a slot with the text that it stands for and the
thread that it belongs to; the accounts of a world are kept in holdings. `Rc` counts are not
synchronised, so all owners of one local allocation belong to one thread. -/
namespace RefStr
open Interleaving ByteMemory
variable {t : Target} {B : Backend} {α β : Type}

structure Holding (t : Target) where
  thread : ℕ
  slot : Slot t
  text : Option (Text t)

namespace Holding

def owners (e : Holding t) : List (Owner t) := e.slot.owners

/-- A value of the core, in whichever wrapper. -/
def value (thread : ℕ) (k : WrapperKind) (v : RefStrCore t B) (x : Text t) : Holding t :=
  ⟨thread, .value k B ⟨v⟩, some x⟩

def handle (thread : ℕ) (h : Shared t B) (s : Str t) : Holding t :=
  ⟨thread, .handle B h, some ⟨s, .shared⟩⟩

def raw (thread : ℕ) (B : Backend) (p : RawStr t) (s : Str t) : Holding t :=
  ⟨thread, .raw B p, some ⟨s, .shared⟩⟩

/-- A pointer into borrowed memory. -/
def pointer (thread : ℕ) (p : RawStr t) (s : Str t) : Holding t :=
  ⟨thread, .pointer p, some ⟨s, .borrowed p.ptr⟩⟩

end Holding

/-- The accounts of a world: the allocations are sound, the counts are balanced by the holdings,
the holdings stand for their texts, and no local allocation is shared between threads. -/
structure World.Accounts (w : World t) (es : List (Holding t)) : Prop where
  sound : w.Sound
  balanced : Ledger.Balanced w.counts (es.flatMap Holding.owners)
  holds : ∀ e ∈ es, e.slot.Holds w e.text
  confined : ∀ e ∈ es, ∀ e' ∈ es, ∀ o ∈ e.owners, o ∈ e'.owners →
    o.backend = .localBackend → e.thread = e'.thread

namespace World.Accounts
variable {w w' : World t} {es es' xs ys rest : List (Holding t)} {thread : ℕ}

lemma perm (h : w.Accounts es) (hp : es.Perm es') : w.Accounts es' :=
  ⟨h.sound, h.balanced.perm (hp.flatMap_right _), fun e he => h.holds e (hp.mem_iff.mpr he),
    fun e he e' he' => h.confined e (hp.mem_iff.mpr he) e' (hp.mem_iff.mpr he')⟩

lemma counted (h : w.Accounts es) {e : Holding t} (he : e ∈ es) {o : Owner t}
    (ho : o ∈ e.owners) : w.counts o ≠ none := by
  rw [h.balanced.eq_some_count (List.mem_flatMap.mpr ⟨e, he, ho⟩)]
  exact Option.some_ne_none _

lemma exists_owner (h : w.Accounts es) {o : Owner t} (ho : w.counts o ≠ none) :
    ∃ e ∈ es, o ∈ e.owners := List.mem_flatMap.mp (h.balanced.mem_of_ne_none ho)

/-- Some holdings of a thread are traded for others, next to holdings whose sources are kept
alive. Owners of local allocations are passed on within the thread or are new. -/
lemma trade (thread : ℕ) (xs ys : List (Holding t)) (h : w.Accounts (xs ++ rest))
    (hev : World.Evolves w (xs.flatMap Holding.owners) w' (ys.flatMap Holding.owners))
    (hys : ∀ y ∈ ys, y.slot.Holds w' y.text)
    (hthread : ∀ y ∈ ys, y.thread = thread ∧ ∀ o ∈ y.owners, o.backend = .localBackend →
      (∃ e ∈ xs ++ rest, e.thread = thread ∧ o ∈ e.owners) ∨ w.counts o = none)
    (halive : ∀ e ∈ rest, ∀ p ∈ e.slot.borrows, Mapped w'.mem p.ptr p.len.toNat) :
    w'.Accounts (ys ++ rest) := by
  have hsound := hev.sound h.sound
  have hbalanced' : Ledger.Balanced w'.counts ((ys ++ rest).flatMap Holding.owners) := by
    have hbalanced := h.balanced
    rw [List.flatMap_append] at hbalanced ⊢
    exact hev.updates _ hbalanced
  -- What is in the accounts of `rest` was there before.
  have hnew : ∀ y ∈ ys, ∀ e ∈ rest, ∀ o ∈ y.owners, o ∈ e.owners →
      o.backend = .localBackend → y.thread = e.thread := by
    intro y hy e he o ho ho' hlocal
    obtain ⟨hty, hfrom⟩ := hthread y hy
    have he' := List.mem_append_right xs he
    obtain ⟨d, hd, hdt, hdo⟩ | hfresh := hfrom o ho hlocal
    · rw [hty, ← hdt]
      exact h.confined d hd e he' o hdo ho' hlocal
    · exact absurd hfresh (h.counted he' ho')
  refine ⟨hsound, hbalanced', fun e he => ?_, fun e he e' he' o ho ho' hlocal => ?_⟩
  · obtain hy | he := List.mem_append.mp he
    · exact hys e hy
    · refine (h.holds e (List.mem_append_right _ he)).of_steady hev.steady hsound (halive e he) ?_
      intro o ho
      rw [hbalanced'.eq_some_count
        (List.mem_flatMap.mpr ⟨e, List.mem_append_right _ he, ho⟩)]
      exact Option.some_ne_none _
  · obtain hy | he := List.mem_append.mp he <;> obtain hy' | he' := List.mem_append.mp he'
    · rw [(hthread e hy).1, (hthread e' hy').1]
    · exact hnew e hy e' he' o ho ho' hlocal
    · exact (hnew e' hy' e he o ho' ho hlocal).symm
    · exact h.confined e (List.mem_append_right _ he) e' (List.mem_append_right _ he') o ho ho'
        hlocal

/-- Memory that no holding refers to may change. -/
lemma environment (h : w.Accounts es) {mem : Mem t.usizeBits}
    (hkeep : ∀ x, Sys.Protected ⟨w, es.map Holding.slot⟩ x → mem x = w.mem x) :
    (⟨mem, w.heap⟩ : World t).Accounts es := by
  let sys : Sys t := ⟨w, es.map Holding.slot⟩
  have hsound : sys.world.Sound := h.sound
  refine ⟨hsound.environment hkeep, h.balanced, fun e he => ?_, h.confined⟩
  have hx : e.slot.Holds sys.world e.text := h.holds e he
  exact hx.environment (List.mem_map_of_mem he) (fun o ho => h.counted he ho) hkeep

/-- What owns nothing may be held by anyone. -/
lemma cons (h : w.Accounts es) {e : Holding t} (he : e.owners = [])
    (hx : e.slot.Holds w e.text) : w.Accounts (e :: es) := by
  refine trade e.thread [] [e] h ?_ ?_ ?_ fun e' he' => (h.holds e' he').mapped
  · simpa [he] using World.Evolves.refl w []
  · simpa using hx
  · simp [he]

lemma of_cons {e : Holding t} (h : w.Accounts (e :: es)) (he : e.owners = []) : w.Accounts es := by
  refine trade 0 [e] [] h ?_ ?_ ?_
    fun e' he' => (h.holds e' (List.mem_cons_of_mem _ he')).mapped
  · simpa [he] using World.Evolves.refl w []
  · simp
  · simp

lemma append (h : w.Accounts es)
    (hxs : ∀ e ∈ xs, e.owners = [] ∧ e.slot.Holds w e.text) : w.Accounts (xs ++ es) := by
  induction xs with
  | nil => exact h
  | cons e xs ih =>
    obtain ⟨he, hx⟩ := hxs e List.mem_cons_self
    exact (ih fun e he => hxs e (List.mem_cons_of_mem _ he)).cons he hx

/-- What owns no local allocation may pass from thread to thread. -/
lemma rethread {thread' : ℕ} {slot : Slot t} {x : Option (Text t)}
    (h : w.Accounts (⟨thread, slot, x⟩ :: es))
    (hlocal : ∀ o ∈ slot.owners, o.backend ≠ .localBackend) :
    w.Accounts (⟨thread', slot, x⟩ :: es) := by
  refine trade thread' [⟨thread, slot, x⟩] [⟨thread', slot, x⟩] h (World.Evolves.refl w _) ?_ ?_
    fun e he => (h.holds e (List.mem_cons_of_mem _ he)).mapped
  · intro y hy
    obtain rfl := List.mem_singleton.mp hy
    have hx : slot.Holds w x := h.holds _ List.mem_cons_self
    exact hx
  · intro y hy
    obtain rfl := List.mem_singleton.mp hy
    exact ⟨rfl, fun o ho hl => absurd hl (hlocal o ho)⟩

end World.Accounts

/-- Accounts in holdings; only an allocator without room stops everything. -/
abbrev accounting (t : Target) : Accounting (machine t) where
  Entry := Holding t
  Party := ℕ
  Ref := RawStr t
  party := Holding.thread
  refs e := e.slot.borrows
  Alive w p := Mapped w.mem p.ptr p.len.toNat
  Stops e := e = .aborted
  Accounts := World.Accounts
  perm := World.Accounts.perm

namespace Stepwise
variable {c : Call (accounting t)} {own own' : List (Holding t)} {xs ys : List (Holding t)}
  {v : RefStrCore t B} {x : Text t} {p : RawStr t} {s : Str t}

/-- Holdings stand for other holdings with the same owners. -/
lemma becomes_of (xs ys : List (Holding t))
    (howners : ys.flatMap Holding.owners = xs.flatMap Holding.owners)
    (hadmits : c.Admits (xs ++ own) → c.Admits ys)
    (hholds : ∀ w rest, c.looks ⊆ rest → w.Accounts (xs ++ own ++ rest) →
      ∀ y ∈ ys, y.slot.Holds w y.text) : Becomes c (xs ++ own) (ys ++ own) := by
  have hall : c.Admits (xs ++ own) → c.Admits (ys ++ own) := by
    intro hc e he
    obtain he | he := List.mem_append.mp he
    · exact hadmits hc e he
    · exact hc e (List.mem_append_right _ he)
  refine ⟨hall, fun w rest hl hc hacc => ?_⟩
  have hacc' : w.Accounts (xs ++ (own ++ rest)) := by rwa [← List.append_assoc]
  rw [List.append_assoc]
  refine hacc'.trade c.party xs ys ?_ (hholds w rest hl hacc) ?_ ?_
  · rw [howners]
    exact World.Evolves.refl w _
  · refine fun y hy => ⟨(hadmits hc y hy).1, fun o ho _ => Or.inl ?_⟩
    have hmem : o ∈ xs.flatMap Holding.owners :=
      howners ▸ List.mem_flatMap.mpr ⟨y, hy, ho⟩
    obtain ⟨e, he, ho⟩ := List.mem_flatMap.mp hmem
    exact ⟨e, List.mem_append_left _ he, (hc e (List.mem_append_left _ he)).1, ho⟩
  · exact fun e he => (hacc'.holds e (List.mem_append_right _ he)).mapped

/-- A slot is seen as another one that owns the same and borrows no more. -/
lemma becomes_slot {thread : ℕ} {slot : Slot t} (slot' : Slot t) {x x' : Option (Text t)}
    (howners : slot'.owners = slot.owners) (hborrows : slot'.borrows ⊆ slot.borrows)
    (hholds : ∀ w : World t, slot.Holds w x → slot'.Holds w x') :
    Becomes c (⟨thread, slot, x⟩ :: own) (⟨thread, slot', x'⟩ :: own) := by
  refine becomes_of [⟨thread, slot, x⟩] [⟨thread, slot', x'⟩] ?_ ?_ ?_
  · simpa [Holding.owners] using howners
  · intro hc y hy
    obtain rfl := List.mem_singleton.mp hy
    obtain ⟨hthread, hrefs⟩ := hc _ List.mem_cons_self
    exact ⟨hthread, fun p hp => hrefs (hborrows hp)⟩
  · intro w rest _ hacc y hy
    obtain rfl := List.mem_singleton.mp hy
    exact hholds w (hacc.holds _ List.mem_cons_self)

/-- What owns nothing need not be held any more. -/
lemma becomes_nil {y : Holding t} (h : y.owners = []) : Becomes c (y :: own) own := by
  refine becomes_of [y] [] ?_ ?_ ?_
  · simpa using h.symm
  · simp [Call.Admits]
  · simp

lemma becomes_gone : Becomes c own (⟨c.party, .gone, none⟩ :: own) := by
  refine becomes_of [] [⟨c.party, .gone, none⟩] rfl ?_ ?_
  · intro _ y hy
    obtain rfl := List.mem_singleton.mp hy
    exact ⟨rfl, List.nil_subset _⟩
  · intro w rest _ _ y hy
    obtain rfl := List.mem_singleton.mp hy
    exact .gone

end Stepwise
end RefStr
