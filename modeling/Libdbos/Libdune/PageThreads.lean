import Libdbos.Framework.Census
import Libdbos.Framework.Places
import Libdbos.Framework.System
import Libdbos.Libdune.PagePool
import Mathlib.Data.List.Nodup

/-! # The Pool of Pages under Many Threads

    The allocator of `libdune/page.c` with any number of threads on up to 103
    cores. A thread takes pages from the list of its core, under the mutex of
    that list. If the list is empty, the thread grows the pool by 512 pages
    while it holds the mutex, or else steals pages from a list of no core.

    Growth moves the counter of pages first, and moves it back if it has gone
    too far. So the counter may be too high for a moment; `committed` is the
    counter without the growths that are about to be undone.

    A page is on the lists once if it has been linked, has no reference, and no
    thread has it in hand (`pages_listed_once`).
-/

namespace PageThreads

open Dune LTS Places

/-! ### State -/

/-- Cores and threads. A thread that has not entered dune mode uses list 0. -/
structure Cores where
  maxCores : Nat
  threads : Nat
  home : Fin threads → Nat
  cores_lt : maxCores < numGlobalLists
  home_lt : ∀ t, home t < maxCores

/-- Where a thread is, with the attempts at stealing that `dune_page_alloc` has
    made so far. -/
inductive Pc where
  | idle
  /-- At the label `retry`. -/
  | again (attempts : Nat)
  /-- In `grow_size`, with the mutex of its list. -/
  | growing (attempts : Nat)
  /-- The counter was below the limit. -/
  | adding (attempts : Nat)
  /-- The counter is above the limit now. -/
  | undoing (attempts : Nat)
  /-- The pages from `first` on are to be mapped and linked. -/
  | linking (attempts first : Nat)
  | stealing (attempts : Nat)
  /-- Page `pg` is off its list and has no reference yet. -/
  | popped (pg : Nat)
  /-- The last reference on page `pg` is gone; it is not listed yet. -/
  | released (pg : Nat)
  deriving DecidableEq, Repr

structure State (c : Cores) where
  numPages : Nat
  ref : Nat → Nat
  lists : Nat → List Nat
  /-- The mutexes that threads keep from one step to the next. -/
  locked : Nat → Bool
  pc : Fin c.threads → Pc
  /-- The pages that `grow_size` has put on a list. -/
  linked : Nat → Bool
  /-- The references that have been handed out. -/
  holders : Nat → Nat

/-! ### Steps -/

inductive Label (c : Cores) where
  /-- The thread locks its list, and pops a page if there is one. -/
  | alloc (t : Fin c.threads)
  /-- The test at the start of `grow_size`. -/
  | load (t : Fin c.threads)
  | add (t : Fin c.threads)
  | sub (t : Fin c.threads)
  /-- The mapping of new pages, which may fail, and their way onto the list. -/
  | link (t : Fin c.threads) (mapped : Bool)
  /-- An attempt to steal from list `victim`, whose mutex may be taken. -/
  | steal (t : Fin c.threads) (victim : Nat) (busy : Bool)
  /-- The reference for a page that has been popped. -/
  | take (t : Fin c.threads)
  /-- A holder of page `pg` takes another reference. -/
  | get (t : Fin c.threads) (pg : Nat)
  /-- A holder of page `pg` drops a reference. -/
  | put (t : Fin c.threads) (pg : Nat)
  /-- The page goes back to the list of the thread. -/
  | free (t : Fin c.threads)
  deriving DecidableEq

/-- The attempts of a thread that is about to lock its list. -/
def Pc.attempts : Pc → Option Nat
  | .idle => some 0
  | .again k => some k
  | _ => none

variable {c : Cores}

def State.goto (s : State c) (t : Fin c.threads) (pc : Pc) : State c :=
  { s with pc := Function.update s.pc t pc }

def State.setList (s : State c) (i : Nat) (list : List Nat) : State c :=
  { s with lists := Function.update s.lists i list }

def State.setLock (s : State c) (i : Nat) (b : Bool) : State c :=
  { s with locked := Function.update s.locked i b }

def State.setNum (s : State c) (num : Nat) : State c := { s with numPages := num }

def State.setRef (s : State c) (pg ref holders : Nat) : State c :=
  { s with
    ref := Function.update s.ref pg ref
    holders := Function.update s.holders pg holders }

/-- The pages from `first` on are linked, without references. -/
def State.linkPages (s : State c) (first : Nat) : State c :=
  { s with
    ref := fun pg => if first ≤ pg ∧ pg < first + growSize then 0 else s.ref pg
    linked := fun pg => decide (first ≤ pg ∧ pg < first + growSize) || s.linked pg }

/-- The new pages in front of the list: each is inserted at the head. -/
def linkList (first : Nat) (list : List Nat) : List Nat :=
  (List.range' first growSize).reverse ++ list

def step (s : State c) : Label c → Option (State c)
  | .alloc t =>
      match (s.pc t).attempts with
      | none => none
      | some k =>
          if 100000 < k then some (s.goto t .idle)
          else if s.locked (c.home t) then none
          else
            match s.lists (c.home t) with
            | pg :: rest => some ((s.setList (c.home t) rest).goto t (.popped pg))
            | [] => some ((s.setLock (c.home t) true).goto t (.growing k))
  | .load t =>
      match s.pc t with
      | .growing k =>
          if maxPages ≤ s.numPages then some (s.goto t (.stealing k))
          else some (s.goto t (.adding k))
      | _ => none
  | .add t =>
      match s.pc t with
      | .adding k =>
          let s' := s.setNum (s.numPages + growSize)
          if maxPages < s.numPages + growSize then some (s'.goto t (.undoing k))
          else some (s'.goto t (.linking k s.numPages))
      | _ => none
  | .sub t =>
      match s.pc t with
      | .undoing k => some ((s.setNum (s.numPages - growSize)).goto t (.stealing k))
      | _ => none
  | .link t mapped =>
      match s.pc t with
      | .linking k first =>
          if mapped then
            match linkList first (s.lists (c.home t)) with
            | pg :: rest =>
                let s' := (s.linkPages first).setList (c.home t) rest
                some ((s'.setLock (c.home t) false).goto t (.popped pg))
            | [] => none
          else some (s.goto t (.stealing k))
      | _ => none
  | .steal t victim busy =>
      match s.pc t with
      | .stealing k =>
          if c.maxCores ≤ victim ∧ victim < numGlobalLists then
            let lists := if busy then s.lists else stealPages victim (c.home t) growSize s.lists
            some (({ s with lists := lists }.setLock (c.home t) false).goto t (.again (k + 1)))
          else none
      | _ => none
  | .take t =>
      match s.pc t with
      | .popped pg => some ((s.setRef pg (s.ref pg + 1) (s.holders pg + 1)).goto t .idle)
      | _ => none
  | .get t pg =>
      if s.pc t = .idle ∧ 0 < s.holders pg then
        some (s.setRef pg (s.ref pg + 1) (s.holders pg + 1))
      else none
  | .put t pg =>
      if s.pc t = .idle ∧ 0 < s.holders pg then
        let s' := s.setRef pg (s.ref pg - 1) (s.holders pg - 1)
        if s.ref pg - 1 = 0 then some (s'.goto t (.released pg)) else some s'
      else none
  | .free t =>
      match s.pc t with
      | .released pg =>
          -- The assertion of `dune_page_free`.
          if s.ref pg ≠ 0 ∨ s.locked (c.home t) then none
          else some ((s.setList (c.home t) (pg :: s.lists (c.home t))).goto t .idle)
      | _ => none

/-! ### Runs -/

/-- How often a page is on the free lists. -/
def State.listed (s : State c) (pg : Nat) : Nat := total (List.range numGlobalLists) s.lists pg

/-- The pool holds a whole number of growths, all of its pages are free, and no
    thread is in a call. -/
structure Init (s : State c) : Prop where
  grown : growSize ∣ s.numPages
  le : s.numPages ≤ maxPages
  listed : ∀ pg, s.listed pg = if pg < s.numPages then 1 else 0
  linked : ∀ pg, s.linked pg = decide (pg < s.numPages)
  ref : ∀ pg, s.ref pg = 0
  holders : ∀ pg, s.holders pg = 0
  idle : ∀ t, s.pc t = .idle
  unlocked : ∀ i, s.locked i = false

def pages (c : Cores) : System (State c) (Label c) where
  init := Init
  step := step

/-- Memory can be mapped for new pages. -/
def MappingSucceeds (_ : State c) : Label c → Bool
  | .link _ mapped => mapped
  | _ => true

/-! ### What a step can do -/

/-- The steps where memory can be mapped, one by one. -/
inductive Moves (s : State c) : Label c → State c → Prop where
  | pop {t pg rest k} (hpc : (s.pc t).attempts = some k) (hk : k ≤ 100000)
      (hlock : s.locked (c.home t) = false) (hlist : s.lists (c.home t) = pg :: rest) :
      Moves s (.alloc t) ((s.setList (c.home t) rest).goto t (.popped pg))
  | lock {t k} (hpc : (s.pc t).attempts = some k) (hk : k ≤ 100000)
      (hlock : s.locked (c.home t) = false) (hlist : s.lists (c.home t) = []) :
      Moves s (.alloc t) ((s.setLock (c.home t) true).goto t (.growing k))
  | fail {t k} (hpc : (s.pc t).attempts = some k) (hk : 100000 < k) :
      Moves s (.alloc t) (s.goto t .idle)
  | full {t k} (hpc : s.pc t = .growing k) (hnum : maxPages ≤ s.numPages) :
      Moves s (.load t) (s.goto t (.stealing k))
  | room {t k} (hpc : s.pc t = .growing k) (hnum : s.numPages < maxPages) :
      Moves s (.load t) (s.goto t (.adding k))
  | beyond {t k} (hpc : s.pc t = .adding k) (hnum : maxPages < s.numPages + growSize) :
      Moves s (.add t) ((s.setNum (s.numPages + growSize)).goto t (.undoing k))
  | grant {t k} (hpc : s.pc t = .adding k) (hnum : s.numPages + growSize ≤ maxPages) :
      Moves s (.add t) ((s.setNum (s.numPages + growSize)).goto t (.linking k s.numPages))
  | undo {t k} (hpc : s.pc t = .undoing k) :
      Moves s (.sub t) ((s.setNum (s.numPages - growSize)).goto t (.stealing k))
  | link {t k first pg rest} (hpc : s.pc t = .linking k first)
      (hlist : linkList first (s.lists (c.home t)) = pg :: rest) :
      Moves s (.link t true)
        ((((s.linkPages first).setList (c.home t) rest).setLock (c.home t) false).goto t
          (.popped pg))
  | steal {t k victim busy lists} (hpc : s.pc t = .stealing k) (hcore : c.maxCores ≤ victim)
      (hlt : victim < numGlobalLists)
      (hlists : lists = if busy then s.lists else stealPages victim (c.home t) growSize s.lists) :
      Moves s (.steal t victim busy)
        (({ s with lists := lists }.setLock (c.home t) false).goto t (.again (k + 1)))
  | take {t pg} (hpc : s.pc t = .popped pg) :
      Moves s (.take t) ((s.setRef pg (s.ref pg + 1) (s.holders pg + 1)).goto t .idle)
  | get {t pg} (hpc : s.pc t = .idle) (hheld : 0 < s.holders pg) :
      Moves s (.get t pg) (s.setRef pg (s.ref pg + 1) (s.holders pg + 1))
  | put {t pg} (hpc : s.pc t = .idle) (hheld : 0 < s.holders pg) (href : s.ref pg - 1 ≠ 0) :
      Moves s (.put t pg) (s.setRef pg (s.ref pg - 1) (s.holders pg - 1))
  | last {t pg} (hpc : s.pc t = .idle) (hheld : 0 < s.holders pg) (href : s.ref pg - 1 = 0) :
      Moves s (.put t pg) ((s.setRef pg (s.ref pg - 1) (s.holders pg - 1)).goto t (.released pg))
  | free {t pg} (hpc : s.pc t = .released pg) (href : s.ref pg = 0)
      (hlock : s.locked (c.home t) = false) :
      Moves s (.free t) ((s.setList (c.home t) (pg :: s.lists (c.home t))).goto t .idle)

theorem moves_of_step {s s' : State c} {l : Label c} (hok : MappingSucceeds s l = true)
    (h : step s l = some s') : Moves s l s' := by
  match l with
  | .alloc t =>
    simp only [step] at h
    split at h
    · cases h
    · next k hpc =>
      split at h
      · next hk =>
        cases h
        exact .fail hpc hk
      · next hk =>
        split at h
        · cases h
        · next hlock =>
          have hk := Nat.le_of_not_lt hk
          have hlock := eq_false_of_ne_true hlock
          split at h
          · next hlist =>
            cases h
            exact .pop hpc hk hlock hlist
          · next hlist =>
            cases h
            exact .lock hpc hk hlock hlist
  | .load t =>
    simp only [step] at h
    split at h
    · next k hpc =>
      split at h
      · next hnum =>
        cases h
        exact .full hpc hnum
      · next hnum =>
        cases h
        exact .room hpc (Nat.lt_of_not_le hnum)
    · cases h
  | .add t =>
    simp only [step] at h
    split at h
    · next k hpc =>
      split at h
      · next hnum =>
        cases h
        exact .beyond hpc hnum
      · next hnum =>
        cases h
        exact .grant hpc (Nat.le_of_not_lt hnum)
    · cases h
  | .sub t =>
    simp only [step] at h
    split at h
    · next k hpc =>
      obtain rfl := Option.some.inj h
      exact .undo hpc
    · cases h
  | .link t mapped =>
    cases hok
    simp only [step, if_true] at h
    split at h
    · next k first hpc =>
      split at h
      · next hlist =>
        cases h
        exact .link hpc hlist
      · cases h
    · cases h
  | .steal t victim busy =>
    simp only [step] at h
    split at h
    · next k hpc =>
      split at h
      · next hvictim =>
        cases h
        exact .steal hpc hvictim.1 hvictim.2 rfl
      · cases h
    · cases h
  | .take t =>
    simp only [step] at h
    split at h
    · next pg hpc =>
      cases h
      exact .take hpc
    · cases h
  | .get t pg =>
    simp only [step] at h
    split at h
    · next hheld =>
      cases h
      exact .get hheld.1 hheld.2
    · cases h
  | .put t pg =>
    simp only [step] at h
    split at h
    · next hheld =>
      split at h
      · next href =>
        cases h
        exact .last hheld.1 hheld.2 href
      · next href =>
        cases h
        exact .put hheld.1 hheld.2 href
    · cases h
  | .free t =>
    simp only [step] at h
    split at h
    · next pg hpc =>
      split at h
      · cases h
      · next hfree =>
        cases h
        rw [not_or, not_not, Bool.not_eq_true] at hfree
        exact .free hpc hfree.1 hfree.2
    · cases h

/-- Every move is a step. -/
theorem step_of_moves {s s' : State c} {l : Label c} (h : Moves s l s') : step s l = some s' := by
  cases h with
  | pop hpc hk hlock hlist | lock hpc hk hlock hlist =>
    simp only [step, hpc, Nat.not_lt.mpr hk, hlock, hlist, if_false,
      Bool.false_eq_true]
  | fail hpc hk => simp only [step, hpc, hk, if_true]
  | full hpc hnum => simp only [step, hpc, hnum, if_true]
  | room hpc hnum => simp only [step, hpc, Nat.not_le.mpr hnum, if_false]
  | beyond hpc hnum => simp only [step, hpc, hnum, if_true]
  | grant hpc hnum => simp only [step, hpc, Nat.not_lt.mpr hnum, if_false]
  | undo hpc => simp only [step, hpc]
  | link hpc hlist => simp only [step, hpc, hlist, if_true]
  | steal hpc hcore hlt hlists => simp only [step, hpc, hcore, hlt, hlists, and_self, if_true]
  | take hpc => simp only [step, hpc]
  | get hpc hheld => simp only [step, hpc, hheld, and_self, if_true]
  | put hpc hheld href => simp only [step, hpc, hheld, href, and_self, if_true, if_false]
  | last hpc hheld href => simp only [step, hpc, hheld, href, and_self, if_true]
  | free hpc href hlock =>
    simp only [step, hpc, href, hlock, ne_eq, not_true_eq_false, Bool.false_eq_true, or_self,
      if_false]

/-! ### Pages in the hands of threads -/

/-- The page that a thread has taken off a list, or is about to put on one. -/
def Pc.inHand : Pc → List Nat
  | .popped pg => [pg]
  | .released pg => [pg]
  | _ => []

/-- The pages that a thread is about to link. -/
def Pc.granted : Pc → List Nat
  | .linking _ first => List.range' first growSize
  | _ => []

def Pc.undoes : Pc → Bool
  | .undoing _ => true
  | _ => false

def State.inHand (s : State c) (pg : Nat) : Nat :=
  total (List.finRange c.threads) (Pc.inHand ∘ s.pc) pg

def State.granted (s : State c) (pg : Nat) : Nat :=
  total (List.finRange c.threads) (Pc.granted ∘ s.pc) pg

/-- The growths that are about to be undone. -/
def State.undoing (s : State c) : Nat :=
  (List.finRange c.threads).countP fun t => (s.pc t).undoes

/-- The counter without the growths that are about to be undone. -/
def State.committed (s : State c) : Nat := s.numPages - growSize * s.undoing

section

variable (s : State c) (t : Fin c.threads) (pc : Pc) (pg : Nat)

theorem goto_inHand : (s.goto t pc).inHand pg + (s.pc t).inHand.count pg =
    s.inHand pg + pc.inHand.count pg := by
  have h := total_update (List.nodup_finRange _) (List.mem_finRange t) (Pc.inHand ∘ s.pc)
    pc.inHand pg
  rw [← Function.comp_update] at h
  exact h

theorem goto_granted : (s.goto t pc).granted pg + (s.pc t).granted.count pg =
    s.granted pg + pc.granted.count pg := by
  have h := total_update (List.nodup_finRange _) (List.mem_finRange t) (Pc.granted ∘ s.pc)
    pc.granted pg
  rw [← Function.comp_update] at h
  exact h

theorem goto_undoing : (s.goto t pc).undoing + (if (s.pc t).undoes then 1 else 0) =
    s.undoing + if pc.undoes then 1 else 0 :=
  Census.countP_update (List.nodup_finRange _) (List.mem_finRange t) s.pc pc Pc.undoes

theorem setList_listed (list : List Nat) :
    (s.setList (c.home t) list).listed pg + (s.lists (c.home t)).count pg =
      s.listed pg + list.count pg := by
  refine total_update List.nodup_range (List.mem_range.mpr ?_) s.lists list pg
  exact Nat.lt_trans (c.home_lt t) c.cores_lt

end

/-! ### Where pages are -/

/-- Every linked page without a reference is on a list or in a hand, and in one
    of them only; the counts are the references that are out. -/
structure Custody (listed inHand : Nat → Nat) (linked : Nat → Bool) (ref holders : Nat → Nat) :
    Prop where
  places : ∀ x, listed x + inHand x = if linked x = true ∧ ref x = 0 then 1 else 0
  refs : ∀ x, ref x = holders x
  used : ∀ x, 0 < holders x → linked x = true

section

variable {listed inHand listed' inHand' ref holders : Nat → Nat} {linked : Nat → Bool} {pg : Nat}

section Moves

variable (h : Custody listed inHand linked ref holders)

include h

/-- Pages move between lists and hands. -/
theorem Custody.move (hsame : ∀ x, listed' x + inHand' x = listed x + inHand x) :
    Custody listed' inHand' linked ref holders :=
  ⟨fun x => (hsame x).trans (h.places x), h.refs, h.used⟩

/-- The number of references on a page changes. -/
theorem Custody.setRef {n : Nat} (hlinked : linked pg = true)
    (hplace : listed pg + inHand' pg = if n = 0 then 1 else 0)
    (hother : ∀ x, x ≠ pg → inHand' x = inHand x) :
    Custody listed inHand' linked (Function.update ref pg n) (Function.update holders pg n) := by
  refine ⟨?_, ?_, ?_⟩
  · intro x
    by_cases hx : x = pg
    · subst hx
      rw [Function.update_self, hplace]
      simp only [hlinked, true_and]
    · rw [Function.update_of_ne hx, hother x hx, h.places]
  · intro x
    by_cases hx : x = pg
    · subst hx
      rw [Function.update_self, Function.update_self]
    · rw [Function.update_of_ne hx, Function.update_of_ne hx, h.refs]
  · intro x hx
    by_cases hxp : x = pg
    · subst hxp
      exact hlinked
    · rw [Function.update_of_ne hxp] at hx
      exact h.used x hx

/-- A page in a hand gets its first reference. -/
theorem Custody.take (hhand : ∀ x, inHand' x + (if pg = x then 1 else 0) = inHand x) :
    Custody listed inHand' linked (Function.update ref pg (ref pg + 1))
      (Function.update holders pg (holders pg + 1)) := by
  have hpg := h.places pg
  have hone := hhand pg
  rw [if_pos rfl] at hone
  have hfree : linked pg = true ∧ ref pg = 0 := by
    by_contra hnot
    rw [if_neg hnot] at hpg
    omega
  rw [if_pos hfree] at hpg
  rw [← h.refs pg]
  refine h.setRef hfree.1 ?_ ?_
  · rw [if_neg (Nat.succ_ne_zero _)]
    omega
  · intro x hx
    have hother := hhand x
    rwa [if_neg (Ne.symm hx)] at hother

/-- A page in use is in no other place. -/
theorem Custody.nowhere (hheld : 0 < holders pg) : listed pg + inHand pg = 0 := by
  have href := h.refs pg
  rw [h.places, if_neg (by omega)]

/-- The number of references on a page in use changes, and it stays in use. -/
theorem Custody.recount (hheld : 0 < holders pg) {n : Nat} (hn : 0 < n) :
    Custody listed inHand linked (Function.update ref pg n) (Function.update holders pg n) := by
  refine h.setRef (h.used pg hheld) ?_ fun _ _ => rfl
  rw [h.nowhere hheld, if_neg (Nat.ne_of_gt hn)]

/-- The last reference goes, and the page is in the hand of the thread. -/
theorem Custody.last (hheld : 0 < holders pg)
    (hhand : ∀ x, inHand' x = inHand x + if pg = x then 1 else 0) :
    Custody listed inHand' linked (Function.update ref pg 0) (Function.update holders pg 0) := by
  refine h.setRef (h.used pg hheld) ?_ ?_
  · rw [hhand, if_pos rfl, ← Nat.add_assoc, h.nowhere hheld, if_pos rfl]
  · intro x hx
    rw [hhand, if_neg (Ne.symm hx), Nat.add_zero]

/-- New pages are linked. -/
theorem Custody.link {first : Nat} (hnew : ∀ x, first ≤ x → x < first + growSize → linked x = false)
    (hsum : ∀ x, listed' x + inHand' x =
      listed x + inHand x + if first ≤ x ∧ x < first + growSize then 1 else 0) :
    Custody listed' inHand'
      (fun x => decide (first ≤ x ∧ x < first + growSize) || linked x)
      (fun x => if first ≤ x ∧ x < first + growSize then 0 else ref x) holders := by
  have hunused : ∀ x, first ≤ x ∧ x < first + growSize → holders x = 0 := by
    intro x hx
    by_contra hpos
    have hlinked := h.used x (Nat.pos_of_ne_zero hpos)
    rw [hnew x hx.1 hx.2] at hlinked
    cases hlinked
  refine ⟨?_, ?_, ?_⟩
  · intro x
    have hplaces := h.places x
    by_cases hx : first ≤ x ∧ x < first + growSize
    · rw [hnew x hx.1 hx.2, if_neg (by simp)] at hplaces
      rw [hsum, hplaces, if_pos hx, if_pos ⟨by simp [hx], if_pos hx⟩]
    · simp only [hsum, hplaces, if_neg hx, decide_eq_false hx, Bool.false_or, Nat.add_zero]
  · intro x
    by_cases hx : first ≤ x ∧ x < first + growSize
    · simp only [if_pos hx, hunused x hx]
    · simp only [if_neg hx, h.refs]
  · intro x hx
    rw [h.used x hx, Bool.or_true]

end Moves

end

/-! ### The counter of pages -/

/-- The pages below the committed counter are linked, or granted to one thread
    that is about to link them. Growths are undone only when nothing is left. -/
structure Growth (num : Nat) (linked : Nat → Bool) (granted : Nat → Nat) (undoing : Nat) :
    Prop where
  ge : growSize * undoing ≤ num
  grants : ∀ x, (if linked x then 1 else 0) + granted x =
    if x < num - growSize * undoing then 1 else 0
  whole : growSize ∣ num - growSize * undoing
  le : num - growSize * undoing ≤ maxPages
  full : 0 < undoing → num - growSize * undoing = maxPages

section

variable {num undoing : Nat} {linked : Nat → Bool} {granted granted' : Nat → Nat}

/-- The sum is too high only if the pool is full. -/
theorem Growth.exhausted (h : Growth num linked granted undoing)
    (hover : maxPages < num + growSize) :
    num - growSize * undoing = maxPages := by
  by_cases hzero : undoing = 0
  · have hle := h.le
    obtain ⟨k, hk⟩ := h.whole
    subst hzero
    unfold growSize maxPages at *
    omega
  · exact h.full (Nat.pos_of_ne_zero hzero)

theorem Growth.beyond (h : Growth num linked granted undoing) (hover : maxPages < num + growSize) :
    Growth (num + growSize) linked granted (undoing + 1) := by
  have hsame : num + growSize - growSize * (undoing + 1) = num - growSize * undoing := by
    rw [Nat.mul_add, Nat.mul_one, Nat.add_sub_add_right]
  have hge := h.ge
  refine ⟨by rw [Nat.mul_add]; omega, ?_, ?_, ?_, ?_⟩
  · rw [hsame]
    exact h.grants
  · rw [hsame]
    exact h.whole
  · rw [hsame]
    exact h.le
  · intro _
    rw [hsame]
    exact h.exhausted hover

theorem Growth.undo (h : Growth num linked granted (undoing + 1)) :
    Growth (num - growSize) linked granted undoing := by
  have hge := h.ge
  have hmul : growSize * (undoing + 1) = growSize * undoing + growSize := by
    rw [Nat.mul_add, Nat.mul_one]
  have hsame : num - growSize - growSize * undoing = num - growSize * (undoing + 1) := by omega
  refine ⟨by omega, ?_, ?_, ?_, ?_⟩
  · rw [hsame]
    exact h.grants
  · rw [hsame]
    exact h.whole
  · rw [hsame]
    exact h.le
  · intro _
    rw [hsame]
    exact h.full (Nat.succ_pos _)

/-- Where there is room, no growth is being undone. -/
theorem Growth.room (h : Growth num linked granted undoing) (hroom : num + growSize ≤ maxPages) :
    undoing = 0 := by
  by_contra hpos
  have hfull := h.full (Nat.pos_of_ne_zero hpos)
  have hge := h.ge
  unfold growSize maxPages at *
  omega

theorem Growth.grant (h : Growth num linked granted undoing) (hroom : num + growSize ≤ maxPages)
    (hgranted : ∀ x, granted' x =
      granted x + if num ≤ x ∧ x < num + growSize then 1 else 0) :
    Growth (num + growSize) linked granted' undoing := by
  obtain rfl := h.room hroom
  have hgrants := h.grants
  have hwhole := h.whole
  simp only [Nat.mul_zero, Nat.sub_zero] at hgrants hwhole
  refine ⟨Nat.zero_le _, ?_, ?_, ?_, fun hpos => absurd hpos (Nat.lt_irrefl 0)⟩
  · intro x
    have hx := hgrants x
    rw [hgranted, Nat.mul_zero, Nat.sub_zero, ← Nat.add_assoc, hx]
    split_ifs <;> omega
  · exact Nat.dvd_add hwhole (Nat.dvd_refl _)
  · exact hroom

theorem Growth.link (h : Growth num linked granted undoing) {first : Nat}
    (hgranted : ∀ x, granted' x + (if first ≤ x ∧ x < first + growSize then 1 else 0) = granted x) :
    Growth num (fun x => decide (first ≤ x ∧ x < first + growSize) || linked x) granted'
      undoing := by
  refine ⟨h.ge, ?_, h.whole, h.le, h.full⟩
  intro x
  have hx := h.grants x
  have hg := hgranted x
  by_cases hin : first ≤ x ∧ x < first + growSize
  · -- A page that is granted has not been linked.
    rw [if_pos hin] at hg
    have hle : (if x < num - growSize * undoing then 1 else 0) ≤ 1 := by
      split
      · exact Nat.le_refl 1
      · exact Nat.zero_le 1
    simp only [hin, and_self, decide_true, Bool.true_or, if_true]
    omega
  · rw [if_neg hin, Nat.add_zero] at hg
    simp only [decide_eq_false hin, Bool.false_or, hg]
    exact hx

end

/-! ### The invariant -/

structure Inv (s : State c) : Prop where
  custody : Custody s.listed s.inHand s.linked s.ref s.holders
  growth : Growth s.numPages s.linked s.granted s.undoing

theorem Init.inv {s : State c} (h : Init s) : Inv s := by
  have hnone : ∀ (f : Pc → List Nat), f .idle = [] → ∀ x,
      total (List.finRange c.threads) (f ∘ s.pc) x = 0 := by
    intro f hf x
    by_contra hpos
    obtain ⟨t, _, hmem⟩ := exists_of_total_pos (Nat.pos_of_ne_zero hpos)
    rw [Function.comp_apply, h.idle t, hf] at hmem
    exact absurd hmem List.not_mem_nil
  have hundoing : s.undoing = 0 := by
    refine List.countP_eq_zero.mpr fun t _ => ?_
    rw [h.idle t]
    exact Bool.false_ne_true
  refine ⟨⟨?_, ?_, ?_⟩, ?_⟩
  · intro x
    have hhand : s.inHand x = 0 := hnone Pc.inHand rfl x
    rw [h.listed, hhand, h.linked, h.ref]
    simp
  · intro x
    rw [h.ref, h.holders]
  · intro x hx
    rw [h.holders] at hx
    exact absurd hx (Nat.lt_irrefl 0)
  · rw [hundoing]
    refine ⟨Nat.zero_le _, ?_, h.grown, h.le, fun hpos => absurd hpos (Nat.lt_irrefl 0)⟩
    intro x
    have hgranted : s.granted x = 0 := hnone Pc.granted rfl x
    rw [hgranted, h.linked]
    simp

/-- The thread neither grows the pool nor is about to undo a growth. -/
def Pc.Neutral (pc : Pc) : Prop := pc.granted = [] ∧ pc.undoes = false

section

variable {s s' : State c} {t : Fin c.threads} {pc : Pc} {k first pg : Nat} {rest : List Nat}

theorem goto_grants (hpc : (s.pc t).granted = []) (hpc' : pc.granted = []) :
    (s.goto t pc).granted = s.granted := by
  funext x
  have h := goto_granted s t pc x
  rw [hpc, hpc'] at h
  exact h

theorem goto_undoes (hpc : (s.pc t).undoes = false) (hpc' : pc.undoes = false) :
    (s.goto t pc).undoing = s.undoing := by
  have h := goto_undoing s t pc
  rw [hpc, hpc'] at h
  exact h

theorem Inv.goto_growth (h : Inv s) (hpc : (s.pc t).Neutral) (hpc' : pc.Neutral) :
    Growth s.numPages s.linked (s.goto t pc).granted (s.goto t pc).undoing := by
  rw [goto_grants hpc.1 hpc'.1, goto_undoes hpc.2 hpc'.2]
  exact h.growth

theorem goto_hands (hpc : (s.pc t).inHand = []) (hpc' : pc.inHand = []) :
    (s.goto t pc).inHand = s.inHand := by
  funext x
  have h := goto_inHand s t pc x
  rw [hpc, hpc'] at h
  exact h

theorem attempts_neutral (h : pc.attempts = some k) :
    pc.Neutral ∧ pc.inHand = [] := by
  cases pc <;> first | exact ⟨⟨rfl, rfl⟩, rfl⟩ | cases h

theorem count_range' (first x : Nat) : (List.range' first growSize).count x =
    if first ≤ x ∧ x < first + growSize then 1 else 0 := by
  split
  · rename_i hx
    exact List.count_eq_one_of_mem List.nodup_range' (List.mem_range'_1.mpr hx)
  · rename_i hx
    exact List.count_eq_zero_of_not_mem fun hmem => hx (List.mem_range'_1.mp hmem)

theorem Inv.pop (h : Inv s) (hpc : (s.pc t).attempts = some k)
    (hlist : s.lists (c.home t) = pg :: rest) :
    Inv ((s.setList (c.home t) rest).goto t (.popped pg)) := by
  obtain ⟨hneutral, hhand⟩ := attempts_neutral hpc
  refine ⟨h.custody.move fun x => ?_, h.goto_growth hneutral ⟨rfl, rfl⟩⟩
  have hl := setList_listed s t x rest
  have hi := goto_inHand s t (.popped pg) x
  rw [hlist, List.count_cons] at hl
  rw [hhand] at hi
  simp only [Pc.inHand, List.count_cons, List.count_nil] at hi
  show (s.setList (c.home t) rest).listed x + (s.goto t (.popped pg)).inHand x = _
  omega

/-- A thread moves on without a page. -/
theorem Inv.move (h : Inv s) (hpc : (s.pc t).Neutral ∧ (s.pc t).inHand = [])
    (hpc' : pc.Neutral ∧ pc.inHand = [])
    (hs' : s' = s.goto t pc) : Inv s' := by
  subst hs'
  refine ⟨h.custody.move fun x => ?_, h.goto_growth hpc.1 hpc'.1⟩
  rw [goto_hands hpc.2 hpc'.2]
  rfl

/-- The mutexes do not matter. -/
theorem Inv.lock (h : Inv s) (i : Nat) (b : Bool) : Inv (s.setLock i b) :=
  ⟨h.custody, h.growth⟩

/-- A thread moves on, and the counter changes. -/
theorem Inv.count (h : Inv s) {num : Nat} (hhand : (s.pc t).inHand = []) (hhand' : pc.inHand = [])
    (hgrowth : Growth num s.linked (s.goto t pc).granted (s.goto t pc).undoing) :
    Inv ((s.setNum num).goto t pc) := by
  refine ⟨h.custody.move fun x => ?_, hgrowth⟩
  have hi := congrFun (goto_hands hhand hhand') x
  show s.listed x + (s.goto t pc).inHand x = _
  rw [hi]

theorem Inv.beyond (h : Inv s) (hpc : s.pc t = .adding k)
    (hnum : maxPages < s.numPages + growSize) :
    Inv ((s.setNum (s.numPages + growSize)).goto t (.undoing k)) := by
  refine h.count (by rw [hpc]; rfl) rfl ?_
  have hu : (s.goto t (.undoing k)).undoing = s.undoing + 1 := by
    have hu := goto_undoing s t (.undoing k)
    rw [hpc] at hu
    exact hu
  rw [goto_grants (by rw [hpc]; rfl) rfl, hu]
  exact h.growth.beyond hnum

theorem Inv.undo (h : Inv s) (hpc : s.pc t = .undoing k) :
    Inv ((s.setNum (s.numPages - growSize)).goto t (.stealing k)) := by
  refine h.count (by rw [hpc]; rfl) rfl ?_
  have hu : s.undoing = (s.goto t (.stealing k)).undoing + 1 := by
    have hu := goto_undoing s t (.stealing k)
    rw [hpc] at hu
    exact hu.symm
  have hgrowth := h.growth
  rw [hu] at hgrowth
  rw [goto_grants (by rw [hpc]; rfl) rfl]
  exact hgrowth.undo

theorem Inv.grant (h : Inv s) (hpc : s.pc t = .adding k)
    (hnum : s.numPages + growSize ≤ maxPages) :
    Inv ((s.setNum (s.numPages + growSize)).goto t (.linking k s.numPages)) := by
  refine h.count (by rw [hpc]; rfl) rfl ?_
  rw [goto_undoes (by rw [hpc]; rfl) rfl]
  refine h.growth.grant hnum fun x => ?_
  have hx := goto_granted s t (.linking k s.numPages) x
  rw [hpc] at hx
  rw [← count_range']
  exact hx

/-- The pages that a thread is about to link are not linked. -/
theorem Inv.not_linked (h : Inv s) {x : Nat} (hpc : s.pc t = .linking k first)
    (hx : first ≤ x ∧ x < first + growSize) :
    s.linked x = false ∧ x < s.committed := by
  have hgrants := h.growth.grants x
  have hone := count_le_total (List.mem_finRange t) (Pc.granted ∘ s.pc) x
  rw [Function.comp_apply, hpc, Pc.granted, count_range', if_pos hx] at hone
  change 1 ≤ s.granted x at hone
  change _ = if x < s.committed then 1 else 0 at hgrants
  cases hl : s.linked x with
  | true =>
    rw [hl, if_pos rfl] at hgrants
    split at hgrants <;> omega
  | false =>
    refine ⟨rfl, ?_⟩
    by_contra hlt
    rw [if_neg hlt] at hgrants
    omega

theorem Inv.link (h : Inv s) (hpc : s.pc t = .linking k first)
    (hlist : linkList first (s.lists (c.home t)) = pg :: rest) :
    Inv ((((s.linkPages first).setList (c.home t) rest).setLock (c.home t) false).goto t
      (.popped pg)) := by
  have hcount : ∀ x, (if first ≤ x ∧ x < first + growSize then 1 else 0) +
      (s.lists (c.home t)).count x = (if pg = x then 1 else 0) + rest.count x := by
    intro x
    have hx := congrArg (List.count x) hlist
    rw [linkList, List.count_append, List.count_reverse, count_range', List.count_cons] at hx
    simp only [beq_iff_eq] at hx
    omega
  refine ⟨?_, ?_⟩
  · refine h.custody.link (fun x hlo hhi => (h.not_linked hpc ⟨hlo, hhi⟩).1) fun x => ?_
    have hl := setList_listed s t x rest
    have hi := goto_inHand s t (.popped pg) x
    rw [hpc] at hi
    simp only [Pc.inHand, List.count_cons, List.count_nil, beq_iff_eq] at hi
    have hx := hcount x
    show (s.setList (c.home t) rest).listed x + (s.goto t (.popped pg)).inHand x = _
    omega
  · show Growth s.numPages _ (s.goto t (.popped pg)).granted (s.goto t (.popped pg)).undoing
    rw [goto_undoes (by rw [hpc]; rfl) rfl]
    refine h.growth.link fun x => ?_
    have hx := goto_granted s t (.popped pg) x
    rw [hpc] at hx
    rw [← count_range']
    exact hx

theorem Inv.steal (h : Inv s) {victim : Nat} {busy : Bool} {lists : Nat → List Nat}
    (hpc : s.pc t = .stealing k) (hcore : c.maxCores ≤ victim) (hlt : victim < numGlobalLists)
    (hlists : lists = if busy then s.lists else stealPages victim (c.home t) growSize s.lists) :
    Inv (({ s with lists := lists }.setLock (c.home t) false).goto t (.again (k + 1))) := by
  have hhome := c.home_lt t
  have htotal : ∀ x, total (List.range numGlobalLists) lists x = s.listed x := by
    intro x
    subst hlists
    split
    · rfl
    · have hperm := stealPages_perm hlt (Nat.lt_trans hhome c.cores_lt) (by omega) growSize s.lists
      exact hperm.count_eq x
  refine ⟨h.custody.move fun x => ?_, h.goto_growth (by rw [hpc]; exact ⟨rfl, rfl⟩) ⟨rfl, rfl⟩⟩
  show total (List.range numGlobalLists) lists x + (s.goto t (.again (k + 1))).inHand x = _
  rw [goto_hands (by rw [hpc]; rfl) rfl, htotal]

theorem Inv.take (h : Inv s) (hpc : s.pc t = .popped pg) :
    Inv ((s.setRef pg (s.ref pg + 1) (s.holders pg + 1)).goto t .idle) := by
  refine ⟨h.custody.take fun x => ?_, h.goto_growth (by rw [hpc]; exact ⟨rfl, rfl⟩) ⟨rfl, rfl⟩⟩
  have hi := goto_inHand s t .idle x
  rw [hpc] at hi
  simp only [Pc.inHand, List.count_cons, List.count_nil, beq_iff_eq] at hi
  show (s.goto t .idle).inHand x + _ = _
  omega

theorem Inv.last (h : Inv s) (hpc : s.pc t = .idle) (hheld : 0 < s.holders pg)
    (href : s.ref pg - 1 = 0) :
    Inv ((s.setRef pg (s.ref pg - 1) (s.holders pg - 1)).goto t (.released pg)) := by
  have hsame := h.custody.refs pg
  rw [href, show s.holders pg - 1 = 0 by omega]
  refine ⟨h.custody.last hheld fun x => ?_,
    h.goto_growth (by rw [hpc]; exact ⟨rfl, rfl⟩) ⟨rfl, rfl⟩⟩
  have hi := goto_inHand s t (.released pg) x
  rw [hpc] at hi
  simp only [Pc.inHand, List.count_cons, List.count_nil, beq_iff_eq] at hi
  show (s.goto t (.released pg)).inHand x = _
  omega

theorem Inv.free (h : Inv s) (hpc : s.pc t = .released pg) :
    Inv ((s.setList (c.home t) (pg :: s.lists (c.home t))).goto t .idle) := by
  refine ⟨h.custody.move fun x => ?_, h.goto_growth (by rw [hpc]; exact ⟨rfl, rfl⟩) ⟨rfl, rfl⟩⟩
  have hl := setList_listed s t x (pg :: s.lists (c.home t))
  have hi := goto_inHand s t .idle x
  rw [List.count_cons] at hl
  rw [hpc] at hi
  simp only [Pc.inHand, List.count_cons, List.count_nil] at hi
  show (s.setList (c.home t) (pg :: s.lists (c.home t))).listed x + (s.goto t .idle).inHand x = _
  omega

/-- **One step** keeps pages in one place, and the counter in order. -/
theorem Inv.step {l : Label c} (h : Inv s) (hmoves : Moves s l s') : Inv s' := by
  cases hmoves with
  | pop hpc _ _ hlist => exact h.pop hpc hlist
  | lock hpc _ _ _ => exact (h.lock _ true).move (attempts_neutral hpc) ⟨⟨rfl, rfl⟩, rfl⟩ rfl
  | fail hpc _ => exact h.move (attempts_neutral hpc) ⟨⟨rfl, rfl⟩, rfl⟩ rfl
  | full hpc _ | room hpc _ =>
    exact h.move (by rw [hpc]; exact ⟨⟨rfl, rfl⟩, rfl⟩) ⟨⟨rfl, rfl⟩, rfl⟩ rfl
  | beyond hpc hnum => exact h.beyond hpc hnum
  | grant hpc hnum => exact h.grant hpc hnum
  | undo hpc => exact h.undo hpc
  | link hpc hlist => exact h.link hpc hlist
  | steal hpc hcore hlt hlists => exact h.steal hpc hcore hlt hlists
  | take hpc => exact h.take hpc
  | get _ hheld =>
    rw [h.custody.refs]
    exact ⟨h.custody.recount hheld (Nat.succ_pos _), h.growth⟩
  | put _ hheld href =>
    rw [h.custody.refs] at href ⊢
    exact ⟨h.custody.recount hheld (Nat.pos_of_ne_zero href), h.growth⟩
  | last hpc hheld href => exact h.last hpc hheld href
  | free hpc _ _ => exact h.free hpc

/-- Every run keeps pages in one place, and the counter in order. -/
theorem inv_of_run (h : (pages c).RunsTo (fun s l => MappingSucceeds s l = true) s) :
    Inv s :=
  System.invariant_when (fun _ => Init.inv)
    (fun _ _ _ hinv hok hstep => hinv.step (moves_of_step hok hstep)) h

/-! ### One list for each free page -/

theorem inHand_eq_zero :
    s.inHand pg = 0 ↔ ∀ t, s.pc t ≠ .popped pg ∧ s.pc t ≠ .released pg := by
  constructor
  · intro hzero t
    have hle := count_le_total (List.mem_finRange t) (Pc.inHand ∘ s.pc) pg
    change _ ≤ s.inHand pg at hle
    rw [hzero, Function.comp_apply] at hle
    constructor
    all_goals
      intro hpc
      rw [hpc, Pc.inHand, List.count_singleton_self] at hle
      exact absurd hle (by decide)
  · intro hnone
    by_contra hpos
    obtain ⟨t, _, hmem⟩ := exists_of_total_pos (Nat.pos_of_ne_zero hpos)
    rw [Function.comp_apply] at hmem
    obtain ⟨hpop, hrel⟩ := hnone t
    cases hpc : s.pc t with
    | popped x =>
      rw [hpc, Pc.inHand, List.mem_singleton] at hmem
      exact hpop (hmem ▸ hpc)
    | released x =>
      rw [hpc, Pc.inHand, List.mem_singleton] at hmem
      exact hrel (hmem ▸ hpc)
    | _ =>
      rw [hpc] at hmem
      exact absurd hmem List.not_mem_nil

theorem Inv.listed_eq (h : Inv s) (pg : Nat) :
    s.listed pg = if s.linked pg = true ∧ s.ref pg = 0 ∧
      ∀ t, s.pc t ≠ .popped pg ∧ s.pc t ≠ .released pg then 1 else 0 := by
  have hplaces := h.custody.places pg
  by_cases hfree : s.linked pg = true ∧ s.ref pg = 0
  · rw [if_pos hfree] at hplaces
    by_cases hhand : s.inHand pg = 0
    · rw [if_pos ⟨hfree.1, hfree.2, inHand_eq_zero.mp hhand⟩]
      omega
    · rw [if_neg fun hall => hhand (inHand_eq_zero.mpr hall.2.2)]
      omega
  · rw [if_neg hfree] at hplaces
    rw [if_neg fun hall => hfree ⟨hall.1, hall.2.1⟩]
    omega

theorem Inv.linked_lt (h : Inv s) (hlinked : s.linked pg = true) :
    pg < s.committed := by
  have hgrants := h.growth.grants pg
  rw [hlinked, if_pos rfl] at hgrants
  by_contra hlt
  rw [if_neg (show ¬ pg < s.numPages - growSize * s.undoing from hlt)] at hgrants
  omega

/-- Growths of two threads are about to link different pages. -/
theorem Inv.ranges_apart (h : Inv s) {t' : Fin c.threads} {k' first' : Nat}
    (hne : t' ≠ t) (hpc : s.pc t = .linking k first) (hpc' : s.pc t' = .linking k' first') :
    first + growSize ≤ first' ∨ first' + growSize ≤ first := by
  by_contra hmeet
  -- The later of the two first pages would be granted twice.
  have htwo := count_add_count_le (List.nodup_finRange _) (List.mem_finRange t)
    (List.mem_finRange t') hne.symm (Pc.granted ∘ s.pc) (max first first')
  rw [Function.comp_apply, Function.comp_apply, hpc, hpc', Pc.granted, Pc.granted, count_range',
    count_range', if_pos (by omega), if_pos (by omega)] at htwo
  change 1 + 1 ≤ s.granted (max first first') at htwo
  have hgrants := h.growth.grants (max first first')
  split at hgrants <;> split at hgrants <;> omega

/-! ### No page twice -/

/-- The page has a reference, or the thread that has dropped the last one is
    about to list it. -/
def State.Out (s : State c) (pg : Nat) : Prop :=
  s.linked pg = true ∧ (0 < s.ref pg ∨ ∃ t, s.pc t = .released pg)

theorem State.Out.goto (h : s.Out pg) (hpc : s.pc t ≠ .released pg) (pc : Pc) :
    (s.goto t pc).Out pg := by
  obtain ⟨hlinked, href | ⟨u, hu⟩⟩ := h
  · exact ⟨hlinked, .inl href⟩
  · have hne : u ≠ t := by
      rintro rfl
      exact hpc hu
    exact ⟨hlinked, .inr ⟨u, (Function.update_of_ne hne _ _).trans hu⟩⟩

theorem State.Out.setRef (h : s.Out pg) {x n : Nat} (hn : x = pg → 0 < n) (m : Nat) :
    (s.setRef x n m).Out pg := by
  obtain ⟨hlinked, href⟩ := h
  refine ⟨hlinked, href.imp_left fun hpos => ?_⟩
  show 0 < Function.update s.ref x n pg
  by_cases hx : pg = x
  · subst hx
    rw [Function.update_self]
    exact hn rfl
  · rw [Function.update_of_ne hx]
    exact hpos

theorem State.Out.count (h : s.Out pg) (hpc : s.pc t ≠ .released pg) (num : Nat) (pc : Pc) :
    ((s.setNum num).goto t pc).Out pg := State.Out.goto (s := s.setNum num) h hpc pc

/-- A page that is out stays out until it is freed. -/
theorem State.Out.step {l : Label c} (h : s.Out pg) (hinv : Inv s) (hmoves : Moves s l s') :
    s'.Out pg ∨ ∃ t, l = .free t ∧ s.pc t = .released pg := by
  have hattempts : ∀ {t k}, (s.pc t).attempts = some k → s.pc t ≠ .released pg := by
    intro t k hk hpc
    rw [hpc] at hk
    cases hk
  cases hmoves with
  | pop hpc _ _ _ => exact .inl (State.Out.goto (s := s.setList _ _) h (hattempts hpc) _)
  | lock hpc _ _ _ => exact .inl (State.Out.goto (s := s.setLock _ _) h (hattempts hpc) _)
  | fail hpc _ => exact .inl (h.goto (hattempts hpc) _)
  | full hpc _ => exact .inl (h.goto (by rw [hpc]; exact nofun) _)
  | room hpc _ => exact .inl (h.goto (by rw [hpc]; exact nofun) _)
  | beyond hpc _ | grant hpc _ | undo hpc => exact .inl (h.count (by rw [hpc]; exact nofun) _ _)
  | @link t k first x rest hpc _ =>
    have hout : (s.linkPages first).Out pg := by
      obtain ⟨hlinked, href⟩ := h
      have hold : ¬ (first ≤ pg ∧ pg < first + growSize) := by
        intro hin
        rw [(hinv.not_linked hpc hin).1] at hlinked
        cases hlinked
      refine ⟨?_, href.imp_left fun hpos => ?_⟩
      · show (decide _ || s.linked pg) = true
        rw [hlinked, Bool.or_true]
      · show 0 < if _ then 0 else s.ref pg
        rw [if_neg hold]
        exact hpos
    refine .inl (State.Out.goto (s := ((s.linkPages first).setList _ _).setLock _ _) hout ?_ _)
    show s.pc t ≠ _
    rw [hpc]
    exact nofun
  | steal hpc _ _ _ =>
    exact .inl (State.Out.goto (s := ({ s with lists := _ } : State c).setLock _ _) h
      (hpc ▸ nofun) _)
  | take hpc =>
    exact .inl (State.Out.goto (h.setRef (fun _ => Nat.succ_pos _) _) (hpc ▸ nofun) _)
  | get _ _ => exact .inl (h.setRef (fun _ => Nat.succ_pos _) _)
  | put _ _ href => exact .inl (h.setRef (fun _ => Nat.pos_of_ne_zero href) _)
  | @last t x hpc _ _ =>
    left
    by_cases hx : x = pg
    · subst hx
      exact ⟨h.1, .inr ⟨t, Function.update_self ..⟩⟩
    · exact State.Out.goto (h.setRef (fun heq => absurd heq hx) _) (hpc ▸ nofun) _
  | @free t x hpc _ _ =>
    by_cases hx : x = pg
    · exact .inr ⟨t, rfl, hx ▸ hpc⟩
    · refine .inl (State.Out.goto (s := s.setList _ _) h ?_ _)
      show s.pc t ≠ _
      rw [hpc]
      exact fun heq => hx (Pc.released.inj heq)

/-- In a run, a page that is out is freed before it is anything else. -/
theorem State.Out.run {ls : List (Label c)} (h : s.Out pg) (hinv : Inv s)
    (he : (pages c).execWhen MappingSucceeds s ls = some s') :
    (s'.Out pg ∧ Inv s') ∨ ∃ pre t post m, ls = pre ++ .free t :: post ∧
      (pages c).execWhen MappingSucceeds s pre = some m ∧ m.pc t = .released pg := by
  induction ls generalizing s with
  | nil =>
    obtain rfl := Option.some.inj he
    exact .inl ⟨h, hinv⟩
  | cons l ls ih =>
    simp only [System.execWhen] at he
    split at he
    · next hok =>
      obtain ⟨m, hm, he⟩ := Option.bind_eq_some_iff.mp he
      have hmoves := moves_of_step hok hm
      rcases h.step hinv hmoves with hout | ⟨t, rfl, hpc⟩
      · rcases ih hout (hinv.step hmoves) he with hend | ⟨pre, t, post, n, rfl, hn, hpc⟩
        · exact .inl hend
        · refine .inr ⟨l :: pre, t, post, n, rfl, ?_, hpc⟩
          rw [System.execWhen, if_pos hok, hm]
          exact hn
      · exact .inr ⟨[], t, ls, s, rfl, rfl, hpc⟩
    · cases he

/-- A page that has just been popped is not out. -/
theorem Inv.not_out (h : Inv s) (hpc : s.pc t = .popped pg) : ¬ s.Out pg := by
  rintro ⟨_, hout⟩
  have hplaces := h.custody.places pg
  have hone := count_le_total (List.mem_finRange t) (Pc.inHand ∘ s.pc) pg
  rw [Function.comp_apply, hpc, Pc.inHand, List.count_singleton_self] at hone
  change 1 ≤ s.inHand pg at hone
  rcases hout with href | ⟨u, hu⟩
  · rw [if_neg (by omega)] at hplaces
    omega
  · have hne : t ≠ u := by
      rintro rfl
      rw [hpc] at hu
      cases hu
    have htwo := count_add_count_le (List.nodup_finRange _) (List.mem_finRange t)
      (List.mem_finRange u) hne (Pc.inHand ∘ s.pc) pg
    rw [Function.comp_apply, Function.comp_apply, hpc, hu, Pc.inHand, Pc.inHand,
      List.count_singleton_self] at htwo
    change 1 + 1 ≤ s.inHand pg at htwo
    split at hplaces <;> omega

/-- A page that an allocation returns is out. -/
theorem out_of_take (h : Inv s) (hpc : s.pc t = .popped pg) (hstep : step s (.take t) = some s') :
    s'.Out pg := by
  simp only [step, hpc, Option.some.injEq] at hstep
  subst hstep
  have hplaces := h.custody.places pg
  have hhand : s.inHand pg ≠ 0 := fun hzero => (inHand_eq_zero.mp hzero t).1 hpc
  have hlinked : s.linked pg = true := by
    by_contra hnot
    rw [if_neg fun hfree => hnot hfree.1] at hplaces
    omega
  refine ⟨hlinked, .inl ?_⟩
  show 0 < Function.update s.ref pg (s.ref pg + 1) pg
  rw [Function.update_self]
  exact Nat.succ_pos _

end

/-- **The allocator neither loses nor duplicates pages.** Under every interleaving
    where memory can be mapped, a page that has been linked is on the lists once
    if it has no reference and no thread is about to use or to list it, and not
    at all otherwise. Growths of different threads link different pages below
    the limit, and a page is returned again only after it has been freed. -/
theorem pages_listed_once {s : State c}
    (h : (pages c).RunsTo (fun s l => MappingSucceeds s l = true) s) :
    (∀ pg, s.listed pg = if s.linked pg = true ∧ s.ref pg = 0 ∧
      ∀ t, s.pc t ≠ .popped pg ∧ s.pc t ≠ .released pg then 1 else 0) ∧
    (∀ pg, s.linked pg = true → pg < s.numPages) ∧
    (∀ t k first, s.pc t = .linking k first → first + growSize ≤ maxPages ∧
      (∀ pg, first ≤ pg ∧ pg < first + growSize → s.linked pg = false) ∧
      ∀ t' k' first', t' ≠ t → s.pc t' = .linking k' first' →
        first + growSize ≤ first' ∨ first' + growSize ≤ first) ∧
    ∀ t pg, s.pc t = .popped pg → ∀ s₁ ls s₂ t', step s (.take t) = some s₁ →
      (pages c).execWhen MappingSucceeds s₁ ls = some s₂ → s₂.pc t' = .popped pg →
      ∃ pre u post m, ls = pre ++ .free u :: post ∧
        (pages c).execWhen MappingSucceeds s₁ pre = some m ∧ m.pc u = .released pg := by
  have hinv := inv_of_run h
  refine ⟨hinv.listed_eq, ?_, ?_, ?_⟩
  · intro pg hlinked
    exact Nat.lt_of_lt_of_le (hinv.linked_lt hlinked) (Nat.sub_le _ _)
  · intro t k first hpc
    refine ⟨?_, fun pg hpg => (hinv.not_linked hpc hpg).1, ?_⟩
    · have hlast : first ≤ first + (growSize - 1) ∧ first + (growSize - 1) < first + growSize := by
        unfold growSize
        omega
      have hlt := (hinv.not_linked hpc hlast).2
      have hle : s.committed ≤ maxPages := hinv.growth.le
      unfold growSize at *
      omega
    · intro t' k' first' hne hpc'
      exact hinv.ranges_apart hne hpc hpc'
  · intro t pg hpc s₁ ls s₂ t' htake hrun hagain
    have hout := out_of_take hinv hpc htake
    have hinv₁ := hinv.step (moves_of_step (l := .take t) rfl htake)
    rcases hout.run hinv₁ hrun with ⟨hout₂, hinv₂⟩ | hfree
    · exact absurd hout₂ (hinv₂.not_out hagain)
    · exact hfree

/-- One thread on one core. -/
def oneCore : Cores where
  maxCores := 1
  threads := 1
  home := fun _ => 0
  cores_lt := by decide
  home_lt := fun _ => Nat.one_pos

def only : Fin oneCore.threads := ⟨0, Nat.one_pos⟩

theorem eq_only (t : Fin oneCore.threads) : t = only := Subsingleton.elim (α := Fin 1) t only

/-- The pool before its first growth. -/
def emptyPool : State c where
  numPages := 0
  ref := fun _ => 0
  lists := fun _ => []
  locked := fun _ => false
  pc := fun _ => .idle
  linked := fun _ => false
  holders := fun _ => 0

theorem init_emptyPool : (pages c).init emptyPool where
  grown := Nat.dvd_zero _
  le := Nat.zero_le _
  listed := fun pg => by
    have hnone : ¬ 0 < total (List.range numGlobalLists) (@emptyPool c).lists pg := by
      intro hpos
      obtain ⟨_, _, hmem⟩ := exists_of_total_pos hpos
      exact absurd hmem List.not_mem_nil
    exact Nat.eq_zero_of_not_pos hnone
  linked := fun pg => rfl
  ref := fun _ => rfl
  holders := fun _ => rfl
  idle := fun _ => rfl
  unlocked := fun _ => rfl

/-- The first page is in use, the page below it is free. -/
theorem pages_listed_once_first : ∃ s : State oneCore,
    (pages oneCore).RunsTo (fun s l => MappingSucceeds s l = true) s ∧ s.ref 511 = 1 ∧
      s.listed 510 = 1 ∧ s.listed 511 = 0 := by
  obtain ⟨s, hrun, htest⟩ := (pages oneCore).exists_runsTo MappingSucceeds init_emptyPool
    [.alloc only, .load only, .add only, .link only true, .take only]
    (fun s => s.ref 511 = 1 ∧ s.ref 510 = 0 ∧ s.linked 510 = true ∧ s.pc only = .idle)
    (by decide +kernel)
  obtain ⟨href, hfree, hlinked, hpc⟩ := htest
  obtain ⟨hlisted, _⟩ := pages_listed_once hrun
  have hidle : ∀ t, s.pc t ≠ .popped 510 ∧ s.pc t ≠ .released 510 := by
    intro t
    rw [eq_only t, hpc]
    exact ⟨nofun, nofun⟩
  refine ⟨s, hrun, href, ?_, ?_⟩
  · rw [hlisted, if_pos ⟨hlinked, hfree, hidle⟩]
  · rw [hlisted, if_neg]
    rintro ⟨_, hzero, _⟩
    rw [href] at hzero
    cases hzero

/-- While `dune_page_put` is about to list a page, the page has no reference, has
    not just been popped, and is on no list. -/
theorem released_page_unlisted : ∃ s : State oneCore,
    (pages oneCore).RunsTo (fun s l => MappingSucceeds s l = true) s ∧
      ∃ pg, pg < s.numPages ∧ s.linked pg = true ∧ s.ref pg = 0 ∧ (∀ t, s.pc t ≠ .popped pg) ∧
        s.listed pg = 0 := by
  obtain ⟨s, hrun, htest⟩ := (pages oneCore).exists_runsTo MappingSucceeds init_emptyPool
    [.alloc only, .load only, .add only, .link only true, .take only, .put only 511]
    (fun s => 511 < s.numPages ∧ s.linked 511 = true ∧ s.ref 511 = 0 ∧
      s.pc only = .released 511 ∧ s.listed 511 = 0) (by decide +kernel)
  obtain ⟨hlt, hlinked, href, hpc, hlisted⟩ := htest
  refine ⟨s, hrun, 511, hlt, hlinked, href, fun t => ?_, hlisted⟩
  rw [eq_only t, hpc]
  exact nofun

end PageThreads
