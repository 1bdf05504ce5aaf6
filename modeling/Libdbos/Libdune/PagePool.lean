import Libdbos.Framework.Word
import Mathlib.Data.List.Perm.Basic

/-! # The Pool of Physical Pages

    The allocator of `libdune/page.c`: a reference count for each page of the
    pool and 104 lists of free pages. A core takes pages from the list with
    its number; when that is empty it steals from the lists that belong to
    no core.

    The model starts after `dune_page_init`, when the pool has `MAX_PAGES`
    pages: from then on `grow_size` fails at its first test. It is about one
    thread, so the mutexes are always free. That thread has the number of its
    core and the two variables that `dune_page_alloc` keeps for each thread.

    What a call does to the free pages is said up to their order: `freeList`
    has the pages of all lists.
-/

namespace Dune

/-! ## State -/

def numGlobalLists : Nat := 104

def growSize : Nat := 512

def maxPages : Nat := 2 ^ 21

def pageBase : Nat := 0x100000000

/-- The core of the thread: `-1` before it enters dune mode. Cores have lists
    of their own, and some list is left to steal from. -/
structure Cpu where
  id : Int
  maxCores : Nat
  known : -1 ≤ id
  id_lt : id < maxCores
  some_core : 0 < maxCores
  cores_lt : maxCores < numGlobalLists

/-- The list a thread takes its pages from. -/
def Cpu.list (c : Cpu) : Nat := if c.id = -1 then 0 else c.id.toNat

structure Pool where
  ref : Nat → Word
  localLists : Nat → List Nat
  cpu : Cpu
  /-- The static variable of `rand_number`. -/
  seed : BitVec 32
  /-- The static variable `last_stealed`, `none` for `-1`. -/
  lastStealed : Option Nat
  stealed_ok : ∀ v, lastStealed = some v → cpu.maxCores ≤ v ∧ v < numGlobalLists

/-- The free pages, list after list. -/
def Pool.freeList (p : Pool) : List Nat := (List.range numGlobalLists).flatMap p.localLists

/-! ## Allocation -/

def randNumber (c : Cpu) (seed : BitVec 32) : BitVec 32 :=
  8253729#32 * (if seed = 5323#32 then BitVec.ofInt 32 c.id else seed) + 2396403#32

/-- The list that `rand_number` picks among those of no core. -/
def pickVictim (c : Cpu) (rand : BitVec 32) : Nat :=
  rand.toNat % (numGlobalLists - c.maxCores) + c.maxCores

/-- The assertions of the stealing thread: the list it steals from is none of
    a core, so not its own. -/
theorem pickVictim_bounds (c : Cpu) (rand : BitVec 32) :
    c.maxCores ≤ pickVictim c rand ∧ pickVictim c rand < numGlobalLists := by
  have hlt := c.cores_lt
  have hmod := Nat.mod_lt rand.toNat (Nat.sub_pos_of_lt hlt)
  unfold pickVictim
  omega

/-- The loop of `dune_try_steal_pages`, with at most `n` pages to move. -/
def stealPages (victim dst : Nat) : Nat → (Nat → List Nat) → Nat → List Nat
  | 0, lists => lists
  | n + 1, lists =>
      match lists victim with
      | [] => lists
      | pg :: rest => stealPages victim dst n
          (Function.update (Function.update lists victim rest) dst (pg :: lists dst))

def pageGet (p : Pool) (pg : Nat) : Pool :=
  { p with ref := Function.update p.ref pg (p.ref pg + 1#64) }

/-- The list to steal from, with the seed after it has been chosen. -/
def chooseVictim (p : Pool) : BitVec 32 × Nat :=
  match p.lastStealed with
  | some v => (p.seed, v)
  | none => (randNumber p.cpu p.seed, pickVictim p.cpu (randNumber p.cpu p.seed))

theorem chooseVictim_bounds (p : Pool) :
    p.cpu.maxCores ≤ (chooseVictim p).2 ∧ (chooseVictim p).2 < numGlobalLists := by
  unfold chooseVictim
  split
  · rename_i v hv
    exact p.stealed_ok v hv
  · exact pickVictim_bounds _ _

/-- One attempt to steal; a list that had nothing is not tried again. -/
def steal (p : Pool) : Pool :=
  if (p.localLists (chooseVictim p).2).isEmpty then
    { p with
      seed := (chooseVictim p).1
      lastStealed := none
      stealed_ok := by simp }
  else
    { p with
      seed := (chooseVictim p).1
      lastStealed := some (chooseVictim p).2
      localLists := stealPages (chooseVictim p).2 p.cpu.list growSize p.localLists
      stealed_ok := by
        intro v hv
        cases hv
        exact chooseVictim_bounds p }

/-- The loop of `dune_page_alloc`, with the attempts that are left. -/
def pageAllocLoop : Nat → Pool → Pool × Option Nat
  | 0, p => (p, none)
  | n + 1, p =>
      match p.localLists p.cpu.list with
      | pg :: rest =>
          (pageGet { p with localLists := Function.update p.localLists p.cpu.list rest } pg, some pg)
      | [] => pageAllocLoop n (steal p)

/-- The function `dune_page_alloc`: it gives up after 100000 attempts. -/
def pageAlloc (p : Pool) : Pool × Option Nat := pageAllocLoop 100001 p

/-! ## Release -/

def pageFree (p : Pool) (pg : Nat) : Pool :=
  { p with
    localLists := Function.update p.localLists p.cpu.list (pg :: p.localLists p.cpu.list) }

/-- The statement `pg->ref--`. -/
def dropRef (p : Pool) (pg : Nat) : Pool :=
  { p with ref := Function.update p.ref pg (p.ref pg - 1#64) }

def pagePut (p : Pool) (pg : Nat) : Pool :=
  if (dropRef p pg).ref pg = 0#64 then pageFree (dropRef p pg) pg else dropRef p pg

/-! ## Addresses -/

/-- The address of a page. -/
def page2pa (pg : Nat) : Nat := pageBase + pg * 4096

/-- The number that an address has in the pool. -/
def pa2page (pa : Nat) : Nat := (pa - pageBase) / 4096

def pageIsfrompool (pa : Nat) : Bool := pageBase ≤ pa && pa < pageBase + maxPages * 4096

theorem page2pa_inj {a b : Nat} (h : page2pa a = page2pa b) : a = b := by
  unfold page2pa at h
  omega

/-! ## Free pages under each call -/

variable {p p' : Pool} {pg : Nat}

theorem Cpu.list_lt (c : Cpu) : c.list < c.maxCores := by
  have hid := c.id_lt
  have hsome := c.some_core
  unfold list
  split <;> omega

theorem Cpu.list_lt_lists (c : Cpu) : c.list < numGlobalLists :=
  Nat.lt_trans c.list_lt c.cores_lt

theorem perm_append_right_comm (a b c : List Nat) : (a ++ b ++ c).Perm (a ++ c ++ b) := by
  rw [List.append_assoc, List.append_assoc]
  exact List.Perm.append_left a List.perm_append_comm

/-- Replacing one of the lists changes the free pages by its pages. -/
theorem flatMap_update (lists : Nat → List Nat) {k n : Nat} (hk : k < n) (new : List Nat) :
    ((List.range n).flatMap (Function.update lists k new) ++ lists k).Perm
      ((List.range n).flatMap lists ++ new) := by
  induction n with
  | zero => exact absurd hk (Nat.not_lt_zero k)
  | succ n ih =>
    rw [List.range_succ, List.flatMap_append, List.flatMap_append, List.flatMap_singleton,
      List.flatMap_singleton]
    by_cases hkn : k = n
    · subst hkn
      have hsame : (List.range k).flatMap (Function.update lists k new) =
          (List.range k).flatMap lists := by
        apply List.flatMap_congr
        intro i hi
        exact Function.update_of_ne (Nat.ne_of_lt (List.mem_range.mp hi)) _ _
      rw [hsame, Function.update_self, List.append_assoc, List.append_assoc]
      exact List.Perm.append_left _ List.perm_append_comm
    · have hrest := ih (by omega)
      rw [Function.update_of_ne (Ne.symm hkn)]
      refine (perm_append_right_comm _ _ _).trans ?_
      exact (hrest.append_right _).trans (perm_append_right_comm _ _ _)

/-- Pages move from one list to another. -/
theorem stealPages_perm {victim dst : Nat} (hv : victim < numGlobalLists)
    (hd : dst < numGlobalLists) (hne : dst ≠ victim) (n : Nat) :
    ∀ lists, ((List.range numGlobalLists).flatMap (stealPages victim dst n lists)).Perm
      ((List.range numGlobalLists).flatMap lists) := by
  induction n with
  | zero =>
    intro lists
    exact List.Perm.refl _
  | succ n ih =>
    intro lists
    unfold stealPages
    split
    · exact List.Perm.refl _
    · rename_i pg rest hlist
      refine (ih _).trans ?_
      have hto := flatMap_update (Function.update lists victim rest) hd (pg :: lists dst)
      have hfrom := flatMap_update lists hv rest
      rw [Function.update_of_ne hne] at hto
      rw [hlist] at hfrom
      rw [List.perm_iff_count] at hto hfrom ⊢
      intro x
      have htox := hto x
      have hfromx := hfrom x
      simp only [List.count_append, List.count_cons] at htox hfromx
      omega

theorem steal_freeList (p : Pool) : (steal p).freeList.Perm p.freeList := by
  obtain ⟨hcore, hlt⟩ := chooseVictim_bounds p
  have hlist := p.cpu.list_lt
  unfold steal
  split
  · exact List.Perm.refl _
  · exact stealPages_perm hlt p.cpu.list_lt_lists (by omega) growSize p.localLists

theorem steal_rest (p : Pool) : (steal p).ref = p.ref ∧ (steal p).cpu = p.cpu := by
  unfold steal
  split <;> exact ⟨rfl, rfl⟩

/-- The pages that a core has on its own list. -/
def Pool.stock (p : Pool) : Nat := (p.localLists p.cpu.list).length

/-- What `dune_page_alloc` does with the free pages and the counts. -/
structure Allocates (p : Pool) (r : Pool × Option Nat) : Prop where
  cpu : r.1.cpu = p.cpu
  some_page : ∀ pg, r.2 = some pg → p.freeList.Perm (pg :: r.1.freeList) ∧
    r.1.ref = Function.update p.ref pg (p.ref pg + 1#64)
  no_page : r.2 = none → p.freeList.Perm r.1.freeList ∧ r.1.ref = p.ref
  stock : p.stock ≤ r.1.stock + 1

theorem pageAllocLoop_spec (n : Nat) : ∀ p, Allocates p (pageAllocLoop n p) := by
  induction n with
  | zero =>
    intro p
    refine ⟨rfl, ?_, fun _ => ⟨List.Perm.refl _, rfl⟩, Nat.le_succ _⟩
    intro pg h
    cases h
  | succ n ih =>
    intro p
    unfold pageAllocLoop
    split
    · rename_i pg rest hlist
      refine ⟨rfl, ?_, fun h => (nomatch h), ?_⟩
      rotate_left
      · simp [Pool.stock, pageGet, hlist]
      intro pg' h
      cases h
      refine ⟨?_, rfl⟩
      have hperm := flatMap_update p.localLists p.cpu.list_lt_lists rest
      rw [hlist, List.perm_iff_count] at hperm
      rw [List.perm_iff_count]
      intro x
      have hx := hperm x
      simp only [List.count_append, List.count_cons] at hx
      simp only [Pool.freeList, pageGet, List.count_cons]
      omega
    · rename_i hlist
      obtain ⟨hcpu, hsome, hnone, _⟩ := ih (steal p)
      obtain ⟨href, hcpu'⟩ := steal_rest p
      have hperm := (steal_freeList p).symm
      refine ⟨hcpu.trans hcpu', ?_, ?_, by simp [Pool.stock, hlist]⟩
      · intro pg h
        obtain ⟨hfree, hrefs⟩ := hsome pg h
        exact ⟨hperm.trans hfree, by rw [hrefs, href]⟩
      · intro h
        obtain ⟨hfree, hrefs⟩ := hnone h
        exact ⟨hperm.trans hfree, by rw [hrefs, href]⟩

theorem pageAlloc_spec (p : Pool) : Allocates p (pageAlloc p) := pageAllocLoop_spec _ p

/-- A core whose list has pages gets the first one. -/
theorem pageAlloc_cons {rest : List Nat} (h : p.localLists p.cpu.list = pg :: rest) :
    pageAlloc p = (pageGet { p with
      localLists := Function.update p.localLists p.cpu.list rest } pg, some pg) := by
  unfold pageAlloc pageAllocLoop
  rw [h]

/-- A core that gets no page has none on its list. -/
theorem pageAlloc_none (h : (pageAlloc p).2 = none) : p.stock = 0 := by
  unfold Pool.stock
  cases hlist : p.localLists p.cpu.list with
  | nil => rfl
  | cons pg rest =>
    rw [pageAlloc_cons hlist] at h
    cases h

end Dune
