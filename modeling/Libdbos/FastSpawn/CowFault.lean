import Libdbos.Framework.System
import Libdbos.FastSpawn.Pte

/-! # Copy-on-Write Faults, Step by Step

    The write-fault handler `dbos_fast_spawn_pgflt_handler` on any number
    of main cores and on the snapshot core, next to everything that
    touches the same leaf entries:

    * the page walker, which sets accessed and dirty bits and, on the
      snapshot core, caches translations;
    * the snapshot worker, which loads its root and then announces itself
      (`dbos_fast_spawn_snapshot_worker`);
    * the shadow copier, which walks the live main table
      (`page_table_copy_worker`, `pgtable_cow_copy`).

    Each load, compare-exchange and store of a leaf is one step, and so is
    each of the two tests of shared data that are not leaves: the
    reference count and the thread state of the snapshot core.
    `dune_page_get` and `dune_page_put` are one step each, a page copy is
    one step with the allocation before it, and a TLB shootdown takes its
    effect at the call. `cow_pipeline_copy_and_ipi` is never set, so its
    branch of the handler is left out.

    The machine covers one generation: both tables are in place, no spawn
    and no completion happens. Three history variables count, per page,
    how often the snapshot leaf was moved to another frame, how often its
    reference to the shared frame was dropped, and what the snapshot last
    stored into its own copy.
-/

open LTS

namespace CowFault

open Pte

/-! ## State -/

/-- A page address. -/
abbrev Va := Word

/-- The core of the snapshot worker, `SNAPSHOT_CORE`. -/
def snapshotCore : Nat := 33

/-- What does not change while the machine runs. -/
structure Config where
  /-- The application leaves of the main table, in the order of the walk. -/
  vas : List Va
  /-- The size of the page pool, `p_allocator->num_pages`. -/
  numPages : Nat
  /-- There is a snapshot table, `state->pgroot_snapshot != NULL`. -/
  snapshotExists : Bool
  /-- The setting `dbos_selective_TLB_shootdown`. -/
  selective : Bool

/-- The test `dune_page_isfrompool`. -/
def Config.isFromPool (cfg : Config) (pa : Word) : Bool :=
  decide (0x100000000 ≤ pa.toNat ∧ pa.toNat < 0x100000000 + cfg.numPages * 4096)

/-- Where a core stands in the handler. The arguments are the local
    variables that are still needed: `old` is `old_pte`, `started` is
    `snapshot_thread_started`, `sold` is `old_snapshot_pte`, `page` is
    `newPage`. -/
inductive Pc where
  | idle
  | fetch (va : Va) (write : Bool)
  | lockPte (va : Va) (old : Word)
  | readRef (va : Va) (old : Word)
  | storeOwned (va : Va) (old : Word)
  | sample (va : Va) (old : Word)
  | copySnap (va : Va) (old : Word)
  | storeSnap (va : Va) (old page : Word)
  | putSnap (va : Va) (old : Word)
  | loadSnap (va : Va) (old : Word) (started : Bool)
  | lockSnap (va : Va) (old : Word) (started : Bool) (sold : Word)
  | restore (va : Va) (old : Word)
  | storeDiverged (va : Va) (old sold : Word)
  | copyMain (va : Va) (old : Word) (started : Bool) (sold : Word)
  | install (va : Va) (old : Word) (started : Bool) (sold page : Word)
  | reload (va : Va) (old : Word) (started : Bool) (page : Word)
  | overwrite (va : Va) (old : Word) (started : Bool) (page now : Word)
  | shootdown (va : Va) (old : Word) (started need : Bool)
  | putMain (va : Va) (old : Word)
  | unlockMain (va : Va) (old : Word)
  | unlockAlone (va : Va) (old : Word)
  | flush (va : Va)
  deriving DecidableEq, Repr

/-- Where the snapshot worker stands: before the load of its root, between
    the load and its announcement, after the announcement. -/
inductive Worker where
  | waiting
  | loaded
  | running
  deriving DecidableEq, Repr

/-- Where the shadow copier stands: the loads of `*pte` in `pgtable_cow_copy`,
    one after another. -/
inductive CopyPc where
  | next
  | getPage (va : Va)
  | testW (va : Va) (pg : Word)
  | testP (va : Va) (pg : Word)
  | testStack (va : Va) (pg : Word)
  | testCow (va : Va) (pg : Word)
  | testNocow (va : Va) (pg : Word)
  | cow1 (va : Va) (pg : Word)
  | cow2 (va : Va) (pg : Word)
  | plain1 (va : Va) (pg : Word)
  | plain2 (va : Va) (pg : Word)
  | getRef (va : Va) (pg : Word)
  deriving DecidableEq, Repr

/-- The machine, over any type `α` of page contents. -/
structure State (α : Type) where
  main : Va → Word
  snap : Va → Word
  ref : Word → Nat
  mem : Word → α
  pc : Nat → Pc
  worker : Worker
  /-- The frames the snapshot core has cached. -/
  tlb : Va → Option Word
  copier : CopyPc
  todo : List Va
  shadow1 : Va → Word
  shadow2 : Va → Word
  replaced : Va → Nat
  dropped : Va → Nat
  snapStored : Va → Option α

/-! ## Labels -/

inductive Label (α : Type) where
  /-- A fault of core `c` on page `va`. -/
  | fault (c : Nat) (va : Va) (write : Bool)
  /-- The next step of the handler on core `c`. -/
  | handler (c : Nat)
  /-- Core `c` copies the page into `page`, fresh from the allocator. -/
  | copy (c : Nat) (page : Word)
  /-- A page walk of a main core. -/
  | walkMain (va : Va) (write : Bool)
  /-- A page walk of the snapshot core. -/
  | walkSnap (va : Va) (write : Bool)
  /-- The snapshot core caches a translation. -/
  | cacheSnap (va : Va)
  | storeMain (va : Va) (x : α)
  | storeSnap (va : Va) (x : α)
  /-- The worker loads `state->pgroot_snapshot`. -/
  | loadRoot
  /-- The worker sets its thread state. -/
  | announce
  /-- The next step of the shadow copier. -/
  | walk
  deriving DecidableEq, Repr

/-! ## Steps -/

section Steps

variable {α : Type} (cfg : Config) (s : State α)

def State.setPc (c : Nat) (p : Pc) : State α := { s with pc := Function.update s.pc c p }

def State.setMain (va : Va) (w : Word) : State α := { s with main := Function.update s.main va w }

def State.setSnap (va : Va) (w : Word) : State α := { s with snap := Function.update s.snap va w }

/-- The leaf of the table that core `c` runs on. -/
def State.leaf (c : Nat) (va : Va) : Word := if c = snapshotCore then s.snap va else s.main va

def State.setLeaf (c : Nat) (va : Va) (w : Word) : State α :=
  if c = snapshotCore then s.setSnap va w else s.setMain va w

/-- A store that moves the snapshot leaf to another frame. -/
def State.replace (va : Va) (w : Word) : State α :=
  { s.setSnap va w with replaced := Function.update s.replaced va (s.replaced va + 1) }

/-- The call `dune_page_put` for the frame `f` that page `va` gives up. -/
def State.put (va : Va) (f : Word) : State α :=
  if cfg.isFromPool f then
    { s with
      ref := Function.update s.ref f (s.ref f - 1)
      dropped := Function.update s.dropped va (s.dropped va + 1) }
  else s

/-- Thread state of the snapshot core is `DUNE_THREAD_SNAPSHOT`. -/
def State.started : Bool := s.worker == .running

/-- The handler's steps other than the page copies. -/
def handlerStep (c : Nat) : Option (State α) :=
  match s.pc c with
  | .idle => none
  | .fetch va write =>
      let old := s.leaf c va
      if write && isCow old && !isW old && !isLock old then some (s.setPc c (.lockPte va old))
      else some (s.setPc c (.flush va))
  | .lockPte va old =>
      if s.leaf c va = old then some ((s.setLeaf c va (locked old)).setPc c (.readRef va old))
      else some (s.setPc c (.flush va))
  | .readRef va old =>
      if cfg.isFromPool (pteAddr old) && s.ref (pteAddr old) == 1 then
        some (s.setPc c (.storeOwned va old))
      else some (s.setPc c (.sample va old))
  | .storeOwned va old => some ((s.setLeaf c va (unlocked old)).setPc c (.flush va))
  | .sample va old =>
      if c = snapshotCore then some (s.setPc c (.copySnap va old))
      else if cfg.snapshotExists then some (s.setPc c (.loadSnap va old s.started))
      else some (s.setPc c (.unlockAlone va old))
  | .copySnap _ _ => none
  | .storeSnap va old page =>
      some ((s.replace va (privateCopy page old)).setPc c (.putSnap va old))
  | .putSnap va old => some ((s.put cfg va (pteAddr old)).setPc c (.flush va))
  | .loadSnap va old started => some (s.setPc c (.lockSnap va old started (s.snap va)))
  | .lockSnap va old started sold =>
      -- The entry is not tested for its lock bit.
      if s.snap va = sold then
        if pteAddr old = pteAddr (locked sold) then
          some ((s.setSnap va (locked sold)).setPc c (.copyMain va old started sold))
        else some ((s.setSnap va (locked sold)).setPc c (.storeDiverged va old sold))
      else some (s.setPc c (.restore va old))
  | .restore va old => some ((s.setMain va (restored old)).setPc c (.fetch va true))
  | .storeDiverged va old sold =>
      some ((s.setSnap va (diverged (locked sold))).setPc c (.unlockMain va old))
  | .copyMain _ _ _ _ => none
  | .install va old started sold page =>
      if s.snap va = locked sold then
        some ((s.replace va (installed page (locked sold))).setPc c
          (.shootdown va old started (isA (locked sold))))
      else some (s.setPc c (.reload va old started page))
  | .reload va old started page =>
      some (s.setPc c (.overwrite va old started page (s.snap va)))
  | .overwrite va old started page now =>
      some ((s.replace va (overwritten page now)).setPc c (.shootdown va old started true))
  | .shootdown va old started need =>
      if started && (need || !cfg.selective) then
        some ({ s with tlb := Function.update s.tlb va none }.setPc c (.putMain va old))
      else some (s.setPc c (.putMain va old))
  | .putMain va old =>
      -- `snapshot_pte_addr` equals `pte_addr` on this branch.
      some ((s.put cfg va (pteAddr old)).setPc c (.unlockMain va old))
  | .unlockMain va old => some ((s.setMain va (unlocked old)).setPc c (.flush va))
  | .unlockAlone va old => some ((s.setMain va (unlocked old)).setPc c (.flush va))
  | .flush va =>
      if c = snapshotCore then
        some ({ s with tlb := Function.update s.tlb va none }.setPc c .idle)
      else some (s.setPc c .idle)

/-- `dune_alloc_page_internal` hands out a page of the pool that nobody
    references, and `memcpy` fills it. -/
def State.copyInto (page from_ : Word) : State α :=
  { s with
    ref := Function.update s.ref page 1
    mem := Function.update s.mem page (s.mem from_) }

/-- A page the allocator can hand out. -/
def State.allocatable (page : Word) : Bool :=
  cfg.isFromPool page && s.ref page == 0 && pteAddr page == page

def copyStep (c : Nat) (page : Word) : Option (State α) :=
  if s.allocatable cfg page then
    match s.pc c with
    | .copySnap va old =>
        some ((s.copyInto page (pteAddr (s.snap va))).setPc c (.storeSnap va old page))
    | .copyMain va old started sold =>
        some ((s.copyInto page (pteAddr (s.main va))).setPc c (.install va old started sold page))
    | _ => none
  else none

/-- The copier's steps: every test and every copy loads `*pte` again. -/
def walkStep : Option (State α) :=
  match s.copier with
  | .next =>
      match s.todo with
      | [] => none
      | va :: rest =>
          if s.main va = 0#64 then some { s with todo := rest }
          else some { s with todo := rest, copier := .getPage va }
  | .getPage va => some { s with copier := .testW va (pteAddr (s.main va)) }
  | .testW va pg =>
      if isW (s.main va) then some { s with copier := .testP va pg }
      else some { s with copier := .plain1 va pg }
  | .testP va pg =>
      if isP (s.main va) then some { s with copier := .testStack va pg }
      else some { s with copier := .plain1 va pg }
  | .testStack va pg =>
      if isStack (s.main va) then some { s with copier := .plain1 va pg }
      else some { s with copier := .testCow va pg }
  | .testCow va pg =>
      if isCow (s.main va) then some { s with copier := .plain1 va pg }
      else some { s with copier := .testNocow va pg }
  | .testNocow va pg =>
      if isNocow (s.main va) then some { s with copier := .plain1 va pg }
      else some { s with copier := .cow1 va pg }
  | .cow1 va pg =>
      some { s with
        shadow1 := Function.update s.shadow1 va (cowCopy1 (s.main va)), copier := .cow2 va pg }
  | .cow2 va pg =>
      some { s with
        shadow2 := Function.update s.shadow2 va (cowCopy2 (s.main va)), copier := .getRef va pg }
  | .plain1 va pg =>
      some { s with
        shadow1 := Function.update s.shadow1 va (plainCopy1 (s.main va)), copier := .plain2 va pg }
  | .plain2 va pg =>
      some { s with
        shadow2 := Function.update s.shadow2 va (plainCopy2 (s.main va)), copier := .getRef va pg }
  | .getRef va pg =>
      if cfg.isFromPool (pteAddr (s.main va)) then
        some { s with ref := Function.update s.ref pg (s.ref pg + 2), copier := .next }
      else some { s with copier := .next }

/-- The walker's update of a present leaf; a write needs a writable one. -/
def walked (w : Word) (write : Bool) : Option Word :=
  if write then if isP w && isW w then some (dirtied w) else none
  else if isP w then some (accessed w) else none

def step : Label α → Option (State α)
  | .fault c va write =>
      if s.pc c = .idle ∧ va ∈ cfg.vas ∧ (c = snapshotCore → s.worker ≠ .waiting) then
        some (s.setPc c (.fetch va write))
      else none
  | .handler c => handlerStep cfg s c
  | .copy c page => copyStep cfg s c page
  | .walkMain va write => (walked (s.main va) write).map (s.setMain va)
  | .walkSnap va write =>
      if s.worker = .waiting then none else (walked (s.snap va) write).map (s.setSnap va)
  | .cacheSnap va =>
      if s.worker ≠ .waiting ∧ isP (s.snap va) = true ∧ isA (s.snap va) = true then
        some { s with tlb := Function.update s.tlb va (some (pteAddr (s.snap va))) }
      else none
  | .storeMain va x =>
      if isP (s.main va) && isW (s.main va) then
        some { s with mem := Function.update s.mem (pteAddr (s.main va)) x }
      else none
  | .storeSnap va x =>
      if s.worker ≠ .waiting ∧ isP (s.snap va) = true ∧ isW (s.snap va) = true then
        some { s with
          mem := Function.update s.mem (pteAddr (s.snap va)) x
          snapStored := if s.replaced va = 0 then s.snapStored
            else Function.update s.snapStored va (some x) }
      else none
  | .loadRoot =>
      if s.worker = .waiting then some { s with worker := .loaded, tlb := fun _ => none } else none
  | .announce =>
      if s.worker = .loaded then some { s with worker := .running } else none
  | .walk => walkStep cfg s

end Steps

/-! ## Initial states -/

/-- The references the two tables hold on a frame: one for every main
    leaf on it and one for every page of it whose snapshot leaf has not
    dropped its own. -/
def refsHeld {α : Type} (cfg : Config) (s : State α) (f : Word) : Nat :=
  cfg.vas.countP (fun va => pteAddr (s.main va) == f) +
  cfg.vas.countP (fun va => pteAddr (s.main va) == f && s.dropped va == 0)

/-- The two leaves of a page as the copier wrote them. -/
structure CopiedLeaf (main snap : Word) : Prop where
  addr : pteAddr snap = pteAddr main
  cow : isCow snap = isCow main
  main_unlocked : isLock main = false
  snap_unlocked : isLock snap = false
  main_readonly : isCow main = true → isW main = false
  snap_readonly : isCow snap = true → isW snap = false

/-- The state after the switch to a pair of shadow tables. -/
structure Init {α : Type} (cfg : Config) (s : State α) : Prop where
  leaves : ∀ va, CopiedLeaf (s.main va) (s.snap va)
  unmapped : ∀ va, va ∉ cfg.vas → s.main va = 0#64 ∧ s.snap va = 0#64
  refs : ∀ f, cfg.isFromPool f = true → refsHeld cfg s f ≤ s.ref f
  idle : ∀ c, s.pc c = .idle
  waiting : s.worker = .waiting
  tlb : ∀ va, s.tlb va = none
  copier : s.copier = .next ∧ s.todo = cfg.vas
  replaced : ∀ va, s.replaced va = 0
  dropped : ∀ va, s.dropped va = 0
  snapStored : ∀ va, s.snapStored va = none

def system {α : Type} (cfg : Config) : System (State α) (Label α) where
  init := Init cfg
  step := step cfg

/-- One application page. -/
def onePage : Config where
  vas := [0x1000#64]
  numPages := 16
  snapshotExists := true
  selective := true

/-- The page at `0x1000` right after a switch: both leaves are on the
    first page of the pool, write-protected and marked copy-on-write. -/
def afterSwitch : State Nat where
  main := fun va => if va = 0x1000#64 then 0x100000265#64 else 0#64
  snap := fun va => if va = 0x1000#64 then 0x100000245#64 else 0#64
  ref := fun f => if f = 0x100000000#64 then 3 else 0
  mem := fun _ => 5
  pc := fun _ => .idle
  worker := .waiting
  tlb := fun _ => none
  copier := .next
  todo := [0x1000#64]
  shadow1 := fun _ => 0#64
  shadow2 := fun _ => 0#64
  replaced := fun _ => 0
  dropped := fun _ => 0
  snapStored := fun _ => none

theorem init_afterSwitch : Init onePage afterSwitch where
  leaves := fun va => by
    by_cases hva : va = 0x1000#64
    · simp only [afterSwitch, hva, if_true]
      exact ⟨by decide, by decide, by decide, by decide, by decide, by decide⟩
    · simp only [afterSwitch, hva, if_false]
      exact ⟨rfl, rfl, by decide, by decide, by decide, by decide⟩
  unmapped := fun va hva => by
    have hne : va ≠ 0x1000#64 := by simpa [onePage] using hva
    simp [afterSwitch, hne]
  refs := fun f _ => by
    have haddr : pteAddr 0x100000265#64 = 0x100000000#64 := by decide
    by_cases hf : f = 0x100000000#64
    · simp [refsHeld, onePage, afterSwitch, haddr, hf]
    · simp [refsHeld, onePage, afterSwitch, haddr, hf, Ne.symm hf]
  idle := fun _ => rfl
  waiting := rfl
  tlb := fun _ => rfl
  copier := ⟨rfl, rfl⟩
  replaced := fun _ => rfl
  dropped := fun _ => rfl
  snapStored := fun _ => rfl

end CowFault
