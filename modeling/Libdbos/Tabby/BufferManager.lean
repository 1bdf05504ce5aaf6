import Libdbos.Framework.System
import Libdbos.Tabby.BlockFiles

/-! # The Buffer Manager

    The buffer manager of `apps/tabby/tabby.cpp`: `fixX`, `fixS` and the
    guards, `handlePageFault`, `allocPage` and `evict`, for any number of
    threads. Each atomic word operation, dirty-flag access, disk read, disk
    write and section under a free-list mutex is one step. Assertions are
    compiled out, as in the Makefile.

    A page has a virtual address of its own. Its entry in the page table
    points to the frame it was loaded into last; evicting the page does not
    change the entry. Instead every frame carries, in its state word, the
    address of the page in it, and whoever comes through an old translation
    finds another address there. Translations are cached by each core and
    may be dropped or filled at any time.

    A round of `evict` inside `ensureFreePages` is one of an evictor of its
    own, in which the thread makes no step. `allocCount++` hands out each
    page once.

    History variables:
    * `owner`: what a frame is used for;
    * `readers`: the threads with a shared lock on a page;
    * `known`: the pages whose allocation is complete; only these are fixed;
    * `last`: what the last exclusive holder of a page has left in it;
    * `fixes`: what was found in each page that was fixed;
    * `checks`: what was read through each guard that was validated;
    * the frames on which a thread has taken its locks.
-/

open LTS

namespace Tabby

/-! ## State -/

/-- The content of a frame, or of a page on disk. -/
structure Page (α : Type) where
  word : VmPageState
  dirty : Bool
  data : α

/-- The word of a zeroed page. -/
def zeroWord : VmPageState := ⟨0#36, 0#20, 0#8⟩

structure Config (α : Type) where
  /-- `TABBY_PREALLOCATION`; without it frames are zeroed before use. -/
  preallocation : Bool
  /-- The number of free lists, `kNumGlobalFreeLists`. -/
  freeLists : Nat
  /-- The free list of the core of a thread. -/
  slot : Nat → Nat
  physCount : Nat
  batch : Nat
  /-- The data of a zeroed page. -/
  zero : α
  /-- The addresses of pages. -/
  isPage : Pid → Bool
  slot_lt : ∀ t, slot t < freeLists
  zero_not_page : isPage 0#36 = false
  invalid_not_page : isPage invalidAddr = false

/-- An entry of the page table. `usr1` is the bit `PTE_USR1` that locks it. -/
structure Pte where
  present : Bool
  frame : Nat
  usr1 : Bool
  deriving DecidableEq, Repr

/-- The `GuardO` that is upgraded, with its version. -/
structure Upgrade where
  guard : Nat
  version : BitVec 20
  deriving DecidableEq, Repr

/-- What a page is fixed for. -/
inductive Mode where
  | exclusive (up : Option Upgrade)
  | shared (up : Option Upgrade)
  | optimistic
  /-- A new page. -/
  | allocate
  deriving DecidableEq, Repr

/-- Positions in `handlePageFault` and `allocFrame`. `old` is the local
    `old_pte`, `f` the frame that was allocated, `stolen` the container of
    frames taken from another list. -/
inductive FaultPc where
  | load
  | lock (old : Pte)
  | flush (old : Pte)
  | check (old : Pte)
  | alloc (old : Pte)
  | steal (old : Pte)
  | refill (old : Pte) (stolen : List Nat)
  | zero (old : Pte) (f : Nat)
  | read (old : Pte) (f : Nat)
  | verify (f : Nat)
  | unlock (f : Nat)
  | unlocked (f : Nat) (v : VmPageState)
  | store (new : Pte)
  | done
  deriving DecidableEq, Repr

/-- Positions of a thread. -/
inductive Pc where
  | run
  | look (m : Mode) (p : Pid)
  | tested (m : Mode) (p : Pid) (v : VmPageState)
  | fault (m : Mode) (p : Pid) (pc : FaultPc)
  | construct (p : Pid)
  | initWord (p : Pid)
  | loadWord (p : Pid)
  | lockNew (p : Pid) (v : VmPageState)
  /-- The lock was taken on frame `f`. -/
  | setDirty (p : Pid) (f : Nat)
  | unlockX (p : Pid) (v : VmPageState)
  | reloadS (p : Pid)
  | unlockS (p : Pid) (v : VmPageState)
  | clearCheck (guard : Nat) (v : VmPageState)
  /-- The process has ended with an error, while `f` was being filled. -/
  | exited (f : Nat)
  deriving DecidableEq, Repr

/-- A thread, with its exclusive and its shared locks on each page: the
    frames on which they were taken. -/
structure Thread where
  pc : Pc
  exclusive : Pid → Option Nat
  shared : Pid → List Nat

/-- A `GuardO`; what was in the page when it was created and what has been
    read through it are history. -/
structure Guard (α : Type) where
  id : Nat
  thread : Nat
  page : Pid
  version : VmPageState
  created : α
  reads : List α

/-- A scan for victims, with `i` and `pos` of `iterateClockBatch`, whose loop
    has ended when `i` is the size of a batch. -/
structure Scan where
  i : Nat
  pos : Nat
  toEvict : List Nat
  toWrite : List Nat
  deriving DecidableEq, Repr

/-- Positions in `evict`. -/
inductive EvictPc where
  | idle
  | scan (c : Scan)
  | looked (v : VmPageState) (c : Scan)
  | dirty (v : VmPageState) (c : Scan)
  | lock (v : VmPageState) (c : Scan)
  | mark (v : VmPageState) (c : Scan)
  | clean (todo : List Nat) (pending : List (Nat × Pid)) (toEvict toWrite : List Nat)
  | prep (f : Nat) (todo : List Nat) (pending : List (Nat × Pid)) (toEvict toWrite : List Nat)
  | write (pending : List (Nat × Pid)) (toEvict toWrite : List Nat)
  | relook (todo kept toWrite : List Nat)
  | relock (f : Nat) (v : VmPageState) (todo kept toWrite : List Nat)
  | inval (todo done : List Nat)
  | invalStore (f : Nat) (v : VmPageState) (todo done : List Nat)
  | release (done : List Nat)
  deriving DecidableEq, Repr

/-- What a frame is used for. -/
inductive Owner where
  /-- On a free list. -/
  | free
  /-- In the container of thread `t`, which has taken it from a list. -/
  | popped (t : Nat)
  /-- Taken by thread `t` to load or to allocate `p`. -/
  | filling (t : Nat) (p : Pid)
  /-- Holds the new page `p`, which thread `t` has not locked yet. -/
  | fresh (t : Nat) (p : Pid)
  /-- Holds `p` and is not locked exclusively. -/
  | resident (p : Pid)
  /-- Locked by a guard of thread `t`. -/
  | guarded (t : Nat) (p : Pid)
  /-- Locked by evictor `e`; `saved` when `p` is on disk. -/
  | evicting (e : Nat) (p : Pid) (saved : Bool)
  /-- Invalidated by evictor `e`, which has yet to free it. -/
  | evicted (e : Nat)
  deriving DecidableEq, Repr

/-- A page that was fixed, what was found in it, and what the last
    exclusive holder had left. -/
structure Fix (α : Type) where
  page : Pid
  found : α
  left : Option α

/-- A guard that was validated. -/
structure Check (α : Type) where
  created : α
  reads : List α

/-- What threads and evictors share. -/
structure Shared (α : Type) where
  frames : Nat → Page α
  disk : Pid → Page α
  pte : Pid → Pte
  /-- The frame that a core has cached for a page. -/
  tlb : Nat → Pid → Option Nat
  free : Nat → List Nat
  /-- The pages that `allocCount` has passed. -/
  taken : Pid → Bool
  owner : Nat → Owner
  readers : Pid → List Nat
  known : Pid → Bool
  last : Pid → Option α

structure State (α : Type) extends Shared α where
  clockPos : Nat
  threads : Nat → Thread
  evictors : Nat → EvictPc
  guards : List (Guard α)
  nextGuard : Nat
  fixes : List (Fix α)
  checks : List (Check α)

inductive Label (α : Type) where
  | fix (t : Nat) (m : Mode) (p : Pid)
  | upgradeX (guard : Nat)
  | upgradeS (guard : Nat)
  | allocPage (t : Nat) (p : Pid)
  | thread (t : Nat)
  /-- Thread `t` takes frames from free list `i`. -/
  | steal (t i : Nat)
  /-- The constructor of a new page, which may set its dirty flag. -/
  | construct (t : Nat) (x : α) (setsDirty : Bool)
  /-- The holder of `p` writes to it. -/
  | modify (t : Nat) (p : Pid) (x : α)
  | unfixX (t : Nat) (p : Pid)
  | unfixS (t : Nat) (p : Pid)
  | readO (guard : Nat)
  /-- `checkVersionAndRestart`. -/
  | checkO (guard : Nat)
  | dropO (guard : Nat)
  | tlbFill (t : Nat) (p : Pid)
  | tlbDrop (t : Nat) (p : Pid)
  | startEvict (e : Nat)
  | evict (e : Nat)
  /-- The write of `f` to the place of `p` is done. -/
  | diskWrite (e f : Nat) (p : Pid)

/-! ## Setters -/

section Shared

variable {α : Type} (m : Shared α)

def Shared.word (f : Nat) : VmPageState := (m.frames f).word

/-- The frame that thread `t` reaches through the address of `p`. -/
def Shared.translate (t : Nat) (p : Pid) : Nat := (m.tlb t p).getD (m.pte p).frame

def Shared.setPage (f : Nat) (x : Page α) : Shared α :=
  { m with frames := Function.update m.frames f x }

def Shared.setWord (f : Nat) (w : VmPageState) : Shared α :=
  m.setPage f { m.frames f with word := w }

def Shared.setOwner (f : Nat) (o : Owner) : Shared α :=
  { m with owner := Function.update m.owner f o }

/-- All frames of a list change owner. -/
def Shared.setOwners (fs : List Nat) (o : Owner) : Shared α :=
  { m with owner := fun f => if fs.contains f then o else m.owner f }

def Shared.setPte (p : Pid) (x : Pte) : Shared α := { m with pte := Function.update m.pte p x }

def Shared.setTlb (t : Nat) (p : Pid) (x : Option Nat) : Shared α :=
  { m with tlb := Function.update m.tlb t (Function.update (m.tlb t) p x) }

def Shared.setFree (i : Nat) (fs : List Nat) : Shared α :=
  { m with free := Function.update m.free i fs }

def Shared.setReaders (p : Pid) (ts : List Nat) : Shared α :=
  { m with readers := Function.update m.readers p ts }

def Shared.setKnown (p : Pid) : Shared α := { m with known := Function.update m.known p true }

def Shared.setLast (p : Pid) (x : α) : Shared α :=
  { m with last := Function.update m.last p (some x) }

end Shared

section State

variable {α : Type} (s : State α)

def State.put (m : Shared α) : State α := { s with toShared := m }

def State.setThread (t : Nat) (x : Thread) : State α :=
  { s with threads := Function.update s.threads t x }

def State.goto (t : Nat) (pc : Pc) : State α := s.setThread t { s.threads t with pc := pc }

def State.setEvictor (e : Nat) (pc : EvictPc) : State α :=
  { s with evictors := Function.update s.evictors e pc }

/-- Page `p`, in frame `f`, has been fixed. -/
def State.record (p : Pid) (f : Nat) : State α :=
  { s with fixes := ⟨p, (s.frames f).data, s.last p⟩ :: s.fixes }

/-! ## Guards -/

def State.guard (id : Nat) : Option (Guard α) := s.guards.find? fun g => g.id == id

/-- Thread `t` has created a `GuardO` on `p` in frame `f`. -/
def State.openGuard (t : Nat) (p : Pid) (v : VmPageState) (f : Nat) : State α :=
  { s with
    guards := ⟨s.nextGuard, t, p, v, (s.frames f).data, []⟩ :: s.guards
    nextGuard := s.nextGuard + 1 }

def State.dropGuard (id : Nat) : State α :=
  { s with guards := s.guards.filter fun g => g.id != id }

/-- A read of the page through guard `g`. -/
def State.readGuard (g : Guard α) : State α :=
  { s with guards := s.guards.map fun h =>
    if h.id == g.id then
      { h with reads := (s.frames (s.translate g.thread g.page)).data :: h.reads }
    else h }

/-- The guard has been validated. -/
def State.validate (id : Nat) : State α :=
  match s.guard id with
  | some g => { s with checks := ⟨g.created, g.reads⟩ :: s.checks }
  | none => s

/-- The upgrade of a guard is given up. -/
def State.giveUp : Option Upgrade → State α
  | some u => s.dropGuard u.guard
  | none => s

/-- The upgrade of a guard has succeeded. -/
def State.upgraded : Option Upgrade → State α
  | some u => (s.validate u.guard).dropGuard u.guard
  | none => s

end State

/-! ## Threads -/

section Threads

variable {α : Type} (cfg : Config α) (s : State α)

/-- `tryLockX` of thread `t` on page `p`, whose word was read as `v`. -/
def State.tryLockX (t : Nat) (up : Option Upgrade) (p : Pid) (v : VmPageState) : State α :=
  let f := s.translate t p
  if s.word f = v then
    (((s.upgraded up).record p f).put
      ((s.setWord f v.lockX).setOwner f (.guarded t p))).goto t (.setDirty p f)
  else s.goto t (.look (.exclusive up) p)

/-- `tryLockS`, which swaps in `w`. An upgrade does not try again. -/
def State.tryLockS (t : Nat) (up : Option Upgrade) (p : Pid) (v w : VmPageState) : State α :=
  let f := s.translate t p
  let x := s.threads t
  if s.word f = v then
    (((s.upgraded up).record p f).put
      ((s.setWord f w).setReaders p (t :: s.readers p))).setThread t
        { x with pc := .run, shared := Function.update x.shared p (f :: x.shared p) }
  else if up.isSome then (s.giveUp up).goto t .run
  else s.goto t (.look (.shared up) p)

/-- A `GuardO` is created on a marked page once the mark is cleared. -/
def State.tryClear (t : Nat) (p : Pid) (v : VmPageState) : State α :=
  let f := s.translate t p
  if s.word f = v then
    ((s.openGuard t p v.clearMark f).put (s.setWord f v.clearMark)).goto t .run
  else s.goto t (.look .optimistic p)

/-- The version is not that of the guard. -/
def restarts (up : Option Upgrade) (v : VmPageState) : Bool :=
  up.any fun u => decide (u.version ≠ v.version)

/-- The word of `p` is read as `v`, in frame `f`. -/
def lookStep (t : Nat) (m : Mode) (p : Pid) (v : VmPageState) (f : Nat) : State α :=
  if v.addr = p then
    match m with
    | .optimistic =>
        if v.state = VmPageState.marked then s.goto t (.tested m p v)
        else if v.state = VmPageState.locked ∨ v.state = VmPageState.evicted then
          s.goto t (.look m p)
        else (s.openGuard t p v f).goto t .run
    | _ => s.goto t (.tested m p v)
  else s.goto t (.fault m p .load)

/-- After the word of `p` was read as `v`, with the address of `p` in it. -/
def testedStep (t : Nat) (m : Mode) (p : Pid) (v : VmPageState) : State α :=
  match m with
  | .exclusive up =>
      if restarts up v then (s.giveUp up).goto t .run
      else if v.lockable then s.tryLockX t up p v
      else s.goto t (.look m p)
  | .shared up =>
      if restarts up v then (s.giveUp up).goto t .run
      else
        match v.lockS with
        | some w => s.tryLockS t up p v w
        | none => if up.isSome then (s.giveUp up).goto t .run else s.goto t (.look m p)
  | .optimistic => s.tryClear t p v
  | .allocate => s.goto t .run

/-- Where a fault goes on once it has frame `f`, zeroed where needed. -/
def afterZero (m : Mode) (old : Pte) (f : Nat) : FaultPc :=
  if old.present = false ∧ m = .allocate then .store ⟨true, f, false⟩ else .read old f

/-- Where a fault goes on once it has frame `f`. -/
def afterAlloc (m : Mode) (old : Pte) (f : Nat) : FaultPc :=
  if cfg.preallocation then afterZero m old f else .zero old f

/-- A step of thread `t` in `handlePageFault` for page `p`. -/
def faultStep (t : Nat) (m : Mode) (p : Pid) (pc : FaultPc) : Option (State α) :=
  let next (pc : FaultPc) : Pc := .fault m p pc
  let i := cfg.slot t
  match pc with
  | .load => some (s.goto t (next (.lock (s.pte p))))
  | .lock old =>
      if old.usr1 = false ∧ s.pte p = old then
        some ((s.put (s.setPte p { old with usr1 := true })).goto t
          (next (if old.present then .flush old else .alloc old)))
      else some (s.goto t (next .done))
  | .flush old => some ((s.put (s.setTlb t p none)).goto t (next (.check old)))
  | .check old =>
      some (s.goto t (next
        (if (s.word (s.translate t p)).addr = p then .store old else .alloc old)))
  | .alloc old =>
      match (s.free i).getLast? with
      | some f =>
          some ((s.put ((s.setFree i (s.free i).dropLast).setOwner f (.filling t p))).goto t
            (next (afterAlloc cfg m old f)))
      | none =>
          -- With one list only, `allocFrame` fails.
          if cfg.freeLists = 1 then some ((s.put (s.setPte p old)).goto t (next (.lock old)))
          else some (s.goto t (next (.steal old)))
  | .steal _ => none
  | .refill old stolen =>
      match stolen.getLast? with
      | some f =>
          let m' := (s.setFree i (s.free i ++ stolen.dropLast)).setOwners stolen .free
          some ((s.put (m'.setOwner f (.filling t p))).goto t (next (afterAlloc cfg m old f)))
      | none => none
  | .zero old f =>
      some ((s.put (s.setPage f ⟨zeroWord, false, cfg.zero⟩)).goto t (next (afterZero m old f)))
  | .read old f =>
      some ((s.put (s.setPage f (s.disk p))).goto t
        (next (if old.present then .verify f else .store ⟨true, f, false⟩)))
  | .verify f => some (s.goto t (if (s.word f).addr = p then next (.unlock f) else .exited f))
  | .unlock f => some (s.goto t (next (.unlocked f (s.word f))))
  | .unlocked f v =>
      some ((s.put ((s.setWord f v.unlockX).setOwner f (.resident p))).goto t
        (next (.store ⟨true, f, false⟩)))
  | .store new => some ((s.put (s.setPte p new)).goto t (next .done))
  | .done =>
      some ((s.put (s.setTlb t p none)).goto t
        (if m = .allocate then .construct p else .look m p))

/-- A step of thread `t`. -/
def threadStep (t : Nat) : Option (State α) :=
  let x := s.threads t
  match x.pc with
  | .run | .exited _ | .construct _ => none
  | .look m p => some (lookStep s t m p (s.word (s.translate t p)) (s.translate t p))
  | .tested m p v => some (testedStep s t m p v)
  | .fault m p pc => faultStep cfg s t m p pc
  | .initWord p =>
      let f := s.translate t p
      let w : VmPageState := ⟨p, 0#20, VmPageState.unlocked⟩
      some ((s.put ((s.setWord f w).setOwner f (.fresh t p))).goto t (.loadWord p))
  | .loadWord p => some (s.goto t (.lockNew p (s.word (s.translate t p))))
  | .lockNew p v =>
      let f := s.translate t p
      if s.word f = v then
        some ((s.put ((s.setWord f v.lockX).setOwner f (.guarded t p))).goto t (.setDirty p f))
      else some (s.goto t (.setDirty p f))
  | .setDirty p f =>
      let g := s.translate t p
      some ((s.put ((s.setPage g { s.frames g with dirty := true }).setKnown p)).setThread t
        { x with pc := .run, exclusive := Function.update x.exclusive p (some f) })
  | .unlockX p v =>
      let f := s.translate t p
      some ((s.put (((s.setWord f v.unlockX).setOwner f (.resident p)).setLast p
        (s.frames f).data)).setThread t
          { x with pc := .run, exclusive := Function.update x.exclusive p none })
  | .reloadS p => some (s.goto t (.unlockS p (s.word (s.translate t p))))
  | .unlockS p v =>
      let f := s.translate t p
      if s.word f = v then
        some ((s.put ((s.setWord f v.unlockS).setReaders p ((s.readers p).erase t))).setThread t
          { x with pc := .run, shared := Function.update x.shared p (x.shared p).tail })
      else some (s.goto t (.reloadS p))
  | .clearCheck id v =>
      match s.guard id with
      | some g =>
          let f := s.translate t g.page
          if s.word f = v then
            some (((s.validate id).put (s.setWord f v.clearMark)).goto t .run)
          else some ((s.dropGuard id).goto t .run)
      | none => none

/-- `checkVersionAndRestart` of guard `g`, whose word is read as `v`. -/
def checkStep (g : Guard α) (v : VmPageState) : State α :=
  if v = g.version then s.validate g.id
  else if v.addr = g.page ∧ v.version = g.version.version then
    if v.state ≤ VmPageState.maxShared then s.validate g.id
    else if v.state = VmPageState.marked then s.goto g.thread (.clearCheck g.id v)
    else s.dropGuard g.id
  else s.dropGuard g.id

end Threads

/-! ## Evictors -/

section Evictors

variable {α : Type} (cfg : Config α) (s : State α)

/-- `tryLockX` of evictor `e` on frame `f`, whose word was read as `v`. -/
def State.evictLock (e f : Nat) (v : VmPageState) (saved : Bool) : State α :=
  s.put ((s.setWord f v.lockX).setOwner f (.evicting e v.addr saved))

/-- The clock has been to a frame. -/
def Scan.next (c : Scan) : Scan :=
  { c with i := c.i + 1, pos := (c.pos + 1) % 2 ^ 64 % cfg.physCount }

/-- A step of evictor `e`, apart from the writes that the disk completes. -/
def evictStep (e : Nat) : Option (State α) :=
  match s.evictors e with
  | .idle => none
  -- 0. find candidates, lock dirty ones
  | .scan c =>
      if c.i < cfg.batch then some (s.setEvictor e (.looked (s.word c.pos) c))
      else if c.toEvict.length + c.toWrite.length < cfg.batch then
        some ({ s with clockPos := (s.clockPos + cfg.batch) % 2 ^ 64 % cfg.physCount }.setEvictor e
          (.scan { c with i := 0, pos := s.clockPos }))
      -- `writePages` fills `cb` without looking at its size.
      else if c.toWrite.length ≤ BlockFiles.maxIOs then
        some (s.setEvictor e (.clean c.toWrite [] c.toEvict c.toWrite))
      else none
  | .looked v c =>
      some (s.setEvictor e
        (if v.addr = invalidAddr then .scan (c.next cfg)
        else if v.state = VmPageState.marked then .dirty v c
        else if v.state = VmPageState.unlocked then .mark v c
        else .scan (c.next cfg)))
  | .dirty v c =>
      some (s.setEvictor e
        (if (s.frames c.pos).dirty then .lock v c
        else .scan { c.next cfg with toEvict := c.toEvict ++ [c.pos] }))
  | .lock v c =>
      if s.word c.pos = v then
        some ((s.evictLock e c.pos v false).setEvictor e
          (.scan { c.next cfg with toWrite := c.toWrite ++ [c.pos] }))
      else some (s.setEvictor e (.scan (c.next cfg)))
  | .mark v c =>
      if s.word c.pos = v then
        some ((s.put (s.setWord c.pos v.mark)).setEvictor e (.scan (c.next cfg)))
      else some (s.setEvictor e (.scan (c.next cfg)))
  -- 1. write dirty pages
  | .clean [] pending toEvict toWrite => some (s.setEvictor e (.write pending toEvict toWrite))
  | .clean (f :: todo) pending toEvict toWrite =>
      some ((s.put (s.setPage f { s.frames f with dirty := false })).setEvictor e
        (.prep f todo pending toEvict toWrite))
  | .prep f todo pending toEvict toWrite =>
      some (s.setEvictor e (.clean todo (pending ++ [(f, (s.word f).addr)]) toEvict toWrite))
  | .write [] toEvict toWrite => some (s.setEvictor e (.relook toEvict [] toWrite))
  | .write (_ :: _) _ _ => none
  -- 2. try to lock clean page candidates
  | .relook [] kept toWrite => some (s.setEvictor e (.inval (kept ++ toWrite) []))
  | .relook (f :: todo) kept toWrite =>
      let v := s.word f
      some (s.setEvictor e
        (if v.state = VmPageState.marked then .relock f v todo kept toWrite
        else .relook todo kept toWrite))
  | .relock f v todo kept toWrite =>
      if s.word f = v then
        some ((s.evictLock e f v true).setEvictor e (.relook todo (kept ++ [f]) toWrite))
      else some (s.setEvictor e (.relook todo kept toWrite))
  -- 5. remove and unlock
  | .inval [] done => some (s.setEvictor e (.release done))
  | .inval (f :: todo) done => some (s.setEvictor e (.invalStore f (s.word f) todo done))
  | .invalStore f v todo done =>
      some ((s.put ((s.setWord f v.unlockXInvalidated).setOwner f (.evicted e))).setEvictor e
        (.inval todo (done ++ [f])))
  | .release done =>
      let i := cfg.slot e
      some ((s.put ((s.setFree i (s.free i ++ done)).setOwners done .free)).setEvictor e .idle)

end Evictors

/-! ## The machine -/

section Machine

variable {α : Type} (cfg : Config α) (s : State α)

/-- The number of frames that are stolen at a time, `kLocalFreeListSoftLimit`. -/
def stealMax : Nat := 64

/-- An upgrade of guard `id` begins, unless its thread is busy. -/
def upgradeStep (id : Nat) (mode : Option Upgrade → Mode) : Option (State α) :=
  match s.guard id with
  | some g =>
      if (s.threads g.thread).pc = .run then
        some (s.goto g.thread (.look (mode (some ⟨id, g.version.version⟩)) g.page))
      else none
  | none => none

def step : Label α → Option (State α)
  | .fix t m p =>
      if (s.threads t).pc = .run ∧ s.known p ∧
          (m = .exclusive none ∨ m = .shared none ∨ m = .optimistic) then
        some (s.goto t (.look m p))
      else none
  | .upgradeX id => upgradeStep s id .exclusive
  | .upgradeS id => upgradeStep s id .shared
  | .allocPage t p =>
      if (s.threads t).pc = .run ∧ cfg.isPage p ∧ s.taken p = false then
        some ((s.put { s.toShared with taken := Function.update s.taken p true }).goto t
          (.fault .allocate p .load))
      else none
  | .thread t => threadStep cfg s t
  | .steal t i =>
      match (s.threads t).pc with
      | .fault m p (.steal old) =>
          let stolen := (s.free i).reverse.take stealMax
          let left := (s.free i).take ((s.free i).length - stealMax)
          if stolen.isEmpty then none
          else some ((s.put ((s.setFree i left).setOwners stolen (.popped t))).goto t
            (.fault m p (.refill old stolen)))
      | _ => none
  | .construct t x setsDirty =>
      match (s.threads t).pc with
      | .construct p =>
          let f := s.translate t p
          let page : Page α := ⟨s.word f, setsDirty || (s.frames f).dirty, x⟩
          some ((s.put (s.setPage f page)).goto t (.initWord p))
      | _ => none
  | .modify t p x =>
      let f := s.translate t p
      if (s.threads t).pc = .run ∧ ((s.threads t).exclusive p).isSome then
        some (s.put (s.setPage f { s.frames f with data := x }))
      else none
  | .unfixX t p =>
      if (s.threads t).pc = .run ∧ ((s.threads t).exclusive p).isSome then
        some (s.goto t (.unlockX p (s.word (s.translate t p))))
      else none
  | .unfixS t p =>
      if (s.threads t).pc = .run ∧ (s.threads t).shared p ≠ [] then
        some (s.goto t (.reloadS p))
      else none
  | .readO id =>
      match s.guard id with
      | some g => if (s.threads g.thread).pc = .run then some (s.readGuard g) else none
      | none => none
  | .checkO id =>
      match s.guard id with
      | some g =>
          if (s.threads g.thread).pc = .run then
            some (checkStep s g (s.word (s.translate g.thread g.page)))
          else none
      | none => none
  | .dropO id =>
      match s.guard id with
      | some g => if (s.threads g.thread).pc = .run then some (s.dropGuard id) else none
      | none => none
  | .tlbFill t p =>
      if (s.pte p).present then some (s.put (s.setTlb t p (some (s.pte p).frame))) else none
  | .tlbDrop t p => some (s.put (s.setTlb t p none))
  | .startEvict e =>
      if s.evictors e = .idle then some (s.setEvictor e (.scan ⟨cfg.batch, 0, [], []⟩)) else none
  | .evict e => evictStep cfg s e
  | .diskWrite e f p =>
      match s.evictors e with
      | .write pending toEvict toWrite =>
          if pending.contains (f, p) then
            some ((s.put { s.setOwner f (.evicting e p true) with
              disk := Function.update s.disk p (s.frames f) }).setEvictor e
                (.write (pending.erase (f, p)) toEvict toWrite))
          else none
      | _ => none

end Machine

/-! ## Initial states -/

section Init

variable {α : Type}

/-- The word of a frame without a page. -/
def FreeWord (w : VmPageState) : Prop :=
  w.addr = invalidAddr ∧ w.state = VmPageState.unlocked

/-- What the place of `p` on disk can hold: nothing, or what `evict` has
    written, a page that is locked. -/
def DiskWord (p : Pid) (w : VmPageState) : Prop :=
  w = zeroWord ∨ (w.addr = p ∧ w.state = VmPageState.locked)

/-- What the constructor of the buffer manager leaves. -/
structure Init (cfg : Config α) (s : State α) : Prop where
  frames : ∀ f, s.word f = ⟨invalidAddr, 0#20, VmPageState.unlocked⟩
  disk : ∀ p, DiskWord p (s.disk p).word
  pte : ∀ p, (s.pte p).present = false ∧ (s.pte p).usr1 = false
  tlb : ∀ t p, s.tlb t p = none
  free : ∀ i, s.free i = (List.range cfg.physCount).filter fun f => f % cfg.freeLists == i
  taken : ∀ p, s.taken p = false
  owner : ∀ f, s.owner f = .free
  readers : ∀ p, s.readers p = []
  known : ∀ p, s.known p = false
  last : ∀ p, s.last p = none
  threads : ∀ t, s.threads t = ⟨.run, fun _ => none, fun _ => []⟩
  evictors : ∀ e, s.evictors e = .idle
  guards : s.guards = []
  fixes : s.fixes = []
  checks : s.checks = []

def system (cfg : Config α) : System (State α) (Label α) where
  init := Init cfg
  step := step cfg

end Init

/-! ## Conditions on a step -/

section Conditions

variable {α : Type} (s : State α)

/-- A lock on a page is taken on the frame to which its entry points. -/
def lockAtEntry : Label α → Bool
  | .thread t =>
      match (s.threads t).pc with
      | .tested (.exclusive _) p v | .tested (.shared _) p v =>
          s.word (s.translate t p) ≠ v || s.translate t p = (s.pte p).frame
      | _ => true
  | _ => true

/-- A `GuardO` on a page is created on the frame to which its entry points. -/
def createAtEntry : Label α → Bool
  | .thread t =>
      match (s.threads t).pc with
      | .look .optimistic p =>
          (s.word (s.translate t p)).addr ≠ p || s.translate t p = (s.pte p).frame
      | .tested .optimistic p v =>
          s.word (s.translate t p) ≠ v || s.translate t p = (s.pte p).frame
      | _ => true
  | _ => true

def Owner.isFresh : Owner → Bool
  | .fresh _ _ => true
  | _ => false

/-- The clock scan does not mark a zeroed frame, nor a new page before the
    guard that allocates it has locked it. -/
def markOk : Label α → Bool
  | .evict e =>
      match s.evictors e with
      | .mark v c => s.word c.pos ≠ v || (v ≠ zeroWord && !(s.owner c.pos).isFresh)
      | _ => true
  | _ => true

/-- A page that was clean when the clock came to it is still clean when it is
    locked for eviction. -/
def relockClean : Label α → Bool
  | .evict e =>
      match s.evictors e with
      | .relock f v _ _ _ => s.word f ≠ v || !(s.frames f).dirty
      | _ => true
  | _ => true

/-- No open guard on `p` has version `n`. -/
def State.newVersion (p : Pid) (n : BitVec 20) : Bool :=
  s.guards.all fun g => g.page ≠ p || g.version.version ≠ n

/-- A page is not unlocked under the version of a guard that is open on it. -/
def freshVersion : Label α → Bool
  | .thread t =>
      match (s.threads t).pc with
      | .unlockX p v | .fault _ p (.unlocked _ v) => s.newVersion p v.unlockX.version
      | _ => true
  | _ => true

end Conditions

/-! ## A small machine -/

section Small

/-- Pages of one number, `frames` frames on one list, one victim a round. -/
def small (preallocation : Bool) (frames : Nat) : Config Nat where
  preallocation := preallocation
  freeLists := 1
  slot _ := 0
  physCount := frames
  batch := 1
  zero := 0
  isPage p := decide (p = 5#36) || decide (p = 6#36)
  slot_lt _ := Nat.one_pos
  zero_not_page := by decide
  invalid_not_page := by decide

def boot (cfg : Config Nat) : State Nat where
  frames _ := ⟨⟨invalidAddr, 0#20, VmPageState.unlocked⟩, false, 0⟩
  disk _ := ⟨zeroWord, false, 0⟩
  pte _ := ⟨false, 0, false⟩
  tlb _ _ := none
  free i := (List.range cfg.physCount).filter fun f => f % cfg.freeLists == i
  taken _ := false
  owner _ := .free
  readers _ := []
  known _ := false
  last _ := none
  clockPos := 0
  threads _ := ⟨.run, fun _ => none, fun _ => []⟩
  evictors _ := .idle
  guards := []
  nextGuard := 0
  fixes := []
  checks := []

theorem init_boot (cfg : Config Nat) : Init cfg (boot cfg) := by
  refine ⟨fun _ => rfl, fun _ => .inl rfl, fun _ => ⟨rfl, rfl⟩, fun _ _ => rfl, fun _ => rfl,
    fun _ => rfl, fun _ => rfl, fun _ => rfl, fun _ => rfl, fun _ => rfl, fun _ => rfl,
    fun _ => rfl, rfl, rfl, rfl⟩

def threadSteps (n t : Nat) : List (Label Nat) := List.replicate n (.thread t)

def evictSteps (n e : Nat) : List (Label Nat) := List.replicate n (.evict e)

/-- Thread `t` allocates page `p` with content `x`, and unlocks it. -/
def create (t : Nat) (p : Pid) (x : Nat) : List (Label Nat) :=
  [Label.allocPage t p] ++ threadSteps 5 t ++ [Label.construct t x true] ++ threadSteps 4 t ++
    [Label.unfixX t p, .thread t]

/-- A round of evictor `e` of `n + 6` steps that writes `p` from frame `f`. -/
def writeOut (e f : Nat) (p : Pid) (n : Nat) : List (Label Nat) :=
  [.startEvict e] ++ evictSteps n e ++ [.diskWrite e f p] ++ evictSteps 6 e

/-- Thread `t` fixes page `p`, which has to be loaded, and unfixes it. -/
def reload (t : Nat) (p : Pid) : List (Label Nat) :=
  [.fix t (.shared none) p] ++ threadSteps 14 t ++ [.unfixS t p] ++ threadSteps 2 t

end Small

end Tabby
