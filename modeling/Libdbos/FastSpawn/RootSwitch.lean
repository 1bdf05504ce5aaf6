import Libdbos.Kern.VmxLaunch
import Libdbos.FastSpawn.CowFault

/-! # Moving the Cores to a New Root

    `dune_fast_spawn_on_snapshot` of `libdune/fast_spawn.c` with everything
    that runs beside it: the vCPUs of all cores (`VmxLaunch`), the IPI
    handlers that run queued change-page-table messages, the snapshot
    worker, the page-table copier, TLB shootdowns and page faults as far
    as they touch what the switch uses. Each load, store,
    compare-exchange and CR3 write is one step.

    A core in state `MAIN` or `PGTBL_COPY` is moved in one of three ways:
    * a CR3 request is posted into its flag word while it is in the host;
    * a message is queued, and its IPI handler loads the root out of the
      argument of the message and sets `done`;
    * the spawning core loads the root by itself, last.

    The argument of a message lies in the work page of the sending core,
    in the entry of the target. The argument of a TLB shootdown lies over
    entry 0 of the same page.

    `moved` and `snapLoaded` are history variables: what has been loaded
    since the last publication of a root.
-/

open LTS

namespace RootSwitch

open Pv CowFault

/-! ## State -/

/-- The cores in state `MAIN` or `PGTBL_COPY`, and the one among them that
    copies page tables. -/
structure Config where
  mains : List Nat
  copyCore : Nat
  nodup : mains.Nodup
  snapshot_not_main : snapshotCore ∉ mains

/-- An entry of a work page, `ipi_call_change_pgtbl_arg_t`. -/
structure Slot where
  newPgroot : Word
  done : Bool
  deriving DecidableEq, Repr

/-- Positions in `dune_fast_spawn_on_snapshot`. The first loop is over
    `todo` and collects in `sent` the cores that were sent a message; the
    second loop is over these. -/
inductive SpawnPc where
  | idle
  | publish
  | publishSnap
  | scan (todo sent : List Nat)
  | post (i : Nat) (v : Word) (todo sent : List Nat)
  | reset (i : Nat) (todo sent : List Nat)
  | fill (i : Nat) (todo sent : List Nat)
  | queue (i : Nat) (todo sent : List Nat)
  | send (i : Nat) (todo sent : List Nat)
  | wait (todo : List Nat)
  | peek (i : Nat) (todo : List Nat)
  | repost (i : Nat) (v : Word) (todo : List Nat)
  | submit
  | clear1
  | clear2
  | loadRoot
  | unlock
  | poll
  | signal
  deriving DecidableEq, Repr

/-- Positions in `dune_ipi_interrupt_handler`. `again` is set in the first
    of its two phases; `buf` holds the sources of the messages to run, and
    `src` that of the message being run. -/
inductive HandlerPc where
  | off
  | collect (again : Bool) (todo buf : List Nat)
  | run (again : Bool) (buf : List Nat)
  | load (again : Bool) (src : Nat) (buf : List Nat)
  | finish (again : Bool) (src : Nat) (buf : List Nat)
  /-- The assertion of `change_pgtable_ipi_call` has failed. -/
  | asserted
  deriving DecidableEq, Repr

/-- Positions in `dbos_fast_spawn_snapshot_worker`. -/
inductive WorkerPc where
  | poll
  | check
  | load
  | announce
  | run
  | retire
  | clearFunc
  | clearRoot
  | asserted
  deriving DecidableEq, Repr

/-- Positions in `page_table_copy_worker`. -/
inductive CopierPc where
  | wait
  | check1
  | check2
  | clone
  | set1 (r1 r2 : Word)
  | set2 (r2 : Word)
  | asserted
  deriving DecidableEq, Repr

/-- Positions in the root checks of `dbos_fast_spawn_pgflt_handler`, with
    the local `pgtbl_root`. -/
inductive FaultPc where
  | idle
  | entered (root : Word)
  | compared (root : Word)
  | passed (root : Word)
  | failed
  deriving DecidableEq, Repr

structure State where
  vcpu : Nat → VmxLaunch.State
  spawn : Nat → SpawnPc
  handler : Nat → HandlerPc
  /-- The number of messages in the ring of a target and a source. They
      are all equal: the argument is the entry of the target. -/
  queued : Nat → Nat → Nat
  /-- An IPI is pending for a core. -/
  ipi : Nat → Bool
  /-- The work pages, by source and target. -/
  slot : Nat → Nat → Slot
  mutex : Option Nat
  pgroot : Word
  /-- These three are 0 for `NULL`. -/
  pgrootSnapshot : Word
  shadow1 : Word
  shadow2 : Word
  /-- `snapshot_user_work_func` is set. -/
  func : Bool
  asyncCopyJob : Bool
  worker : WorkerPc
  copier : CopierPc
  fault : Nat → FaultPc
  moved : Nat → Bool
  snapLoaded : Bool

inductive Label where
  /-- A step of the host loop of a core. -/
  | vcpu (i : Nat) (l : VmxLaunch.Label)
  /-- A core swaps a flush request into the flag word of another. -/
  | postFlush (i : Nat)
  | spawn (c : Nat)
  | handler (i : Nat)
  | worker
  | copier
  /-- The copier has built two tables. -/
  | clone (r1 r2 : Word)
  /-- A call of `dune_fast_spawn_signal_copy_worker`. -/
  | signalCopy
  /-- A TLB shootdown of core `c` sets `ready_to_flush`, or the address, of
      its argument. -/
  | tlbReady (c : Nat)
  | tlbAddr (c : Nat) (addr : Word)
  | faultEnter (c : Nat)
  | faultCheck (c : Nat)
  | faultRetry (c : Nat)
  | faultLeave (c : Nat)
  deriving DecidableEq, Repr

/-! ## Setters -/

section Setters

variable (s : State)

def State.setSpawn (c : Nat) (pc : SpawnPc) : State :=
  { s with spawn := Function.update s.spawn c pc }

def State.setHandler (i : Nat) (pc : HandlerPc) : State :=
  { s with handler := Function.update s.handler i pc }

def State.setFault (c : Nat) (pc : FaultPc) : State :=
  { s with fault := Function.update s.fault c pc }

def State.setVcpu (i : Nat) (v : VmxLaunch.State) : State :=
  { s with vcpu := Function.update s.vcpu i v }

def State.setSlot (c i : Nat) (x : Slot) : State :=
  { s with slot := Function.update s.slot c (Function.update (s.slot c) i x) }

def State.setQueued (i c n : Nat) : State :=
  { s with queued := Function.update s.queued i (Function.update (s.queued i) c n) }

/-- A CR3 request swapped into the flag word of core `i`. -/
def State.postCr3 (i : Nat) (root : Word) : State :=
  s.setVcpu i { s.vcpu i with
    flag := Pv.postCr3 (s.vcpu i).flag root
    cr3Posted := some root }

/-- Core `i` executes `load_cr3(root)`. -/
def State.loadCr3 (i : Nat) (root : Word) : State :=
  s.setVcpu i { s.vcpu i with guestCr3 := root }

def State.setMoved (i : Nat) : State := { s with moved := Function.update s.moved i true }

end Setters

/-! ## Steps -/

section Steps

variable (cfg : Config) (s : State)

/-- Core `c` executes guest code. -/
def State.inGuest (c : Nat) : Bool := decide ((s.vcpu c).pc = .guest)

/-- Core `c` executes the code of its thread, no handler. -/
def State.inThread (c : Nat) : Bool :=
  s.inGuest c && decide (s.handler c = .off) && decide (s.fault c = .idle)

/-- A step of the host loop; a posted root that it loads moves the core. -/
def vcpuStep (i : Nat) (l : VmxLaunch.Label) : Option State :=
  if VmxLaunch.hostLoop l then
    (VmxLaunch.step (s.vcpu i) l).map fun v =>
      match l, (s.vcpu i).pc with
      | .loadCr3, .loading pv => if changesCr3 pv then (s.setVcpu i v).setMoved i else s.setVcpu i v
      | _, _ => s.setVcpu i v
  else none

/-- The capacity of a ring, `IPI_MESSAGE_RINGBUF_SIZE`. -/
def ringSize : Nat := 4

/-- The thread state of the snapshot core is `SNAPSHOT`. -/
def State.snapshotRunning : Bool := decide (s.worker = .run) || decide (s.worker = .retire)

/-- A step of core `c` in `dune_fast_spawn_on_snapshot`. -/
def spawnStep (c : Nat) : Option State :=
  match s.spawn c with
  | .idle =>
      if s.mutex = none ∧ s.shadow1 ≠ 0#64 ∧ s.shadow2 ≠ 0#64 ∧ s.func = false then
        some ({ s with mutex := some c }.setSpawn c .publish)
      else none
  | .publish =>
      some ({ s with
        pgroot := s.shadow1
        moved := fun _ => false
        snapLoaded := false }.setSpawn c .publishSnap)
  | .publishSnap =>
      some ({ s with pgrootSnapshot := s.shadow2 }.setSpawn c
        (.scan (cfg.mains.filter fun i => decide (i ≠ c)) []))
  | .scan [] sent => some (s.setSpawn c (.wait sent))
  | .scan (i :: todo) sent =>
      let v := (s.vcpu i).flag
      some (s.setSpawn c (if inHost v then .post i v todo sent else .reset i todo sent))
  | .post i v todo sent =>
      if (s.vcpu i).flag = v then some ((s.postCr3 i s.pgroot).setSpawn c (.scan todo sent))
      else some (s.setSpawn c (.reset i todo sent))
  | .reset i todo sent =>
      some ((s.setSlot c i { s.slot c i with done := false }).setSpawn c (.fill i todo sent))
  | .fill i todo sent =>
      some ((s.setSlot c i { s.slot c i with newPgroot := s.shadow1 }).setSpawn c
        (.queue i todo sent))
  | .queue i todo sent =>
      -- A full ring is not noticed: the result of the call is ignored.
      if s.queued i c < ringSize then
        some ((s.setQueued i c (s.queued i c + 1)).setSpawn c (.send i todo sent))
      else some (s.setSpawn c (.send i todo sent))
  | .send i todo sent =>
      some ({ s with ipi := Function.update s.ipi i true }.setSpawn c (.scan todo (sent ++ [i])))
  | .wait [] => some (s.setSpawn c .submit)
  | .wait (i :: todo) =>
      some (s.setSpawn c (if (s.slot c i).done then .wait todo else .peek i todo))
  | .peek i todo =>
      let v := (s.vcpu i).flag
      some (s.setSpawn c (if inHost v then .repost i v todo else .wait (i :: todo)))
  | .repost i v todo =>
      if (s.vcpu i).flag = v then some ((s.postCr3 i s.pgroot).setSpawn c (.wait todo))
      else some (s.setSpawn c (.wait (i :: todo)))
  | .submit => some ({ s with func := true }.setSpawn c .clear1)
  | .clear1 => some ({ s with shadow1 := 0#64 }.setSpawn c .clear2)
  | .clear2 => some ({ s with shadow2 := 0#64 }.setSpawn c .loadRoot)
  | .loadRoot => some (((s.loadCr3 c s.pgroot).setMoved c).setSpawn c .unlock)
  | .unlock => some ({ s with mutex := none }.setSpawn c .poll)
  | .poll => if s.snapshotRunning then some (s.setSpawn c .signal) else none
  | .signal => some ({ s with asyncCopyJob := true }.setSpawn c .idle)

/-- A step of core `i` in its IPI handler. -/
def handlerStep (i : Nat) : Option State :=
  match s.handler i with
  | .off =>
      if s.ipi i then
        some ({ s with ipi := Function.update s.ipi i false }.setHandler i
          (.collect true cfg.mains []))
      else none
  | .collect again [] buf => some (s.setHandler i (.run again buf))
  | .collect again (c :: todo) buf =>
      some ((s.setQueued i c 0).setHandler i
        (.collect again todo (buf ++ List.replicate (s.queued i c) c)))
  | .run true [] => some (s.setHandler i (.collect false cfg.mains []))
  | .run false [] => some (s.setHandler i .off)
  | .run again (c :: buf) =>
      some (s.setHandler i (if (s.slot c i).done then .asserted else .load again c buf))
  | .load again c buf =>
      some (((s.loadCr3 i (s.slot c i).newPgroot).setMoved i).setHandler i (.finish again c buf))
  | .finish again c buf =>
      some ((s.setSlot c i { s.slot c i with done := true }).setHandler i (.run again buf))
  | .asserted => none

/-- A step of the snapshot worker. -/
def workerStep : Option State :=
  match s.worker with
  | .poll => if s.func then some { s with worker := .check } else none
  | .check => some { s with worker := if s.pgrootSnapshot = 0#64 then .asserted else .load }
  | .load =>
      some { s.loadCr3 snapshotCore s.pgrootSnapshot with worker := .announce, snapLoaded := true }
  | .announce => some { s with worker := .run }
  | .run => some { s with worker := .retire }
  | .retire => some { s with worker := .clearFunc }
  | .clearFunc => some { s with func := false, worker := .clearRoot }
  | .clearRoot => some { s with pgrootSnapshot := 0#64, worker := .poll }
  | .asserted => none

/-- A step of the copier, apart from the walk. -/
def copierStep : Option State :=
  match s.copier with
  | .wait => if s.asyncCopyJob then some { s with asyncCopyJob := false, copier := .check1 } else none
  | .check1 => some { s with copier := if s.shadow1 = 0#64 then .check2 else .asserted }
  | .check2 => some { s with copier := if s.shadow2 = 0#64 then .clone else .asserted }
  | .set1 r1 r2 => some { s with shadow1 := r1, copier := .set2 r2 }
  | .set2 r2 => some { s with shadow2 := r2, copier := .wait }
  | .clone | .asserted => none

/-- The next root check of the fault handler on core `c`. -/
def faultCheck (c : Nat) : Option State :=
  match s.fault c with
  | .entered root =>
      if c = snapshotCore then
        some (s.setFault c
          (if s.pgrootSnapshot ≠ 0#64 ∧ s.pgrootSnapshot ≠ root then .failed else .compared root))
      else some (s.setFault c (if root = s.pgroot then .passed root else .failed))
  | .compared root => some (s.setFault c (if root = s.pgroot then .failed else .passed root))
  | _ => none

def step : Label → Option State
  | .vcpu i l => vcpuStep s i l
  | .postFlush i =>
      let v := s.vcpu i
      some (s.setVcpu i { v with flag := Pv.postFlush v.flag, flushPosted := true })
  | .spawn c => if c ∈ cfg.mains ∧ s.inThread c = true then spawnStep cfg s c else none
  | .handler i => if i ∈ cfg.mains ∧ s.inGuest i = true then handlerStep cfg s i else none
  | .worker => if s.inThread snapshotCore then workerStep s else none
  | .copier => if s.inThread cfg.copyCore then copierStep s else none
  | .clone r1 r2 =>
      if s.inThread cfg.copyCore = true ∧ s.copier = .clone ∧ r1 ≠ 0#64 ∧ r2 ≠ 0#64 ∧ r1 ≠ r2 ∧
          PageAligned r1 ∧ PageAligned r2 then
        some { s with copier := .set1 r1 r2 }
      else none
  | .signalCopy => some { s with asyncCopyJob := true }
  | .tlbReady c => some (s.setSlot c 0 { s.slot c 0 with done := true })
  | .tlbAddr c addr => some (s.setSlot c 0 { s.slot c 0 with newPgroot := addr })
  | .faultEnter c =>
      if (c ∈ cfg.mains ∨ c = snapshotCore) ∧ s.inGuest c = true ∧ s.fault c = .idle then
        some (s.setFault c (.entered (s.vcpu c).guestCr3))
      else none
  | .faultCheck c => if s.inGuest c then faultCheck s c else none
  | .faultRetry c =>
      match s.fault c with
      | .passed root => if s.inGuest c then some (s.setFault c (.entered root)) else none
      | _ => none
  | .faultLeave c =>
      match s.fault c with
      | .passed _ => if s.inGuest c then some (s.setFault c .idle) else none
      | _ => none

end Steps

/-- All cores in the host on the first root, nothing going on. -/
structure Init (cfg : Config) (s : State) : Prop where
  vcpu : ∀ i, VmxLaunch.system.init (s.vcpu i)
  root : ∀ i ∈ cfg.mains, (s.vcpu i).guestCr3 = s.pgroot
  aligned : PageAligned s.pgroot
  spawn : ∀ c, s.spawn c = .idle
  handler : ∀ i, s.handler i = .off
  queued : ∀ i c, s.queued i c = 0
  mutex : s.mutex = none
  shadow1 : s.shadow1 = 0#64
  shadow2 : s.shadow2 = 0#64
  func : s.func = false
  worker : s.worker = .poll
  copier : s.copier = .wait
  fault : ∀ c, s.fault c = .idle
  moved : ∀ i, s.moved i = true
  snapLoaded : s.snapLoaded = false

def system (cfg : Config) : System State Label where
  init := Init cfg
  step := step cfg

end RootSwitch
