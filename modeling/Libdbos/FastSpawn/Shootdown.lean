import Libdbos.Framework.Tlb
import Libdbos.Kern.VmxLaunch

/-! # TLB Shootdown

    `dbos_tlb_shootdown` of `libdune/fast_spawn.c`, called with
    `wait_for_flush` by any number of source cores for one target core,
    together with the target: its host loop (`VmxLaunch`) and its IPI
    handler, which collects the messages of all rings and hands them to
    `snapshot_worker_tlb_flush_batch`. Each load, store, compare-exchange
    and flush is one step.

    A request ends in one of five ways: the target is seen in the host at
    once; its ring is full and it is in the guest; its ring is full and it
    is in the host; the message is acknowledged; the target is seen in the
    host while waiting.

    All messages of a source are equal: the argument is the first entry of
    its work page. A ring is therefore the number of messages in it.

    `began` and `calls` are history variables: the time at which a call
    begins, and the calls that have returned.
-/

open LTS

namespace Shootdown

open Pv

/-! ## State -/

/-- The rings of a target, `IPI_MAX_CPUS`. -/
structure Config where
  ipiMaxCpus : Nat

/-- The capacity of a ring, `IPI_MESSAGE_RINGBUF_SIZE`. -/
def ringSize : Nat := 4

/-- The argument of a message, `ipi_call_tlb_flush_arg_t`. -/
structure Arg where
  addr : Word
  readyToFlush : Bool
  flushed : Bool
  deriving DecidableEq, Repr

/-- Positions of a source core: the stores of the fault handler into the
    argument, then those of `dbos_tlb_shootdown`. `v` is the local
    `pv_info_flag`, `old` the local `old_full_flush_count`. -/
inductive Pc where
  | idle
  | setReady
  | setFlushed
  | setAddr
  | call
  | test (v : Word)
  | queue
  | enqueue
  | send
  | wait
  | load
  | post (v : Word)
  | fullSend
  | fullLoad
  | fullCount (v : Word)
  | fullCas (v : Word) (old : BitVec 32)
  | fullReload (old : BitVec 32)
  | fullKick (old : BitVec 32)
  | fullWait (old : BitVec 32)
  | fullHost (v : Word)
  | fullHostReload
  deriving DecidableEq, Repr

/-- The argument is being rewritten and the call has not begun. -/
def Pc.initialising : Pc → Bool
  | .setAddr | .call => true
  | _ => false

/-- Inside `dbos_tlb_shootdown`. -/
def Pc.inCall : Pc → Bool
  | .idle | .setReady | .setFlushed | .setAddr | .call => false
  | _ => true

/-- A source core. -/
structure Source where
  pc : Pc
  /-- The parameter `addr` of the request. -/
  addr : Word
  began : Nat
  /-- The first entry of its work page. -/
  arg : Arg
  /-- The first word of each other entry of its work page. -/
  entries : Nat → Word
  /-- The number of its messages in the ring of the target. -/
  queued : Nat

/-- What is read as `call_arg[i].addr`. -/
def Source.word (x : Source) (i : Nat) : Word := if i = 0 then x.arg.addr else x.entries i

/-- Positions in `dune_ipi_interrupt_handler`. `again` is set in the first
    of its two phases. `buf` and `todo` hold the sources of messages, and
    `addrs` the addresses read so far, or still to be flushed. -/
inductive HandlerPc where
  | off
  | collect (again : Bool) (ring : Nat) (buf : List Nat)
  | copy (again : Bool) (ring n : Nat) (buf : List Nat)
  | read (again : Bool) (todo : List Nat) (addrs : List Word)
  | check (again : Bool) (c : Nat) (todo : List Nat) (addrs : List Word)
  | ack (again : Bool) (c : Nat) (todo : List Nat) (addrs : List Word)
  | flush (again : Bool) (addrs : List Word)
  /-- The assertion of `snapshot_worker_tlb_flush_batch` has failed. -/
  | asserted
  deriving DecidableEq, Repr

/-- The addresses that the handler flushes before it ends. -/
def HandlerPc.pending : HandlerPc → List Word
  | .read _ _ addrs | .check _ _ _ addrs | .ack _ _ _ addrs | .flush _ addrs => addrs
  | _ => []

/-- The source whose address has been read and not been acknowledged. -/
def HandlerPc.reading : HandlerPc → Option Nat
  | .check _ c _ _ | .ack _ c _ _ => some c
  | _ => none

/-- The target core. -/
structure Target where
  vcpu : VmxLaunch.State
  handler : HandlerPc
  /-- An IPI is pending. -/
  ipi : Bool
  tlb : Tlb Word

/-- A call that has returned. -/
structure Call where
  addr : Word
  began : Nat
  deriving DecidableEq, Repr

structure State where
  target : Target
  src : Nat → Source
  calls : List Call

inductive Label where
  /-- A step of the host loop of the target. -/
  | vcpu (l : VmxLaunch.Label)
  /-- Guest code of the target uses an address. -/
  | access (va : Word)
  | handler
  /-- The fault handler of core `c` starts a request. -/
  | request (c : Nat) (addr : Word)
  | source (c : Nat)
  /-- Other code of core `c` uses the rest of its work page. -/
  | workPage (c i : Nat) (w : Word)
  deriving DecidableEq, Repr

/-! ## Steps -/

section Setters

variable (s : State)

def State.setSource (c : Nat) (x : Source) : State := { s with src := Function.update s.src c x }

def State.goto (c : Nat) (pc : Pc) : State := s.setSource c { s.src c with pc := pc }

def State.setArg (c : Nat) (arg : Arg) (pc : Pc) : State :=
  s.setSource c { s.src c with arg := arg, pc := pc }

def State.setHandler (pc : HandlerPc) : State := { s with target := { s.target with handler := pc } }

def State.flag : Word := s.target.vcpu.flag

/-- A flush request swapped into the flag word. -/
def State.postFlush : State :=
  { s with target := { s.target with
    vcpu := { s.target.vcpu with flag := Pv.postFlush s.flag, flushPosted := true } } }

def State.sendIpi : State := { s with target := { s.target with ipi := true } }

/-- Core `c` returns from its call. -/
def State.ret (c : Nat) : State :=
  { s with calls := ⟨(s.src c).addr, (s.src c).began⟩ :: s.calls }.goto c .idle

end Setters

section Steps

variable (cfg : Config) (s : State)

/-- Return if `v` says that the target is in the host and a flush request
    is in the word, or can be swapped in for `v`. -/
def State.tryPost (c : Nat) (v : Word) (next : Pc) : State :=
  if inHost v then
    if flushOnReentry v then s.ret c
    else if s.flag = v then s.postFlush.ret c
    else s.goto c next
  else s.goto c next

/-- A step of core `c`. -/
def sourceStep (c : Nat) : Option State :=
  let x := s.src c
  match x.pc with
  | .idle => none
  | .setReady => some (s.setArg c { x.arg with readyToFlush := true } .setFlushed)
  | .setFlushed => some (s.setArg c { x.arg with flushed := false } .setAddr)
  | .setAddr => some (s.setArg c { x.arg with addr := x.addr } .call)
  | .call =>
      some ({ s with target := { s.target with tlb := s.target.tlb.tick } }.setSource c
        { x with began := s.target.tlb.clock + 1, pc := .test s.flag })
  | .test v => some (s.tryPost c v .queue)
  | .queue => some (s.goto c (if x.queued < ringSize then .enqueue else .fullSend))
  | .enqueue => some (s.setSource c { x with queued := x.queued + 1, pc := .send })
  | .send => some (s.sendIpi.goto c .wait)
  | .wait => if x.arg.flushed then some (s.ret c) else some (s.goto c .load)
  | .load => some (s.goto c (.post s.flag))
  | .post v => some (s.tryPost c v .wait)
  | .fullSend => some (s.sendIpi.goto c .fullLoad)
  | .fullLoad => some (s.goto c (if inHost s.flag then .fullHost s.flag else .fullCount s.flag))
  | .fullCount v => some (s.goto c (.fullCas v s.target.vcpu.fullFlushCount))
  | .fullCas v old =>
      if s.flag = v then some (s.postFlush.goto c (.fullKick old))
      else some (s.goto c (.fullReload old))
  | .fullReload old => some (s.goto c (.fullCas s.flag old))
  -- The kick makes the target exit, which it may do at any time.
  | .fullKick old => some (s.goto c (.fullWait old))
  | .fullWait old =>
      if s.target.vcpu.fullFlushCount = old then some s else some (s.ret c)
  | .fullHost v =>
      if flushOnReentry v then some (s.ret c)
      else if s.flag = v then some (s.postFlush.ret c)
      else some (s.goto c .fullHostReload)
  -- The mode bit is not tested again.
  | .fullHostReload => some (s.goto c (.fullHost s.flag))

/-- After a phase of the handler. -/
def HandlerPc.next (again : Bool) : HandlerPc := if again then .collect false 0 [] else .off

/-- A step of the IPI handler. -/
def handlerStep : Option State :=
  match s.target.handler with
  | .off =>
      if s.target.ipi then
        some { s with target := { s.target with ipi := false, handler := .collect true 0 [] } }
      else none
  | .collect again i buf =>
      if i < cfg.ipiMaxCpus then some (s.setHandler (.copy again i (s.src i).queued buf))
      else if buf.isEmpty then some (s.setHandler (.next again))
      else some (s.setHandler (.read again buf []))
  | .copy again i n buf =>
      some ((s.setSource i { s.src i with queued := (s.src i).queued - n }).setHandler
        (.collect again (i + 1) (buf ++ List.replicate n i)))
  | .read again [] addrs => some (s.setHandler (.flush again addrs))
  | .read again (c :: todo) addrs =>
      -- The index of the message is used on its argument.
      some (s.setHandler (.check again c todo (addrs ++ [(s.src c).word addrs.length])))
  | .check again c todo addrs =>
      some (s.setHandler
        (if (s.src c).arg.readyToFlush then .ack again c todo addrs else .asserted))
  | .ack again c todo addrs =>
      some ((s.setArg c { (s.src c).arg with flushed := true } (s.src c).pc).setHandler
        (.read again todo addrs))
  | .flush again [] => some (s.setHandler (.next again))
  | .flush again (a :: addrs) =>
      some { s with target := { s.target with
        tlb := s.target.tlb.flushOne a, handler := .flush again addrs } }
  | .asserted => none

/-- The TLB after a step of the host loop: `vpid_sync_context` empties it. -/
def syncTlb (tlb : Tlb Word) : VmxLaunch.Label → Tlb Word
  | .vpidSync => tlb.flushAll
  | _ => tlb

/-- A step of the host loop. -/
def vcpuStep (l : VmxLaunch.Label) : Option State :=
  if VmxLaunch.hostLoop l then
    (VmxLaunch.step s.target.vcpu l).map fun v =>
      { s with target := { s.target with vcpu := v, tlb := syncTlb s.target.tlb l } }
  else none

/-- The target executes guest code. -/
def State.inGuest : Bool := decide (s.target.vcpu.pc = .guest)

def step : Label → Option State
  | .vcpu l => vcpuStep s l
  | .access va =>
      if s.inGuest then some { s with target := { s.target with tlb := s.target.tlb.access va } }
      else none
  | .handler => if s.inGuest then handlerStep cfg s else none
  | .request c addr =>
      match (s.src c).pc with
      | .idle =>
          if c < cfg.ipiMaxCpus then
            some (s.setSource c { s.src c with addr := addr, pc := .setReady })
          else none
      | _ => none
  | .source c => sourceStep s c
  | .workPage c i w =>
      some (s.setSource c { s.src c with entries := Function.update (s.src c).entries i w })

end Steps

/-- The target in the host, no messages, empty work pages in the entries
    that count. -/
structure Init (s : State) : Prop where
  vcpu : VmxLaunch.system.init s.target.vcpu
  handler : s.target.handler = .off
  pc : ∀ c, (s.src c).pc = .idle
  began : ∀ c, (s.src c).began = 0
  queued : ∀ c, (s.src c).queued = 0
  calls : s.calls = []

def system (cfg : Config) : System State Label where
  init := Init
  step := step cfg

end Shootdown
