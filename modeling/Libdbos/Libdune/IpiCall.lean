import Libdbos.Framework.RingBuffer
import Libdbos.Framework.System

/-! # IPI Calls

    The message rings of `libdune/ipi_call.c`, for one target core. Each
    source core has a ring of its own, which it fills with
    `dune_queue_ipi_call_fast` and which `dune_ipi_interrupt_handler` of the
    target empties, in two rounds over all rings. A load or a store of memory
    that both sides use is one step, so producers and handler interleave in
    every way. The handler may be entered at any time, with or without an
    IPI.

    The counters of a ring are 64 bits wide and only grow. A failed assertion
    ends the process: `dead`.

    History variables: the messages of a ring (`sent`), the results of calls
    (`returned`), the calls of the handler (`log`), the source of a message in
    the handler's buffers, and the numbers of messages when the handler was
    entered (`due`).
-/

open LTS

namespace IpiCall

/-! ## State -/

/-- Whether a message goes to its own function or to the batch function. -/
inductive CallType where
  | nonBatchable
  | batchable
  deriving DecidableEq, Repr

/-- The structure `ipi_message_t`. -/
structure Message where
  func : Nat
  type : CallType
  arg : Nat
  deriving DecidableEq, Repr

/-- The number of rings of a target, `IPI_MAX_CPUS`. -/
structure Config where
  ipiMaxCpus : Nat

/-- `IPI_MESSAGE_RINGBUF_SIZE`. -/
def ringbufSize : Nat := 4

/-- `IPI_INVALID_NUMBER`, the result of a call that found the ring full. -/
def ipiInvalidNumber : Nat := 0xffffffffffffffff

/-- The value of a counter. -/
def wrap (n : Nat) : Nat := n % 0x10000000000000000

/-- The structure `ipi_ring_t`. -/
structure Ring where
  head : Nat
  tail : Nat
  buf : Nat → Message
  sent : List Message

/-- Positions in `dune_queue_ipi_call_fast`, with the counters read so far. -/
inductive ProducerPc where
  | idle
  | loadHead
  | loadTail (head : Nat)
  | fill (tail : Nat)
  | publish (tail : Nat)
  | dead
  deriving DecidableEq, Repr

/-- A source core. -/
structure Producer where
  pc : ProducerPc
  msg : Message
  /-- The caller is the loop of `dune_queue_ipi_call`. -/
  retry : Bool
  returned : List (Message × Nat)

/-- A message in the handler's buffers and the core it came from. -/
structure Tagged where
  src : Nat
  msg : Message
  deriving DecidableEq, Repr

/-- `IPI_FUNC_PHASE_T`. -/
inductive Phase where
  | none
  | phase1
  | phase2
  deriving DecidableEq, Repr

/-- Positions in `dune_ipi_interrupt_handler`. In `copy i h n k` the messages
    `h` to `h + n` of ring `i` are being copied, and `k` have been. -/
inductive HandlerPc where
  | off
  | setPhase
  | loadHead (i : Nat)
  | loadTail (i h : Nat)
  | copy (i h n k : Nat)
  | split
  | call
  | batch
  | clearPhase
  | dead
  /-- A message was written past the end of a local buffer. -/
  | overflow
  deriving DecidableEq, Repr

/-- The handler of the target with its local variables. -/
structure Handler where
  pc : HandlerPc
  second : Bool
  phase : Phase
  buf : List Tagged
  nonbatchable : List Tagged
  batchable : List Tagged

/-- A call that the handler makes. -/
inductive Delivery where
  | call (m : Tagged)
  | batch (ms : List Tagged)
  deriving DecidableEq, Repr

/-- The messages that a call passes on. -/
def Delivery.messages : Delivery → List Tagged
  | .call m => [m]
  | .batch ms => ms

structure State where
  ring : Nat → Ring
  producer : Nat → Producer
  handler : Handler
  log : List Delivery
  due : Nat → Nat

inductive Label where
  /-- Core `src` calls `dune_queue_ipi_call_fast`. -/
  | callFast (src : Nat) (msg : Message)
  /-- Core `src` calls `dune_queue_ipi_call`. -/
  | call (src : Nat) (msg : Message)
  | producer (src : Nat)
  | interrupt
  | handler
  deriving DecidableEq, Repr

/-! ## Steps -/

/-- Return `num`. The loop of `dune_queue_ipi_call` converts it to a truth
    value, and goes on if that is false. -/
def Producer.ret (p : Producer) (num : Nat) : Producer :=
  { p with
    returned := p.returned ++ [(p.msg, num)]
    pc := if p.retry && num == 0 then .loadHead else .idle }

/-- A step of `dune_queue_ipi_call_fast`. -/
def producerStep (r : Ring) (p : Producer) : Option (Ring × Producer) :=
  match p.pc with
  | .idle | .dead => none
  | .loadHead => some (r, { p with pc := .loadTail r.head })
  | .loadTail head =>
      if ¬ head ≤ r.tail then some (r, { p with pc := .dead })
      else if r.tail - head ≥ ringbufSize then some (r, p.ret ipiInvalidNumber)
      else some (r, { p with pc := .fill r.tail })
  | .fill tail =>
      some ({ r with buf := Function.update r.buf (tail % ringbufSize) p.msg },
        { p with pc := .publish tail })
  | .publish tail =>
      some ({ r with tail := wrap (r.tail + 1), sent := r.sent ++ [p.msg] }, p.ret tail)

section Steps

variable (cfg : Config) (s : State)

def State.setRing (src : Nat) (r : Ring) : State := { s with ring := Function.update s.ring src r }

def State.setProducer (src : Nat) (p : Producer) : State :=
  { s with producer := Function.update s.producer src p }

def State.goto (pc : HandlerPc) : State := { s with handler := { s.handler with pc := pc } }

/-- The size of the local buffers. -/
def Config.bufSize : Nat := ringbufSize * cfg.ipiMaxCpus

/-- A step of `dune_ipi_interrupt_handler`. -/
def handlerStep : Option State :=
  let x := s.handler
  match x.pc with
  | .off | .dead | .overflow => none
  | .setPhase =>
      some { s with handler :=
        { pc := .loadHead 0, second := x.second, phase := if x.second then .phase2 else .phase1,
          buf := [], nonbatchable := [], batchable := [] } }
  -- `dune_collect_ipi_messages` on ring `i`.
  | .loadHead i =>
      some (s.goto (if i < cfg.ipiMaxCpus then .loadTail i (s.ring i).head else .split))
  | .loadTail i h =>
      if h = (s.ring i).tail then some (s.goto (.loadHead (i + 1)))
      else if ¬ (s.ring i).tail > h then some (s.goto .dead)
      else some (s.goto (.copy i h ((s.ring i).tail - h) 0))
  | .copy i h n k =>
      if k < n then
        if x.buf.length < cfg.bufSize then
          some { s with handler :=
            { x with
              pc := .copy i h n (k + 1)
              buf := x.buf ++ [⟨i, (s.ring i).buf ((h + k) % ringbufSize)⟩] } }
        else some (s.goto .overflow)
      else
        some ((s.setRing i { s.ring i with head := wrap ((s.ring i).head + n) }).goto
          (.loadHead (i + 1)))
  | .split =>
      some { s with handler :=
        { x with
          pc := .call
          buf := []
          nonbatchable := x.buf.filter fun m => decide (m.msg.type = .nonBatchable)
          batchable := x.buf.filter fun m => decide (m.msg.type = .batchable) } }
  | .call =>
      match x.nonbatchable with
      | [] => some (s.goto .batch)
      | m :: ms =>
          some { s with handler := { x with nonbatchable := ms }, log := s.log ++ [.call m] }
  | .batch =>
      some { s with
        handler := { x with
          batchable := []
          pc := if x.second then .clearPhase else .setPhase
          second := true }
        log := if x.batchable.isEmpty then s.log else s.log ++ [.batch x.batchable] }
  | .clearPhase => some { s with handler := { x with pc := .off, phase := .none } }

/-- A call of core `src` begins. -/
def State.begin (src : Nat) (msg : Message) (retry : Bool) : Option State :=
  match (s.producer src).pc with
  | .idle =>
      if src < cfg.ipiMaxCpus then
        some (s.setProducer src { s.producer src with pc := .loadHead, msg := msg, retry := retry })
      else none
  | _ => none

def step : Label → Option State
  | .callFast src msg => s.begin cfg src msg false
  | .call src msg => s.begin cfg src msg true
  | .producer src =>
      (producerStep (s.ring src) (s.producer src)).map fun next =>
        (s.setRing src next.1).setProducer src next.2
  | .interrupt =>
      match s.handler.pc with
      | .off =>
          some { s with
            handler := { s.handler with pc := .setPhase, second := false }
            due := fun src => (s.ring src).sent.length }
      | _ => none
  | .handler => handlerStep cfg s

end Steps

/-- What `dune_ipi_call_number_collected` returns. -/
def State.callNumberCollected (s : State) (src n : Nat) : Bool := decide (n < (s.ring src).head)

/-- Empty rings, and nobody in a call. -/
structure Init (s : State) : Prop where
  head : ∀ src, (s.ring src).head = 0
  tail : ∀ src, (s.ring src).tail = 0
  sent : ∀ src, (s.ring src).sent = []
  producer : ∀ src, (s.producer src).pc = .idle
  returned : ∀ src, (s.producer src).returned = []
  handler : s.handler = ⟨.off, false, .none, [], [], []⟩
  log : s.log = []
  due : ∀ src, s.due src = 0

def system (cfg : Config) : System State Label where
  init := Init
  step := step cfg

end IpiCall
