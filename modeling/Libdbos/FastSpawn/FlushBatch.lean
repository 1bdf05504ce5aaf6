import Libdbos.FastSpawn.Shootdown

/-! # Batches of Flush Messages

    The two functions of `libdune/fast_spawn.c` that serve flush messages:
    `snapshot_worker_tlb_flush` takes one message, and
    `snapshot_worker_tlb_flush_batch` takes all batchable messages that a run
    of the IPI handler has collected. The latter has two loops. With
    `cow_pipeline_copy_and_ipi` it polls until all arguments are ready, and
    acknowledges and flushes each at once. Otherwise it reads all addresses
    first and flushes afterwards; there the address of message `i` is read
    `i` blocks behind its argument, since `call_arg[i]` is indexed instead of
    `call_arg`.

    Arguments are blocks of 16 bytes, and pointers to them count blocks.
-/

namespace FlushBatch

open Shootdown (Arg)

/-- The memory of arguments, and what the core has done. -/
structure State where
  args : Nat → Arg
  /-- The operands of `dune_flush_tlb_one`. -/
  flushes : List Word
  /-- The counter `ipi_calls` of the core. -/
  ipiCalls : Nat

/-! ## Model -/

section Model

variable (s : State)

def State.setFlushed (arg : Nat) : State :=
  { s with args := Function.update s.args arg { s.args arg with flushed := true } }

def State.flushTlbOne (addr : Word) : State := { s with flushes := s.flushes ++ [addr] }

/-- Acknowledge a message, then flush its address. -/
def State.serve (arg : Nat) : State := (s.setFlushed arg).flushTlbOne (s.args arg).addr

/-- `snapshot_worker_tlb_flush`. It does not return if the argument is not
    ready. -/
def tlbFlush (arg : Nat) : Option State :=
  if (s.args arg).readyToFlush then some ({ s with ipiCalls := s.ipiCalls + 1 }.serve arg)
  else none

end Model

/-- The size of the local arrays, `IPI_MESSAGE_RINGBUF_SIZE * IPI_MAX_CPUS`. -/
def maxMsgs : Nat := 512

/-- One pass of the polling loop over the messages and their entries of
    `flushed`. The last result is `all_flushed`. -/
def pollPass : State → List (Nat × Bool) → State × List (Nat × Bool) × Bool
  | s, [] => (s, [], true)
  | s, (arg, true) :: rest =>
      let (s', rest', all) := pollPass s rest
      (s', (arg, true) :: rest', all)
  | s, (arg, false) :: rest =>
      if (s.args arg).readyToFlush then
        let (s', rest', all) := pollPass (s.serve arg) rest
        (s', (arg, true) :: rest', all)
      else
        let (s', rest', _) := pollPass s rest
        (s', (arg, false) :: rest', false)

/-- The polling loop, up to a number of passes. -/
def pollLoop : Nat → State → List (Nat × Bool) → Option State
  | 0, _, _ => none
  | n + 1, s, msgs =>
      let (s', msgs', all) := pollPass s msgs
      if all then some s' else pollLoop n s' msgs'

/-- The loop that reads the addresses, from message `i` on. The assertion
    fails if an argument is not ready. -/
def readAddrs : State → Nat → List Nat → List Word → Option (State × List Word)
  | s, _, [], addrs => some (s, addrs)
  | s, i, arg :: rest, addrs =>
      if (s.args arg).readyToFlush then
        readAddrs (s.setFlushed arg) (i + 1) rest (addrs ++ [(s.args (arg + i)).addr])
      else none

/-- `snapshot_worker_tlb_flush_batch`, with a number of passes for its polling
    loop. -/
def tlbFlushBatch (pipeline : Bool) (passes : Nat) (s : State) (msgs : List Nat) : Option State :=
  -- More messages would be written past the end of the arrays.
  if msgs.length > maxMsgs then none
  else
    let s := { s with ipiCalls := s.ipiCalls + msgs.length }
    if pipeline then pollLoop passes s (msgs.map fun arg => (arg, false))
    else (readAddrs s 0 msgs []).map fun (s, addrs) => addrs.foldl State.flushTlbOne s

/-- One message after the other. -/
def flushEach (s : State) (msgs : List Nat) : Option State := msgs.foldlM tlbFlush s

/-! ## What a batch asks for -/

/-- The addresses in the arguments of the messages. -/
def State.addrs (s : State) (msgs : List Nat) : List Word := msgs.map fun arg => (s.args arg).addr

/-- The addresses in block `i` behind argument `i`. -/
def State.displaced (s : State) (msgs : List Nat) (i : Nat) : List Word :=
  (msgs.zipIdx i).map fun (arg, i) => (s.args (arg + i)).addr

/-- All arguments of the messages are acknowledged and all their addresses
    are flushed. -/
def State.served (s : State) (msgs : List Nat) : State where
  args := fun arg =>
    if arg ∈ msgs then { s.args arg with flushed := true } else s.args arg
  flushes := s.flushes ++ s.addrs msgs
  ipiCalls := s.ipiCalls

section Lemmas

variable {s : State} {msgs : List Nat} {arg a : Nat}

@[simp] theorem setFlushed_addr : ((s.setFlushed arg).args a).addr = (s.args a).addr := by
  by_cases h : a = arg
  · subst h
    simp [State.setFlushed]
  · simp [State.setFlushed, Function.update_of_ne h]

@[simp] theorem setFlushed_ready :
    ((s.setFlushed arg).args a).readyToFlush = (s.args a).readyToFlush := by
  by_cases h : a = arg
  · subst h
    simp [State.setFlushed]
  · simp [State.setFlushed, Function.update_of_ne h]

@[simp] theorem serve_args : (s.serve arg).args = (s.setFlushed arg).args := rfl

@[simp] theorem served_nil : s.served [] = s := by
  simp [State.served, State.addrs]

/-- Acknowledging twice is acknowledging once. -/
theorem setFlushed_served :
    ((s.setFlushed arg).served msgs).args = (s.served (arg :: msgs)).args := by
  funext a
  by_cases h : a = arg
  · subst h
    simp [State.served, State.setFlushed]
  · simp [State.served, State.setFlushed, h]

theorem served_cons : s.served (arg :: msgs) = (s.serve arg).served msgs := by
  have hargs : ((s.serve arg).served msgs).args = (s.served (arg :: msgs)).args := setFlushed_served
  have hflushes : ((s.serve arg).served msgs).flushes = (s.served (arg :: msgs)).flushes := by
    show s.flushes ++ [(s.args arg).addr] ++ (s.setFlushed arg).addrs msgs =
      s.flushes ++ s.addrs (arg :: msgs)
    simp [State.addrs]
  rw [State.mk.injEq]
  exact ⟨hargs.symm, hflushes.symm, rfl⟩

theorem flushEach_eq (hready : ∀ m ∈ msgs, (s.args m).readyToFlush = true) :
    flushEach s msgs = some { s.served msgs with ipiCalls := s.ipiCalls + msgs.length } := by
  unfold flushEach
  induction msgs generalizing s with
  | nil => simp
  | cons arg msgs ih =>
    rw [List.foldlM_cons, tlbFlush, if_pos (hready arg (List.mem_cons_self ..))]
    show msgs.foldlM tlbFlush _ = _
    rw [ih, served_cons]
    · have hcount : s.ipiCalls + 1 + msgs.length = s.ipiCalls + (msgs.length + 1) := by omega
      rw [List.length_cons, ← hcount]
      rfl
    · intro m hm
      simpa using hready m (List.mem_cons_of_mem _ hm)

/-- If all are ready, one pass is enough. -/
theorem pollPass_eq (hready : ∀ m ∈ msgs, (s.args m).readyToFlush = true) :
    pollPass s (msgs.map fun arg => (arg, false)) =
      (s.served msgs, msgs.map (fun arg => (arg, true)), true) := by
  induction msgs generalizing s with
  | nil => simp [pollPass]
  | cons arg msgs ih =>
    have hrest : ∀ m ∈ msgs, ((s.serve arg).args m).readyToFlush = true := by
      intro m hm
      simpa using hready m (List.mem_cons_of_mem _ hm)
    rw [List.map_cons, pollPass, if_pos (hready arg (List.mem_cons_self ..)), ih hrest, served_cons]
    rfl

/-- The addresses are read behind the arguments. -/
theorem readAddrs_eq {i : Nat} {addrs : List Word}
    (hready : ∀ m ∈ msgs, (s.args m).readyToFlush = true) :
    readAddrs s i msgs addrs =
      some ({ s with args := (s.served msgs).args }, addrs ++ s.displaced msgs i) := by
  induction msgs generalizing s i addrs with
  | nil => simp [readAddrs, State.displaced]
  | cons arg msgs ih =>
    rw [readAddrs, if_pos (hready arg (List.mem_cons_self ..)), ih]
    · have hrest : (s.setFlushed arg).displaced msgs (i + 1) = s.displaced msgs (i + 1) := by
        simp [State.displaced]
      rw [setFlushed_served, hrest, List.append_assoc]
      rfl
    · intro m hm
      simpa using hready m (List.mem_cons_of_mem _ hm)

theorem foldl_flushTlbOne (addrs : List Word) :
    addrs.foldl State.flushTlbOne s = { s with flushes := s.flushes ++ addrs } := by
  induction addrs generalizing s with
  | nil => simp
  | cons a addrs ih => simp [ih, State.flushTlbOne]

end Lemmas

/-! ## Equivalence -/

variable {s : State} {msgs : List Nat} {pipeline : Bool}

/-- What a batch does. -/
theorem tlbFlushBatch_eq (passes : Nat) (hlen : msgs.length ≤ maxMsgs)
    (hready : ∀ m ∈ msgs, (s.args m).readyToFlush = true) :
    tlbFlushBatch pipeline (passes + 1) s msgs =
      some { s.served msgs with
        flushes := s.flushes ++ if pipeline then s.addrs msgs else s.displaced msgs 0
        ipiCalls := s.ipiCalls + msgs.length } := by
  rw [tlbFlushBatch, if_neg (Nat.not_lt.2 hlen)]
  cases pipeline with
  | true =>
    rw [if_pos rfl, pollLoop,
      @pollPass_eq { s with ipiCalls := s.ipiCalls + msgs.length } msgs hready]
    rfl
  | false =>
    rw [if_neg Bool.false_ne_true, @readAddrs_eq { s with ipiCalls := s.ipiCalls + msgs.length }
      msgs 0 [] hready, Option.map_some]
    exact congrArg some (foldl_flushTlbOne _)

/-- `s'` is `s` after the addresses of all messages, as a set, have been flushed and all
    arguments acknowledged. -/
structure Flushed (s : State) (msgs : List Nat) (s' : State) : Prop where
  addrs : ∃ flushed, s'.flushes = s.flushes ++ flushed ∧ ∀ a, a ∈ flushed ↔ a ∈ s.addrs msgs
  acknowledged : ∀ m ∈ msgs, (s'.args m).flushed = true
  others : ∀ a, a ∉ msgs → s'.args a = s.args a

/-- **A batch does what its messages do one by one**, if and only if it polls or the blocks
    behind the arguments have the same addresses as the arguments, taken together. -/
theorem batch_eq_each (pipeline : Bool) (passes : Nat) (s : State) (msgs : List Nat)
    (hlen : msgs.length ≤ maxMsgs) (hready : ∀ m ∈ msgs, (s.args m).readyToFlush = true) :
    (∃ s' t, tlbFlushBatch pipeline (passes + 1) s msgs = some s' ∧ flushEach s msgs = some t ∧
      Flushed s msgs s' ∧ Flushed s msgs t) ↔
    pipeline = true ∨ ∀ a, a ∈ s.displaced msgs 0 ↔ a ∈ s.addrs msgs := by
  rw [tlbFlushBatch_eq passes hlen hready, flushEach_eq hready]
  have hacknowledged : ∀ m ∈ msgs, ((s.served msgs).args m).flushed = true := by
    intro m hm
    simp [State.served, hm]
  have hothers : ∀ a, a ∉ msgs → (s.served msgs).args a = s.args a := by
    intro a ha
    simp [State.served, ha]
  constructor
  · rintro ⟨s', t, hs', -, ⟨⟨flushed, happend, hset⟩, -, -⟩, -⟩
    obtain rfl := Option.some.inj hs'
    obtain rfl := List.append_cancel_left happend
    cases pipeline with
    | true => exact .inl rfl
    | false => exact .inr hset
  · intro h
    refine ⟨_, _, rfl, rfl, ⟨⟨_, rfl, fun a => ?_⟩, hacknowledged, hothers⟩,
      ⟨⟨_, rfl, fun a => Iff.rfl⟩, hacknowledged, hothers⟩⟩
    cases pipeline with
    | true => exact Iff.rfl
    | false => exact h.resolve_left Bool.false_ne_true a

/-- The arguments of two cores, each at the beginning of a page, with the
    second entry of core 1 in use for something else. -/
def twoPages : State where
  args := Function.update (Function.update (Function.update (fun _ => ⟨0#64, true, false⟩)
    0 ⟨0x1000#64, true, false⟩) 256 ⟨0x2000#64, true, false⟩) 257 ⟨0x3000#64, true, false⟩
  flushes := []
  ipiCalls := 0

/-- Two messages, polled for and read first. -/
theorem batch_eq_each_two :
    (∃ s' t, tlbFlushBatch true 1 twoPages [0, 256] = some s' ∧
      flushEach twoPages [0, 256] = some t ∧ Flushed twoPages [0, 256] s' ∧
      Flushed twoPages [0, 256] t) ∧
    ¬ ∃ s' t, tlbFlushBatch false 1 twoPages [0, 256] = some s' ∧
      flushEach twoPages [0, 256] = some t ∧ Flushed twoPages [0, 256] s' ∧
      Flushed twoPages [0, 256] t := by
  rw [batch_eq_each true 0 twoPages [0, 256] (by decide) (by decide),
    batch_eq_each false 0 twoPages [0, 256] (by decide) (by decide)]
  refine ⟨.inl rfl, fun h => ?_⟩
  exact absurd ((h.resolve_left Bool.false_ne_true 0x3000#64).mp (by decide)) (by decide)

/-- The second message of a batch has the wrong address flushed. -/
theorem batch_misses_address :
    ∃ s', tlbFlushBatch false 1 twoPages [0, 256] = some s' ∧
      (twoPages.args 256).addr ∉ s'.flushes ∧ 0x3000#64 ∈ s'.flushes ∧
      ∃ t, flushEach twoPages [0, 256] = some t ∧ t.flushes = [0x1000#64, 0x2000#64] := by
  refine ⟨_, rfl, by decide, by decide, _, rfl, by decide⟩

end FlushBatch
