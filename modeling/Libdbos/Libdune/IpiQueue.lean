import Libdbos.Libdune.IpiDelivery

/-! # Queueing with Retries

    `dune_queue_ipi_call` calls `dune_queue_ipi_call_fast` until the result,
    taken as a truth value, is true. The result is a call number, or
    `IPI_INVALID_NUMBER` if the ring is full. The latter is true, so a full
    ring ends the loop without a message; call number 0 is false, so the
    first message of a ring is put in twice. In all other cases one message
    is put in (`queue_adds_one`).
-/

open LTS

namespace IpiCall

variable {cfg : Config} {s s' s₀ s₁ : State} {src : Nat} {msg : Message}

/-- The system, from a given state on. -/
def runsFrom (cfg : Config) (s₀ : State) : System State Label where
  init s := s = s₀
  step := step cfg

/-- Core `src` does not begin a call. -/
def inCall (src : Nat) : Label → Bool
  | .callFast c _ | .call c _ => decide (c ≠ src)
  | _ => true

/-- The call of `msg` by `src` that began in `s₀`, as far as it has come. -/
def Calling (s₀ : State) (src : Nat) (msg : Message) (r : Ring) (p : Producer) : Prop :=
  p.msg = msg ∧ p.retry = true ∧
  match p.pc with
  | .loadHead =>
      r.sent = (s₀.ring src).sent ∧ r.sent.length < r.head + ringbufSize
  | .loadTail h =>
      r.sent = (s₀.ring src).sent ∧ r.sent.length < h + ringbufSize
  | .fill _ | .publish _ => r.sent = (s₀.ring src).sent
  | .idle => r.sent = (s₀.ring src).sent ++ [msg]
  | .dead => False

section Call

variable {r r' : Ring} {p p' : Producer}

/-- Collections by the handler do no harm to the call. -/
theorem Calling.advance {n : Nat} (h : Calling s₀ src msg r p) :
    Calling s₀ src msg { r with head := r.head + n } p := by
  obtain ⟨hmsg, hretry, hpc⟩ := h
  refine ⟨hmsg, hretry, ?_⟩
  cases hcase : p.pc with
  | loadHead =>
    simp only [hcase] at hpc ⊢
    exact ⟨hpc.1, by omega⟩
  | _ =>
    simp only [hcase] at hpc ⊢
    try exact hpc

/-- A step of the call. It has room, and its number is not 0. -/
theorem producerStep_calling (hr : RingOk r) (hp : ProducerOk r p)
    (hzero : (s₀.ring src).sent.length ≠ 0) (hcount : (s₀.ring src).sent.length < counterSize)
    (hc : Calling s₀ src msg r p) (h : producerStep r p = some (r', p')) :
    Calling s₀ src msg r' p' := by
  have hok := hp.pc
  obtain ⟨rfl, hretry, hpc⟩ := hc
  unfold producerStep at h
  cases hcase : p.pc with
  | idle => simp [hcase] at h
  | dead => simp [hcase] at h
  | loadHead | fill t =>
    simp only [hcase, Option.some.injEq, Prod.mk.injEq] at h hpc
    obtain ⟨rfl, rfl⟩ := h
    exact ⟨rfl, hretry, hpc⟩
  | loadTail head =>
    simp only [hcase] at h hpc
    rw [hcase] at hok
    obtain ⟨hsent, hroom⟩ := hpc
    rw [← hsent] at hcount
    have hbehind := hr.behind
    have hle := hok.2
    have htail : r.tail = r.sent.length := by rw [hr.tail, wrap_of_lt hcount]
    rw [if_neg (by omega), if_neg (by omega)] at h
    simp only [Option.some.injEq, Prod.mk.injEq] at h
    obtain ⟨rfl, rfl⟩ := h
    exact ⟨rfl, hretry, hsent⟩
  | publish t =>
    simp only [hcase, Option.some.injEq, Prod.mk.injEq] at h hpc
    rw [hcase] at hok
    obtain ⟨rfl, rfl⟩ := h
    have ht : t ≠ 0 := by
      rw [hok.1.number, hpc]
      exact hzero
    refine ⟨rfl, hretry, ?_⟩
    simp [Producer.ret, ht, hpc]

end Call

/-- The handler advances the counter of a ring, and nothing else of it. -/
theorem handlerStep_ring (hs : Inv cfg s) (hstep : handlerStep cfg s = some s') (src : Nat) :
    ∃ n, s'.ring src = { s.ring src with head := (s.ring src).head + n } ∧
      s'.producer src = s.producer src := by
  have hok := hs.handler
  unfold HandlerOk at hok
  unfold handlerStep at hstep
  cases hpc : s.handler.pc with
  | copy i h n k =>
    simp only [hpc] at hok hstep
    split at hstep
    · split at hstep <;> cases hstep <;> exact ⟨0, rfl, rfl⟩
    · cases hstep
      by_cases hi : src = i
      · subst hi
        obtain ⟨_, rfl, _, _, hcount, _⟩ := hok
        exact ⟨n, by simp [State.goto, State.setRing, wrap_of_lt hcount], rfl⟩
      · exact ⟨0, Function.update_of_ne hi .., rfl⟩
  | loadTail i h =>
    simp only [hpc] at hstep
    split at hstep
    · cases hstep
      exact ⟨0, rfl, rfl⟩
    · split at hstep <;> cases hstep <;> exact ⟨0, rfl, rfl⟩
  | call =>
    simp only [hpc] at hstep
    split at hstep <;> cases hstep <;> exact ⟨0, rfl, rfl⟩
  | _ =>
    simp only [hpc] at hstep
    cases hstep
    all_goals exact ⟨0, rfl, rfl⟩

theorem step_calling {l : Label} (hs : Inv cfg s) (hzero : (s₀.ring src).sent.length ≠ 0)
    (hcount : (s₀.ring src).sent.length < counterSize) (hl : inCall src l = true)
    (hc : Calling s₀ src msg (s.ring src) (s.producer src)) (hstep : step cfg s l = some s') :
    Calling s₀ src msg (s'.ring src) (s'.producer src) := by
  have hbegin : ∀ c m b, c ≠ src → s.begin cfg c m b = some s' →
      s'.ring src = s.ring src ∧ s'.producer src = s.producer src := by
    intro c m b hne hb
    unfold State.begin at hb
    split at hb
    · split at hb
      · cases hb
        exact ⟨rfl, Function.update_of_ne (Ne.symm hne) ..⟩
      · cases hb
    · cases hb
  cases l with
  | callFast c m =>
    obtain ⟨hring, hprod⟩ := hbegin c m false (of_decide_eq_true hl) hstep
    rw [hring, hprod]
    exact hc
  | call c m =>
    obtain ⟨hring, hprod⟩ := hbegin c m true (of_decide_eq_true hl) hstep
    rw [hring, hprod]
    exact hc
  | producer c =>
    simp only [step, Option.map_eq_some_iff] at hstep
    obtain ⟨⟨r', p'⟩, hprod, rfl⟩ := hstep
    by_cases hne : c = src
    · subst hne
      have hnext := producerStep_calling (hs.ring c) (hs.producer c) hzero hcount hc hprod
      simpa [State.setProducer, State.setRing] using hnext
    · simpa [State.setProducer, State.setRing, Function.update_of_ne (Ne.symm hne)] using hc
  | interrupt =>
    simp only [step] at hstep
    split at hstep
    · cases hstep
      exact hc
    · cases hstep
  | handler =>
    obtain ⟨n, hring, hprod⟩ := handlerStep_ring hs hstep src
    rw [hring, hprod]
    exact hc.advance

/-- The call begins. -/
theorem called_eq (hcall : step cfg s₀ (.call src msg) = some s₁) :
    s₁.ring src = s₀.ring src ∧
      s₁.producer src = { s₀.producer src with pc := .loadHead, msg := msg, retry := true } := by
  simp only [step, State.begin] at hcall
  split at hcall
  · split at hcall
    · cases hcall
      exact ⟨rfl, Function.update_self ..⟩
    · cases hcall
  · cases hcall

/-- Some steps of a producer, with nothing in between. -/
def producerRun : Nat → Ring → Producer → Option (Ring × Producer)
  | 0, r, p => some (r, p)
  | n + 1, r, p => (producerStep r p).bind fun next => producerRun n next.1 next.2

theorem runsTo_producerRun (n : Nat)
    (h : (runsFrom cfg s₁).RunsTo (fun _ l => inCall src l = true) s) {r : Ring} {p : Producer}
    (hsteps : producerRun n (s.ring src) (s.producer src) = some (r, p)) :
    ∃ s', (runsFrom cfg s₁).RunsTo (fun _ l => inCall src l = true) s' ∧
      s'.ring src = r ∧ s'.producer src = p := by
  induction n generalizing s with
  | zero =>
    cases hsteps
    exact ⟨s, h, rfl, rfl⟩
  | succ n ih =>
    obtain ⟨next, hstep, hrest⟩ := Option.bind_eq_some_iff.mp hsteps
    have hnext : (runsFrom cfg s₁).step s (.producer src) =
        some ((s.setRing src next.1).setProducer src next.2) := by
      simp [runsFrom, step, hstep]
    refine ih (h.step rfl hnext) ?_
    simpa [State.setRing, State.setProducer] using hrest

/-- One copy of the message is put in if the ring has room and has been used before. -/
theorem adds_one (hs : Inv cfg s₀) (hcount : (s₀.ring src).sent.length < counterSize)
    (hroom : (s₀.ring src).sent.length - (s₀.ring src).head < ringbufSize)
    (hzero : (s₀.ring src).sent.length ≠ 0) (hcall : step cfg s₀ (.call src msg) = some s₁)
    (hrun : (runsFrom cfg s₁).RunsTo (fun _ l => inCall src l = true) s)
    (hret : (s.producer src).pc = .idle) :
    (s.ring src).sent = (s₀.ring src).sent ++ [msg] := by
  obtain ⟨hring, hproducer⟩ := called_eq hcall
  have hstart : Calling s₀ src msg (s₁.ring src) (s₁.producer src) := by
    have hbehind := (hs.ring src).behind
    rw [hring, hproducer]
    exact ⟨rfl, rfl, rfl, by omega⟩
  -- The invariant of the rings and the state of the call go together.
  let Good : State → Prop := fun s => Inv cfg s ∧ Calling s₀ src msg (s.ring src) (s.producer src)
  have hgood : Good s := by
    apply System.invariant_when _ _ hrun
    · rintro _ rfl
      exact ⟨begin_inv hs hcall, hstart⟩
    · rintro s l s' ⟨hinv, hcalling⟩ hl hstep
      exact ⟨step_inv hinv hstep, step_calling hinv hzero hcount hl hcalling hstep⟩
  obtain ⟨_, _, hpc⟩ := hgood.2
  rw [hret] at hpc
  exact hpc

/-- **One copy of the message is put in**, in every run of the call that returns, if and only if
    the ring has been used before and is not full when the call begins. -/
theorem queue_adds_one (hs : Inv cfg s₀) (hcount : (s₀.ring src).sent.length < counterSize)
    (hcall : step cfg s₀ (.call src msg) = some s₁) :
    (∀ s, (runsFrom cfg s₁).RunsTo (fun _ l => inCall src l = true) s →
      (s.producer src).pc = .idle → (s.ring src).sent = (s₀.ring src).sent ++ [msg]) ↔
    (s₀.ring src).tail ≠ 0 ∧ (s₀.ring src).tail - (s₀.ring src).head < ringbufSize := by
  have hr := hs.ring src
  have htail : (s₀.ring src).tail = (s₀.ring src).sent.length := by
    rw [hr.tail, wrap_of_lt hcount]
  obtain ⟨hring, hproducer⟩ := called_eq hcall
  constructor
  · intro honce
    constructor
    · -- Call number 0 is taken for a failure, and the message is put in again.
      intro hzero
      have hempty : (s₀.ring src).sent = [] := List.length_eq_zero_iff.mp (htail.symm.trans hzero)
      have hhead : (s₀.ring src).head = 0 := by
        have := hr.behind
        rw [hempty] at this
        exact Nat.le_zero.mp this
      obtain ⟨s, hrun, hsent, hidle⟩ := runsTo_producerRun 8 (.init rfl)
        (show producerRun 8 (s₁.ring src) (s₁.producer src) = some (_, _) by
          simp [hring, hproducer, producerRun, producerStep, Producer.ret, hzero, hhead,
            ringbufSize, wrap]
          exact ⟨rfl, rfl⟩)
      have hadded := honce s hrun (by rw [hidle])
      simp [hsent] at hadded
    · -- The number that stands for a full ring is taken for a success.
      by_contra hfull
      have hbehind := hr.behind
      obtain ⟨s, hrun, hsent, hidle⟩ := runsTo_producerRun 2 (.init rfl)
        (show producerRun 2 (s₁.ring src) (s₁.producer src) = some (_, _) by
          rw [hring, hproducer, producerRun, producerStep]
          simp only [Option.bind_some, producerRun, producerStep]
          rw [if_neg (by omega), if_pos (by omega)]
          rfl)
      have hadded := honce s hrun (by rw [hidle]; rfl)
      simp [hsent] at hadded
  · rintro ⟨hzero, hroom⟩ s hrun hret
    rw [htail] at hzero hroom
    exact adds_one hs hcount hroom hzero hcall hrun hret

/-- Core 0 has put in one message. -/
def usedOnce : State :=
  ((system ⟨1⟩).exec start (enqueue 0 ⟨4, .batchable, 6⟩)).get (by decide +kernel)

/-- A message behind one that is in the ring. -/
theorem queue_adds_one_second :
    ∃ s : State, (s.producer 0).pc = .idle ∧
      (s.ring 0).sent = (usedOnce.ring 0).sent ++ [⟨5, .nonBatchable, 7⟩] := by
  have hcall : step ⟨1⟩ usedOnce (.call 0 ⟨5, .nonBatchable, 7⟩) =
      some (usedOnce.setProducer 0 { usedOnce.producer 0 with
        pc := .loadHead, msg := ⟨5, .nonBatchable, 7⟩, retry := true }) := rfl
  obtain ⟨s, hrun, hidle⟩ := (runsFrom ⟨1⟩ (usedOnce.setProducer 0 { usedOnce.producer 0 with
      pc := .loadHead, msg := ⟨5, .nonBatchable, 7⟩, retry := true })).exists_runsTo
    (fun _ l => inCall 0 l) rfl (List.replicate 4 (.producer 0))
    (fun s => (s.producer 0).pc = .idle) (by decide +kernel)
  have hinv : Inv ⟨1⟩ usedOnce :=
    reachable_inv (System.reachable_of_exec init_start (Option.some_get _).symm)
  have hcount : (usedOnce.ring 0).sent.length < counterSize := by decide +kernel
  have hroom : (usedOnce.ring 0).tail ≠ 0 ∧
      (usedOnce.ring 0).tail - (usedOnce.ring 0).head < ringbufSize := by decide +kernel
  exact ⟨s, hidle, (queue_adds_one hinv hcount hcall).mpr hroom s hrun hidle⟩

/-- The first message of a ring is put in twice, and a message for a full
    ring not at all. -/
theorem queue_not_once :
    (∃ s, (system ⟨1⟩).exec start
        (.call 0 ⟨5, .nonBatchable, 7⟩ :: List.replicate 8 (.producer 0)) = some s ∧
      (s.producer 0).pc = .idle ∧
      (s.ring 0).sent = [⟨5, .nonBatchable, 7⟩, ⟨5, .nonBatchable, 7⟩]) ∧
    ∃ s, (system ⟨1⟩).exec start ((List.replicate 4 (enqueue 0 ⟨4, .batchable, 6⟩)).flatten ++
        [.call 0 ⟨5, .nonBatchable, 7⟩, .producer 0, .producer 0]) = some s ∧
      (s.producer 0).pc = .idle ∧
      (s.ring 0).sent = List.replicate 4 ⟨4, .batchable, 6⟩ := by
  constructor
  · exact (system ⟨1⟩).exists_exec _ _ _ (by decide +kernel)
  · exact (system ⟨1⟩).exists_exec _ _ _ (by decide +kernel)

end IpiCall
