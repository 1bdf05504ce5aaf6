import Libdbos.Libdune.IpiCall

/-! # Delivery of IPI Messages

    Every message that gets a call number is passed on exactly once
    (`messages_delivered`). The invariant has four parts.

    * `RingOk`, `ProducerOk`: the reader is at most four messages behind, the
      places that are not read hold their messages, and a producer that has
      found room still has it.
    * `HandlerOk`: what the handler has read of the counters is up to date,
      and its buffers hold at most four messages for each ring visited.
    * `Content`: what has been passed on or is in the buffers, of one source
      and one type, is what has been copied out of its ring.
    * `DueOk`: the rings visited in the first round hold nothing that was
      queued before the handler was entered.
-/

open LTS

namespace IpiCall

open RingBuffer

variable {cfg : Config} {s s' : State} {r r' : Ring} {p p' : Producer} {src n : Nat}

/-! ## One ring -/

/-- The number of values of a counter. -/
def counterSize : Nat := 0x10000000000000000

theorem wrap_of_lt (h : n < counterSize) : wrap n = n := Nat.mod_eq_of_lt h

/-- The messages that have not been read are in their places. -/
structure RingOk (r : Ring) : Prop where
  behind : r.head ≤ r.sent.length
  room : r.sent.length ≤ r.head + ringbufSize
  count : r.sent.length ≤ counterSize
  tail : r.tail = wrap r.sent.length
  unread : Unread ringbufSize r.buf r.head r.sent

/-- The counter of a producer is right, unless it has come round to 0. -/
theorem RingOk.tail_cases (h : RingOk r) :
    r.sent.length < counterSize ∧ r.tail = r.sent.length ∨
      r.sent.length = counterSize ∧ r.tail = 0 := by
  by_cases hlt : r.sent.length < counterSize
  · exact .inl ⟨hlt, by rw [h.tail, wrap_of_lt hlt]⟩
  · have heq : r.sent.length = counterSize := Nat.le_antisymm h.count (by omega)
    exact .inr ⟨heq, by rw [h.tail, heq]; decide⟩

/-- The next message has number `t` and a free place. -/
structure Vacant (r : Ring) (t : Nat) : Prop where
  number : t = r.sent.length
  room : r.sent.length < r.head + ringbufSize
  count : r.sent.length < counterSize

/-- What a producer knows at each position. -/
def ProducerPc.Ok (r : Ring) (msg : Message) : ProducerPc → Prop
  | .idle | .loadHead => True
  | .loadTail h => r.sent.length ≤ h + ringbufSize ∧ h ≤ r.head
  | .fill t => Vacant r t
  | .publish t => Vacant r t ∧ r.buf (t % ringbufSize) = msg
  | .dead => r.sent.length = counterSize

structure ProducerOk (r : Ring) (p : Producer) : Prop where
  pc : p.pc.Ok r p.msg
  returned : ∀ m n, (m, n) ∈ p.returned → n ≠ ipiInvalidNumber → r.sent[n]? = some m

/-- What the consumer sees of a step of the producer. -/
structure Grows (r r' : Ring) : Prop where
  head : r'.head = r.head
  sent : r.sent <+: r'.sent

theorem Grows.refl (r : Ring) : Grows r r := ⟨rfl, List.prefix_rfl⟩

theorem Grows.length (h : Grows r r') : r.sent.length ≤ r'.sent.length := h.sent.length_le

theorem Grows.getElem (h : Grows r r') {m : Message} (hm : r.sent[n]? = some m) :
    r'.sent[n]? = some m := by
  obtain ⟨t, ht⟩ := h.sent
  rw [← ht, List.getElem?_append_left (List.getElem?_eq_some_iff.1 hm).1]
  exact hm

theorem ProducerOk.ret {num : Nat} (hp : ProducerOk r p) (hgrows : Grows r r')
    (hnum : num ≠ ipiInvalidNumber → r'.sent[num]? = some p.msg) : ProducerOk r' (p.ret num) := by
  constructor
  · unfold Producer.ret
    simp only
    split <;> trivial
  · intro m n hmem hn
    rcases List.mem_append.1 hmem with hold | hnew
    · exact hgrows.getElem (hp.returned m n hold hn)
    · cases List.mem_singleton.1 hnew
      exact hnum hn

/-- A step of a producer. -/
theorem producerStep_ok (hr : RingOk r) (hp : ProducerOk r p)
    (h : producerStep r p = some (r', p')) : RingOk r' ∧ ProducerOk r' p' ∧ Grows r r' := by
  have hpc := hp.pc
  unfold producerStep at h
  cases hcase : p.pc with
  | idle => simp [hcase] at h
  | dead => simp [hcase] at h
  | loadHead =>
    simp only [hcase, Option.some.injEq, Prod.mk.injEq] at h
    obtain ⟨rfl, rfl⟩ := h
    exact ⟨hr, ⟨⟨hr.room, Nat.le_refl _⟩, hp.returned⟩, .refl r⟩
  | loadTail head =>
    rw [hcase] at hpc
    obtain ⟨hnear, hle⟩ := hpc
    simp only [hcase] at h
    split at h
    · rename_i hassert
      simp only [Option.some.injEq, Prod.mk.injEq] at h
      obtain ⟨rfl, rfl⟩ := h
      refine ⟨hr, ⟨?_, hp.returned⟩, .refl r⟩
      have := hr.behind
      rcases hr.tail_cases with ⟨_, htail⟩ | ⟨hfull, _⟩
      · exact absurd (show head ≤ r.tail by omega) hassert
      · exact hfull
    · rename_i hassert
      split at h
      · simp only [Option.some.injEq, Prod.mk.injEq] at h
        obtain ⟨rfl, rfl⟩ := h
        exact ⟨hr, hp.ret (.refl r) fun hne => absurd rfl hne, .refl r⟩
      · rename_i hroom
        simp only [Option.some.injEq, Prod.mk.injEq] at h
        obtain ⟨rfl, rfl⟩ := h
        refine ⟨hr, ⟨?_, hp.returned⟩, .refl r⟩
        rcases hr.tail_cases with ⟨hlt, htail⟩ | ⟨hfull, htail⟩
        · exact ⟨htail, by omega, hlt⟩
        · -- After 2^64 messages the assertion would have failed.
          unfold ringbufSize at hnear
          unfold counterSize at hfull
          omega
  | fill t =>
    rw [hcase] at hpc
    simp only [hcase, Option.some.injEq, Prod.mk.injEq] at h
    obtain ⟨rfl, rfl⟩ := h
    obtain ⟨rfl, hroom, hcount⟩ := hpc
    refine ⟨⟨hr.behind, hr.room, hr.count, hr.tail, hr.unread.fill hroom⟩,
      ⟨⟨⟨rfl, hroom, hcount⟩, ?_⟩, hp.returned⟩, rfl, List.prefix_rfl⟩
    exact Function.update_self ..
  | publish t =>
    rw [hcase] at hpc
    simp only [hcase, Option.some.injEq, Prod.mk.injEq] at h
    obtain ⟨rfl, rfl⟩ := h
    obtain ⟨⟨rfl, hroom, hcount⟩, hslot⟩ := hpc
    have htail : r.tail = r.sent.length := by rw [hr.tail, wrap_of_lt hcount]
    have hgrows : Grows r { r with tail := wrap (r.tail + 1), sent := r.sent ++ [p.msg] } :=
      ⟨rfl, List.prefix_append ..⟩
    refine ⟨⟨?_, ?_, ?_, ?_, hr.unread.append hslot⟩, hp.ret hgrows fun _ => ?_, hgrows⟩
    · have := hr.behind
      simp only [List.length_append, List.length_singleton]
      omega
    · simp only [List.length_append, List.length_singleton]
      omega
    · simp only [List.length_append, List.length_singleton]
      omega
    · simp only [List.length_append, List.length_singleton, htail]
    · exact List.getElem?_concat_length

/-- The handler has read `n` messages. -/
theorem RingOk.advance (h : RingOk r) (hn : r.head + n ≤ r.sent.length) :
    RingOk { r with head := r.head + n } := by
  refine ⟨hn, ?_, h.count, h.tail, h.unread.advance (Nat.le_add_right ..)⟩
  have := h.room
  simp only
  omega

theorem ProducerOk.advance (h : ProducerOk r p) : ProducerOk { r with head := r.head + n } p := by
  refine ⟨?_, h.returned⟩
  have hpc := h.pc
  have hvacant : ∀ t, Vacant r t → Vacant { r with head := r.head + n } t := by
    intro t ht
    refine ⟨ht.number, ?_, ht.count⟩
    have := ht.room
    simp only
    omega
  cases hcase : p.pc with
  | idle => trivial
  | loadHead => trivial
  | loadTail head =>
    rw [hcase] at hpc
    exact ⟨hpc.1, Nat.le_trans hpc.2 (Nat.le_add_right ..)⟩
  | fill t =>
    rw [hcase] at hpc
    exact hvacant t hpc
  | publish t =>
    rw [hcase] at hpc
    exact ⟨hvacant t hpc.1, hpc.2⟩
  | dead =>
    rw [hcase] at hpc
    exact hpc

/-! ## Contents of the buffers -/

section Contents

variable {ty : CallType} {i : Nat} {m : Message} {ms ms' : List Tagged}

/-- The messages of one source and one type. -/
def ofSource (src : Nat) (ty : CallType) (ms : List Tagged) : List Message :=
  (ms.filter fun m => decide (m.src = src ∧ m.msg.type = ty)).map Tagged.msg

def ofType (ty : CallType) (ms : List Message) : List Message :=
  ms.filter fun m => decide (m.type = ty)

@[simp] theorem ofSource_append :
    ofSource src ty (ms ++ ms') = ofSource src ty ms ++ ofSource src ty ms' := by
  simp [ofSource]

theorem ofSource_own : ofSource src ty [⟨src, m⟩] = ofType ty [m] := by
  by_cases h : m.type = ty <;> simp [ofSource, ofType, h]

theorem ofSource_other (h : i ≠ src) : ofSource src ty [⟨i, m⟩] = [] := by
  simp [ofSource, h]

/-- Both parts of a buffer are taken together. -/
theorem ofSource_split (ms : List Tagged) :
    ofSource src ty ((ms.filter fun m => decide (m.msg.type = .nonBatchable)) ++
      ms.filter fun m => decide (m.msg.type = .batchable)) = ofSource src ty ms := by
  induction ms with
  | nil => rfl
  | cons m ms ih =>
    obtain ⟨i, func, mty, arg⟩ := m
    rw [ofSource_append] at ih
    cases mty <;> cases ty <;> by_cases hi : i = src <;>
      simp_all [ofSource]

theorem length_ofSource (ms : List Tagged) :
    (ofSource src .nonBatchable ms).length + (ofSource src .batchable ms).length =
      (ms.filter fun m => decide (m.src = src)).length := by
  induction ms with
  | nil => rfl
  | cons m ms ih =>
    obtain ⟨i, func, mty, arg⟩ := m
    cases mty <;> by_cases hi : i = src <;> simp_all [ofSource] <;> omega

theorem length_ofType (ms : List Message) :
    (ofType .nonBatchable ms).length + (ofType .batchable ms).length = ms.length := by
  induction ms with
  | nil => rfl
  | cons m ms ih =>
    obtain ⟨func, mty, arg⟩ := m
    cases mty <;> simp_all [ofType] <;> omega

end Contents

/-! ## Invariant -/

/-- The messages that have been passed on. -/
def State.passed (s : State) : List Tagged := s.log.flatMap Delivery.messages

/-- The messages in the local buffers. -/
def State.inHand (s : State) : List Tagged :=
  s.handler.buf ++ (s.handler.nonbatchable ++ s.handler.batchable)

/-- The messages of `src` that a collection which has not ended has copied. -/
def HandlerPc.copying (src : Nat) : HandlerPc → Nat
  | .copy i _ _ k => if i = src then k else 0
  | _ => 0

/-- The rings that the handler has been through since it was entered. -/
def Handler.visited (cfg : Config) (x : Handler) : Nat :=
  if x.second then cfg.ipiMaxCpus
  else match x.pc with
    | .loadHead i | .loadTail i _ | .copy i _ _ _ => i
    | .setPhase | .dead | .overflow => 0
    | .off | .split | .call | .batch | .clearPhase => cfg.ipiMaxCpus

/-- What the handler knows at each position. -/
def HandlerOk (cfg : Config) (s : State) : Prop :=
  match s.handler.pc with
  | .off | .setPhase | .clearPhase =>
      s.handler.buf = [] ∧ s.handler.nonbatchable = [] ∧ s.handler.batchable = []
  | .loadHead i =>
      i ≤ cfg.ipiMaxCpus ∧ s.handler.buf.length ≤ ringbufSize * i ∧
        s.handler.nonbatchable = [] ∧ s.handler.batchable = []
  | .loadTail i h =>
      i < cfg.ipiMaxCpus ∧ h = (s.ring i).head ∧ s.handler.buf.length ≤ ringbufSize * i ∧
        s.handler.nonbatchable = [] ∧ s.handler.batchable = []
  | .copy i h n k =>
      i < cfg.ipiMaxCpus ∧ h = (s.ring i).head ∧ k ≤ n ∧ h + n ≤ (s.ring i).sent.length ∧
        h + n < counterSize ∧ s.due i ≤ h + n ∧ s.handler.buf.length ≤ ringbufSize * i + k ∧
        s.handler.nonbatchable = [] ∧ s.handler.batchable = []
  | .split =>
      s.handler.buf.length ≤ cfg.bufSize ∧ s.handler.nonbatchable = [] ∧ s.handler.batchable = []
  | .call =>
      s.handler.buf = [] ∧ s.handler.nonbatchable.length ≤ cfg.bufSize ∧
        s.handler.batchable.length ≤ cfg.bufSize
  | .batch =>
      s.handler.buf = [] ∧ s.handler.nonbatchable = [] ∧ s.handler.batchable.length ≤ cfg.bufSize
  | .dead =>
      (∃ src, (s.ring src).sent.length = counterSize) ∧ s.handler.buf.length ≤ cfg.bufSize ∧
        s.handler.nonbatchable = [] ∧ s.handler.batchable = []
  | .overflow => False

/-- What has left a ring has been passed on or is in the buffers, in order. -/
def Content (s : State) : Prop :=
  ∀ src ty, ofSource src ty (s.passed ++ s.inHand) =
    ofType ty ((s.ring src).sent.take ((s.ring src).head + s.handler.pc.copying src))

/-- Each call gets messages of its type. -/
def Delivery.Typed : Delivery → Prop
  | .call m => m.msg.type = .nonBatchable
  | .batch ms => ∀ m ∈ ms, m.msg.type = .batchable

structure TypedOk (s : State) : Prop where
  log : ∀ d ∈ s.log, d.Typed
  nonbatchable : ∀ m ∈ s.handler.nonbatchable, m.msg.type = .nonBatchable
  batchable : ∀ m ∈ s.handler.batchable, m.msg.type = .batchable

structure DueOk (cfg : Config) (s : State) : Prop where
  queued : ∀ src, s.due src ≤ (s.ring src).sent.length
  visited : ∀ src, src < s.handler.visited cfg → s.due src ≤ (s.ring src).head

structure Inv (cfg : Config) (s : State) : Prop where
  ring : ∀ src, RingOk (s.ring src)
  producer : ∀ src, ProducerOk (s.ring src) (s.producer src)
  handler : HandlerOk cfg s
  content : Content s
  typed : TypedOk s
  due : DueOk cfg s

theorem inv_init (h : Init s) : Inv cfg s where
  ring src := by
    refine ⟨?_, ?_, ?_, ?_, ?_⟩ <;> rw [h.sent src]
    · rw [h.head src]
      exact Nat.le_refl 0
    · exact Nat.zero_le _
    · exact Nat.zero_le _
    · rw [h.tail src]
      rfl
    · exact unread_nil
  producer src := by
    refine ⟨?_, ?_⟩
    · rw [h.producer src]
      trivial
    · rw [h.returned src]
      simp
  handler := by
    simp [HandlerOk, h.handler]
  content src ty := by
    simp [State.passed, State.inHand, h.log, h.handler, h.sent src, ofSource, ofType]
  typed := by
    constructor <;> simp [h.log, h.handler]
  due := by
    constructor <;> simp [h.due]

/-! ## Steps of producers -/

/-- The messages that have been copied were in the ring. -/
theorem copied_le (h : Inv cfg s) (src : Nat) :
    (s.ring src).head + s.handler.pc.copying src ≤ (s.ring src).sent.length := by
  have hle := (h.ring src).behind
  have hok := h.handler
  unfold HandlerOk at hok
  cases hpc : s.handler.pc with
  | copy i head n k =>
    simp only [hpc] at hok
    obtain ⟨_, hhead, hk, hn, _⟩ := hok
    unfold HandlerPc.copying
    simp only
    split
    · rename_i hi
      subst hi
      omega
    · exact hle
  | _ => exact hle

/-- The handler does not notice what a producer does. -/
theorem Inv.grows (h : Inv cfg s) (hring : ∀ src, RingOk (s'.ring src))
    (hproducer : ∀ src, ProducerOk (s'.ring src) (s'.producer src))
    (hgrows : ∀ src, Grows (s.ring src) (s'.ring src)) (hhandler : s'.handler = s.handler)
    (hlog : s'.log = s.log) (hdue : s'.due = s.due) : Inv cfg s' where
  ring := hring
  producer := hproducer
  handler := by
    have hok := h.handler
    unfold HandlerOk at hok ⊢
    rw [hhandler]
    cases hpc : s.handler.pc with
    | loadTail i head =>
      simp only [hpc] at hok ⊢
      rw [(hgrows i).head]
      exact hok
    | copy i head n k =>
      simp only [hpc] at hok ⊢
      have := (hgrows i).length
      rw [(hgrows i).head, hdue]
      obtain ⟨hi, hhead, hk, hn, hrest⟩ := hok
      exact ⟨hi, hhead, hk, by omega, hrest⟩
    | dead =>
      simp only [hpc] at hok ⊢
      obtain ⟨⟨src, hfull⟩, hrest⟩ := hok
      have := (hgrows src).length
      have := (hring src).count
      exact ⟨⟨src, by omega⟩, hrest⟩
    | overflow => simp only [hpc] at hok
    | _ =>
      simp only [hpc] at hok ⊢
      exact hok
  content src ty := by
    obtain ⟨t, ht⟩ := (hgrows src).sent
    have hcontent := h.content src ty
    unfold State.passed State.inHand at hcontent ⊢
    rw [hlog, hhandler, hcontent, (hgrows src).head, ← ht,
      List.take_append_of_le_length (copied_le h src)]
  typed := by
    obtain ⟨hl, hn, hb⟩ := h.typed
    exact ⟨hlog ▸ hl, hhandler ▸ hn, hhandler ▸ hb⟩
  due := by
    constructor
    · intro src
      rw [hdue]
      exact Nat.le_trans (h.due.queued src) (hgrows src).length
    · intro src hlt
      rw [hhandler] at hlt
      rw [hdue, (hgrows src).head]
      exact h.due.visited src hlt

theorem producer_inv (h : Inv cfg s) (hstep : step cfg s (.producer src) = some s') :
    Inv cfg s' := by
  simp only [step, Option.map_eq_some_iff] at hstep
  obtain ⟨⟨r', p'⟩, hprod, rfl⟩ := hstep
  obtain ⟨hr, hp, hg⟩ := producerStep_ok (h.ring src) (h.producer src) hprod
  refine h.grows ?_ ?_ ?_ rfl rfl rfl <;> intro j <;> by_cases hj : j = src
  · subst hj
    simpa [State.setProducer, State.setRing] using hr
  · simpa [State.setProducer, State.setRing, Function.update_of_ne hj] using h.ring j
  · subst hj
    simpa [State.setProducer, State.setRing] using hp
  · simpa [State.setProducer, State.setRing, Function.update_of_ne hj] using h.producer j
  · subst hj
    simpa [State.setProducer, State.setRing] using hg
  · simpa [State.setProducer, State.setRing, Function.update_of_ne hj] using Grows.refl _

theorem begin_inv {msg : Message} {retry : Bool} (h : Inv cfg s)
    (hstep : s.begin cfg src msg retry = some s') : Inv cfg s' := by
  unfold State.begin at hstep
  split at hstep
  · split at hstep
    · cases hstep
      refine h.grows h.ring ?_ (fun _ => .refl _) rfl rfl rfl
      intro j
      by_cases hj : j = src
      · subst hj
        simp only [State.setProducer, Function.update_self]
        exact ⟨trivial, (h.producer j).returned⟩
      · simp only [State.setProducer, Function.update_of_ne hj]
        exact h.producer j
    · cases hstep
  · cases hstep

/-! ## Steps of the handler -/

/-- A step on the handler's own variables, from position `pc`. -/
theorem Inv.own {pc : HandlerPc} {x : Handler} {log : List Delivery} (h : Inv cfg s)
    (hpc : s.handler.pc = pc) (hok : HandlerOk cfg { s with handler := x, log := log })
    (hcopying : ∀ src, x.pc.copying src = pc.copying src)
    (hcontent : ∀ src ty, ofSource src ty (log.flatMap Delivery.messages ++
      (x.buf ++ (x.nonbatchable ++ x.batchable))) = ofSource src ty (s.passed ++ s.inHand))
    (htyped : TypedOk { s with handler := x, log := log })
    (hvisited : ∀ src, src < x.visited cfg →
      src < ({ s.handler with pc := pc } : Handler).visited cfg ∨ s.due src ≤ (s.ring src).head) :
    Inv cfg { s with handler := x, log := log } := by
  subst hpc
  refine ⟨h.ring, h.producer, hok, ?_, htyped, h.due.queued, ?_⟩
  · intro src ty
    have hold := h.content src ty
    rw [← hcontent src ty, ← hcopying src] at hold
    exact hold
  · intro src hsrc
    exact (hvisited src hsrc).elim (h.due.visited src) id

/-- A step that changes nothing but the position. -/
theorem Inv.goto {pc pc' : HandlerPc} (h : Inv cfg s) (hpc : s.handler.pc = pc)
    (hok : HandlerOk cfg (s.goto pc')) (hcopying : ∀ src, pc'.copying src = pc.copying src)
    (hvisited : ∀ src, src < ({ s.handler with pc := pc' } : Handler).visited cfg →
      src < ({ s.handler with pc := pc } : Handler).visited cfg ∨ s.due src ≤ (s.ring src).head) :
    Inv cfg (s.goto pc') :=
  h.own hpc hok hcopying (fun _ _ => rfl) { h.typed with }
    hvisited

/-- In the second round all rings have been visited. -/
theorem lt_visited {second : Bool} {max i i' j : Nat} (h : j < if second then max else i)
    (hi : j < i → j < i') : j < if second then max else i' := by
  cases second with
  | true => exact h
  | false => exact hi h

/-- The end of the collection of ring `i`. -/
theorem collected_inv {i h n : Nat} (hs : Inv cfg s) (hpc : s.handler.pc = .copy i h n n) :
    Inv cfg ((s.setRing i { s.ring i with head := wrap ((s.ring i).head + n) }).goto
      (.loadHead (i + 1))) := by
  have hok := hs.handler
  simp only [HandlerOk, hpc] at hok
  obtain ⟨hi, rfl, _, hn, hcount, hdue, hbuf, hnon, hbat⟩ := hok
  have hroom := (hs.ring i).room
  rw [wrap_of_lt hcount]
  constructor
  · intro j
    by_cases hj : j = i
    · subst hj
      simpa [State.goto, State.setRing] using (hs.ring j).advance hn
    · simpa [State.goto, State.setRing, Function.update_of_ne hj] using hs.ring j
  · intro j
    by_cases hj : j = i
    · subst hj
      simpa [State.goto, State.setRing] using (hs.producer j).advance
    · simpa [State.goto, State.setRing, Function.update_of_ne hj] using hs.producer j
  · refine ⟨hi, ?_, hnon, hbat⟩
    simp only [State.goto, State.setRing]
    unfold ringbufSize at hroom hbuf ⊢
    omega
  · -- What had been copied has now been read.
    intro j ty
    have hcontent := hs.content j ty
    simp only [HandlerPc.copying, hpc] at hcontent
    by_cases hj : j = i
    · subst hj
      simpa [State.goto, State.setRing, State.passed, State.inHand, HandlerPc.copying] using hcontent
    · simpa [State.goto, State.setRing, State.passed, State.inHand, HandlerPc.copying,
        Function.update_of_ne hj, Ne.symm hj] using hcontent
  · exact { hs.typed with }
  · constructor
    · intro j
      by_cases hj : j = i
      · subst hj
        simpa [State.goto, State.setRing] using hs.due.queued j
      · simpa [State.goto, State.setRing, Function.update_of_ne hj] using hs.due.queued j
    · intro j hlt
      by_cases hj : j = i
      · subst hj
        simpa [State.goto, State.setRing] using hdue
      · have hold := hs.due.visited j
        simp only [Handler.visited, hpc] at hold
        simp only [Handler.visited, State.goto, State.setRing] at hlt
        simp only [State.goto, State.setRing, Function.update_of_ne hj]
        exact hold (lt_visited hlt fun _ => by omega)

/-- One more message of ring `i` in the buffer. -/
theorem copied_inv {i h n k : Nat} (hs : Inv cfg s) (hpc : s.handler.pc = .copy i h n k)
    (hk : k < n) :
    Inv cfg { s with handler :=
      { s.handler with
        pc := .copy i h n (k + 1)
        buf := s.handler.buf ++ [⟨i, (s.ring i).buf ((h + k) % ringbufSize)⟩] } } := by
  have hok := hs.handler
  simp only [HandlerOk, hpc] at hok
  obtain ⟨hi, rfl, _, hn, hcount, hdue, hbuf, hnon, hbat⟩ := hok
  have hlt : (s.ring i).head + k < (s.ring i).sent.length := by omega
  have hslot := (hs.ring i).unread ((s.ring i).head + k) (Nat.le_add_right ..) _
    (List.getElem?_eq_getElem hlt)
  refine ⟨hs.ring, hs.producer, ?_, ?_, { hs.typed with }, hs.due.queued, ?_⟩
  · refine ⟨hi, rfl, hk, hn, hcount, hdue, ?_, hnon, hbat⟩
    rw [List.length_append, List.length_singleton]
    omega
  · intro j ty
    have hcontent := hs.content j ty
    simp only [State.passed, State.inHand, HandlerPc.copying, hpc, hnon, hbat, List.append_nil,
      ofSource_append] at hcontent ⊢
    rw [← List.append_assoc, hcontent]
    by_cases hj : i = j
    · subst hj
      rw [hslot, ofSource_own, if_pos rfl, if_pos rfl, ← Nat.add_assoc,
        List.take_succ_eq_append_getElem hlt]
      exact (List.filter_append ..).symm
    · rw [ofSource_other hj, if_neg hj, if_neg hj, List.append_nil]
  · intro j hlt'
    refine hs.due.visited j ?_
    simpa only [Handler.visited, hpc] using hlt'

theorem handler_inv (hs : Inv cfg s) (hstep : handlerStep cfg s = some s') : Inv cfg s' := by
  have hok := hs.handler
  unfold HandlerOk at hok
  unfold handlerStep at hstep
  cases hpc : s.handler.pc with
  | off => simp [hpc] at hstep
  | dead => simp [hpc] at hstep
  | overflow => simp [hpc] at hstep
  | setPhase =>
    simp only [hpc, Option.some.injEq] at hok hstep
    subst hstep
    obtain ⟨hbuf, hnon, hbat⟩ := hok
    refine hs.own hpc ⟨Nat.zero_le _, Nat.zero_le _, rfl, rfl⟩ (fun _ => rfl) ?_
      ⟨hs.typed.log, by simp, by simp⟩ fun _ h => .inl h
    intro src ty
    rw [State.inHand, hbuf, hnon, hbat]
    rfl
  | loadHead i =>
    simp only [hpc, Option.some.injEq] at hok hstep
    subst hstep
    obtain ⟨hi, hbuf, hnon, hbat⟩ := hok
    split
    · rename_i hlt
      exact hs.goto hpc ⟨hlt, rfl, hbuf, hnon, hbat⟩ (fun _ => rfl) fun _ h => .inl h
    · rename_i hge
      have hall : i = cfg.ipiMaxCpus := Nat.le_antisymm hi (Nat.le_of_not_lt hge)
      subst hall
      exact hs.goto hpc ⟨hbuf, hnon, hbat⟩ (fun _ => rfl) fun _ h => .inl h
  | loadTail i h =>
    simp only [hpc] at hok hstep
    obtain ⟨hi, rfl, hbuf, hnon, hbat⟩ := hok
    have hbound : s.handler.buf.length ≤ cfg.bufSize :=
      Nat.le_trans hbuf (Nat.mul_le_mul_left _ (Nat.le_of_lt hi))
    have hr := hs.ring i
    have := hr.behind
    have := hr.room
    split at hstep
    · rename_i hempty
      cases hstep
      refine hs.goto hpc ⟨hi, ?_, hnon, hbat⟩ (fun _ => rfl) ?_
      · exact Nat.le_trans hbuf (Nat.mul_le_mul_left _ (Nat.le_succ i))
      · intro src hsrc
        simp only [Handler.visited] at hsrc ⊢
        by_cases hj : src = i
        · subst hj
          have hq := hs.due.queued src
          rcases hr.tail_cases with ⟨_, htail⟩ | ⟨hfull, htail⟩
          · exact .inr (by omega)
          · unfold ringbufSize at *
            unfold counterSize at hfull
            omega
        · exact .inl (lt_visited hsrc fun _ => by omega)
    · rename_i hne
      split at hstep
      · rename_i hassert
        cases hstep
        refine hs.goto hpc ⟨⟨i, ?_⟩, hbound, hnon, hbat⟩ (fun _ => rfl) ?_
        · rcases hr.tail_cases with ⟨_, htail⟩ | ⟨hfull, _⟩
          · change (s.ring i).sent.length = counterSize
            omega
          · exact hfull
        · intro src hsrc
          simp only [Handler.visited] at hsrc ⊢
          exact .inl (lt_visited hsrc fun _ => by omega)
      · rename_i hassert
        cases hstep
        have hq := hs.due.queued i
        rcases hr.tail_cases with ⟨hlt, htail⟩ | ⟨_, htail⟩
        · refine hs.goto hpc ⟨hi, rfl, Nat.zero_le _, ?_, ?_, ?_, hbuf, hnon, hbat⟩ ?_
            fun _ h => .inl h
          · change (s.ring i).head + ((s.ring i).tail - (s.ring i).head) ≤ (s.ring i).sent.length
            omega
          · omega
          · change s.due i ≤ (s.ring i).head + ((s.ring i).tail - (s.ring i).head)
            omega
          · intro src
            simp [HandlerPc.copying]
        · omega
  | copy i h n k =>
    simp only [hpc] at hok hstep
    split at hstep
    · rename_i hk
      split at hstep
      · cases hstep
        exact copied_inv hs hpc hk
      · rename_i hfull
        -- The buffer has room for the messages of the rings up to this one.
        have hroom := (hs.ring i).room
        have hle : ringbufSize * (i + 1) ≤ cfg.bufSize := Nat.mul_le_mul_left _ hok.1
        obtain ⟨_, rfl, _, hn, _, _, hbuf, _⟩ := hok
        unfold ringbufSize at *
        omega
    · rename_i hk
      cases hstep
      have heq : k = n := by omega
      subst heq
      exact collected_inv hs hpc
  | split =>
    simp only [hpc, Option.some.injEq] at hok hstep
    subst hstep
    obtain ⟨hbuf, hnon, hbat⟩ := hok
    refine hs.own hpc ⟨rfl, ?_, ?_⟩ (fun _ => rfl) ?_ ⟨hs.typed.log, by simp, by simp⟩
      fun _ h => .inl h
    · exact Nat.le_trans (List.length_filter_le ..) hbuf
    · exact Nat.le_trans (List.length_filter_le ..) hbuf
    · intro src ty
      rw [List.nil_append, ofSource_append, ofSource_split, State.inHand, hnon, hbat,
        List.append_nil, List.append_nil, ofSource_append]
      rfl
  | call =>
    simp only [hpc] at hok hstep
    obtain ⟨hbuf, hlen, hbat⟩ := hok
    have htyped := hs.typed.nonbatchable
    split at hstep
    · rename_i hnil
      cases hstep
      exact hs.goto hpc ⟨hbuf, hnil, hbat⟩ (fun _ => rfl) fun _ h => .inl h
    · rename_i m ms hcons
      cases hstep
      rw [hcons] at hlen htyped
      refine hs.own hpc ⟨hbuf, Nat.le_of_succ_le hlen, hbat⟩ (fun _ => rfl) ?_
        ⟨?_, ?_, hs.typed.batchable⟩ fun _ h => .inl h
      · intro src ty
        simp [State.passed, State.inHand, hbuf, hcons, Delivery.messages]
      · intro d hd
        rcases List.mem_append.1 hd with hold | hnew
        · exact hs.typed.log d hold
        · cases List.mem_singleton.1 hnew
          exact htyped m (List.mem_cons_self ..)
      · intro m' hm'
        exact htyped m' (List.mem_cons_of_mem _ hm')
  | batch =>
    simp only [hpc, Option.some.injEq] at hok hstep
    subst hstep
    obtain ⟨hbuf, hnon, hbat⟩ := hok
    refine hs.own hpc ?_ ?_ ?_ ⟨?_, hs.typed.nonbatchable, by simp⟩ ?_
    · cases hsecond : s.handler.second <;> exact ⟨hbuf, hnon, rfl⟩
    · intro src
      cases hsecond : s.handler.second <;> rfl
    · intro src ty
      split
      · rename_i hempty
        rw [List.isEmpty_iff] at hempty
        simp [State.passed, State.inHand, hempty]
      · simp [State.passed, State.inHand, hbuf, hnon, Delivery.messages]
    · intro d hd
      simp only at hd
      split at hd
      · exact hs.typed.log d hd
      · rcases List.mem_append.1 hd with hold | hnew
        · exact hs.typed.log d hold
        · cases List.mem_singleton.1 hnew
          exact hs.typed.batchable
    · intro src hsrc
      simpa [Handler.visited] using Or.inl hsrc
  | clearPhase =>
    simp only [hpc, Option.some.injEq] at hok hstep
    subst hstep
    exact hs.own hpc hok (fun _ => rfl) (fun _ _ => rfl)
      { hs.typed with } fun _ h => .inl h

theorem interrupt_inv (hs : Inv cfg s) (hstep : step cfg s .interrupt = some s') : Inv cfg s' := by
  have hok := hs.handler
  simp only [step] at hstep
  split at hstep
  · rename_i hpc
    cases hstep
    simp only [HandlerOk, hpc] at hok
    refine ⟨hs.ring, hs.producer, hok, ?_, { hs.typed with }, fun _ => Nat.le_refl _, ?_⟩
    · intro src ty
      have hcontent := hs.content src ty
      rw [hpc] at hcontent
      exact hcontent
    · intro src hlt
      simp [Handler.visited] at hlt
  · cases hstep

theorem step_inv {l : Label} (hs : Inv cfg s) (hstep : step cfg s l = some s') : Inv cfg s' := by
  cases l with
  | callFast src msg => exact begin_inv hs hstep
  | call src msg => exact begin_inv hs hstep
  | producer src => exact producer_inv hs hstep
  | interrupt => exact interrupt_inv hs hstep
  | handler => exact handler_inv hs hstep

theorem reachable_inv (h : (system cfg).Reachable s) : Inv cfg s :=
  System.invariant (fun _ => inv_init) (fun _ _ _ => step_inv) h

/-! ## Termination of the handler -/

/-- A bound on the steps that are left to the handler in a round. -/
def Handler.roundRank (cfg : Config) (x : Handler) : Nat :=
  match x.pc with
  | .off | .dead | .overflow => 0
  | .setPhase => 12 * cfg.ipiMaxCpus + 6
  | .loadHead i => 4 * cfg.ipiMaxCpus + 5 + 8 * (cfg.ipiMaxCpus - i)
  | .loadTail i _ => 4 * cfg.ipiMaxCpus + 12 + 8 * (cfg.ipiMaxCpus - (i + 1))
  | .copy i _ n k => 4 * cfg.ipiMaxCpus + 6 + 8 * (cfg.ipiMaxCpus - (i + 1)) + (n - k)
  | .split => 4 * cfg.ipiMaxCpus + 4
  | .call => x.nonbatchable.length + 3
  | .batch => 2
  | .clearPhase => 1

/-- A bound on the steps of the rounds that have not begun. -/
def Config.laterRounds (cfg : Config) : Bool → Nat
  | true => 0
  | false => 12 * cfg.ipiMaxCpus + 6

def Handler.rank (cfg : Config) (x : Handler) : Nat := x.roundRank cfg + cfg.laterRounds x.second

/-- The handler is never stuck, and each step brings it closer to its end.
    The other steps leave its variables alone. -/
theorem handler_progress (hs : Inv cfg s) (hon : s.handler.pc ≠ .off)
    (hlive : s.handler.pc ≠ .dead) :
    ∃ s', handlerStep cfg s = some s' ∧ s'.handler.rank cfg < s.handler.rank cfg := by
  have hok := hs.handler
  unfold HandlerOk Config.bufSize ringbufSize at hok
  unfold handlerStep Handler.rank
  dsimp only
  cases hpc : s.handler.pc with
  | off => exact absurd hpc hon
  | dead => exact absurd hpc hlive
  | overflow => simp only [hpc] at hok
  | setPhase | clearPhase =>
    refine ⟨_, rfl, ?_⟩
    simp only [Handler.roundRank, hpc]
    omega
  | loadHead i =>
    simp only [hpc] at hok
    refine ⟨_, rfl, ?_⟩
    by_cases hi : i < cfg.ipiMaxCpus
    · simp only [State.goto, Handler.roundRank, hpc, if_pos hi]
      omega
    · simp only [State.goto, Handler.roundRank, hpc, if_neg hi]
      omega
  | loadTail i h =>
    simp only [hpc] at hok
    obtain ⟨hi, rfl, hbuf, hrest⟩ := hok
    have hr := hs.ring i
    have hroom := hr.room
    unfold ringbufSize at hroom
    dsimp only
    split
    · refine ⟨_, rfl, ?_⟩
      simp only [State.goto, Handler.roundRank, hpc]
      omega
    · split
      · refine ⟨_, rfl, ?_⟩
        simp only [State.goto, Handler.roundRank, hpc]
        omega
      · rename_i hassert
        refine ⟨_, rfl, ?_⟩
        simp only [State.goto, Handler.roundRank, hpc]
        rcases hr.tail_cases with ⟨_, htail⟩ | ⟨_, htail⟩ <;> omega
  | copy i h n k =>
    simp only [hpc] at hok
    dsimp only
    split
    · split
      · refine ⟨_, rfl, ?_⟩
        simp only [Handler.roundRank, hpc]
        omega
      · refine ⟨_, rfl, ?_⟩
        simp only [State.goto, Handler.roundRank, hpc]
        omega
    · refine ⟨_, rfl, ?_⟩
      simp only [State.goto, State.setRing, Handler.roundRank, hpc]
      omega
  | split =>
    simp only [hpc] at hok
    refine ⟨_, rfl, ?_⟩
    have := List.length_filter_le (fun m : Tagged => decide (m.msg.type = .nonBatchable))
      s.handler.buf
    simp only [Handler.roundRank, hpc]
    omega
  | call =>
    dsimp only
    split
    · rename_i hnil
      refine ⟨_, rfl, ?_⟩
      simp only [State.goto, Handler.roundRank, hpc, hnil, List.length_nil]
      omega
    · rename_i m ms hcons
      refine ⟨_, rfl, ?_⟩
      simp only [Handler.roundRank, hpc, hcons, List.length_cons]
      omega
  | batch =>
    refine ⟨_, rfl, ?_⟩
    cases hsecond : s.handler.second <;> simp [Handler.roundRank, Config.laterRounds, hpc]

/-! ## Delivery -/

/-- The messages of `src` that collections have taken out of its ring, by
    the calls and the buffers of the handler. -/
def State.copiedOut (s : State) (src : Nat) : Nat :=
  ((s.passed ++ s.inHand).filter fun m => decide (m.src = src)).length - s.handler.pc.copying src

theorem Inv.copiedOut_eq (h : Inv cfg s) (src : Nat) : s.copiedOut src = (s.ring src).head := by
  have hle := copied_le h src
  rw [State.copiedOut, ← length_ofSource, h.content, h.content, length_ofType, List.length_take,
    Nat.min_eq_left hle, Nat.add_sub_cancel]

/-- What is said about a state. -/
structure Delivered (cfg : Config) (s : State) : Prop where
  /-- A call number says which message it is. -/
  numbered : ∀ src m n, (m, n) ∈ (s.producer src).returned → n ≠ ipiInvalidNumber →
    (s.ring src).sent[n]? = some m
  /-- At most four messages are in a ring. -/
  room : ∀ src, (s.ring src).sent.length - (s.ring src).head ≤ ringbufSize
  /-- Messages are not overwritten before they are read. -/
  unread : ∀ src, Unread ringbufSize (s.ring src).buf (s.ring src).head (s.ring src).sent
  /-- Of one source and one type, the messages passed on and then those in
      the buffers are the first messages of the ring, each once. -/
  inOrder : ∀ src ty, ofSource src ty s.passed ++ ofSource src ty s.inHand =
    ofType ty ((s.ring src).sent.take (s.copiedOut src + s.handler.pc.copying src))
  /-- Batchable messages go to the batch function, the others to their own. -/
  typed : ∀ d ∈ s.log, d.Typed
  /-- When the handler ends, its buffers are empty, and what was in a ring
      when it was entered has been taken out. -/
  ended : s.handler.pc = .off → s.inHand = [] ∧
    ∀ src, src < cfg.ipiMaxCpus → s.due src ≤ s.copiedOut src
  /-- The handler gets to its end, unless a counter has come round. -/
  ends : s.handler.pc ≠ .off →
    (∃ s', step cfg s .handler = some s' ∧ s'.handler.rank cfg < s.handler.rank cfg) ∨
      ∃ src, (s.ring src).sent.length = counterSize
  /-- The local buffers do not overflow. -/
  buffers : s.handler.pc ≠ .overflow ∧ s.handler.buf.length ≤ cfg.bufSize ∧
    s.handler.nonbatchable.length ≤ cfg.bufSize ∧ s.handler.batchable.length ≤ cfg.bufSize
  /-- The messages that have been collected, and no others, are reported as
      such; the collection in progress has not taken its messages out yet. -/
  collected : ∀ src n, s.callNumberCollected src n = true ↔ n < s.copiedOut src

theorem Inv.buffers (h : Inv cfg s) :
    s.handler.pc ≠ .overflow ∧ s.handler.buf.length ≤ cfg.bufSize ∧
      s.handler.nonbatchable.length ≤ cfg.bufSize ∧
      s.handler.batchable.length ≤ cfg.bufSize := by
  have hok := h.handler
  have hmul : ∀ i, i ≤ cfg.ipiMaxCpus → ringbufSize * i ≤ cfg.bufSize :=
    fun i hi => Nat.mul_le_mul_left _ hi
  unfold HandlerOk at hok
  cases hpc : s.handler.pc with
  | loadHead i =>
    simp only [hpc] at hok
    obtain ⟨hi, hbuf, hnon, hbat⟩ := hok
    exact ⟨by simp, Nat.le_trans hbuf (hmul i hi), by simp [hnon], by simp [hbat]⟩
  | loadTail i head =>
    simp only [hpc] at hok
    obtain ⟨hi, _, hbuf, hnon, hbat⟩ := hok
    exact ⟨by simp, Nat.le_trans hbuf (hmul i (Nat.le_of_lt hi)), by simp [hnon], by simp [hbat]⟩
  | copy i head n k =>
    simp only [hpc] at hok
    obtain ⟨hi, hhead, hk, hn, _, _, hbuf, hnon, hbat⟩ := hok
    have hroom := (h.ring i).room
    have hlast := hmul (i + 1) hi
    refine ⟨by simp, ?_, by simp [hnon], by simp [hbat]⟩
    unfold ringbufSize at hroom hlast hbuf
    omega
  | overflow => simp only [hpc] at hok
  | _ =>
    simp only [hpc] at hok
    simp_all

/-- **IPI messages are delivered exactly once**, in the order in which they
    were queued. -/
theorem messages_delivered (h : (system cfg).Reachable s) : Delivered cfg s := by
  have hs := reachable_inv h
  constructor
  · exact fun src => (hs.producer src).returned
  · intro src
    have := (hs.ring src).room
    omega
  · exact fun src => (hs.ring src).unread
  · intro src ty
    rw [← ofSource_append, hs.copiedOut_eq]
    exact hs.content src ty
  · exact hs.typed.log
  · intro hoff
    have hok := hs.handler
    simp only [HandlerOk, hoff] at hok
    obtain ⟨hbuf, hnon, hbat⟩ := hok
    refine ⟨by simp [State.inHand, hbuf, hnon, hbat], ?_⟩
    intro src hsrc
    rw [hs.copiedOut_eq]
    exact hs.due.visited src (by simpa [Handler.visited, hoff] using hsrc)
  · intro hon
    by_cases hdead : s.handler.pc = .dead
    · have hok := hs.handler
      simp only [HandlerOk, hdead] at hok
      exact .inr hok.1
    · exact .inl (handler_progress hs hon hdead)
  · exact hs.buffers
  · intro src n
    rw [hs.copiedOut_eq]
    exact decide_eq_true_iff

/-- Nothing has happened yet. -/
def start : State where
  ring := fun _ => ⟨0, 0, fun _ => ⟨0, .nonBatchable, 0⟩, []⟩
  producer := fun _ => ⟨.idle, ⟨0, .nonBatchable, 0⟩, false, []⟩
  handler := ⟨.off, false, .none, [], [], []⟩
  log := []
  due := fun _ => 0

theorem init_start : Init start :=
  ⟨fun _ => rfl, fun _ => rfl, fun _ => rfl, fun _ => rfl, fun _ => rfl, rfl, rfl, fun _ => rfl⟩

/-- A call of `dune_queue_ipi_call_fast` that finds room. -/
def enqueue (src : Nat) (msg : Message) : List Label :=
  [.callFast src msg, .producer src, .producer src, .producer src, .producer src]

/-- Core 1 queues a batchable message and another one. The handler takes
    both and makes two calls. -/
theorem messages_delivered_two :
    ∃ s, Delivered ⟨2⟩ s ∧ s.handler.pc = .off ∧ (s.ring 1).head = 2 ∧
      s.log = [.call ⟨1, ⟨5, .nonBatchable, 7⟩⟩, .batch [⟨1, ⟨4, .batchable, 6⟩⟩]] := by
  obtain ⟨s, he, hp⟩ := (system ⟨2⟩).exists_exec start
    (enqueue 1 ⟨4, .batchable, 6⟩ ++ enqueue 1 ⟨5, .nonBatchable, 7⟩ ++
      .interrupt :: List.replicate 23 .handler)
    (fun s => s.handler.pc = .off ∧ (s.ring 1).head = 2 ∧
      s.log = [.call ⟨1, ⟨5, .nonBatchable, 7⟩⟩, .batch [⟨1, ⟨4, .batchable, 6⟩⟩]])
    (by decide +kernel)
  exact ⟨s, messages_delivered (System.reachable_of_exec init_start he), hp⟩

/-- In the middle of a collection, message 0 of core 1 has been copied to the buffer of the
    handler, and is not reported as collected. -/
theorem copied_not_collected :
    ∃ s, (system ⟨2⟩).Reachable s ∧ (⟨4, .batchable, 6⟩, 0) ∈ (s.producer 1).returned ∧
      s.inHand = [⟨1, ⟨4, .batchable, 6⟩⟩] ∧ s.callNumberCollected 1 0 = false := by
  obtain ⟨s, he, hp⟩ := (system ⟨2⟩).exists_exec start
    (enqueue 1 ⟨4, .batchable, 6⟩ ++ .interrupt :: List.replicate 6 .handler)
    (fun s => (⟨4, .batchable, 6⟩, 0) ∈ (s.producer 1).returned ∧
      s.inHand = [⟨1, ⟨4, .batchable, 6⟩⟩] ∧ s.callNumberCollected 1 0 = false)
    (by decide +kernel)
  exact ⟨s, System.reachable_of_exec init_start he, hp⟩

end IpiCall
