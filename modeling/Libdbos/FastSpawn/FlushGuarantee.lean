import Libdbos.FastSpawn.Shootdown

/-! # What a Shootdown Guarantees

    When a call of `dbos_tlb_shootdown` returns, the target must not use a
    translation of the address that it cached before the call. Three things
    can give this guarantee: the translation is gone, the IPI handler is
    running and has the address in its list, or a full flush comes before
    the next entry.

    In the code it depends on three conditions, which `clean` collects:
    * message `i` of a batch is read as `call_arg[i].addr`, which for
      `i > 0` is not the address of the message unless the two agree;
    * a source rewrites its argument while an older message of it may
      still be running, so the acknowledgement of that message can be
      taken for that of the new one;
    * with a full ring and the target in the host, the flag word is loaded
      again after a failed compare-exchange, without a second look at the
      mode bit.
-/

open LTS

namespace Shootdown

open Pv

/-! ## The guarantee -/

variable {cfg : Config} {s s' : State} {t t' : Target} {x : Source} {a : Word} {b c : Nat}

/-- A translation of `a` from before `b` is gone, or goes before guest code
    other than the handler runs. -/
def Safe (t : Target) (a : Word) (b : Nat) : Prop :=
  t.tlb.Since a b ∨ a ∈ t.handler.pending ∨ t.vcpu.flushAhead = true

/-- The target keeps its guarantees, and its flush count changes only when
    it is about to flush everything. -/
structure Kept (t t' : Target) : Prop where
  clock : t.tlb.clock ≤ t'.tlb.clock
  safe : ∀ a b, b ≤ t.tlb.clock → Safe t a b → Safe t' a b
  count : t'.vcpu.fullFlushCount = t.vcpu.fullFlushCount ∨ t'.vcpu.flushAhead = true

theorem kept_access (va : Word) : Kept t { t with tlb := t.tlb.access va } := by
  refine ⟨Nat.le_refl _, ?_, .inl rfl⟩
  intro a b hb h
  rcases h with h | h | h
  · exact .inl (h.access hb va)
  · exact .inr (.inl h)
  · exact .inr (.inr h)

theorem kept_tick (t : Target) : Kept t { t with tlb := t.tlb.tick } :=
  ⟨Nat.le_succ _, fun _ _ _ h => h, .inl rfl⟩

theorem kept_postFlush (t : Target) :
    Kept t { t with
      vcpu := { t.vcpu with flag := Pv.postFlush t.vcpu.flag, flushPosted := true } } := by
  refine ⟨Nat.le_refl _, ?_, .inl rfl⟩
  intro a b _ h
  rcases h with h | h | h
  · exact .inl h
  · exact .inr (.inl h)
  · exact .inr (.inr (VmxLaunch.flushAhead_post h))

/-- The handler moves on and flushes nothing. -/
theorem kept_handler {pc : HandlerPc} (h : ∀ a ∈ t.handler.pending, a ∈ pc.pending) :
    Kept t { t with handler := pc } := by
  refine ⟨Nat.le_refl _, ?_, .inl rfl⟩
  intro a b _ hsafe
  rcases hsafe with hsafe | hsafe | hsafe
  · exact .inl hsafe
  · exact .inr (.inl (h a hsafe))
  · exact .inr (.inr hsafe)

theorem kept_flushOne {again : Bool} {a : Word} {addrs : List Word}
    (h : t.handler = .flush again (a :: addrs)) :
    Kept t { t with tlb := t.tlb.flushOne a, handler := .flush again addrs } := by
  refine ⟨Nat.le_refl _, ?_, .inl rfl⟩
  intro x b _ hsafe
  rcases hsafe with hsafe | hsafe | hsafe
  · exact .inl (hsafe.flushOne a)
  · rw [h] at hsafe
    rcases List.mem_cons.1 hsafe with rfl | hmem
    · exact .inl (Tlb.since_flushOne _ _ _)
    · exact .inr (.inl hmem)
  · exact .inr (.inr hsafe)

/-! ## The invariant -/

/-- The flag word a source has loaded to see whether the target is in the host. -/
def Pc.sample : Pc → Option Word
  | .test v | .post v | .fullHost v => some v
  | _ => none

/-- The flush count that a source compares with. -/
def Pc.oldCount : Pc → Option (BitVec 32)
  | .fullCas _ old | .fullReload old | .fullKick old | .fullWait old => some old
  | _ => none

/-- `ready_to_flush` has been set. -/
def Pc.started : Pc → Bool
  | .idle | .setReady => false
  | _ => true

/-- What a source knows about the target. -/
structure SourceOk (t : Target) (x : Source) : Prop where
  began : x.began ≤ t.tlb.clock
  ready : x.pc.started = true → x.arg.readyToFlush = true
  queued : 0 < x.queued → x.arg.readyToFlush = true
  addr : x.pc = .call ∨ x.pc.inCall = true → x.arg.addr = x.addr
  unset : x.pc.initialising = true → x.arg.flushed = false
  acked : x.pc.inCall = true → x.arg.flushed = true → Safe t x.addr x.began
  sampled : ∀ v, x.pc.sample = some v → inHost v = true → flushOnReentry v = true →
    Safe t x.addr x.began
  counted : ∀ old, x.pc.oldCount = some old → t.vcpu.fullFlushCount ≠ old →
    Safe t x.addr x.began

theorem SourceOk.kept (h : SourceOk t x) (hkept : Kept t t') : SourceOk t' x where
  began := Nat.le_trans h.began hkept.clock
  ready := h.ready
  queued := h.queued
  addr := h.addr
  unset := h.unset
  acked := fun hin hack => hkept.safe _ _ h.began (h.acked hin hack)
  sampled := fun v hv hin hflush => hkept.safe _ _ h.began (h.sampled v hv hin hflush)
  counted := fun old hold hne => by
    rcases hkept.count with hcount | hahead
    · rw [hcount] at hne
      exact hkept.safe _ _ h.began (h.counted old hold hne)
    · exact .inr (.inr hahead)

/-- Moving on inside a call. -/
theorem SourceOk.goto {pc : Pc} (h : SourceOk t x) (hin : x.pc.inCall = true)
    (hpc : pc.inCall = true)
    (hsampled : ∀ v, pc.sample = some v → inHost v = true → flushOnReentry v = true →
      Safe t x.addr x.began)
    (hcounted : ∀ old, pc.oldCount = some old → t.vcpu.fullFlushCount ≠ old →
      Safe t x.addr x.began) :
    SourceOk t { x with pc := pc } where
  began := h.began
  ready := fun _ => h.ready (by cases hx : x.pc <;> simp_all [Pc.inCall, Pc.started])
  queued := h.queued
  addr := fun _ => h.addr (.inr hin)
  unset := fun hinit => by cases pc <;> simp_all [Pc.inCall, Pc.initialising]
  acked := fun _ => h.acked hin
  sampled := hsampled
  counted := hcounted

theorem SourceOk.idle (h : SourceOk t x) : SourceOk t { x with pc := .idle } where
  began := h.began
  ready := fun hst => by cases hst
  queued := h.queued
  addr := fun hpc => by rcases hpc with hpc | hpc <;> cases hpc
  unset := fun hinit => by cases hinit
  acked := fun hin => by cases hin
  sampled := fun v hv => by cases hv
  counted := fun old hold => by cases hold

theorem SourceOk.setQueued {n : Nat} (h : SourceOk t x)
    (hn : 0 < n → x.arg.readyToFlush = true) : SourceOk t { x with queued := n } :=
  { h with queued := hn }

/-- The sources of the messages that the handler has collected. -/
def HandlerPc.held : HandlerPc → List Nat
  | .collect _ _ buf | .copy _ _ _ buf => buf
  | .read _ todo _ => todo
  | .check _ c todo _ | .ack _ c todo _ => c :: todo
  | _ => []

/-- The ring that is being emptied, with the number of messages copied. -/
def HandlerPc.copying : HandlerPc → Option (Nat × Nat)
  | .copy _ i n _ => some (i, n)
  | _ => none

/-- What the handler knows about the sources. -/
structure HandlerOk (pc : HandlerPc) (src : Nat → Source) : Prop where
  ready : ∀ c ∈ pc.held, (src c).arg.readyToFlush = true
  read : ∀ c, pc.reading = some c → (src c).pc.initialising = false ∧
    ((src c).pc.inCall = true → (src c).addr ∈ pc.pending)
  copied : ∀ i n, pc.copying = some (i, n) → n ≤ (src i).queued
  no_assert : pc ≠ .asserted

structure Inv (s : State) : Prop where
  core : VmxLaunch.CoreOk s.target.vcpu
  source : ∀ c, SourceOk s.target (s.src c)
  handler : HandlerOk s.target.handler s.src
  returned : ∀ r ∈ s.calls, r.began ≤ s.target.tlb.clock ∧ Safe s.target r.addr r.began

theorem inv_init (h : Init s) : Inv s where
  core := VmxLaunch.coreOk_init h.vcpu
  source := fun c => by
    have hpc := h.pc c
    constructor
    · rw [h.began c]
      exact Nat.zero_le _
    · simp [hpc, Pc.started]
    · simp [h.queued c]
    · simp [hpc, Pc.inCall]
    · simp [hpc, Pc.initialising]
    · simp [hpc, Pc.inCall]
    · simp [hpc, Pc.sample]
    · simp [hpc, Pc.oldCount]
  handler := by
    rw [h.handler]
    exact ⟨by simp [HandlerPc.held], by simp [HandlerPc.reading], by simp [HandlerPc.copying],
      by simp⟩
  returned := by simp [h.calls]

/-! ## Parts of a step -/

/-- The target changes, the sources do not. -/
theorem Inv.onTarget (hinv : Inv s) (hkept : Kept s.target t) (hcore : VmxLaunch.CoreOk t.vcpu)
    (hhandler : HandlerOk t.handler s.src) : Inv { s with target := t } where
  core := hcore
  source := fun c => (hinv.source c).kept hkept
  handler := hhandler
  returned := fun r hr => by
    have hr := hinv.returned r hr
    exact ⟨Nat.le_trans hr.1 hkept.clock, hkept.safe _ _ hr.1 hr.2⟩

/-- One source changes. -/
theorem Inv.setSource (hinv : Inv s) (hok : SourceOk s.target x)
    (hready : (s.src c).arg.readyToFlush = true → x.arg.readyToFlush = true)
    (hread : s.target.handler.reading = some c → x.pc.initialising = false ∧
      (x.pc.inCall = true → x.addr ∈ s.target.handler.pending))
    (hcopied : ∀ n, s.target.handler.copying = some (c, n) → n ≤ x.queued) :
    Inv (s.setSource c x) where
  core := hinv.core
  source := fun d => by
    by_cases hd : d = c
    · subst hd
      simpa only [State.setSource, Function.update_self] using hok
    · simpa only [State.setSource, Function.update_of_ne hd] using hinv.source d
  handler := by
    constructor
    · intro d hd
      by_cases hdc : d = c
      · subst hdc
        simpa only [State.setSource, Function.update_self] using hready (hinv.handler.ready d hd)
      · simpa only [State.setSource, Function.update_of_ne hdc] using hinv.handler.ready d hd
    · intro d hd
      by_cases hdc : d = c
      · subst hdc
        simpa only [State.setSource, Function.update_self] using hread hd
      · simpa only [State.setSource, Function.update_of_ne hdc] using hinv.handler.read d hd
    · intro d n hd
      by_cases hdc : d = c
      · subst hdc
        simpa only [State.setSource, Function.update_self] using hcopied n hd
      · simpa only [State.setSource, Function.update_of_ne hdc] using hinv.handler.copied d n hd
    · exact hinv.handler.no_assert
  returned := hinv.returned

/-- A source moves on inside its call. -/
theorem Inv.goto {pc : Pc} (hinv : Inv s) (hin : (s.src c).pc.inCall = true)
    (hpc : pc.inCall = true)
    (hsampled : ∀ v, pc.sample = some v → inHost v = true → flushOnReentry v = true →
      Safe s.target (s.src c).addr (s.src c).began)
    (hcounted : ∀ old, pc.oldCount = some old → s.target.vcpu.fullFlushCount ≠ old →
      Safe s.target (s.src c).addr (s.src c).began) : Inv (s.goto c pc) := by
  apply hinv.setSource ((hinv.source c).goto hin hpc hsampled hcounted) (fun h => h)
  · intro hreading
    refine ⟨?_, fun _ => (hinv.handler.read c hreading).2 hin⟩
    cases pc <;> simp_all [Pc.inCall, Pc.initialising]
  · exact hinv.handler.copied c

/-- A call returns once it is safe to. -/
theorem Inv.ret (hinv : Inv s) (hsafe : Safe s.target (s.src c).addr (s.src c).began) :
    Inv (s.ret c) := by
  have hcalls : Inv { s with calls := ⟨(s.src c).addr, (s.src c).began⟩ :: s.calls } := by
    refine ⟨hinv.core, hinv.source, hinv.handler, ?_⟩
    intro r hr
    rcases List.mem_cons.1 hr with rfl | hr
    · exact ⟨(hinv.source c).began, hsafe⟩
    · exact hinv.returned r hr
  apply hcalls.setSource (hinv.source c).idle (fun h => h)
  · intro _
    exact ⟨rfl, fun hin => by cases hin⟩
  · exact hinv.handler.copied c

theorem Inv.postFlush (hinv : Inv s) : Inv s.postFlush :=
  hinv.onTarget (kept_postFlush s.target) hinv.core.postFlush hinv.handler

theorem Inv.sendIpi (hinv : Inv s) : Inv s.sendIpi :=
  hinv.onTarget ⟨Nat.le_refl _, fun _ _ _ h => h, .inl rfl⟩ hinv.core hinv.handler

/-- A flush request swapped in next to the mode bit makes every call safe. -/
theorem Inv.safe_postFlush (hinv : Inv s) (hin : inHost s.flag = true) (a : Word) (b : Nat) :
    Safe s.postFlush.target a b := by
  refine .inr (.inr (hinv.postFlush.core.inv.flushAhead ?_ ?_))
  · simpa [State.postFlush] using hin
  · simp [State.postFlush]

/-- A flag word just loaded tells the truth. -/
theorem Inv.safe_flag (hinv : Inv s) (hin : inHost s.flag = true)
    (hflush : flushOnReentry s.flag = true) (a : Word) (b : Nat) : Safe s.target a b :=
  .inr (.inr (hinv.core.inv.flushAhead hin hflush))

/-! ## Steps of a source -/

/-- The test that ends a call when the target is in the host. -/
theorem inv_tryPost {v : Word} {next : Pc} (hinv : Inv s) (hin : (s.src c).pc.inCall = true)
    (hv : (s.src c).pc.sample = some v) (hnext : next.inCall = true)
    (hsample : next.sample = none) (hold : next.oldCount = none) : Inv (s.tryPost c v next) := by
  have hgoto : Inv (s.goto c next) :=
    hinv.goto hin hnext (by simp [hsample]) (by simp [hold])
  unfold State.tryPost
  split
  · rename_i hhost
    split
    · rename_i hflush
      exact hinv.ret ((hinv.source c).sampled v hv hhost hflush)
    · split
      · rename_i heq
        rw [← heq] at hhost
        exact hinv.postFlush.ret (hinv.safe_postFlush hhost _ _)
      · exact hgoto
  · exact hgoto

/-- The stores that set up the argument. -/
theorem inv_setArg {arg : Arg} {pc : Pc} (hinv : Inv s)
    (hok : SourceOk s.target { s.src c with arg := arg, pc := pc })
    (hready : (s.src c).arg.readyToFlush = true → arg.readyToFlush = true)
    (hread : s.target.handler.reading = some c → pc.initialising = false)
    (hpc : pc.inCall = false) : Inv (s.setArg c arg pc) := by
  apply hinv.setSource hok hready
  · intro hreading
    exact ⟨hread hreading, fun hin => by rw [hpc] at hin; cases hin⟩
  · exact hinv.handler.copied c

/-- The conditions of the guarantee. -/
def clean (s : State) : Label → Bool
  | .handler =>
      match s.target.handler with
      | .read _ (c :: _) addrs =>
          decide ((s.src c).word addrs.length = (s.src c).arg.addr) &&
          !(s.src c).pc.initialising
      | _ => true
  | .source c =>
      match (s.src c).pc with
      | .setFlushed => decide (s.target.handler.reading ≠ some c)
      | .fullHost v => inHost v
      | _ => true
  | _ => true

theorem inv_setup (hinv : Inv s) (hclean : clean s (.source c) = true)
    (hpc : (s.src c).pc = .setReady ∨ (s.src c).pc = .setFlushed ∨ (s.src c).pc = .setAddr)
    (h : sourceStep s c = some s') : Inv s' := by
  have hc := hinv.source c
  rcases hpc with hpc | hpc | hpc
  · simp only [sourceStep, hpc] at h
    cases h
    refine inv_setArg hinv ⟨hc.began, fun _ => rfl, fun _ => rfl, ?_, ?_, ?_, ?_, ?_⟩
      (fun _ => rfl) (fun _ => rfl) rfl
    all_goals simp [Pc.inCall, Pc.initialising, Pc.sample, Pc.oldCount]
  · simp only [sourceStep, hpc] at h
    cases h
    have hready := hc.ready (by simp [hpc, Pc.started])
    refine inv_setArg hinv
      ⟨hc.began, fun _ => hready, fun _ => hready, ?_, fun _ => rfl, ?_, ?_, ?_⟩
      (fun h => h) ?_ rfl
    case refine_5 =>
      -- No message of this core is between its read and its acknowledgement.
      simp only [clean, hpc, decide_eq_true_eq] at hclean
      exact fun hreading => absurd hreading hclean
    all_goals simp [Pc.inCall, Pc.sample, Pc.oldCount]
  · simp only [sourceStep, hpc] at h
    cases h
    have hready := hc.ready (by simp [hpc, Pc.started])
    have hunset := hc.unset (by simp [hpc, Pc.initialising])
    refine inv_setArg hinv ⟨hc.began, fun _ => hready, fun _ => hready, fun _ => rfl,
      fun _ => hunset, ?_, ?_, ?_⟩ (fun h => h) ?_ rfl
    case refine_4 =>
      intro hreading
      have hno := (hinv.handler.read c hreading).1
      rw [hpc] at hno
      cases hno
    all_goals simp [Pc.inCall, Pc.sample, Pc.oldCount]

/-- The call begins with a look at the flag word. -/
theorem inv_call (hinv : Inv s) (hpc : (s.src c).pc = .call)
    (h : sourceStep s c = some s') : Inv s' := by
  simp only [sourceStep, hpc] at h
  cases h
  have hc := hinv.source c
  have hready := hc.ready (by simp [hpc, Pc.started])
  have hunset := hc.unset (by simp [hpc, Pc.initialising])
  have htick : Inv { s with target := { s.target with tlb := s.target.tlb.tick } } :=
    hinv.onTarget (kept_tick s.target) hinv.core hinv.handler
  refine htick.setSource ⟨Nat.le_refl _, fun _ => hready, fun _ => hready,
    fun _ => hc.addr (.inl hpc), fun _ => hunset, ?_, ?_, ?_⟩ (fun h => h) ?_
      (htick.handler.copied c)
  · intro _ hflushed
    change (s.src c).arg.flushed = true at hflushed
    rw [hunset] at hflushed
    cases hflushed
  · intro v hv hin hflush
    cases hv
    exact htick.safe_flag hin hflush _ _
  · intro old hold
    cases hold
  · intro hreading
    have hno := (hinv.handler.read c hreading).1
    rw [hpc] at hno
    cases hno

/-- Queueing the message, and waiting for the answer. -/
theorem inv_ring (hinv : Inv s)
    (hpc : (s.src c).pc = .queue ∨ (s.src c).pc = .enqueue ∨ (s.src c).pc = .send ∨
      (s.src c).pc = .wait ∨ (s.src c).pc = .load)
    (h : sourceStep s c = some s') : Inv s' := by
  have hc := hinv.source c
  rcases hpc with hpc | hpc | hpc | hpc | hpc
  all_goals
    have hin : (s.src c).pc.inCall = true := by simp [hpc, Pc.inCall]
    simp only [sourceStep, hpc] at h
  · cases h
    split
    · exact hinv.goto hin rfl (by simp [Pc.sample]) (by simp [Pc.oldCount])
    · exact hinv.goto hin rfl (by simp [Pc.sample]) (by simp [Pc.oldCount])
  · cases h
    have hready := hc.ready (by simp [hpc, Pc.started])
    have hgo : SourceOk s.target { s.src c with pc := .send } :=
      hc.goto hin rfl (by simp [Pc.sample]) (by simp [Pc.oldCount])
    refine hinv.setSource (hgo.setQueued fun _ => hready) (fun h => h) ?_ ?_
    · intro hreading
      exact ⟨rfl, fun _ => (hinv.handler.read c hreading).2 hin⟩
    · intro n hn
      exact Nat.le_succ_of_le (hinv.handler.copied c n hn)
  · cases h
    exact hinv.sendIpi.goto hin rfl (by simp [Pc.sample]) (by simp [Pc.oldCount])
  · split at h
    · rename_i hflushed
      cases h
      exact hinv.ret (hc.acked hin hflushed)
    · cases h
      exact hinv.goto hin rfl (by simp [Pc.sample]) (by simp [Pc.oldCount])
  · cases h
    refine hinv.goto hin rfl ?_ (by simp [Pc.oldCount])
    intro v hv hhost hflush
    cases hv
    exact hinv.safe_flag hhost hflush _ _

/-- A full ring and the target in the guest: the flush count is awaited. -/
theorem inv_fullGuest {old : BitVec 32} (hinv : Inv s)
    (hpc : (∃ v, (s.src c).pc = .fullCas v old) ∨ (s.src c).pc = .fullReload old ∨
      (s.src c).pc = .fullKick old ∨ (s.src c).pc = .fullWait old)
    (h : sourceStep s c = some s') : Inv s' := by
  have hc := hinv.source c
  have hold : (s.src c).pc.oldCount = some old := by
    rcases hpc with ⟨v, hpc⟩ | hpc | hpc | hpc <;> simp [hpc, Pc.oldCount]
  have hin : (s.src c).pc.inCall = true := by
    rcases hpc with ⟨v, hpc⟩ | hpc | hpc | hpc <;> simp [hpc, Pc.inCall]
  have hgoto : ∀ pc : Pc, pc.inCall = true → pc.sample = none → pc.oldCount = some old →
      Inv (s.goto c pc) := by
    intro pc hpc hsample hsame
    refine hinv.goto hin hpc (by simp [hsample]) ?_
    intro old' hold'
    exact hc.counted old' (by rw [hold, ← hsame, hold'])
  rcases hpc with ⟨v, hpc⟩ | hpc | hpc | hpc
  all_goals simp only [sourceStep, hpc] at h
  · split at h
    · cases h
      refine hinv.postFlush.goto hin rfl (by simp [Pc.sample]) ?_
      intro old' hold' hne
      cases hold'
      exact (hinv.postFlush.source c).counted old hold hne
    · cases h
      exact hgoto _ rfl rfl rfl
  · cases h
    exact hgoto _ rfl rfl rfl
  · cases h
    exact hgoto _ rfl rfl rfl
  · split at h
    · cases h
      exact hinv
    · rename_i hne
      cases h
      exact hinv.ret (hc.counted old hold hne)

/-- A full ring: the way to one of the two branches, and the host branch. -/
theorem inv_fullHost (hinv : Inv s) (hclean : clean s (.source c) = true)
    (hpc : (s.src c).pc = .fullSend ∨ (s.src c).pc = .fullLoad ∨
      (∃ v, (s.src c).pc = .fullCount v) ∨ (∃ v, (s.src c).pc = .fullHost v) ∨
      (s.src c).pc = .fullHostReload)
    (h : sourceStep s c = some s') : Inv s' := by
  have hc := hinv.source c
  have hload : ∀ v, s.flag = v → inHost v = true → flushOnReentry v = true →
      Safe s.target (s.src c).addr (s.src c).began := by
    rintro v rfl hhost hflush
    exact hinv.safe_flag hhost hflush _ _
  rcases hpc with hpc | hpc | ⟨v, hpc⟩ | ⟨v, hpc⟩ | hpc
  all_goals
    have hin : (s.src c).pc.inCall = true := by simp [hpc, Pc.inCall]
    simp only [sourceStep, hpc] at h
  · cases h
    exact hinv.sendIpi.goto hin rfl (by simp [Pc.sample]) (by simp [Pc.oldCount])
  · cases h
    split
    · exact hinv.goto hin rfl (fun v hv => hload v (by simpa [Pc.sample] using hv))
        (by simp [Pc.oldCount])
    · exact hinv.goto hin rfl (by simp [Pc.sample]) (by simp [Pc.oldCount])
  · cases h
    refine hinv.goto hin rfl (by simp [Pc.sample]) ?_
    intro old hold hne
    cases hold
    exact absurd rfl hne
  · -- Where the word says that the target is in the host, this is the usual test.
    simp only [clean, hpc] at hclean
    have htry : s' = s.tryPost c v .fullHostReload := by
      unfold State.tryPost
      rw [if_pos hclean]
      split at h <;> rename_i hflush
      · rw [if_pos hflush]
        cases h
        rfl
      · rw [if_neg hflush]
        split at h <;> rename_i heq
        · rw [if_pos heq]
          cases h
          rfl
        · rw [if_neg heq]
          cases h
          rfl
    rw [htry]
    exact inv_tryPost hinv hin (by simp [hpc, Pc.sample]) rfl rfl rfl
  · cases h
    exact hinv.goto hin rfl (fun v hv => hload v (by simpa [Pc.sample] using hv))
      (by simp [Pc.oldCount])

theorem inv_source (hinv : Inv s) (hclean : clean s (.source c) = true)
    (h : sourceStep s c = some s') : Inv s' := by
  cases hpc : (s.src c).pc with
  | idle => simp [sourceStep, hpc] at h
  | setReady => exact inv_setup hinv hclean (.inl hpc) h
  | setFlushed => exact inv_setup hinv hclean (.inr (.inl hpc)) h
  | setAddr => exact inv_setup hinv hclean (.inr (.inr hpc)) h
  | call => exact inv_call hinv hpc h
  | test v | post v =>
    simp only [sourceStep, hpc] at h
    cases h
    exact inv_tryPost hinv (by simp [hpc, Pc.inCall]) (by simp [hpc, Pc.sample]) rfl rfl rfl
  | queue => exact inv_ring hinv (.inl hpc) h
  | enqueue => exact inv_ring hinv (.inr (.inl hpc)) h
  | send => exact inv_ring hinv (.inr (.inr (.inl hpc))) h
  | wait => exact inv_ring hinv (.inr (.inr (.inr (.inl hpc)))) h
  | load => exact inv_ring hinv (.inr (.inr (.inr (.inr hpc)))) h
  | fullSend => exact inv_fullHost hinv hclean (.inl hpc) h
  | fullLoad => exact inv_fullHost hinv hclean (.inr (.inl hpc)) h
  | fullCount v => exact inv_fullHost hinv hclean (.inr (.inr (.inl ⟨v, hpc⟩))) h
  | fullHost v => exact inv_fullHost hinv hclean (.inr (.inr (.inr (.inl ⟨v, hpc⟩)))) h
  | fullHostReload => exact inv_fullHost hinv hclean (.inr (.inr (.inr (.inr hpc)))) h
  | fullCas v old => exact inv_fullGuest hinv (.inl ⟨v, hpc⟩) h
  | fullReload old => exact inv_fullGuest hinv (.inr (.inl hpc)) h
  | fullKick old => exact inv_fullGuest hinv (.inr (.inr (.inl hpc))) h
  | fullWait old => exact inv_fullGuest hinv (.inr (.inr (.inr hpc))) h

/-! ## Steps of the target -/

theorem Inv.setHandler {pc : HandlerPc} (hinv : Inv s)
    (hpending : ∀ a ∈ s.target.handler.pending, a ∈ pc.pending) (hok : HandlerOk pc s.src) :
    Inv (s.setHandler pc) :=
  hinv.onTarget (kept_handler hpending) hinv.core hok

/-- A position of the handler at which no message is in the middle of
    anything. -/
theorem handlerOk_between {pc : HandlerPc} {src : Nat → Source}
    (hready : ∀ c ∈ pc.held, (src c).arg.readyToFlush = true) (hread : pc.reading = none)
    (hcopy : pc.copying = none) (hassert : pc ≠ .asserted) : HandlerOk pc src :=
  ⟨hready, by simp [hread], by simp [hcopy], hassert⟩

theorem handlerOk_next (again : Bool) (src : Nat → Source) : HandlerOk (.next again) src := by
  cases again
  · exact handlerOk_between (by simp [HandlerPc.next, HandlerPc.held]) rfl rfl
      (by simp [HandlerPc.next])
  · exact handlerOk_between (by simp [HandlerPc.next, HandlerPc.held]) rfl rfl
      (by simp [HandlerPc.next])

/-- The rings are emptied. -/
theorem inv_collect {again : Bool} {i : Nat} {buf : List Nat} (hinv : Inv s)
    (hpc : s.target.handler = .collect again i buf) (h : handlerStep cfg s = some s') : Inv s' := by
  have hok := hinv.handler
  rw [hpc] at hok
  simp only [handlerStep, hpc] at h
  split at h
  · cases h
    refine hinv.setHandler (by simp [hpc, HandlerPc.pending]) ⟨hok.ready, by
      simp [HandlerPc.reading], ?_, by simp⟩
    intro j n hj
    cases hj
    exact Nat.le_refl _
  · split at h <;> cases h
    · exact hinv.setHandler (by simp [hpc, HandlerPc.pending]) (handlerOk_next again s.src)
    · exact hinv.setHandler (by simp [hpc, HandlerPc.pending])
        (handlerOk_between hok.ready rfl rfl (by simp))

theorem inv_copy {again : Bool} {i n : Nat} {buf : List Nat} (hinv : Inv s)
    (hpc : s.target.handler = .copy again i n buf) (h : handlerStep cfg s = some s') : Inv s' := by
  have hok := hinv.handler
  have hi := hinv.source i
  rw [hpc] at hok
  simp only [handlerStep, hpc] at h
  cases h
  -- The messages copied were in the ring, so their argument is ready.
  have hready : ∀ c ∈ buf ++ List.replicate n i, (s.src c).arg.readyToFlush = true := by
    intro c hc
    rcases List.mem_append.1 hc with hc | hc
    · exact hok.ready c hc
    · obtain ⟨hn, rfl⟩ := List.mem_replicate.1 hc
      have hle := hok.copied c n rfl
      exact hi.queued (by omega)
  have hmoved : Inv (s.setHandler (.collect again (i + 1) (buf ++ List.replicate n i))) :=
    hinv.setHandler (by simp [hpc, HandlerPc.pending]) (handlerOk_between hready rfl rfl (by simp))
  have hleft : 0 < (s.src i).queued - n → (s.src i).arg.readyToFlush = true := by
    intro hpos
    exact hi.queued (by omega)
  refine hmoved.setSource ((hmoved.source i).setQueued hleft) (fun h => h) ?_ ?_
  · intro hreading
    cases hreading
  · intro m hm
    cases hm

/-- The addresses are read and the messages acknowledged. -/
theorem inv_read {again : Bool} {todo : List Nat} {addrs : List Word} (hinv : Inv s)
    (hclean : clean s .handler = true) (hpc : s.target.handler = .read again todo addrs)
    (h : handlerStep cfg s = some s') : Inv s' := by
  have hok := hinv.handler
  rw [hpc] at hok
  cases todo with
  | nil =>
    simp only [handlerStep, hpc] at h
    cases h
    exact hinv.setHandler (by simp [hpc, HandlerPc.pending])
      (handlerOk_between (by simp [HandlerPc.held]) rfl rfl (by simp))
  | cons c todo =>
    simp only [handlerStep, hpc] at h
    cases h
    simp only [clean, hpc, Bool.and_eq_true, decide_eq_true_eq, Bool.not_eq_true'] at hclean
    obtain ⟨hword, hinit⟩ := hclean
    rw [hword]
    refine hinv.setHandler ?_ ⟨hok.ready, ?_, by simp [HandlerPc.copying], by simp⟩
    · intro a ha
      rw [hpc] at ha
      exact List.mem_append_left _ ha
    · intro d hd
      cases hd
      refine ⟨hinit, fun hin => ?_⟩
      rw [← (hinv.source c).addr (.inr hin)]
      exact List.mem_append_right _ (List.mem_singleton_self _)

theorem inv_check {again : Bool} {c : Nat} {todo : List Nat} {addrs : List Word} (hinv : Inv s)
    (hpc : s.target.handler = .check again c todo addrs) (h : handlerStep cfg s = some s') :
    Inv s' := by
  have hok := hinv.handler
  rw [hpc] at hok
  simp only [handlerStep, hpc, hok.ready c List.mem_cons_self, if_true] at h
  cases h
  exact hinv.setHandler (by simp [hpc, HandlerPc.pending])
    ⟨hok.ready, hok.read, by simp [HandlerPc.copying], by simp⟩

theorem inv_ack {again : Bool} {c : Nat} {todo : List Nat} {addrs : List Word} (hinv : Inv s)
    (hpc : s.target.handler = .ack again c todo addrs) (h : handlerStep cfg s = some s') :
    Inv s' := by
  have hok := hinv.handler
  rw [hpc] at hok
  simp only [handlerStep, hpc] at h
  cases h
  obtain ⟨hinit, hread⟩ := hok.read c rfl
  have hmoved : Inv (s.setHandler (.read again todo addrs)) := by
    refine hinv.setHandler (by simp [hpc, HandlerPc.pending])
      (handlerOk_between ?_ rfl rfl (by simp))
    intro d hd
    exact hok.ready d (List.mem_cons_of_mem c hd)
  have hc := hmoved.source c
  refine hmoved.setSource { hc with unset := ?_, acked := ?_ } (fun h => h) ?_ ?_
  · intro hset
    change (s.src c).pc.initialising = true at hset
    rw [hinit] at hset
    cases hset
  · -- The acknowledged address is in the list of the handler.
    intro hin _
    exact .inr (.inl (hread hin))
  · intro hreading
    cases hreading
  · intro m hm
    cases hm

theorem inv_flush {again : Bool} {addrs : List Word} (hinv : Inv s)
    (hpc : s.target.handler = .flush again addrs) (h : handlerStep cfg s = some s') : Inv s' := by
  cases addrs with
  | nil =>
    simp only [handlerStep, hpc] at h
    cases h
    exact hinv.setHandler (by simp [hpc, HandlerPc.pending]) (handlerOk_next again s.src)
  | cons a addrs =>
    simp only [handlerStep, hpc] at h
    cases h
    exact hinv.onTarget (kept_flushOne hpc) hinv.core
      (handlerOk_between (by simp [HandlerPc.held]) rfl rfl (by simp))

theorem inv_handler (hinv : Inv s) (hclean : clean s .handler = true)
    (h : handlerStep cfg s = some s') : Inv s' := by
  cases hpc : s.target.handler with
  | off =>
    simp only [handlerStep, hpc] at h
    split at h <;> cases h
    refine hinv.onTarget ⟨Nat.le_refl _, ?_, .inl rfl⟩ hinv.core
      (handlerOk_between (by simp [HandlerPc.held]) rfl rfl (by simp))
    intro a b _ hsafe
    rcases hsafe with hsafe | hsafe | hsafe
    · exact .inl hsafe
    · simp [hpc, HandlerPc.pending] at hsafe
    · exact .inr (.inr hsafe)
  | collect again i buf => exact inv_collect hinv hpc h
  | copy again i n buf => exact inv_copy hinv hpc h
  | read again todo addrs => exact inv_read hinv hclean hpc h
  | check again c todo addrs => exact inv_check hinv hpc h
  | ack again c todo addrs => exact inv_ack hinv hpc h
  | flush again addrs => exact inv_flush hinv hpc h
  | asserted => exact absurd hpc hinv.handler.no_assert

theorem inv_vcpu {l : VmxLaunch.Label} (hinv : Inv s) (h : vcpuStep s l = some s') : Inv s' := by
  unfold vcpuStep at h
  split at h
  · rename_i hl
    obtain ⟨v, hv, rfl⟩ := Option.map_eq_some_iff.1 h
    have hstep := VmxLaunch.flushStep hinv.core.inv hl hv
    refine hinv.onTarget ⟨?_, ?_, hstep.count⟩ (hinv.core.hostLoop hl hv) hinv.handler
    · cases l <;> exact Nat.le_refl _
    · intro a b _ hsafe
      by_cases hsync : l = .vpidSync
      · subst hsync
        exact .inl (Tlb.since_flushAll _ _ _)
      · have htlb : syncTlb s.target.tlb l = s.target.tlb := by
          cases l <;> first | rfl | exact absurd rfl hsync
        rcases hsafe with hsafe | hsafe | hsafe
        · rw [htlb]
          exact .inl hsafe
        · exact .inr (.inl hsafe)
        · exact .inr (.inr (hstep.ahead hsafe hsync))
  · cases h

/-! ## The theorem -/

theorem inv_step {l : Label} (hinv : Inv s) (hclean : clean s l = true)
    (h : step cfg s l = some s') : Inv s' := by
  cases l with
  | vcpu l => exact inv_vcpu hinv h
  | access va =>
    simp only [step] at h
    split at h <;> cases h
    exact hinv.onTarget (kept_access va) hinv.core hinv.handler
  | handler =>
    simp only [step] at h
    split at h
    · exact inv_handler hinv hclean h
    · cases h
  | request c addr =>
    simp only [step] at h
    split at h
    · rename_i hpc
      split at h <;> cases h
      have hc := hinv.source c
      refine hinv.setSource ⟨hc.began, ?_, hc.queued, ?_, ?_, ?_, ?_, ?_⟩ (fun h => h)
        (fun _ => ⟨rfl, fun hin => by cases hin⟩) (hinv.handler.copied c)
      all_goals simp [Pc.started, Pc.inCall, Pc.initialising, Pc.sample, Pc.oldCount]
    · cases h
  | source c => exact inv_source hinv hclean h
  | workPage c i w =>
    cases h
    exact hinv.setSource { hinv.source c with } (fun h => h) (hinv.handler.read c)
      (hinv.handler.copied c)

theorem inv_runsTo (h : (system cfg).RunsTo (fun s l => clean s l = true) s) : Inv s :=
  System.invariant_when (fun _ => inv_init) (fun _ _ _ => inv_step) h

/-- What holds of a call that has returned. -/
structure ShotDown (s : State) (r : Call) : Prop where
  /-- The target has flushed the address since the call began, or is inside
      its handler and will flush it, or a full flush is ahead of it. -/
  done : s.target.tlb.Since r.addr r.began ∨ r.addr ∈ s.target.handler.pending ∨
    s.target.vcpu.flushAhead = true
  /-- Guest code outside the handler finds no translation from before the
      call. -/
  unused : s.target.vcpu.pc = .guest → s.target.handler = .off →
    s.target.tlb.Since r.addr r.began

/-- **Shootdown guarantee.** In every interleaving that keeps the three
    conditions, from the return of a call on, the target cannot use a
    translation that it cached before the call; and no assertion of the
    handler fails. -/
theorem shootdown_guarantee (h : (system cfg).RunsTo (fun s l => clean s l = true) s) :
    (∀ r ∈ s.calls, ShotDown s r) ∧ s.target.handler ≠ .asserted := by
  have hinv := inv_runsTo h
  refine ⟨?_, hinv.handler.no_assert⟩
  intro r hr
  have hsafe := (hinv.returned r hr).2
  refine ⟨hsafe, ?_⟩
  intro hpc hoff
  rcases hsafe with hsafe | hsafe | hsafe
  · exact hsafe
  · simp [hoff, HandlerPc.pending] at hsafe
  · simp [VmxLaunch.State.flushAhead, hpc] at hsafe

/-! ## Runs -/

/-- Two rings. -/
def twoRings : Config := ⟨2⟩

def boot : State where
  target := { vcpu := VmxLaunch.boot, handler := .off, ipi := false, tlb := ⟨fun _ => none, 0⟩ }
  src := fun _ =>
    { pc := .idle, addr := 0#64, began := 0, arg := ⟨0#64, false, false⟩, entries := fun _ => 0#64,
      queued := 0 }
  calls := []

theorem init_boot : Init boot where
  vcpu := ⟨rfl, rfl, fun _ => rfl, rfl, rfl⟩
  handler := rfl
  pc := fun _ => rfl
  began := fun _ => rfl
  queued := fun _ => rfl
  calls := rfl

/-- The target enters the guest, with a full flush or without, or leaves it. -/
def enter : List Label :=
  [.vcpu .checkEntry, .vcpu .xchg, .vcpu .incCount, .vcpu .loadCr3, .vcpu .vmEntry]

def enterFlushed : List Label :=
  [.vcpu .checkEntry, .vcpu .xchg, .vcpu .incCount, .vcpu .vpidSync, .vcpu .loadCr3, .vcpu .vmEntry]

def leave : List Label := [.vcpu .vmExit, .vcpu .checkExit, .vcpu .casExit]

/-- Core `c` begins a call for `addr` and looks at the flag word. -/
def begin (c : Nat) (addr : Word) : List Label := .request c addr :: List.replicate 4 (.source c)

/-- Core `c` queues a message and goes to wait, with the target in the guest. -/
def queueMessage (c : Nat) (addr : Word) : List Label :=
  begin c addr ++ List.replicate 4 (.source c)

/-- Core 0 is answered by the host, and its message stays queued. -/
def answeredByHost (addr : Word) : List Label :=
  queueMessage 0 addr ++ leave ++ List.replicate 3 (.source 0) ++ enterFlushed

/-- A call that is acknowledged, four that are answered by the host, and
    one that finds its ring full. -/
theorem shootdown_guarantee_full_ring :
    ∃ s, (system twoRings).RunsTo (fun s l => clean s l = true) s ∧ s.calls.length = 6 ∧
      s.target.vcpu.pc = .guest ∧
      (∀ r ∈ s.calls, ShotDown s r) ∧ s.target.handler ≠ .asserted := by
  obtain ⟨s, hrun, hcalls, hpc⟩ := (system twoRings).exists_runsTo clean init_boot
    (enter ++ [Label.access 0x1000#64] ++ queueMessage 1 0x1000#64 ++
      List.replicate 17 Label.handler ++ [Label.source 1] ++ (List.replicate 4 (answeredByHost 0x2000#64)).flatten ++
      begin 0 0x3000#64 ++ List.replicate 7 (Label.source 0) ++ leave ++
      [Label.vcpu .checkEntry, .vcpu .xchg, .vcpu .incCount, .source 0, .vcpu .vpidSync,
        .vcpu .loadCr3, .vcpu .vmEntry])
    (fun t => t.calls.length = 6 ∧ t.target.vcpu.pc = .guest) (by decide +kernel)
  exact ⟨s, hrun, hcalls, hpc, shootdown_guarantee hrun⟩

/-- Guest code of the target runs with a translation from before call `r`,
    which has returned. -/
def staleUse (r : Call) (s : State) : Bool :=
  decide (s.target.vcpu.pc = .guest ∧ s.target.handler = .off ∧ r ∈ s.calls) &&
  (s.target.tlb.cached r.addr).any fun n => decide (n < r.began)

theorem not_shotDown {r : Call} (h : staleUse r s = true) : r ∈ s.calls ∧ ¬ ShotDown s r := by
  simp only [staleUse, Bool.and_eq_true, decide_eq_true_eq, Option.any_eq_true] at h
  obtain ⟨⟨hpc, hoff, hmem⟩, n, hcached, hn⟩ := h
  refine ⟨hmem, fun hshot => ?_⟩
  have hle := hshot.unused hpc hoff n hcached
  omega

theorem exists_not_shotDown (r : Call) (run : List Label)
    (h : ((system twoRings).exec boot run).any (staleUse r) = true) :
    ∃ s r, (system twoRings).exec boot run = some s ∧ r ∈ s.calls ∧ ¬ ShotDown s r := by
  obtain ⟨s, hrun, hs⟩ := (Option.any_eq_true _ _).1 h
  exact ⟨s, r, hrun, not_shotDown hs⟩

/-- **Second address**: two cores send a message each, and the handler finds
    both. The second address is read out of the second entry of the work
    page of core 1, which is 0; both calls are acknowledged. -/
theorem second_address_kept :
    Init boot ∧
    ∃ s r, (system twoRings).exec boot
      (enter ++ [.access 0x2000#64] ++ queueMessage 0 0x1000#64 ++ queueMessage 1 0x2000#64 ++
        List.replicate 21 .handler ++ [.source 1]) = some s ∧ r ∈ s.calls ∧ ¬ ShotDown s r :=
  ⟨init_boot, exists_not_shotDown ⟨0x2000#64, 2⟩ _ (by decide +kernel)⟩

/-- **Older message**: the message of a call that the host answered is run
    while the core prepares its next call, and its acknowledgement ends
    that call. -/
theorem older_message_acknowledges :
    ∃ s r, (system twoRings).exec boot
      (enter ++ answeredByHost 0x1000#64 ++ [.access 0x2000#64] ++ List.replicate 8 .handler ++
        [.request 0 0x2000#64, .source 0, .source 0] ++ List.replicate 9 .handler ++
        List.replicate 7 (.source 0)) = some s ∧ r ∈ s.calls ∧ ¬ ShotDown s r :=
  exists_not_shotDown ⟨0x2000#64, 2⟩ _ (by decide +kernel)

/-- **Missing kick**: with a full ring a core sees the target in the host.
    The target enters before the request is in the word, and the request
    is swapped in while guest code runs. -/
theorem request_posted_into_guest :
    ∃ s r, (system twoRings).exec boot
      (enter ++ (List.replicate 4 (answeredByHost 0x1000#64)).flatten ++ [.access 0x2000#64] ++
        begin 0 0x2000#64 ++ List.replicate 3 (.source 0) ++ leave ++ [.source 0] ++ enter ++
        List.replicate 3 (.source 0)) = some s ∧ r ∈ s.calls ∧ ¬ ShotDown s r :=
  exists_not_shotDown ⟨0x2000#64, 5⟩ _ (by decide +kernel)

end Shootdown
