import Libdbos.FastSpawn.RootSwitch

/-! # Steps of the Root Switch

    What one step can do, said once: `SpawnMove` for the spawning core,
    `HandlerMove` for an IPI handler, `CopierMove` and `WorkerMove` for the
    two threads in the background, and `Move` for the system. Then the
    facts that hold in every run, whatever is delayed:

    * `CoresInv`: every flag word follows the protocol of `VmxLaunch`;
    * `SpawnInv`: the mutex protects the published roots and the shadow
      tables from the copier and from other spawns.
-/

open LTS

namespace RootSwitch

open Pv CowFault

variable {cfg : Config} {s s' : State}

/-! ## The spawning core -/

/-- Steps of the spawning core that only change its position. -/
inductive SpawnGoto (s : State) (c : Nat) : SpawnPc → SpawnPc → Prop where
  | scanned {sent} : SpawnGoto s c (.scan [] sent) (.wait sent)
  | inHost {i todo sent} (h : inHost (s.vcpu i).flag = true) :
      SpawnGoto s c (.scan (i :: todo) sent) (.post i (s.vcpu i).flag todo sent)
  | inGuest {i todo sent} : SpawnGoto s c (.scan (i :: todo) sent) (.reset i todo sent)
  | lost {i v todo sent} : SpawnGoto s c (.post i v todo sent) (.reset i todo sent)
  | dropped {i todo sent} (h : ringSize ≤ s.queued i c) :
      SpawnGoto s c (.queue i todo sent) (.send i todo sent)
  | waited : SpawnGoto s c (.wait []) .submit
  | done {i todo} (h : (s.slot c i).done = true) :
      SpawnGoto s c (.wait (i :: todo)) (.wait todo)
  | notDone {i todo} : SpawnGoto s c (.wait (i :: todo)) (.peek i todo)
  | waitInHost {i todo} (h : Pv.inHost (s.vcpu i).flag = true) :
      SpawnGoto s c (.peek i todo) (.repost i (s.vcpu i).flag todo)
  | waitInGuest {i todo} : SpawnGoto s c (.peek i todo) (.wait (i :: todo))
  | waitLost {i v todo} : SpawnGoto s c (.repost i v todo) (.wait (i :: todo))
  | polled : SpawnGoto s c .poll .signal

/-- A successful compare-exchange of the spawning core on core `i`. -/
inductive SpawnPost (i : Nat) (v : Word) : SpawnPc → SpawnPc → Prop where
  | first {todo sent} : SpawnPost i v (.post i v todo sent) (.scan todo sent)
  | second {todo} : SpawnPost i v (.repost i v todo) (.wait todo)

/-- What a step of the spawning core `c` can do, by its position. -/
inductive SpawnMove (cfg : Config) (s : State) (c : Nat) : SpawnPc → State → Prop where
  | goto {p q} (h : SpawnGoto s c p q) : SpawnMove cfg s c p (s.setSpawn c q)
  | post {i v p q} (h : SpawnPost i v p q) (hflag : (s.vcpu i).flag = v) :
      SpawnMove cfg s c p ((s.postCr3 i s.pgroot).setSpawn c q)
  | enter (hmutex : s.mutex = none) (h1 : s.shadow1 ≠ 0#64) (h2 : s.shadow2 ≠ 0#64)
      (hfunc : s.func = false) :
      SpawnMove cfg s c .idle ({ s with mutex := some c }.setSpawn c .publish)
  | publish :
      SpawnMove cfg s c .publish
        ({ s with pgroot := s.shadow1, moved := fun _ => false, snapLoaded := false }.setSpawn c
          .publishSnap)
  | publishSnap :
      SpawnMove cfg s c .publishSnap
        ({ s with pgrootSnapshot := s.shadow2 }.setSpawn c
          (.scan (cfg.mains.filter fun i => decide (i ≠ c)) []))
  | reset {i todo sent} :
      SpawnMove cfg s c (.reset i todo sent)
        ((s.setSlot c i { s.slot c i with done := false }).setSpawn c (.fill i todo sent))
  | fill {i todo sent} :
      SpawnMove cfg s c (.fill i todo sent)
        ((s.setSlot c i { s.slot c i with newPgroot := s.shadow1 }).setSpawn c (.queue i todo sent))
  | queue {i todo sent} :
      SpawnMove cfg s c (.queue i todo sent)
        ((s.setQueued i c (s.queued i c + 1)).setSpawn c (.send i todo sent))
  | send {i todo sent} :
      SpawnMove cfg s c (.send i todo sent)
        ({ s with ipi := Function.update s.ipi i true }.setSpawn c (.scan todo (sent ++ [i])))
  | submit : SpawnMove cfg s c .submit ({ s with func := true }.setSpawn c .clear1)
  | clear1 : SpawnMove cfg s c .clear1 ({ s with shadow1 := 0#64 }.setSpawn c .clear2)
  | clear2 : SpawnMove cfg s c .clear2 ({ s with shadow2 := 0#64 }.setSpawn c .loadRoot)
  | loadRoot :
      SpawnMove cfg s c .loadRoot (((s.loadCr3 c s.pgroot).setMoved c).setSpawn c .unlock)
  | unlock : SpawnMove cfg s c .unlock ({ s with mutex := none }.setSpawn c .poll)
  | signal : SpawnMove cfg s c .signal ({ s with asyncCopyJob := true }.setSpawn c .idle)

theorem spawnStep_cases {c : Nat} (h : spawnStep cfg s c = some s') :
    SpawnMove cfg s c (s.spawn c) s' := by
  unfold spawnStep at h
  split at h <;> rename_i hpc <;> rw [hpc]
  · split at h <;> cases h
    rename_i hen
    exact .enter hen.1 hen.2.1 hen.2.2.1 hen.2.2.2
  · cases h
    exact .publish
  · cases h
    exact .publishSnap
  · cases h
    exact .goto .scanned
  · cases h
    split
    · exact .goto (.inHost ‹_›)
    · exact .goto .inGuest
  · split at h <;> cases h
    · exact .post .first ‹_›
    · exact .goto .lost
  · cases h
    exact .reset
  · cases h
    exact .fill
  · split at h <;> cases h
    · exact .queue
    · exact .goto (.dropped (by omega))
  · cases h
    exact .send
  · cases h
    exact .goto .waited
  · cases h
    split
    · exact .goto (.done ‹_›)
    · exact .goto .notDone
  · cases h
    split
    · exact .goto (.waitInHost ‹_›)
    · exact .goto .waitInGuest
  · split at h <;> cases h
    · exact .post .second ‹_›
    · exact .goto .waitLost
  · cases h
    exact .submit
  · cases h
    exact .clear1
  · cases h
    exact .clear2
  · cases h
    exact .loadRoot
  · cases h
    exact .unlock
  · split at h <;> cases h
    exact .goto .polled
  · cases h
    exact .signal

/-! ## IPI handlers -/

/-- What a step of the IPI handler of core `i` can do, by its position. -/
inductive HandlerMove (cfg : Config) (s : State) (i : Nat) : HandlerPc → State → Prop where
  | begin : HandlerMove cfg s i .off
      ({ s with ipi := Function.update s.ipi i false }.setHandler i (.collect true cfg.mains []))
  | collected {again buf} :
      HandlerMove cfg s i (.collect again [] buf) (s.setHandler i (.run again buf))
  | collect {again c todo buf} : HandlerMove cfg s i (.collect again (c :: todo) buf)
      ((s.setQueued i c 0).setHandler i
        (.collect again todo (buf ++ List.replicate (s.queued i c) c)))
  | again : HandlerMove cfg s i (.run true []) (s.setHandler i (.collect false cfg.mains []))
  | finished : HandlerMove cfg s i (.run false []) (s.setHandler i .off)
  | asserted {again c buf} (h : (s.slot c i).done = true) :
      HandlerMove cfg s i (.run again (c :: buf)) (s.setHandler i .asserted)
  | run {again c buf} (h : (s.slot c i).done = false) :
      HandlerMove cfg s i (.run again (c :: buf)) (s.setHandler i (.load again c buf))
  | load {again c buf} : HandlerMove cfg s i (.load again c buf)
      (((s.loadCr3 i (s.slot c i).newPgroot).setMoved i).setHandler i (.finish again c buf))
  | finish {again c buf} : HandlerMove cfg s i (.finish again c buf)
      ((s.setSlot c i { s.slot c i with done := true }).setHandler i (.run again buf))

theorem handlerStep_cases {i : Nat} (h : handlerStep cfg s i = some s') :
    HandlerMove cfg s i (s.handler i) s' := by
  unfold handlerStep at h
  split at h <;> rename_i hpc <;> rw [hpc]
  · split at h <;> cases h
    exact .begin
  · cases h
    exact .collected
  · cases h
    exact .collect
  · cases h
    exact .again
  · cases h
    exact .finished
  · cases h
    split
    · exact .asserted ‹_›
    · rename_i hdone
      exact .run (by simpa using hdone)
  · cases h
    exact .load
  · cases h
    exact .finish
  · cases h

/-! ## The system -/

/-- What a step of the host loop of core `i` does. -/
structure VcpuMove (s : State) (i : Nat) (v : VmxLaunch.State) (s' : State) : Prop where
  label : ∃ l, VmxLaunch.hostLoop l = true ∧ VmxLaunch.step (s.vcpu i) l = some v
  moves : s' = s.setVcpu i v ∨
    (s' = (s.setVcpu i v).setMoved i ∧
      ∃ pv, (s.vcpu i).pc = .loading pv ∧ changesCr3 pv = true ∧ v.guestCr3 = newCr3 pv)

theorem vcpuStep_cases {i : Nat} {l : VmxLaunch.Label} (h : vcpuStep s i l = some s') :
    ∃ v, VcpuMove s i v s' := by
  unfold vcpuStep at h
  split at h
  · rename_i hl
    obtain ⟨v, hv, rfl⟩ := Option.map_eq_some_iff.1 h
    refine ⟨v, ⟨l, hl, hv⟩, ?_⟩
    split
    · rename_i pv hpc
      split
      · rename_i hch
        simp only [VmxLaunch.step, hpc, hch, if_true, Option.some.injEq] at hv
        exact .inr ⟨rfl, pv, hpc, hch, by rw [← hv]⟩
      · exact .inl rfl
    · exact .inl rfl
  · cases h

/-- Steps of the fault handler of core `c` up to the end of its checks. -/
inductive FaultMove (cfg : Config) (s : State) (c : Nat) : FaultPc → FaultPc → Prop where
  | enter (hc : c ∈ cfg.mains ∨ c = snapshotCore) :
      FaultMove cfg s c .idle (.entered (s.vcpu c).guestCr3)
  | compare {root} (hc : c = snapshotCore)
      (h : s.pgrootSnapshot = 0#64 ∨ s.pgrootSnapshot = root) :
      FaultMove cfg s c (.entered root) (.compared root)
  | compareFails {root} (hc : c = snapshotCore) (h0 : s.pgrootSnapshot ≠ 0#64)
      (h : s.pgrootSnapshot ≠ root) : FaultMove cfg s c (.entered root) .failed
  | snapPasses {root} (h : root ≠ s.pgroot) : FaultMove cfg s c (.compared root) (.passed root)
  | snapFails {root} (h : root = s.pgroot) : FaultMove cfg s c (.compared root) .failed
  | mainPasses {root} (hc : c ≠ snapshotCore) (h : root = s.pgroot) :
      FaultMove cfg s c (.entered root) (.passed root)
  | mainFails {root} (hc : c ≠ snapshotCore) (h : root ≠ s.pgroot) :
      FaultMove cfg s c (.entered root) .failed
  | retry {root} : FaultMove cfg s c (.passed root) (.entered root)
  | leave {root} : FaultMove cfg s c (.passed root) .idle

theorem faultCheck_cases {c : Nat} (h : faultCheck s c = some s') :
    ∃ q, FaultMove cfg s c (s.fault c) q ∧ s' = s.setFault c q := by
  unfold faultCheck at h
  split at h
  · rename_i root hpc
    rw [hpc]
    split at h <;> cases h <;> rename_i hc
    · refine ⟨_, ?_, rfl⟩
      split
      · rename_i hne
        exact .compareFails hc hne.1 hne.2
      · rename_i hok
        by_cases h0 : s.pgrootSnapshot = 0#64
        · exact .compare hc (.inl h0)
        · exact .compare hc (.inr (by_contra fun hne => hok ⟨h0, hne⟩))
    · refine ⟨_, ?_, rfl⟩
      split
      · exact .mainPasses hc ‹_›
      · exact .mainFails hc ‹_›
  · rename_i root hpc
    rw [hpc]
    cases h
    refine ⟨_, ?_, rfl⟩
    split
    · exact .snapFails ‹_›
    · exact .snapPasses ‹_›
  · cases h

/-- What a step of the system can do. -/
inductive Move (cfg : Config) (s : State) : Label → State → Prop where
  | vcpu {i : Nat} {l : VmxLaunch.Label} {v : VmxLaunch.State} {s' : State} (h : VcpuMove s i v s') :
      Move cfg s (.vcpu i l) s'
  | postFlush {i} : Move cfg s (.postFlush i)
      (s.setVcpu i { s.vcpu i with flag := Pv.postFlush (s.vcpu i).flag, flushPosted := true })
  | spawn {c : Nat} {s' : State} (hc : c ∈ cfg.mains) (hin : s.inThread c = true)
      (h : SpawnMove cfg s c (s.spawn c) s') : Move cfg s (.spawn c) s'
  | handler {i : Nat} {s' : State} (hi : i ∈ cfg.mains) (hin : s.inGuest i = true)
      (h : HandlerMove cfg s i (s.handler i) s') : Move cfg s (.handler i) s'
  | worker {s' : State} (hin : s.inThread snapshotCore = true) (h : workerStep s = some s') :
      Move cfg s .worker s'
  | copier {s' : State} (h : copierStep s = some s') : Move cfg s .copier s'
  | clone {r1 r2} (hpc : s.copier = .clone) (hne : r1 ≠ r2) (h : PageAligned r1) :
      Move cfg s (.clone r1 r2) { s with copier := .set1 r1 r2 }
  | signalCopy : Move cfg s .signalCopy { s with asyncCopyJob := true }
  | tlbReady {c} : Move cfg s (.tlbReady c) (s.setSlot c 0 { s.slot c 0 with done := true })
  | tlbAddr {c addr} :
      Move cfg s (.tlbAddr c addr) (s.setSlot c 0 { s.slot c 0 with newPgroot := addr })
  | fault {l c q} (h : FaultMove cfg s c (s.fault c) q)
      (hl : s.fault c = .idle → l = .faultEnter c) : Move cfg s l (s.setFault c q)

theorem step_cases {l : Label} (h : step cfg s l = some s') : Move cfg s l s' := by
  cases l with
  | vcpu i l =>
    obtain ⟨v, hv⟩ := vcpuStep_cases h
    exact .vcpu hv
  | postFlush i =>
    cases h
    exact .postFlush
  | spawn c =>
    simp only [step] at h
    split at h
    · rename_i hen
      exact .spawn hen.1 hen.2 (spawnStep_cases h)
    · cases h
  | handler i =>
    simp only [step] at h
    split at h
    · rename_i hen
      exact .handler hen.1 hen.2 (handlerStep_cases h)
    · cases h
  | worker =>
    simp only [step] at h
    split at h
    · exact .worker ‹_› h
    · cases h
  | copier =>
    simp only [step] at h
    split at h
    · exact .copier h
    · cases h
  | clone r1 r2 =>
    simp only [step] at h
    split at h <;> cases h
    rename_i hen
    exact .clone hen.2.1 hen.2.2.2.2.1 hen.2.2.2.2.2.1
  | signalCopy =>
    cases h
    exact .signalCopy
  | tlbReady c =>
    cases h
    exact .tlbReady
  | tlbAddr c addr =>
    cases h
    exact .tlbAddr
  | faultEnter c =>
    simp only [step] at h
    split at h <;> cases h
    rename_i hen
    refine .fault ?_ fun _ => rfl
    rw [hen.2.2]
    exact .enter hen.1
  | faultCheck c =>
    simp only [step] at h
    split at h
    · obtain ⟨q, hq, rfl⟩ := @faultCheck_cases cfg _ _ _ h
      refine .fault hq fun hidle => ?_
      simp [faultCheck, hidle] at h
    · cases h
  | faultRetry c =>
    simp only [step] at h
    split at h
    · rename_i root hpc
      split at h <;> cases h
      exact .fault (by rw [hpc]; exact .retry) (by simp [hpc])
    · cases h
  | faultLeave c =>
    simp only [step] at h
    split at h
    · rename_i root hpc
      split at h <;> cases h
      exact .fault (by rw [hpc]; exact .leave) (by simp [hpc])
    · cases h

/-! ## What the mutex protects -/

/-- How far a spawn has come. From 1 to 8 the mutex is held, from 2 the new
    main root is published, at 3 the cores are being moved. -/
def SpawnPc.stage : SpawnPc → Nat
  | .idle => 0
  | .publish => 1
  | .publishSnap => 2
  | .scan _ _ | .post _ _ _ _ | .reset _ _ _ | .fill _ _ _ | .queue _ _ _ | .send _ _ _ | .wait _
  | .peek _ _ | .repost _ _ _ => 3
  | .submit => 4
  | .clear1 => 5
  | .clear2 => 6
  | .loadRoot => 7
  | .unlock => 8
  | .poll => 9
  | .signal => 10

attribute [local simp] SpawnPc.stage

/-- The flag word that a compare-exchange is about to use. -/
def SpawnPc.sample : SpawnPc → Option Word
  | .post _ v _ _ | .repost _ v _ => some v
  | _ => none

/-- The worker has a function to run. -/
def WorkerPc.busy : WorkerPc → Bool
  | .check | .load | .announce | .run | .retire | .clearFunc => true
  | _ => false

/-- Once the copier has found both shadow roots empty, they stay so until
    it sets them. -/
def CopierOk (s : State) : Prop :=
  match s.copier with
  | .check2 => s.shadow1 = 0#64
  | .clone => s.shadow1 = 0#64 ∧ s.shadow2 = 0#64
  | .set1 r1 r2 => s.shadow1 = 0#64 ∧ s.shadow2 = 0#64 ∧ r1 ≠ r2 ∧ PageAligned r1
  | .set2 r2 => s.shadow2 = 0#64 ∧ s.shadow1 ≠ r2
  | _ => True

/-- What core `c` may rely on at position `q` of a spawn. -/
structure StageOk (s : State) (c : Nat) (q : SpawnPc) : Prop where
  mutex : 1 ≤ q.stage → q.stage ≤ 8 → s.mutex = some c
  shadow1 : 1 ≤ q.stage → q.stage ≤ 5 → s.shadow1 ≠ 0#64
  shadow2 : 1 ≤ q.stage → q.stage ≤ 6 → s.shadow2 ≠ 0#64
  root : 2 ≤ q.stage → q.stage ≤ 5 → s.pgroot = s.shadow1
  func : 1 ≤ q.stage → q.stage ≤ 4 → s.func = false
  sampled : ∀ v, q.sample = some v → inHost v = true

structure SpawnInv (s : State) : Prop where
  stage : ∀ c, StageOk s c (s.spawn c)
  aligned : PageAligned s.pgroot
  aligned1 : PageAligned s.shadow1
  copier : CopierOk s
  distinct : s.shadow1 ≠ 0#64 → s.shadow1 ≠ s.shadow2
  working : s.worker.busy = true → s.func = true

theorem stage_of_sample {q : SpawnPc} {v : Word} (h : q.sample = some v) : q.stage = 3 := by
  cases q <;> simp_all [SpawnPc.sample, SpawnPc.stage]

/-- Outside the mutex a core relies on nothing. -/
theorem stageOk_outside {c : Nat} {q : SpawnPc} (h : 1 ≤ q.stage → ¬ q.stage ≤ 8) :
    StageOk s c q where
  mutex := fun h1 h8 => absurd h8 (h h1)
  shadow1 := fun h1 h5 => absurd (by omega) (h h1)
  shadow2 := fun h1 h6 => absurd (by omega) (h h1)
  root := fun h2 h5 => absurd (by omega) (h (by omega))
  func := fun h1 h4 => absurd (by omega) (h h1)
  sampled := fun v hv => by
    have := stage_of_sample hv
    omega

theorem spawnInv_init (h : Init cfg s) : SpawnInv s where
  stage := fun c => stageOk_outside (by simp [h.spawn])
  aligned := h.aligned
  aligned1 := by rw [h.shadow1]; decide
  copier := by simp [CopierOk, h.copier]
  distinct := fun hne => absurd h.shadow1 hne
  working := by simp [h.worker, WorkerPc.busy]

/-- Only one spawn is past the mutex. -/
theorem SpawnInv.alone (hinv : SpawnInv s) {c c' : Nat} (hc : 1 ≤ (s.spawn c).stage)
    (hc8 : (s.spawn c).stage ≤ 8) (hne : c' ≠ c) (hc' : 1 ≤ (s.spawn c').stage) :
    ¬ (s.spawn c').stage ≤ 8 := by
  intro hc8'
  have h := (hinv.stage c).mutex hc hc8
  have h' := (hinv.stage c').mutex hc' hc8'
  rw [h] at h'
  exact hne (Option.some.inj h').symm

/-- A step of the core that holds the mutex has to care for itself only. -/
theorem SpawnInv.stage_update (hinv : SpawnInv s) {c : Nat} {q : SpawnPc}
    (hc : 1 ≤ (s.spawn c).stage) (hc8 : (s.spawn c).stage ≤ 8)
    (hs : s'.spawn = Function.update s.spawn c q) (hq : StageOk s' c q) (c' : Nat) :
    StageOk s' c' (s'.spawn c') := by
  rw [hs]
  by_cases hcc : c' = c
  · subst hcc
    rw [Function.update_self]
    exact hq
  · rw [Function.update_of_ne hcc]
    exact stageOk_outside (hinv.alone hc hc8 hcc)

/-- A later position relies on no more. -/
theorem StageOk.later {c : Nat} {p q : SpawnPc} (h : StageOk s c p) (h2 : 2 ≤ p.stage)
    (hle : p.stage ≤ q.stage) (hq : ∀ v, q.sample = some v → inHost v = true) : StageOk s c q :=
  ⟨fun _ _ => h.mutex (by omega) (by omega), fun _ _ => h.shadow1 (by omega) (by omega),
    fun _ _ => h.shadow2 (by omega) (by omega), fun _ _ => h.root (by omega) (by omega),
    fun _ _ => h.func (by omega) (by omega), hq⟩

/-- The fields that spawns, worker and copier share are kept. -/
structure SharedKept (s s' : State) : Prop where
  mutex : s'.mutex = s.mutex
  pgroot : s'.pgroot = s.pgroot
  shadow1 : s'.shadow1 = s.shadow1
  shadow2 : s'.shadow2 = s.shadow2
  func : s'.func = s.func ∨ s'.func = false
  working : (s.worker.busy = true → s.func = true) → s'.worker.busy = true → s'.func = true

theorem StageOk.frame {c : Nat} {q : SpawnPc} (h : StageOk s c q) (hk : SharedKept s s') :
    StageOk s' c q := by
  obtain ⟨h1, h2, h3, h4, h5, h6⟩ := h
  refine ⟨by rwa [hk.mutex], by rwa [hk.shadow1], by rwa [hk.shadow2],
    by rwa [hk.pgroot, hk.shadow1], ?_, h6⟩
  rcases hk.func with hf | hf
  · rwa [hf]
  · exact fun _ _ => hf

theorem SpawnInv.frame (hinv : SpawnInv s) (hk : SharedKept s s')
    (hstage : ∀ c, StageOk s c (s'.spawn c)) (hcopier : CopierOk s') : SpawnInv s' := by
  refine ⟨fun c => (hstage c).frame hk, by rw [hk.pgroot]; exact hinv.aligned,
    by rw [hk.shadow1]; exact hinv.aligned1, hcopier, ?_, hk.working hinv.working⟩
  rw [hk.shadow1, hk.shadow2]
  exact hinv.distinct

/-- A step of one core that keeps what is shared. -/
theorem SpawnInv.kept (hinv : SpawnInv s) {c : Nat} {q : SpawnPc} (hk : SharedKept s s')
    (hs : s'.spawn = Function.update s.spawn c q) (hq : StageOk s c q) (hcopier : CopierOk s') :
    SpawnInv s' := by
  refine hinv.frame hk (fun c' => ?_) hcopier
  rw [hs]
  by_cases hcc : c' = c
  · subst hcc
    rw [Function.update_self]
    exact hq
  · rw [Function.update_of_ne hcc]
    exact hinv.stage c'

theorem SpawnGoto.stage_le {c : Nat} {p q : SpawnPc} (h : SpawnGoto s c p q) :
    2 ≤ p.stage ∧ p.stage ≤ q.stage := by
  cases h <;> simp

theorem SpawnGoto.sampled {c : Nat} {p q : SpawnPc} (h : SpawnGoto s c p q) {v : Word}
    (hv : q.sample = some v) : Pv.inHost v = true := by
  cases h <;> simp [SpawnPc.sample] at hv
  all_goals
    subst hv
    assumption

theorem spawnInv_spawn (hinv : SpawnInv s) {c : Nat} {p : SpawnPc} (hpc : s.spawn c = p)
    (h : SpawnMove cfg s c p s') : SpawnInv s' := by
  have hc := hinv.stage c
  rw [hpc] at hc
  have hcop := hinv.copier
  cases h with
  | goto hgo =>
    obtain ⟨h2, hle⟩ := hgo.stage_le
    exact hinv.kept ⟨rfl, rfl, rfl, rfl, .inl rfl, id⟩ rfl
      (hc.later h2 hle fun _ => hgo.sampled) hcop
  | post hp hflag =>
    cases hp with
    | first | second =>
      exact hinv.kept ⟨rfl, rfl, rfl, rfl, .inl rfl, id⟩ rfl
        (hc.later (by simp) (by simp) (by simp [SpawnPc.sample])) hcop
  | publishSnap | reset | fill | queue | send | loadRoot =>
    exact hinv.kept ⟨rfl, rfl, rfl, rfl, .inl rfl, id⟩ rfl
      (hc.later (by simp) (by simp) (by simp [SpawnPc.sample])) hcop
  | signal =>
    exact hinv.kept ⟨rfl, rfl, rfl, rfl, .inl rfl, id⟩ rfl
      (stageOk_outside (by simp)) hcop
  | enter hmutex h1 h2 hfunc =>
    refine ⟨?_, hinv.aligned, hinv.aligned1, hcop, hinv.distinct, hinv.working⟩
    intro c'
    by_cases hcc : c' = c
    · subst hcc
      simp only [State.setSpawn, Function.update_self]
      exact ⟨fun _ _ => rfl, fun _ _ => h1, fun _ _ => h2, by simp, fun _ _ => hfunc,
        by simp [SpawnPc.sample]⟩
    · simp only [State.setSpawn, Function.update_of_ne hcc]
      -- The mutex was free, so that nobody else is past it.
      refine stageOk_outside fun h1' h8 => ?_
      have := (hinv.stage c').mutex h1' h8
      rw [hmutex] at this
      cases this
  | publish =>
    have h1 := hc.shadow1 (by simp) (by simp)
    refine ⟨hinv.stage_update (by simp [hpc]) (by simp [hpc]) rfl ?_,
      hinv.aligned1, hinv.aligned1, hcop, hinv.distinct, hinv.working⟩
    exact ⟨fun _ _ => hc.mutex (by simp) (by simp), fun _ _ => h1,
      fun _ _ => hc.shadow2 (by simp) (by simp), fun _ _ => rfl,
      fun _ _ => hc.func (by simp) (by simp),
      by simp [SpawnPc.sample]⟩
  | submit =>
    refine ⟨hinv.stage_update (by simp [hpc]) (by simp [hpc]) rfl ?_,
      hinv.aligned, hinv.aligned1, hcop, hinv.distinct, fun _ => rfl⟩
    exact ⟨fun _ _ => hc.mutex (by simp) (by simp),
      fun _ _ => hc.shadow1 (by simp) (by simp),
      fun _ _ => hc.shadow2 (by simp) (by simp),
      fun _ _ => hc.root (by simp) (by simp),
      by simp, by simp [SpawnPc.sample]⟩
  | clear1 =>
    have h2 := hc.shadow2 (by simp) (by simp)
    refine ⟨hinv.stage_update (by simp [hpc]) (by simp [hpc]) rfl ?_,
      hinv.aligned, (by decide : PageAligned 0#64), ?_, fun hne => absurd rfl hne, hinv.working⟩
    · exact ⟨fun _ _ => hc.mutex (by simp) (by simp),
        by simp, fun _ _ => h2, by simp, by simp,
        by simp [SpawnPc.sample]⟩
    · -- The copier waits for the second shadow root to go as well.
      simp only [CopierOk, State.setSpawn] at hcop ⊢
      split <;> simp_all
  | clear2 =>
    have h2 := hc.shadow2 (by simp) (by simp)
    refine ⟨hinv.stage_update (by simp [hpc]) (by simp [hpc]) rfl ?_,
      hinv.aligned, hinv.aligned1, ?_, id, hinv.working⟩
    · exact ⟨fun _ _ => hc.mutex (by simp) (by simp),
        by simp, by simp, by simp,
        by simp, by simp [SpawnPc.sample]⟩
    · simp only [CopierOk, State.setSpawn] at hcop ⊢
      split <;> simp_all
  | unlock =>
    refine ⟨hinv.stage_update (by simp [hpc]) (by simp [hpc]) rfl ?_,
      hinv.aligned, hinv.aligned1, hcop, hinv.distinct, hinv.working⟩
    exact stageOk_outside (by simp)

theorem spawnInv_worker (hinv : SpawnInv s) (h : workerStep s = some s') : SpawnInv s' := by
  have hkept : s'.spawn = s.spawn ∧ CopierOk s' ∧ SharedKept s s' := by
    have hcop := hinv.copier
    unfold workerStep at h
    split at h <;> rename_i hpc
    · split at h <;> cases h
      rename_i hfunc
      exact ⟨rfl, hcop, rfl, rfl, rfl, rfl, .inl rfl, fun _ _ => hfunc⟩
    all_goals
      cases h
    -- The function is cleared when the worker has no more use for it.
    iterate 5
      exact ⟨rfl, hcop, rfl, rfl, rfl, rfl, .inl rfl, fun hw _ => hw (by rw [hpc]; rfl)⟩
    · exact ⟨rfl, hcop, rfl, rfl, rfl, rfl, .inr rfl, by simp [WorkerPc.busy]⟩
    · exact ⟨rfl, hcop, rfl, rfl, rfl, rfl, .inl rfl, by simp [WorkerPc.busy]⟩
  obtain ⟨hspawn, hcop, hk⟩ := hkept
  refine hinv.frame hk (fun c => ?_) hcop
  rw [hspawn]
  exact hinv.stage c

/-- While the copier is past its checks, no spawn uses the shadow roots. -/
theorem SpawnInv.unused (hinv : SpawnInv s) (hempty : s.shadow2 = 0#64) (c : Nat) :
    (s.spawn c).stage = 0 ∨ 7 ≤ (s.spawn c).stage := by
  by_contra hno
  exact (hinv.stage c).shadow2 (by omega) (by omega) hempty

theorem StageOk.unused {c : Nat} {q : SpawnPc} (h : StageOk s c q)
    (hq : q.stage = 0 ∨ 7 ≤ q.stage) (hmutex : s'.mutex = s.mutex) : StageOk s' c q := by
  refine ⟨by rw [hmutex]; exact h.mutex, ?_, ?_, ?_, ?_, h.sampled⟩ <;> (intros; omega)

theorem spawnInv_copier (hinv : SpawnInv s) (h : copierStep s = some s') : SpawnInv s' := by
  have hcop := hinv.copier
  simp only [CopierOk] at hcop
  unfold copierStep at h
  split at h <;> rename_i hpc <;> rw [hpc] at hcop
  · split at h <;> cases h
    exact hinv.frame ⟨rfl, rfl, rfl, rfl, .inl rfl, id⟩ hinv.stage trivial
  · cases h
    refine hinv.frame ⟨rfl, rfl, rfl, rfl, .inl rfl, id⟩ hinv.stage ?_
    by_cases h1 : s.shadow1 = 0#64
    · simp [CopierOk, h1]
    · simp [CopierOk, h1]
  · cases h
    refine hinv.frame ⟨rfl, rfl, rfl, rfl, .inl rfl, id⟩ hinv.stage ?_
    by_cases h2 : s.shadow2 = 0#64
    · simpa [CopierOk, h2] using hcop
    · simp [CopierOk, h2]
  · cases h
    obtain ⟨_, h2, hne, halign⟩ := hcop
    refine ⟨fun c => (hinv.stage c).unused (hinv.unused h2 c) rfl, hinv.aligned, halign, ⟨h2, hne⟩, ?_,
      hinv.working⟩
    intro hr1
    rw [h2]
    exact hr1
  · cases h
    obtain ⟨h2, hne⟩ := hcop
    exact ⟨fun c => (hinv.stage c).unused (hinv.unused h2 c) rfl, hinv.aligned, hinv.aligned1,
      trivial, fun _ => hne, hinv.working⟩
  · cases h
  · cases h

theorem spawnInv_step {l : Label} (hinv : SpawnInv s) (h : step cfg s l = some s') :
    SpawnInv s' := by
  have hframe : ∀ t : State, t.spawn = s.spawn → SharedKept s t → CopierOk t → SpawnInv t :=
    fun t hspawn hk hcop => hinv.frame hk (fun c => by rw [hspawn]; exact hinv.stage c) hcop
  cases step_cases h with
  | vcpu hv =>
    rcases hv.moves with rfl | ⟨rfl, _⟩
    · exact hframe _ rfl ⟨rfl, rfl, rfl, rfl, .inl rfl, id⟩ hinv.copier
    · exact hframe _ rfl ⟨rfl, rfl, rfl, rfl, .inl rfl, id⟩ hinv.copier
  | postFlush | signalCopy | tlbReady | tlbAddr | fault _ _ =>
    exact hframe _ rfl ⟨rfl, rfl, rfl, rfl, .inl rfl, id⟩ hinv.copier
  | spawn _ _ hm => exact spawnInv_spawn hinv rfl hm
  | handler _ _ hm =>
    generalize s.handler _ = p at hm
    cases hm <;> exact hframe _ rfl ⟨rfl, rfl, rfl, rfl, .inl rfl, id⟩ hinv.copier
  | worker _ hw => exact spawnInv_worker hinv hw
  | copier hc => exact spawnInv_copier hinv hc
  | clone hpc hne halign =>
    have hcop := hinv.copier
    simp only [CopierOk, hpc] at hcop
    exact hframe _ rfl ⟨rfl, rfl, rfl, rfl, .inl rfl, id⟩ ⟨hcop.1, hcop.2, hne, halign⟩

/-! ## Flag words -/

/-- Every flag word follows the protocol of the host loop. -/
def CoresInv (s : State) : Prop := ∀ i, VmxLaunch.CoreOk (s.vcpu i)

theorem coresInv_setVcpu (hinv : CoresInv s) {i : Nat} {v : VmxLaunch.State}
    (hv : VmxLaunch.CoreOk v) : CoresInv (s.setVcpu i v) := by
  intro j
  by_cases hj : j = i
  · simpa [State.setVcpu, hj] using hv
  · simpa [State.setVcpu, hj] using hinv j

theorem inGuest_iff {c : Nat} : s.inGuest c = true ↔ (s.vcpu c).pc = .guest := by
  simp [State.inGuest]

theorem inThread_guest {c : Nat} (h : s.inThread c = true) : s.inGuest c = true := by
  simp only [State.inThread, Bool.and_eq_true] at h
  exact h.1.1

theorem coresInv_load (hinv : CoresInv s) {i : Nat} {root : Word} (h : s.inGuest i = true) :
    CoresInv (s.loadCr3 i root) :=
  coresInv_setVcpu hinv ((hinv i).load (inGuest_iff.1 h))

theorem coresInv_spawn (hinv : CoresInv s) (hsp : SpawnInv s) {c : Nat} {p : SpawnPc}
    (hpc : s.spawn c = p) (hin : s.inThread c = true) (h : SpawnMove cfg s c p s') :
    CoresInv s' := by
  cases h with
  | post hp hflag =>
    have hin := (hsp.stage c).sampled
    rw [hpc] at hin
    cases hp with
    | first | second =>
      have hhost := hin _ rfl
      rw [← hflag] at hhost
      exact coresInv_setVcpu hinv ((hinv _).postCr3 hhost hsp.aligned).1
  | loadRoot => exact coresInv_load hinv (inThread_guest hin)
  | _ => exact hinv

theorem coresInv_step {l : Label} (hinv : CoresInv s) (hsp : SpawnInv s)
    (h : step cfg s l = some s') : CoresInv s' := by
  cases step_cases h with
  | vcpu hv =>
    obtain ⟨l, hl, hs⟩ := hv.label
    have hcore := (hinv _).hostLoop hl hs
    rcases hv.moves with rfl | ⟨rfl, _⟩
    · exact coresInv_setVcpu hinv hcore
    · exact coresInv_setVcpu hinv hcore
  | postFlush => exact coresInv_setVcpu hinv (hinv _).postFlush
  | spawn _ hin hm => exact coresInv_spawn hinv hsp rfl hin hm
  | handler _ hin hm =>
    generalize s.handler _ = p at hm
    cases hm with
    | load => exact coresInv_load hinv hin
    | _ => exact hinv
  | worker hin hw =>
    unfold workerStep at hw
    split at hw
    · split at hw <;> cases hw
      exact hinv
    case h_3 =>
      cases hw
      exact coresInv_load hinv (inThread_guest hin)
    all_goals cases hw
    all_goals exact hinv
  | copier hc =>
    unfold copierStep at hc
    split at hc
    · split at hc <;> cases hc
      exact hinv
    all_goals cases hc
    all_goals exact hinv
  | clone _ _ _ | signalCopy | tlbReady | tlbAddr | fault _ _ => exact hinv

/-- Both invariants hold in every run. -/
structure BaseInv (s : State) : Prop where
  spawn : SpawnInv s
  cores : CoresInv s

theorem baseInv_reachable (h : (system cfg).Reachable s) : BaseInv s :=
  System.invariant
    (fun _ h => ⟨spawnInv_init h, fun i => VmxLaunch.coreOk_init (h.vcpu i)⟩)
    (fun _ _ _ hinv hs => ⟨spawnInv_step hinv.spawn hs, coresInv_step hinv.cores hinv.spawn hs⟩) h

end RootSwitch
