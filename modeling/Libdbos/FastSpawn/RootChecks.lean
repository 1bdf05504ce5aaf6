import Libdbos.FastSpawn.SwitchAgreement

/-! # The Root Checks of the Fault Handler

    `dbos_fast_spawn_pgflt_handler` asserts that a main core is on
    `state->pgroot`, and that the snapshot core is on
    `state->pgroot_snapshot`, unless that is `NULL`, and not on
    `state->pgroot`. The roots are published before the cores load them.

    * `checks_pass`: the assertions hold for faults that a core takes
      after it has loaded the root published last;
    * `early_fault_asserts`: a main core that faults between publication
      and its own switch is on the old root.
-/

open LTS

namespace RootSwitch

open Pv CowFault

variable {cfg : Config} {s s' : State}

attribute [local simp] SpawnPc.stage

/-! ## The condition -/

/-- The condition on a run, on top of that of the switch: a root is
    published while no core is in its fault handler, and afterwards a core
    enters it only once it has loaded its new root. -/
def faultsMoved (cfg : Config) (s : State) : Label → Bool
  | .spawn c => decide (s.spawn c ≠ .publish) ||
      (snapshotCore :: cfg.mains).all fun i => decide (s.fault i = .idle)
  | .faultEnter c => if c = snapshotCore then s.snapLoaded else s.moved c
  | _ => true

def faultsChecked (cfg : Config) (s : State) (l : Label) : Bool := clean cfg s l && faultsMoved cfg s l

/-! ## The invariant -/

/-- The root that a main core has read is the current one. -/
def MainFaultOk (s : State) (i : Nat) : Prop :=
  match s.fault i with
  | .idle => True
  | .entered root | .passed root => root = s.pgroot
  | .compared _ | .failed => False

/-- The root that the snapshot core has read is the one it runs on. -/
def SnapFaultOk (s : State) : Prop :=
  match s.fault snapshotCore with
  | .idle => True
  | .entered root | .compared root | .passed root =>
      s.snapLoaded = true ∧ root = (s.vcpu snapshotCore).guestCr3
  | .failed => False

structure CheckInv (cfg : Config) (s : State) : Prop where
  moved : ∀ i ∈ cfg.mains, s.moved i = true → (s.vcpu i).guestCr3 = s.pgroot
  mainFault : ∀ i ∈ cfg.mains, MainFaultOk s i
  snapFault : SnapFaultOk s
  others : ∀ c, c ∉ cfg.mains → c ≠ snapshotCore → s.fault c = .idle
  /-- Nobody posts a root to the snapshot core. -/
  snapRequest : (s.vcpu snapshotCore).request = none
  /-- The root that the worker has loaded stays the published one, or is
      retired, and is no main root. -/
  snapRoot : s.snapLoaded = true →
    (s.pgrootSnapshot = 0#64 ∨ s.pgrootSnapshot = (s.vcpu snapshotCore).guestCr3) ∧
    (s.vcpu snapshotCore).guestCr3 ≠ s.pgroot
  unloaded : ∀ c, (s.spawn c).stage = 2 → s.snapLoaded = false
  published : (s.func = true ∨ ∃ c, 3 ≤ (s.spawn c).stage ∧ (s.spawn c).stage ≤ 4) →
    s.pgrootSnapshot ≠ 0#64 → s.pgrootSnapshot ≠ s.pgroot
  loading : s.worker = .load → s.pgrootSnapshot ≠ 0#64

theorem checkInv_init (h : Init cfg s) : CheckInv cfg s where
  moved := fun i hi _ => h.root i hi
  mainFault := fun i _ => by simp [MainFaultOk, h.fault]
  snapFault := by simp [SnapFaultOk, h.fault]
  others := fun c _ _ => h.fault c
  snapRequest := by
    obtain ⟨_, hpc, _, _, hcr3⟩ := h.vcpu snapshotCore
    simp [VmxLaunch.State.request, hpc, hcr3]
  snapRoot := fun hl => by simp [h.snapLoaded] at hl
  unloaded := fun _ _ => h.snapLoaded
  published := fun hp => by simp [h.func, h.spawn] at hp
  loading := fun hw => by simp [h.worker] at hw

/-- What the checks read of the cores. -/
structure CoresKept (cfg : Config) (s s' : State) : Prop where
  main : ∀ i ∈ cfg.mains, s'.moved i = true → (s'.vcpu i).guestCr3 = s.pgroot
  guestCr3 : (s'.vcpu snapshotCore).guestCr3 = (s.vcpu snapshotCore).guestCr3
  request : (s'.vcpu snapshotCore).request = none

/-- The rest of what the checks read. -/
structure ChecksKept (s s' : State) : Prop where
  fault : s'.fault = s.fault
  pgroot : s'.pgroot = s.pgroot
  pgrootSnapshot : s'.pgrootSnapshot = s.pgrootSnapshot
  snapLoaded : s'.snapLoaded = s.snapLoaded
  worker : s'.worker = s.worker

theorem CheckInv.kept (hinv : CheckInv cfg s) (hc : CoresKept cfg s s') (hk : ChecksKept s s')
    (hun : ∀ c, (s'.spawn c).stage = 2 → s.snapLoaded = false)
    (hpub : (s'.func = true ∨ ∃ c, 3 ≤ (s'.spawn c).stage ∧ (s'.spawn c).stage ≤ 4) →
      s.func = true ∨ ∃ c, 3 ≤ (s.spawn c).stage ∧ (s.spawn c).stage ≤ 4) : CheckInv cfg s' := by
  refine ⟨?_, ?_, ?_, ?_, hc.request, ?_, ?_, ?_, ?_⟩
  · rw [hk.pgroot]
    exact hc.main
  · intro i hi
    have := hinv.mainFault i hi
    unfold MainFaultOk at this ⊢
    rwa [hk.fault, hk.pgroot]
  · have := hinv.snapFault
    unfold SnapFaultOk at this ⊢
    rwa [hk.fault, hk.snapLoaded, hc.guestCr3]
  · rw [hk.fault]
    exact hinv.others
  · rw [hk.snapLoaded, hk.pgrootSnapshot, hk.pgroot, hc.guestCr3]
    exact hinv.snapRoot
  · rw [hk.snapLoaded]
    exact hun
  · rw [hk.pgrootSnapshot, hk.pgroot]
    exact fun h => hinv.published (hpub h)
  · rw [hk.worker, hk.pgrootSnapshot]
    exact hinv.loading

/-- A step that changes no core. -/
theorem CheckInv.coresKept (hinv : CheckInv cfg s) (hvcpu : s'.vcpu = s.vcpu)
    (hmoved : s'.moved = s.moved) : CoresKept cfg s s' := by
  refine ⟨?_, by rw [hvcpu], by rw [hvcpu]; exact hinv.snapRequest⟩
  rw [hvcpu, hmoved]
  exact hinv.moved

/-- A step that changes one main core. -/
theorem CheckInv.coreKept (hinv : CheckInv cfg s) {i : Nat} {v : VmxLaunch.State}
    (hi : i ∈ cfg.mains) (hvcpu : s'.vcpu = Function.update s.vcpu i v)
    (hmoved : ∀ j, j ≠ i → s'.moved j = s.moved j)
    (hv : s'.moved i = true → v.guestCr3 = s.pgroot) : CoresKept cfg s s' := by
  have hne : snapshotCore ≠ i := fun h => cfg.snapshot_not_main (h ▸ hi)
  refine ⟨?_, by rw [hvcpu, Function.update_of_ne hne],
    by rw [hvcpu, Function.update_of_ne hne]; exact hinv.snapRequest⟩
  intro j hj hm
  by_cases hji : j = i
  · rw [hvcpu, hji, Function.update_self]
    exact hv (hji ▸ hm)
  · rw [hvcpu, Function.update_of_ne hji]
    rw [hmoved j hji] at hm
    exact hinv.moved j hj hm

/-! ## Steps -/

theorem checkInv_vcpu (hinv : CheckInv cfg s) (hsw : SwitchInv cfg s) (hbase : BaseInv s) {i : Nat}
    {v : VmxLaunch.State} (h : VcpuMove s i v s') : CheckInv cfg s' := by
  obtain ⟨l, hl, hs⟩ := h.label
  have hcore := hbase.cores i
  have hstep := VmxLaunch.hostStep hcore.inv hcore.quiet hl hs
  -- A root that a main core has been asked to load is the current one.
  have hold : i ∈ cfg.mains → s.moved i = true → v.guestCr3 = s.pgroot := by
    intro hi hm
    rcases hstep.guestCr3 with hg | hg
    · rw [hg]
      exact hinv.moved i hi hm
    · exact hsw.requests i hi _ hg
  have hmain : ∀ t : State, t.vcpu = Function.update s.vcpu i v →
      (∀ j, j ≠ i → t.moved j = s.moved j) →
      (i ∈ cfg.mains → t.moved i = true → v.guestCr3 = s.pgroot) → CoresKept cfg s t := by
    intro t hvcpu hmoved hv
    by_cases hi : i ∈ cfg.mains
    · exact hinv.coreKept hi hvcpu hmoved (hv hi)
    · refine ⟨?_, ?_, ?_⟩
      · intro j hj hm
        have hji : j ≠ i := fun h => hi (h ▸ hj)
        rw [hvcpu, Function.update_of_ne hji]
        rw [hmoved j hji] at hm
        exact hinv.moved j hj hm
      · by_cases hsnap : snapshotCore = i
        · subst hsnap
          rw [hvcpu, Function.update_self]
          refine hstep.guestCr3.resolve_right fun hg => ?_
          rw [hinv.snapRequest] at hg
          cases hg
        · rw [hvcpu, Function.update_of_ne hsnap]
      · by_cases hsnap : snapshotCore = i
        · subst hsnap
          rw [hvcpu, Function.update_self]
          rcases hstep.request with hr | hr
          · rw [hr]
            exact hinv.snapRequest
          · exact hr
        · rw [hvcpu, Function.update_of_ne hsnap]
          exact hinv.snapRequest
  rcases h.moves with rfl | ⟨rfl, pv, hpc, hch, hroot⟩
  · exact hinv.kept (hmain _ rfl (fun _ _ => rfl) hold) ⟨rfl, rfl, rfl, rfl, rfl⟩ hinv.unloaded id
  · refine hinv.kept (hmain _ rfl (fun j hj => by simp [State.setMoved, State.setVcpu, hj]) ?_)
      ⟨rfl, rfl, rfl, rfl, rfl⟩ hinv.unloaded id
    intro hi _
    rw [hroot]
    exact hsw.requests i hi _ (hcore.request_loading hpc hch)

/-- A change of position that is no publication. -/
theorem stages_kept {c : Nat} {q : SpawnPc} (hq2 : q.stage = 2 → (s.spawn c).stage = 2)
    (hq : 3 ≤ q.stage → q.stage ≤ 4 → 3 ≤ (s.spawn c).stage ∧ (s.spawn c).stage ≤ 4) :
    (∀ c', (Function.update s.spawn c q c').stage = 2 → (s.spawn c').stage = 2) ∧
    ∀ c', 3 ≤ (Function.update s.spawn c q c').stage ∧ (Function.update s.spawn c q c').stage ≤ 4 →
      3 ≤ (s.spawn c').stage ∧ (s.spawn c').stage ≤ 4 := by
  refine ⟨fun c' h => ?_, fun c' h => ?_⟩
  · by_cases hc : c' = c
    · subst hc
      rw [Function.update_self] at h
      exact hq2 h
    · rwa [Function.update_of_ne hc] at h
  · by_cases hc : c' = c
    · subst hc
      rw [Function.update_self] at h
      exact hq h.1 h.2
    · rwa [Function.update_of_ne hc] at h

/-- A step of a spawn that publishes nothing. -/
theorem CheckInv.spawnKept (hinv : CheckInv cfg s) {c : Nat} {q : SpawnPc}
    (hc : CoresKept cfg s s') (hk : ChecksKept s s') (hs : s'.spawn = Function.update s.spawn c q)
    (hfunc : s'.func = true → s.func = true ∨ (s.spawn c).stage = 4)
    (hq2 : q.stage = 2 → (s.spawn c).stage = 2)
    (hq : 3 ≤ q.stage → q.stage ≤ 4 → 3 ≤ (s.spawn c).stage ∧ (s.spawn c).stage ≤ 4) :
    CheckInv cfg s' := by
  obtain ⟨h2, h34⟩ := stages_kept hq2 hq
  refine hinv.kept hc hk (fun c' h => hinv.unloaded c' (h2 c' (by rwa [hs] at h))) ?_
  rintro (h | ⟨c', h⟩)
  · rcases hfunc h with h | h
    · exact .inl h
    · exact .inr ⟨c, by omega⟩
  · rw [hs] at h
    exact .inr ⟨c', h34 c' h⟩

/-- **Publication** of the main root, with no core in its fault handler. -/
theorem checkInv_publish (hinv : CheckInv cfg s) (hbase : BaseInv s) {c : Nat}
    (hpc : s.spawn c = .publish) (hidle : ∀ i ∈ snapshotCore :: cfg.mains, s.fault i = .idle) :
    CheckInv cfg ({ s with
      pgroot := s.shadow1, moved := fun _ => false, snapLoaded := false }.setSpawn c
        .publishSnap) := by
  have hfunc := (hbase.spawn.stage c).func (by simp [hpc])
    (by simp [hpc])
  refine ⟨?_, ?_, ?_, hinv.others, hinv.snapRequest, ?_, fun _ _ => rfl, ?_, hinv.loading⟩
  · intro i _ hm
    cases hm
  · intro i hi
    have := hidle i (List.mem_cons_of_mem _ hi)
    simp [MainFaultOk, State.setSpawn, this]
  · have := hidle snapshotCore List.mem_cons_self
    simp [SnapFaultOk, State.setSpawn, this]
  · intro hl
    cases hl
  · rintro (h | ⟨c', h⟩)
    · change s.func = true at h
      rw [hfunc] at h
      cases h
    · exfalso
      by_cases hc : c' = c
      · subst hc
        simp [State.setSpawn] at h
      · simp only [State.setSpawn, Function.update_of_ne hc] at h
        exact hbase.spawn.alone (by simp [hpc]) (by simp [hpc]) hc
          (by omega) (by omega)

/-- Publication of the snapshot root, which is not the main root. -/
theorem checkInv_publishSnap (hinv : CheckInv cfg s) (hbase : BaseInv s) {c : Nat}
    (hpc : s.spawn c = .publishSnap) {todo : List Nat} :
    CheckInv cfg ({ s with pgrootSnapshot := s.shadow2 }.setSpawn c (.scan todo [])) := by
  have hstage := hbase.spawn.stage c
  rw [hpc] at hstage
  have hroot := hstage.root (by simp) (by simp)
  have hne := hbase.spawn.distinct
    (hstage.shadow1 (by simp) (by simp))
  have hunloaded := hinv.unloaded c (by simp [hpc])
  have h2 := hstage.shadow2 (by simp) (by simp)
  refine { hinv with snapRoot := ?_, unloaded := ?_, published := ?_, loading := fun _ => h2 }
  · intro hl
    change s.snapLoaded = true at hl
    rw [hunloaded] at hl
    cases hl
  · exact fun _ _ => hunloaded
  · intro _ _
    show s.shadow2 ≠ s.pgroot
    rw [hroot]
    exact Ne.symm hne

theorem checkInv_spawn (hinv : CheckInv cfg s) (hsw : SwitchInv cfg s) (hbase : BaseInv s) {c : Nat}
    (hc : c ∈ cfg.mains) {p : SpawnPc} (hpc : s.spawn c = p)
    (hidle : p = .publish → ∀ i ∈ snapshotCore :: cfg.mains, s.fault i = .idle)
    (h : SpawnMove cfg s c p s') : CheckInv cfg s' := by
  have hst : (s.spawn c).stage = p.stage := by rw [hpc]
  cases h with
  | goto hgo =>
    refine hinv.spawnKept (hinv.coresKept rfl rfl) ⟨rfl, rfl, rfl, rfl, rfl⟩ rfl .inl ?_ ?_ <;>
      rw [hst] <;> cases hgo <;> simp
  | @post i v p q hp hflag =>
    have hi : i ∈ cfg.mains := by
      cases hp with
      | first | second => exact hsw.listed c i (by rw [hpc]; simp [SpawnPc.unsent, SpawnPc.sent])
    refine hinv.spawnKept (hinv.coreKept hi rfl (fun _ _ => rfl) (hinv.moved i hi))
      ⟨rfl, rfl, rfl, rfl, rfl⟩ rfl .inl ?_ ?_ <;>
      rw [hst] <;> cases hp <;> simp
  | publish => exact checkInv_publish hinv hbase hpc (hidle rfl)
  | publishSnap => exact checkInv_publishSnap hinv hbase hpc
  | loadRoot =>
    refine hinv.spawnKept (q := .unlock) (hinv.coreKept hc rfl (fun j hj => ?_) fun _ => rfl)
      ⟨rfl, rfl, rfl, rfl, rfl⟩ rfl .inl ?_ ?_
    · simp [State.setSpawn, State.setMoved, State.loadCr3, State.setVcpu, hj]
    · simp
    · simp
  | submit =>
    refine hinv.spawnKept (q := .clear1) (hinv.coresKept rfl rfl) ⟨rfl, rfl, rfl, rfl, rfl⟩ rfl
      (fun _ => .inr hst) ?_ ?_ <;> simp
  | enter _ _ _ _ | reset | fill | queue | send | clear1 | clear2 | unlock | signal =>
    refine hinv.spawnKept (hinv.coresKept rfl rfl) ⟨rfl, rfl, rfl, rfl, rfl⟩ rfl .inl ?_ ?_ <;>
      rw [hst] <;> simp

theorem checkInv_handler (hinv : CheckInv cfg s) (hsw : SwitchInv cfg s) {i : Nat}
    (hi : i ∈ cfg.mains) {p : HandlerPc} (hpc : s.handler i = p) (h : HandlerMove cfg s i p s') :
    CheckInv cfg s' := by
  cases h with
  | @load again c buf =>
    have hroot := hsw.carried i hi c (msgs_of_handler hpc (by simp [HandlerPc.held]))
    refine hinv.kept (hinv.coreKept hi rfl (fun j hj => ?_) fun _ => hroot)
      ⟨rfl, rfl, rfl, rfl, rfl⟩ hinv.unloaded id
    simp [State.setHandler, State.setMoved, State.loadCr3, State.setVcpu, hj]
  | _ =>
    exact hinv.kept (hinv.coresKept rfl rfl) ⟨rfl, rfl, rfl, rfl, rfl⟩ hinv.unloaded id

/-- The worker moves on, with or without its function. -/
theorem CheckInv.setWorker (hinv : CheckInv cfg s) {w : WorkerPc} {f : Bool}
    (hf : f = true → s.func = true) (hw : w = .load → s.pgrootSnapshot ≠ 0#64) :
    CheckInv cfg { s with worker := w, func := f } := by
  refine { hinv with published := ?_, loading := hw }
  rintro (h | h)
  · exact hinv.published (.inl (hf h))
  · exact hinv.published (.inr h)

theorem checkInv_worker (hinv : CheckInv cfg s) (hbase : BaseInv s)
    (hin : s.inThread snapshotCore = true) (h : workerStep s = some s') : CheckInv cfg s' := by
  have hidle : s.fault snapshotCore = .idle := by
    simp only [State.inThread, Bool.and_eq_true, decide_eq_true_eq] at hin
    exact hin.2
  unfold workerStep at h
  split at h <;> rename_i hpc
  · split at h <;> cases h
    exact hinv.setWorker id (by simp)
  · cases h
    refine hinv.setWorker id fun hw => ?_
    split at hw
    · cases hw
    · assumption
  · -- The worker loads a root that is published and not the main root.
    cases h
    have hfunc := hbase.spawn.working (by rw [hpc]; rfl)
    have hnz := hinv.loading hpc
    have hne := hinv.published (.inl hfunc) hnz
    have hguest : (s.vcpu snapshotCore).pc = .guest := inGuest_iff.1 (inThread_guest hin)
    have hcr3 : ((s.loadCr3 snapshotCore s.pgrootSnapshot).vcpu snapshotCore).guestCr3 =
        s.pgrootSnapshot := by
      simp [State.loadCr3, State.setVcpu]
    refine ⟨?_, hinv.mainFault, ?_, hinv.others, ?_, ?_, ?_, hinv.published, by simp⟩
    · intro i hi hm
      have hine : i ≠ snapshotCore := fun h => cfg.snapshot_not_main (h ▸ hi)
      simpa [State.loadCr3, State.setVcpu, hine] using hinv.moved i hi hm
    · simp [SnapFaultOk, State.loadCr3, State.setVcpu, hidle]
    · simpa [State.loadCr3, State.setVcpu] using
        VmxLaunch.request_guest (s := { s.vcpu snapshotCore with guestCr3 := s.pgrootSnapshot }) hguest
    · intro _
      refine ⟨.inr hcr3.symm, ?_⟩
      rw [hcr3]
      exact hne
    · -- While a spawn publishes, the worker has nothing to run.
      intro c hc
      change (s.spawn c).stage = 2 at hc
      have := (hbase.spawn.stage c).func (by omega) (by omega)
      rw [hfunc] at this
      cases this
  · cases h
    exact hinv.setWorker id (by simp)
  · cases h
    exact hinv.setWorker id (by simp)
  · cases h
    exact hinv.setWorker id (by simp)
  · cases h
    exact hinv.setWorker (by simp) (by simp)
  · cases h
    refine { hinv with
      snapRoot := ?_, published := fun _ h => absurd rfl h, loading := by simp }
    exact fun hl => ⟨.inl rfl, (hinv.snapRoot hl).2⟩
  · cases h

/-- A position in the fault handler of core `c` that the invariant allows. -/
theorem CheckInv.setFault (hinv : CheckInv cfg s) {c : Nat} {q : FaultPc}
    (hmain : c ∈ cfg.mains → MainFaultOk (s.setFault c q) c)
    (hsnap : c = snapshotCore → SnapFaultOk (s.setFault c q))
    (hother : c ∈ cfg.mains ∨ c = snapshotCore) : CheckInv cfg (s.setFault c q) := by
  refine { hinv with mainFault := ?_, snapFault := ?_, others := ?_ }
  · intro i hi
    by_cases hic : i = c
    · rw [hic] at hi ⊢
      exact hmain hi
    · have := hinv.mainFault i hi
      simpa [MainFaultOk, State.setFault, hic] using this
  · by_cases hc : c = snapshotCore
    · exact hsnap hc
    · have := hinv.snapFault
      simpa [SnapFaultOk, State.setFault, Ne.symm hc] using this
  · intro i hi hsn
    have hic : i ≠ c := by
      rintro rfl
      exact hother.elim hi hsn
    simpa [State.setFault, hic] using hinv.others i hi hsn

theorem checkInv_fault (hinv : CheckInv cfg s) {c : Nat} {p q : FaultPc} (hpc : s.fault c = p)
    (hok : p = .idle → if c = snapshotCore then s.snapLoaded = true else s.moved c = true)
    (h : FaultMove cfg s c p q) : CheckInv cfg (s.setFault c q) := by
  have hwho : c ∈ cfg.mains ∨ c = snapshotCore := by
    cases h with
    | enter hc => exact hc
    | _ =>
      by_contra hno
      simp only [not_or] at hno
      have := hinv.others c hno.1 hno.2
      rw [hpc] at this
      cases this
  have hmainFault : c ∈ cfg.mains → MainFaultOk s c := hinv.mainFault c
  have hsnapFault : c = snapshotCore → SnapFaultOk s := fun _ => hinv.snapFault
  have hne : c ∈ cfg.mains → c ≠ snapshotCore := fun hc h => cfg.snapshot_not_main (h ▸ hc)
  refine hinv.setFault ?_ ?_ hwho
  · intro hc
    have hfault := hmainFault hc
    simp only [MainFaultOk, hpc] at hfault
    simp only [MainFaultOk, State.setFault, Function.update_self]
    cases h with
    | enter _ =>
      have hm := hok rfl
      rw [if_neg (hne hc)] at hm
      exact hinv.moved c hc hm
    | compare hs _ | compareFails hs _ _ => exact absurd hs (hne hc)
    | snapPasses _ | snapFails _ => exact hfault.elim
    | mainPasses _ hr => exact hr
    | mainFails _ hr => exact hr hfault
    | retry => exact hfault
    | leave => trivial
  · rintro rfl
    have hfault := hinv.snapFault
    simp only [SnapFaultOk, hpc] at hfault
    simp only [SnapFaultOk, State.setFault, Function.update_self]
    cases h with
    | enter _ =>
      have hm := hok rfl
      rw [if_pos rfl] at hm
      exact ⟨hm, rfl⟩
    | compare _ _ => exact hfault
    | compareFails _ h0 hr =>
      have hroot := (hinv.snapRoot hfault.1).1
      rw [hfault.2] at hr
      exact hroot.elim h0 hr
    | snapPasses _ => exact hfault
    | snapFails hr =>
      rw [hfault.2] at hr
      exact (hinv.snapRoot hfault.1).2 hr
    | mainPasses hs _ | mainFails hs _ => exact absurd rfl hs
    | retry => exact hfault
    | leave => trivial

/-! ## Runs -/

theorem checkInv_step {l : Label} (hinv : CheckInv cfg s) (hsw : SwitchInv cfg s)
    (hbase : BaseInv s) (hok : faultsMoved cfg s l = true) (h : step cfg s l = some s') :
    CheckInv cfg s' := by
  cases step_cases h with
  | vcpu hv => exact checkInv_vcpu hinv hsw hbase hv
  | @postFlush i =>
    refine hinv.kept ⟨?_, ?_, ?_⟩ ⟨rfl, rfl, rfl, rfl, rfl⟩ hinv.unloaded id
    · intro j hj hm
      have := hinv.moved j hj hm
      by_cases hji : j = i
      · simpa [State.setVcpu, hji] using hji ▸ this
      · simpa [State.setVcpu, hji] using this
    · by_cases hs : snapshotCore = i
      · simp [State.setVcpu, hs]
      · simp [State.setVcpu, hs]
    · have hreq := hinv.snapRequest
      by_cases hs : snapshotCore = i
      · subst hs
        simp only [State.setVcpu, Function.update_self]
        exact hreq
      · simpa [State.setVcpu, hs] using hreq
  | spawn hc _ hm =>
    refine checkInv_spawn hinv hsw hbase hc rfl (fun hp => ?_) hm
    simp only [faultsMoved, hp, ne_eq, not_true, decide_false, Bool.false_or, List.all_eq_true,
      decide_eq_true_eq] at hok
    exact hok
  | handler hi _ hm => exact checkInv_handler hinv hsw hi rfl hm
  | worker hin hw => exact checkInv_worker hinv hbase hin hw
  | copier hc =>
    unfold copierStep at hc
    split at hc
    · split at hc <;> cases hc
      exact hinv.kept (hinv.coresKept rfl rfl) ⟨rfl, rfl, rfl, rfl, rfl⟩ hinv.unloaded id
    all_goals cases hc
    all_goals exact hinv.kept (hinv.coresKept rfl rfl) ⟨rfl, rfl, rfl, rfl, rfl⟩ hinv.unloaded id
  | clone _ _ _ | signalCopy | tlbReady | tlbAddr =>
    exact hinv.kept (hinv.coresKept rfl rfl) ⟨rfl, rfl, rfl, rfl, rfl⟩ hinv.unloaded id
  | fault hf hl =>
    refine checkInv_fault hinv rfl (fun hidle => ?_) hf
    rw [hl hidle] at hok
    simp only [faultsMoved] at hok
    split at hok
    · rwa [if_pos ‹_›]
    · rwa [if_neg ‹_›]

theorem checkInv_runsTo (h : (system cfg).RunsTo (fun s l => faultsChecked cfg s l = true) s) :
    CheckInv cfg s := by
  have hclean : ∀ t, (system cfg).RunsTo (fun s l => faultsChecked cfg s l = true) t →
      (system cfg).RunsTo (fun s l => clean cfg s l = true) t := by
    intro t ht
    refine System.RunsTo.mono (fun s l hok => ?_) ht
    simp only [faultsChecked, Bool.and_eq_true] at hok
    exact hok.1
  induction h with
  | init h => exact checkInv_init h
  | step hr hok hs ih =>
    simp only [faultsChecked, Bool.and_eq_true] at hok
    exact checkInv_step ih (switchInv_runsTo (hclean _ hr)) (baseInv_reachable hr.reachable) hok.2 hs

/-- **The root checks pass** at every fault, over any number of spawns and
    completions, in every run in which cores fault on the root published
    last. -/
theorem checks_pass (h : (system cfg).RunsTo (fun s l => faultsChecked cfg s l = true) s)
    (c : Nat) :
    s.fault c ≠ .failed := by
  have hinv := checkInv_runsTo h
  intro hf
  by_cases hmain : c ∈ cfg.mains
  · have := hinv.mainFault c hmain
    simp [MainFaultOk, hf] at this
  · by_cases hsnap : c = snapshotCore
    · have := hinv.snapFault
      rw [hsnap] at hf
      simp [SnapFaultOk, hf] at this
    · rw [hinv.others c hmain hsnap] at hf
      cases hf

/-- Both cores and the snapshot worker fault after their switch, in the
    first snapshot and in the second. -/
theorem checks_pass_two_spawns :
    ∃ s, (system twoCores).RunsTo (fun s l => faultsChecked twoCores s l = true) s ∧
      (s.fault 1 = .passed 0x4000#64 ∧ s.fault snapshotCore = .passed 0x5000#64) ∧
      ∀ c, s.fault c ≠ .failed := by
  obtain ⟨s, hrun, hs⟩ := (system twoCores).exists_runsTo (faultsChecked twoCores)
    (init_boot twoCores)
    (started ++ [Label.faultEnter 1, .faultCheck 1, .faultLeave 1] ++ queueMessage ++ handle ++
      [Label.spawn 0] ++ finishSpawn ++ nextTables ++ queueMessage ++ handle ++ [Label.spawn 0] ++
      List.replicate 6 (Label.spawn 0) ++ List.replicate 4 Label.worker ++
      [Label.faultEnter 1, .faultCheck 1, .faultEnter snapshotCore, .faultCheck snapshotCore,
        .faultCheck snapshotCore])
    (fun t => t.fault 1 = .passed 0x4000#64 ∧ t.fault snapshotCore = .passed 0x5000#64)
    (by decide +kernel)
  exact ⟨s, hrun, hs, checks_pass hrun⟩

/-- **Early fault**: in the second spawn, core 0 has published the new root, and core 1
    faults before it is told. -/
theorem early_fault_asserts :
    Init twoCores boot ∧
    ∃ s, (system twoCores).exec boot
      (started ++ queueMessage ++ handle ++ [.spawn 0] ++ finishSpawn ++ nextTables ++
        List.replicate 3 (.spawn 0) ++ [.faultEnter 1, .faultCheck 1]) = some s ∧
      s.pgroot = 0x4000#64 ∧ s.fault 1 = .failed := by
  refine ⟨init_boot twoCores, ?_⟩
  exact (system twoCores).exists_exec _ _ _ (by decide +kernel)

end RootSwitch
