import Libdbos.FastSpawn.SnapLeaf

/-! # Selective TLB Shootdown

    When a main core has moved the snapshot leaf of a page to a copy, the
    snapshot core may still have the shared frame in its TLB. The main
    core skips the shootdown if the snapshot thread has not started, or,
    with selective shootdown, if the accessed bit of the leaf was clear
    all along. The second reason is sound: the walker sets the bit before
    it caches the leaf, and the bit makes either of the two
    compare-exchanges tell.

    The first reason rests on a sample of the thread state taken at the
    start of the fault. By the time it is used the worker may have loaded
    its root and cached the page.

    * `stale_sample_keeps_translation`: a run in which this happens;
    * `selective_shootdown`: as long as a sample that says "not started" is
      used only before the worker has loaded its root, no stale
      translation is left when the main leaf becomes writable.

    The runs are those of main-core faults next to the worker; the
    snapshot core reads and takes no write fault.
-/

open LTS

namespace CowFault

open Pte

variable {α : Type} {cfg : Config} {s s' : State α} {c : Nat} {l : Label α}

/-! ## The condition -/

/-- Only main cores fault, and a handler that decides about the shootdown
    on a sample "not started" does so before the worker loads its root. -/
def sampleCurrent (s : State α) : Label α → Bool
  | .fault c _ _ => c != snapshotCore
  | .handler c =>
      match s.pc c with
      | .shootdown _ _ started _ => started || s.worker == .waiting
      | _ => true
  | _ => true

/-! ## The invariant -/

/-- Positions a main core reaches only after the snapshot leaf has moved,
    as long as there is a snapshot table. -/
def Pc.afterMove : Pc → Option Va
  | .storeOwned va _ | .storeDiverged va _ _ | .unlockMain va _ | .unlockAlone va _ => some va
  | _ => none

structure TlbInv (s : State α) : Prop where
  reader : s.pc snapshotCore = .idle
  empty : s.worker = .waiting → ∀ va, s.tlb va = none
  /-- What is cached of a leaf that has not moved left its mark on it. -/
  marked : ∀ va, s.replaced va = 0 → s.tlb va ≠ none → isA (s.snap va) = true
  /-- The shared frame of a moved leaf is cached only as long as a core is
      about to shoot it down. -/
  pending : ∀ va, s.replaced va ≠ 0 → s.tlb va = some (pteAddr (s.main va)) →
    ∃ c old started, s.pc c = .shootdown va old started true
  afterMove : ∀ c va, (s.pc c).afterMove = some va → s.replaced va ≠ 0

theorem tlbInv_init (h : Init cfg s) : TlbInv s where
  reader := h.idle snapshotCore
  empty := fun _ => h.tlb
  marked := fun va _ hne => absurd (h.tlb va) hne
  pending := fun va _ hsome => by simp [h.tlb va] at hsome
  afterMove := fun c va hc => by simp [h.idle c, Pc.afterMove] at hc

/-- **The lock of a snapshot leaf is free** when a main core goes for it,
    as long as the snapshot core takes no fault. -/
theorem lockRespected_of_reader (hmainInv : MainInv cfg s) (hinv : SnapInv cfg s)
    (hreader : s.pc snapshotCore = .idle) : lockRespected s l = true := by
  cases l with
  | handler c =>
    simp only [lockRespected]
    split
    · rename_i va old started sold hpc
      rw [Bool.or_eq_true]
      by_cases heq : s.snap va = sold
      · refine Or.inr ?_
        by_contra hlocked
        simp only [Bool.not_eq_true', Bool.not_eq_false] at hlocked
        rw [← heq] at hlocked
        -- The holder is a main core, so it holds the main leaf too, as this core does.
        obtain ⟨d, (hd : (s.claim d).snap = some va)⟩ := hinv.locks.locked_held va hlocked
        have hc : c ≠ snapshotCore := (hmainInv.positions c).main (by rw [hpc]; rfl)
        have hdc : d ≠ snapshotCore := by
          rintro rfl
          simp [State.claim, hreader, claimAt_idle] at hd
        have hdmain : (s.claim d).main = some va := by
          rw [State.claim, claimAt_main hdc] at hd ⊢
          cases hp : s.pc d <;> simp_all [mainClaim]
        have hcmain : (s.claim c).main = some va := by
          rw [State.claim, claimAt_main hc, hpc]
          rfl
        have hsame := hmainInv.locks.exclusive d c va hdmain hcmain
        subst hsame
        rw [State.claim, claimAt_main hc, hpc] at hd
        cases hd
      · exact Or.inl (by simpa using heq)
    · rfl
  | _ => rfl

/-- A step of a main core that moves no leaf and leaves the TLB alone. -/
theorem tlbInv_core (hinv : TlbInv s) (hc : c ≠ snapshotCore)
    (hother : ∀ d, d ≠ c → s'.pc d = s.pc d)
    (hmain : ∀ va, pteAddr (s'.main va) = pteAddr (s.main va))
    (hmark : ∀ va, isA (s.snap va) = true → isA (s'.snap va) = true)
    (hrep : s'.replaced = s.replaced) (htlb : s'.tlb = s.tlb) (hworker : s'.worker = s.worker)
    (hpend : ∀ va old started, s.pc c = .shootdown va old started true →
      s.tlb va ≠ some (pteAddr (s.main va)))
    (hmoved : ∀ va, (s'.pc c).afterMove = some va → s.replaced va ≠ 0) : TlbInv s' where
  reader := (hother _ (Ne.symm hc)).trans hinv.reader
  empty := by rw [hworker, htlb]; exact hinv.empty
  marked := fun va hva hne => by
    rw [hrep] at hva
    rw [htlb] at hne
    exact hmark va (hinv.marked va hva hne)
  pending := fun va hva hsome => by
    rw [hrep] at hva
    rw [htlb, hmain] at hsome
    obtain ⟨d, old, started, hd⟩ := hinv.pending va hva hsome
    have hdc : d ≠ c := by
      rintro rfl
      exact hpend va old started hd hsome
    exact ⟨d, old, started, (hother d hdc).trans hd⟩
  afterMove := fun d va hd => by
    rw [hrep]
    by_cases hdc : d = c
    · subst hdc
      exact hmoved va hd
    · rw [hother d hdc] at hd
      exact hinv.afterMove d va hd

/-- A step that leaves the positions of all cores and the TLB alone. -/
theorem tlbInv_env (hinv : TlbInv s) (hpc : s'.pc = s.pc)
    (hmain : ∀ va, pteAddr (s'.main va) = pteAddr (s.main va))
    (hmark : ∀ va, isA (s.snap va) = true → isA (s'.snap va) = true)
    (hrep : s'.replaced = s.replaced) (htlb : s'.tlb = s.tlb) (hworker : s'.worker = s.worker) :
    TlbInv s' where
  reader := by rw [hpc]; exact hinv.reader
  empty := by rw [hworker, htlb]; exact hinv.empty
  marked := fun va hva hne => by
    rw [hrep] at hva
    rw [htlb] at hne
    exact hmark va (hinv.marked va hva hne)
  pending := fun va hva hsome => by
    rw [hrep] at hva
    rw [htlb, hmain] at hsome
    rw [hpc]
    exact hinv.pending va hva hsome
  afterMove := by rw [hpc, hrep]; exact hinv.afterMove

theorem isA_setSnap {va : Va} {w : Word} {pc : Pc} (h : isA (s.snap va) = true → isA w = true)
    (v : Va) (hv : isA (s.snap v) = true) : isA (((s.setSnap va w).setPc c pc).snap v) = true := by
  by_cases hva : v = va
  · subst hva
    simpa [State.setPc, State.setSnap] using h hv
  · simpa [State.setPc, State.setSnap, hva] using hv

/-- **A main core moves the snapshot leaf.** If the page is cached, the
    core has noticed. -/
theorem tlbInv_replace (hinv : TlbInv s) (hc : c ≠ snapshotCore) {va : Va} {old w : Word}
    {started need : Bool} (hzero : s.replaced va = 0)
    (hpc : ∀ va old started need, s.pc c ≠ .shootdown va old started need)
    (hneed : s.tlb va ≠ none → need = true) :
    TlbInv ((s.replace va w).setPc c (.shootdown va old started need)) := by
  have hrep : ∀ v, v ≠ va → (s.replace va w).replaced v = s.replaced v := by
    intro v hv
    simp [State.replace, State.setSnap, hv]
  have hrep' : (s.replace va w).replaced va ≠ 0 := by simp [State.replace, State.setSnap]
  have hother : ∀ d, d ≠ c →
      ((s.replace va w).setPc c (.shootdown va old started need)).pc d = s.pc d := by
    intro d hd
    simp [State.setPc, State.replace, State.setSnap, hd]
  refine ⟨?_, hinv.empty, ?_, ?_, ?_⟩
  · rw [hother _ (Ne.symm hc)]; exact hinv.reader
  · intro v hv hne
    have hva : v ≠ va := fun h => hrep' (h ▸ hv)
    have hmark := hinv.marked v ((hrep v hva).symm.trans hv) hne
    simpa [State.setPc, State.replace, State.setSnap, hva] using hmark
  · intro v hv hsome
    by_cases hva : v = va
    · subst hva
      have htlb : s.tlb v ≠ none := by
        intro hnone
        rw [show ((s.replace v w).setPc c _).tlb v = s.tlb v from rfl, hnone] at hsome
        cases hsome
      exact ⟨c, old, started, by simp [State.setPc, hneed htlb]⟩
    · obtain ⟨d, old', started', hd⟩ := hinv.pending v (by rw [← hrep v hva]; exact hv) hsome
      have hdc : d ≠ c := by
        rintro rfl
        exact hpc _ _ _ _ hd
      exact ⟨d, old', started', (hother d hdc).trans hd⟩
  · intro d v hd
    by_cases hdc : d = c
    · simp [State.setPc, hdc, Pc.afterMove] at hd
    · rw [hother d hdc] at hd
      by_cases hva : v = va
      · rw [hva]; exact hrep'
      · show (s.replace va w).replaced v ≠ 0
        rw [hrep v hva]
        exact hinv.afterMove d v hd

/-- A page whose frame has a single reference has dropped the snapshot's. -/
theorem moved_of_refOne (hmainInv : MainInv cfg s) (hsnapInv : SnapInv cfg s)
    (hc : c ≠ snapshotCore) {va : Va} {old : Word} (hpc : s.pc c = .readRef va old)
    (hpool : cfg.isFromPool (pteAddr old) = true) (hone : s.ref (pteAddr old) = 1) :
    s.replaced va ≠ 0 := by
  intro hzero
  have hdropped : s.dropped va = 0 := by
    have := hsnapInv.dropped va
    omega
  have hclaim : s.claim c = { main := some va, old := old } := by
    rw [State.claim, hpc, claimAt_main hc]; rfl
  have hsame := (hmainInv.held c va (by rw [hclaim])).1.addr
  rw [hclaim] at hsame
  have htwo := two_le_refsHeld (s := s) ((hmainInv.positions c).mapped va (by rw [hpc]; rfl)) hdropped
  rw [show pteAddr (s.main va) = pteAddr old from hsame] at htwo
  have := hsnapInv.refs _ hpool
  omega

theorem tlbInv_goto (hexists : cfg.snapshotExists = true) (hmainInv : MainInv cfg s)
    (hsnapInv : SnapInv cfg s) (hinv : TlbInv s)
    (hok : sampleCurrent s (.handler c) = true) (hc : c ≠ snapshotCore) {p' : Pc}
    (h : Goto cfg s c (s.pc c) p') : TlbInv (s.setPc c p') := by
  refine tlbInv_core (c := c) hinv hc (fun d hd => by simp [State.setPc, hd]) (fun _ => rfl)
    (fun _ => id) rfl rfl rfl ?_ ?_
  · -- A shootdown is skipped only while the worker has not loaded its root.
    intro va old started hpc
    rw [hpc] at h
    cases h with
    | noShootdown hskip =>
      have hstarted : started = false := by simpa using hskip
      have hwait : s.worker = .waiting := by simpa [sampleCurrent, hpc, hstarted] using hok
      simp [hinv.empty hwait va]
  · intro va hva
    simp only [State.setPc, Function.update_self] at hva
    generalize hpc : s.pc c = p at h
    cases h with
    | refOne hpool hone =>
      cases hva
      exact moved_of_refOne hmainInv hsnapInv hc hpc hpool hone
    | sampleAlone _ hnone =>
      rw [hexists] at hnone
      cases hnone
    | _ => cases hva

theorem tlbInv_handler (hexists : cfg.snapshotExists = true) (hmainInv : MainInv cfg s)
    (hsnapInv : SnapInv cfg s) (hinv : TlbInv s)
    (hok : sampleCurrent s (.handler c) = true) (hstep : step cfg s (.handler c) = some s')
    (h : HandlerMove cfg s c (s.pc c) s') : TlbInv s' := by
  have hc : c ≠ snapshotCore := by
    rintro rfl
    rw [hinv.reader] at h
    cases h with
    | goto h => cases h
  have haddr : ∀ va, pteAddr (s'.main va) = pteAddr (s.main va) :=
    fun va => (main_evolves hmainInv hstep va).1.addr
  have hmoved := hinv.afterMove c
  have hclaims := hsnapInv.claims c
  generalize hpc : s.pc c = p at h hmoved
  have hclaim : s.claim c = mainClaim p := by rw [State.claim, hpc, claimAt_main hc]
  cases h with
  | goto h =>
    subst hpc
    exact tlbInv_goto hexists hmainInv hsnapInv hinv hok hc h
  | lockMain _ _ | ownMain _ | restore | unlockMain | unlockAlone =>
    exact tlbInv_core hinv hc (fun d hd => by simp [State.setPc, State.setMain, hd]) haddr
      (fun _ => id) rfl rfl rfl (by simp [hpc]) (by simp [State.setPc, Pc.afterMove])
  | @lockShared va old started sold heq hsame =>
    exact tlbInv_core hinv hc (fun d hd => by simp [State.setPc, State.setSnap, hd]) haddr
      (isA_setSnap (by simp [← heq])) rfl rfl rfl (by simp [hpc])
      (by simp [State.setPc, Pc.afterMove])
  | @lockDiverged va old started sold heq hdiff =>
    refine tlbInv_core hinv hc (fun d hd => by simp [State.setPc, State.setSnap, hd]) haddr
      (isA_setSnap (by simp [← heq])) rfl rfl rfl (by simp [hpc]) ?_
    -- The frames differ, so the snapshot leaf has moved.
    intro v hv hzero
    simp only [State.setPc, Function.update_self, Pc.afterMove, Option.some.injEq] at hv
    subst hv
    have hsame := (hmainInv.held c va (by rw [hclaim]; rfl)).1.addr
    rw [hclaim] at hsame
    apply hdiff
    rw [← heq, hsnapInv.shared va hzero, hsame]
    rfl
  | @storeDiverged va old sold =>
    refine tlbInv_core hinv hc (fun d hd => by simp [State.setPc, State.setSnap, hd]) haddr
      (isA_setSnap (by simp)) rfl rfl rfl (by simp [hpc]) ?_
    intro v hv
    simp only [State.setPc, Function.update_self, Pc.afterMove, Option.some.injEq] at hv
    subst hv
    exact hmoved va rfl
  | @install va old started sold page heq =>
    obtain ⟨_, hzero, _⟩ := hclaims.sharing va (by rw [hclaim]; rfl)
    refine tlbInv_replace hinv hc hzero (by simp [hpc]) ?_
    -- A cached leaf is marked, and the compare-exchange saw this very leaf.
    intro hne
    rw [← heq]
    exact hinv.marked va hzero hne
  | @overwrite va old started page now =>
    obtain ⟨_, hzero, _⟩ := hclaims.sharing va (by rw [hclaim]; rfl)
    exact tlbInv_replace hinv hc hzero (by simp [hpc]) (fun _ => rfl)
  | @shootdown va old started need _ =>
    have hother : ∀ d, d ≠ c →
        ({ s with tlb := Function.update s.tlb va none }.setPc c (.putMain va old)).pc d = s.pc d := by
      intro d hd
      simp [State.setPc, hd]
    have htlb : ∀ v, Function.update s.tlb va none v ≠ none → v ≠ va ∧ s.tlb v ≠ none := by
      intro v hv
      have hne : v ≠ va := by
        rintro rfl
        simp at hv
      exact ⟨hne, by simpa [hne] using hv⟩
    refine ⟨?_, ?_, ?_, ?_, ?_⟩
    · rw [hother _ (Ne.symm hc)]; exact hinv.reader
    · intro hwait v
      by_contra hne
      exact (htlb v hne).2 (hinv.empty hwait v)
    · intro v hv hne
      exact hinv.marked v hv (htlb v hne).2
    · intro v hv hsome
      obtain ⟨hne, _⟩ := htlb v (by rw [show Function.update s.tlb va none v = _ from hsome]; simp)
      have hsome' : s.tlb v = some (pteAddr (s.main v)) := by
        simpa [State.setPc, hne] using hsome
      obtain ⟨d, old', started', hd⟩ := hinv.pending v hv hsome'
      have hdc : d ≠ c := by
        rintro rfl
        rw [hpc] at hd
        cases hd
        exact hne rfl
      exact ⟨d, old', started', (hother d hdc).trans hd⟩
    · intro d v hd
      by_cases hdc : d = c
      · simp [State.setPc, hdc, Pc.afterMove] at hd
      · rw [hother d hdc] at hd
        exact hinv.afterMove d v hd
  | @putMain va old =>
    obtain ⟨_, hone, _⟩ := hclaims.drop va (by rw [hclaim]; rfl)
    refine tlbInv_core hinv hc ?_ haddr ?_ (put_field State.replaced (fun _ _ => rfl) _ _)
      (put_field State.tlb (fun _ _ => rfl) _ _) (put_field State.worker (fun _ _ => rfl) _ _)
      (by simp [hpc]) ?_
    · intro d hd
      simp only [State.setPc, Function.update_of_ne hd]
      exact congrFun (put_field State.pc (fun _ _ => rfl) _ _) d
    · intro v hv
      rw [show ((s.put cfg va (pteAddr old)).setPc c _).snap = s.snap from
        put_field State.snap (fun _ _ => rfl) _ _]
      exact hv
    · intro v hv
      simp only [State.setPc, Function.update_self, Pc.afterMove, Option.some.injEq] at hv
      subst hv
      omega
  | storeSnap | putSnap => exact absurd ((hmainInv.positions c).snapshot (by rw [hpc]; rfl)) hc
  | lockOwn h _ => exact absurd h hc
  | ownSnap h => exact absurd h hc
  | flushSnap h => exact absurd h hc

theorem tlbInv_step (hexists : cfg.snapshotExists = true) (hmainInv : MainInv cfg s)
    (hsnapInv : SnapInv cfg s) (hinv : TlbInv s) (hok : sampleCurrent s l = true)
    (hstep : step cfg s l = some s') : TlbInv s' := by
  have haddr : ∀ va, pteAddr (s'.main va) = pteAddr (s.main va) :=
    fun va => (main_evolves hmainInv hstep va).1.addr
  have hmove := step_cases hstep
  cases hmove with
  | @fault c va write hidle _ _ =>
    have hc : c ≠ snapshotCore := by simpa [sampleCurrent] using hok
    exact tlbInv_core hinv hc (fun d hd => by simp [State.setPc, hd]) haddr (fun _ => id) rfl rfl rfl
      (by simp [hidle]) (by simp [State.setPc, Pc.afterMove])
  | handler h => exact tlbInv_handler hexists hmainInv hsnapInv hinv hok hstep h
  | @copySnap c page va old _ hpc =>
    have hc : c = snapshotCore := (hmainInv.positions c).snapshot (by rw [hpc]; rfl)
    rw [hc, hinv.reader] at hpc
    cases hpc
  | @copyMain c page va old started sold _ hpc =>
    have hc : c ≠ snapshotCore := (hmainInv.positions c).main (by rw [hpc]; rfl)
    exact tlbInv_core hinv hc (fun d hd => by simp [State.setPc, State.copyInto, hd]) haddr
      (fun _ => id) rfl rfl rfl (by simp [hpc]) (by simp [State.setPc, Pc.afterMove])
  | walkMain _ | storeMain _ _ | storeSnap _ _ =>
    exact tlbInv_env hinv rfl haddr (fun _ => id) rfl rfl rfl
  | @walkSnap va write w _ hw =>
    refine tlbInv_env hinv rfl haddr ?_ rfl rfl rfl
    intro v hv
    by_cases hva : v = va
    · simp [State.setSnap, hva, hw.marks]
    · simpa [State.setSnap, hva] using hv
  | @cacheSnap va hroot _ ha =>
    refine ⟨hinv.reader, fun hwait => absurd hwait hroot, ?_, ?_, hinv.afterMove⟩
    · intro v hv hne
      by_cases hva : v = va
      · rw [hva]; exact ha
      · exact hinv.marked v hv (by simpa [hva] using hne)
    · intro v hv hsome
      by_cases hva : v = va
      · -- A moved leaf is on a frame of its own.
        subst hva
        simp only [Function.update_self, Option.some.injEq] at hsome
        have hpriv := hsnapInv.owned_private (.leaf v) (pteAddr (s.snap v))
          (by rw [owned_leaf, if_neg hv])
        exact absurd hsome.symm (hpriv.2.2 v)
      · exact hinv.pending v hv (by simpa [hva] using hsome)
  | loadRoot _ =>
    exact ⟨hinv.reader, fun hwait => (by cases hwait), fun va _ hne => absurd rfl hne,
      fun va _ hsome => (by simp at hsome), hinv.afterMove⟩
  | announce hload =>
    exact ⟨hinv.reader, fun hwait => (by cases hwait), hinv.marked, hinv.pending, hinv.afterMove⟩
  | walk h =>
    have hf := walkStep_frame h
    exact tlbInv_env hinv hf.pc haddr (fun _ => by rw [hf.snap]; exact id) hf.replaced hf.tlb hf.worker

/-- Both tables and the TLB of the snapshot core. -/
structure ReaderInv (cfg : Config) (s : State α) : Prop where
  snap : SnapInv cfg s
  tlb : TlbInv s

theorem readerInv_runsTo (hexists : cfg.snapshotExists = true)
    (h : (system (α := α) cfg).RunsTo (fun s l => sampleCurrent s l = true) s) :
    ReaderInv cfg s := by
  refine System.invariant_when_using (fun _ hr => mainInv_reachable hr.reachable)
    (fun _ hinit => ⟨snapInv_init hinit, tlbInv_init hinit⟩) ?_ h
  intro s l s' hmainInv ⟨hsnapInv, hinv⟩ hok hstep
  exact ⟨snapInv_step hmainInv hsnapInv
      (lockRespected_of_reader hmainInv hsnapInv hinv.reader) hstep,
    tlbInv_step hexists hmainInv hsnapInv hinv hok hstep⟩

/-! ## Shootdowns -/

/-- The step from `s` to `s'` makes the main leaf of `va` writable while the
    snapshot core has the frame of that leaf cached. -/
def LeavesStale (s s' : State α) (va : Va) : Prop :=
  isW (s.main va) = false ∧ isW (s'.main va) = true ∧ s'.tlb va = some (pteAddr (s'.main va))

instance (s s' : State α) (va : Va) : Decidable (LeavesStale s s' va) :=
  inferInstanceAs (Decidable (_ ∧ _ ∧ _))

/-- A leaf becomes writable by the step of a core that holds its lock and
    is at a position after the move of the snapshot leaf. -/
theorem writable_step (hmainInv : MainInv cfg s) (hstep : step cfg s l = some s') {va : Va}
    (hro : isW (s.main va) = false) (hw : isW (s'.main va) = true) :
    ∃ c, c ≠ snapshotCore ∧ (s.pc c).afterMove = some va ∧ (s.claim c).main = some va ∧
      s'.tlb = s.tlb := by
  -- An update of another leaf, or one that keeps the bit, is not the step.
  have hupd : ∀ {v : Va} {w : Word}, isW (Function.update s.main v w va) = true →
      v = va ∧ isW w = true := by
    intro v w h
    by_cases hv : va = v
    · subst hv
      exact ⟨rfl, by simpa using h⟩
    · rw [Function.update_of_ne hv, hro] at h
      cases h
  cases step_cases hstep with
  | @handler c _ h =>
    have hpos := hmainInv.positions c
    generalize hpc : s.pc c = p at h hpos
    have hclaim : c ≠ snapshotCore → s.claim c = mainClaim p := fun hc => by
      rw [State.claim, hpc, claimAt_main hc]
    cases h with
    | @lockMain v old hc heq =>
      have hchecked := (hpos.checked v old rfl).2.1
      have := (hupd hw).2
      simp [hchecked] at this
    | restore =>
      have := (hupd hw).2
      simp at this
    | @ownMain v old hc =>
      obtain ⟨rfl, _⟩ := hupd hw
      exact ⟨c, hc, by rw [hpc]; rfl, by rw [hclaim hc]; rfl, rfl⟩
    | @unlockMain v old | @unlockAlone v old =>
      obtain ⟨rfl, _⟩ := hupd hw
      have hc := hpos.main rfl
      exact ⟨c, hc, by rw [hpc]; rfl, by rw [hclaim hc]; rfl, rfl⟩
    | putSnap =>
      rw [setPc_main, put_main, hro] at hw
      cases hw
    | putMain =>
      rw [setPc_main, put_main, hro] at hw
      cases hw
    | _ => exact absurd (hro.symm.trans hw) (by simp)
  | @walkMain v write w hwalk =>
    obtain ⟨rfl, hset⟩ := hupd hw
    rw [hwalk.flags.2.2.2.1, hro] at hset
    cases hset
  | walk h =>
    rw [(walkStep_frame h).main, hro] at hw
    cases hw
  | _ => exact absurd (hro.symm.trans hw) (by simp)

/-- **Selective shootdown is sound**, with either setting, in every run in
    which the sampled thread state is still current when it is used. -/
theorem selective_shootdown (hexists : cfg.snapshotExists = true)
    (h : (system (α := α) cfg).RunsTo (fun s l => sampleCurrent s l = true) s)
    (hstep : step cfg s l = some s') (va : Va) : ¬ LeavesStale s s' va := by
  rintro ⟨hro, hw, hstale⟩
  have hmainInv := mainInv_reachable h.reachable
  have hinv := (readerInv_runsTo hexists h).tlb
  obtain ⟨c, hc, hafter, hheld, htlb⟩ := writable_step hmainInv hstep hro hw
  rw [htlb, (main_evolves hmainInv hstep va).1.addr] at hstale
  -- A pending shootdown would be that of another holder of the lock.
  obtain ⟨d, old, started, hd⟩ := hinv.pending va (hinv.afterMove c va hafter) hstale
  have hdc : d ≠ snapshotCore := (hmainInv.positions d).main (by rw [hd]; rfl)
  have hdheld : (s.claim d).main = some va := by
    rw [State.claim, hd, claimAt_main hdc]; rfl
  have hsame := hmainInv.locks.exclusive d c va hdheld hheld
  subst hsame
  rw [hd] at hafter
  cases hafter

/-- The snapshot core reads the page before a main core faults on it. -/
def readBefore : List (Label Nat) :=
  [Label.loadRoot, .announce, .walkSnap 0x1000#64 false, .cacheSnap 0x1000#64,
    .fault 0 0x1000#64 true] ++
  List.replicate 6 (Label.handler 0) ++ [Label.copy 0 0x100001000#64] ++
  List.replicate 3 (Label.handler 0)

theorem selective_shootdown_read_before :
    ∃ s s' : State Nat, (system onePage).RunsTo (fun s l => sampleCurrent s l = true) s ∧
      step onePage s (.handler 0) = some s' ∧
      (isW (s.main 0x1000#64) = false ∧ isW (s'.main 0x1000#64) = true) ∧
      ¬ LeavesStale s s' 0x1000#64 := by
  obtain ⟨s, hrun, hend⟩ := System.exists_runsTo (system onePage) sampleCurrent init_afterSwitch
    readBefore (fun s => (step onePage s (.handler 0)).any fun s' : State Nat =>
      decide (isW (s.main 0x1000#64) = false ∧ isW (s'.main 0x1000#64) = true)) (by decide +kernel)
  obtain ⟨s', hstep, hw⟩ := (Option.any_eq_true _ _).1 hend
  exact ⟨s, s', hrun, hstep, of_decide_eq_true hw, selective_shootdown rfl hrun hstep _⟩

/-- A main core samples the thread state; then the worker loads its root,
    announces itself, reads the page and caches it; then the main core goes
    on and skips the shootdown. -/
def readAfterSample : List (Label Nat) :=
  [Label.fault 0 0x1000#64 true] ++ List.replicate 4 (Label.handler 0) ++
  [Label.loadRoot, .announce, .walkSnap 0x1000#64 false, .cacheSnap 0x1000#64] ++
  List.replicate 2 (Label.handler 0) ++ [Label.copy 0 0x100001000#64] ++
  List.replicate 3 (Label.handler 0)

/-- **A stale sample leaves a stale translation.** The accessed bit was
    seen, but the snapshot thread was taken not to have started. -/
theorem stale_sample_keeps_translation :
    ∃ s s' : State Nat, (system onePage).exec afterSwitch readAfterSample = some s ∧
      (system onePage).Reachable s ∧ step onePage s (.handler 0) = some s' ∧
      LeavesStale s s' 0x1000#64 := by
  obtain ⟨s, hexec, hend⟩ := System.exists_exec (system onePage) afterSwitch readAfterSample
    (fun s => (step onePage s (.handler 0)).any fun s' : State Nat =>
      decide (LeavesStale s s' 0x1000#64)) (by decide +kernel)
  obtain ⟨s', hstep, hstale⟩ := (Option.any_eq_true _ _).1 hend
  exact ⟨s, s', hexec, System.reachable_of_exec init_afterSwitch hexec, hstep,
    of_decide_eq_true hstale⟩

end CowFault
