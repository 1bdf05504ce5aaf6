import Libdbos.FastSpawn.MainLeaf

/-! # Copying the Live Table

    `pgtable_cow_copy` walks the main table while fault handlers work on
    the same leaves, and loads `*pte` anew for every test and every copy.
    A page under copy-on-write (present, neither stack nor exempt, and
    writable or marked) must come out write-protected and marked in both
    shadow tables.

    The tests protect against one order of events only. A leaf that is
    writable when it is tested stays writable, and both copies are made
    from a mask that protects it. A leaf that is not writable yet takes
    the other branch, which copies it as it is; if a handler makes it
    writable in between, the shadow entry is writable as well.

    * `late_fault_leaks`: a run in which this happens;
    * `shadow_copy`: if no leaf becomes writable between its failed test
      and its second copy, both shadow tables are right.
-/

open LTS

namespace CowFault

open Pte

variable {α : Type} {cfg : Config} {s s' : State α} {l : Label α}

/-! ## Pages under copy-on-write -/

/-- Whether a page is under copy-on-write does not change. -/
theorem Evolves.tracked {v w : Word} (h : Evolves v w) : tracked w = tracked v := by
  obtain ⟨hmap, hprot⟩ := h
  have hany : (isW w || isCow w) = (isW v || isCow v) := by
    rcases hprot with ⟨hcow, hw⟩ | ⟨hcow, hw, hcow', hw'⟩
    · rw [hcow, hw]
    · rw [hcow, hw, hcow', hw']; rfl
  simp only [Pte.tracked, hmap.p, hmap.stack, hmap.nocow, hany]

theorem Evolves.protects {v w sh : Word} (he : Evolves v w) (h : Protected v sh) :
    Protected w sh :=
  ⟨h.addr.trans he.1.addr.symm, h.cow, h.readonly, h.unlocked⟩

/-! ## The condition -/

/-- The next step of core `c` makes the main leaf of `va` writable. -/
def makesWritable (c : Nat) (p : Pc) (va : Va) : Bool :=
  match p with
  | .storeOwned v _ => c != snapshotCore && v == va
  | .unlockMain v _ | .unlockAlone v _ => v == va
  | _ => false

/-- No handler makes a leaf writable between the failed test of the copier
    and its second copy of that leaf. -/
def copyUndisturbed (s : State α) : Label α → Bool
  | .handler c =>
      match s.copier with
      | .plain1 va _ | .plain2 va _ => !makesWritable c (s.pc c) va
      | _ => true
  | _ => true

/-- Only such a step takes the mark off a leaf. -/
theorem cow_kept (hinv : MainInv cfg s) (hstep : step cfg s l = some s') {va : Va}
    (hcow : isCow (s.main va) = true)
    (hnot : ∀ c, l = .handler c → makesWritable c (s.pc c) va = false) :
    isCow (s'.main va) = true := by
  have hkeep : ∀ {v : Va} {w : Word}, (v = va → isCow w = true) →
      isCow (Function.update s.main v w va) = true := by
    intro v w hw
    by_cases hv : va = v
    · rw [hv, Function.update_self]
      exact hw hv.symm
    · rw [Function.update_of_ne hv]
      exact hcow
  cases step_cases hstep with
  | @handler c _ h =>
    have hw := hnot c rfl
    have hchecked := (hinv.positions c).checked
    generalize s.pc c = p at h hw hchecked
    cases h with
    | lockMain _ _ => exact hkeep fun _ => by simp [(hchecked _ _ rfl).1]
    | restore => exact hkeep fun _ => by simp
    | ownMain hc => exact hkeep fun h => by simp [makesWritable, hc, h] at hw
    | unlockMain => exact hkeep fun h => by simp [makesWritable, h] at hw
    | unlockAlone => exact hkeep fun h => by simp [makesWritable, h] at hw
    | putSnap => rw [setPc_main, put_main]; exact hcow
    | putMain => rw [setPc_main, put_main]; exact hcow
    | _ => exact hcow
  | walkMain hw => exact hkeep fun h => by rw [hw.flags.2.2.1, h]; exact hcow
  | walk h => rw [(walkStep_frame h).main]; exact hcow
  | _ => exact hcow

/-! ## The invariant of the walk -/

/-- The page the copier is at. -/
def CopyPc.page : CopyPc → Option Va
  | .next => none
  | .getPage va | .testW va _ | .testP va _ | .testStack va _ | .testCow va _ | .testNocow va _
  | .cow1 va _ | .cow2 va _ | .plain1 va _ | .plain2 va _ | .getRef va _ => some va

/-- What has been copied of the current page. -/
def Stage (s : State α) : Prop :=
  match s.copier with
  | .cow2 va _ => Protected (s.main va) (s.shadow1 va)
  | .plain1 va _ => tracked (s.main va) = true → isCow (s.main va) = true
  | .plain2 va _ => tracked (s.main va) = true →
      isCow (s.main va) = true ∧ Protected (s.main va) (s.shadow1 va)
  | .getRef va _ => tracked (s.main va) = true →
      Protected (s.main va) (s.shadow1 va) ∧ Protected (s.main va) (s.shadow2 va)
  | _ => True

structure WalkInv (cfg : Config) (s : State α) : Prop where
  stage : Stage s
  /-- The pages behind the copier are done. -/
  done : ∀ va ∈ cfg.vas, va ∉ s.todo → s.copier.page ≠ some va → tracked (s.main va) = true →
    Protected (s.main va) (s.shadow1 va) ∧ Protected (s.main va) (s.shadow2 va)

theorem walkInv_init (h : Init cfg s) : WalkInv cfg s := by
  refine ⟨?_, ?_⟩
  · rw [Stage, h.copier.1]
    trivial
  · intro va hva hnot
    rw [h.copier.2] at hnot
    exact absurd hva hnot

/-- The other parties leave the walk alone. -/
theorem copier_frame (hmove : Move cfg s l s') (hl : l ≠ .walk) :
    s'.copier = s.copier ∧ s'.todo = s.todo ∧ s'.shadow1 = s.shadow1 ∧ s'.shadow2 = s.shadow2 := by
  cases hmove with
  | @handler c _ h =>
    generalize s.pc c = p at h
    cases h with
    | putSnap => unfold State.put; split <;> exact ⟨rfl, rfl, rfl, rfl⟩
    | putMain => unfold State.put; split <;> exact ⟨rfl, rfl, rfl, rfl⟩
    | _ => exact ⟨rfl, rfl, rfl, rfl⟩
  | walk _ => exact absurd rfl hl
  | _ => exact ⟨rfl, rfl, rfl, rfl⟩

theorem walkInv_other (hmainInv : MainInv cfg s) (hinv : WalkInv cfg s)
    (hok : copyUndisturbed s l = true) (hstep : step cfg s l = some s') (hl : l ≠ .walk) :
    WalkInv cfg s' := by
  obtain ⟨hcopier, htodo, hsh1, hsh2⟩ := copier_frame (step_cases hstep) hl
  have hev := main_evolves hmainInv hstep
  obtain ⟨hstage, hdone⟩ := hinv
  refine ⟨?_, ?_⟩
  · -- In the plain branch the mark stays on the leaf, by the condition.
    have hmark : ∀ va, (∀ c, makesWritable c (s.pc c) va = false ∨ l ≠ .handler c) →
        isCow (s.main va) = true → isCow (s'.main va) = true := by
      intro va hnot hcow
      refine cow_kept hmainInv hstep hcow fun c hc => ?_
      exact (hnot c).resolve_right (fun h => h hc)
    unfold Stage at hstage ⊢
    rw [hcopier, hsh1, hsh2]
    cases hpc : s.copier with
    | cow2 va pg =>
      simp only [hpc] at hstage ⊢
      exact (hev va).protects hstage
    | plain1 va pg =>
      simp only [hpc] at hstage ⊢
      intro htr
      rw [(hev va).tracked] at htr
      refine hmark va (fun c => ?_) (hstage htr)
      by_cases hc : l = .handler c
      · subst hc
        exact Or.inl (by simpa [copyUndisturbed, hpc] using hok)
      · exact Or.inr hc
    | plain2 va pg =>
      simp only [hpc] at hstage ⊢
      intro htr
      rw [(hev va).tracked] at htr
      refine ⟨hmark va (fun c => ?_) (hstage htr).1, (hev va).protects (hstage htr).2⟩
      by_cases hc : l = .handler c
      · subst hc
        exact Or.inl (by simpa [copyUndisturbed, hpc] using hok)
      · exact Or.inr hc
    | getRef va pg =>
      simp only [hpc] at hstage ⊢
      intro htr
      rw [(hev va).tracked] at htr
      exact ⟨(hev va).protects (hstage htr).1, (hev va).protects (hstage htr).2⟩
    | _ => trivial
  · intro va hva hnot hpage htr
    rw [htodo] at hnot
    rw [hcopier] at hpage
    rw [(hev va).tracked] at htr
    rw [hsh1, hsh2]
    obtain ⟨h1, h2⟩ := hdone va hva hnot hpage htr
    exact ⟨(hev va).protects h1, (hev va).protects h2⟩

/-- The pages behind the copier stay done when the copier writes the
    shadow entries of its own page only. -/
theorem done_step (hinv : WalkInv cfg s) {va : Va} (hmain : s'.main = s.main)
    (htodo : s'.todo = s.todo) (hpage : s.copier.page = some va) (hpage' : s'.copier.page = some va)
    (hsh1 : ∀ v, v ≠ va → s'.shadow1 v = s.shadow1 v)
    (hsh2 : ∀ v, v ≠ va → s'.shadow2 v = s.shadow2 v) :
    ∀ v ∈ cfg.vas, v ∉ s'.todo → s'.copier.page ≠ some v → tracked (s'.main v) = true →
      Protected (s'.main v) (s'.shadow1 v) ∧ Protected (s'.main v) (s'.shadow2 v) := by
  intro v hv hnot hne htr
  rw [hpage'] at hne
  have hne' : v ≠ va := fun h => hne (by rw [h])
  rw [htodo] at hnot
  rw [hmain] at htr ⊢
  rw [hsh1 v hne', hsh2 v hne']
  exact hinv.done v hv hnot (by rwa [hpage]) htr

/-- A failed test of a page under copy-on-write has seen the mark. -/
theorem cow_of_tracked {w : Word} (h : isW w = false ∨ isP w = false ∨ isStack w = true ∨
    isCow w = true ∨ isNocow w = true) (htr : tracked w = true) : isCow w = true := by
  simp only [tracked, Bool.and_eq_true, Bool.or_eq_true, Bool.not_eq_true'] at htr
  rcases h with h | h | h | h | h <;> simp_all

/-- A test sends the copier to its next test or into the plain branch. -/
theorem walkInv_test (hinv : WalkInv cfg s) {va : Va} {p : CopyPc}
    (hpage : s.copier.page = some va) (hpage' : p.page = some va)
    (hstage : Stage { s with copier := p }) : WalkInv cfg { s with copier := p } :=
  ⟨hstage, done_step hinv rfl rfl hpage hpage' (fun _ _ => rfl) (fun _ _ => rfl)⟩

theorem walkInv_walk (hmainInv : MainInv cfg s) (hinv : WalkInv cfg s)
    (h : walkStep cfg s = some s') : WalkInv cfg s' := by
  have hstage := hinv.stage
  unfold Stage at hstage
  unfold walkStep at h
  cases hpc : s.copier with
  | next =>
    simp only [hpc] at h
    cases htodo : s.todo with
    | nil => simp [htodo] at h
    | cons va rest =>
      simp only [htodo] at h
      -- What is not ahead of the copier now was not ahead before, but for `va`.
      have hdone : ∀ v ∈ cfg.vas, v ∉ rest → v ≠ va → tracked (s.main v) = true →
          Protected (s.main v) (s.shadow1 v) ∧ Protected (s.main v) (s.shadow2 v) := by
        intro v hv hnot hne htr
        exact hinv.done v hv (by simp [htodo, hne, hnot]) (by simp [hpc, CopyPc.page]) htr
      split at h <;> cases h
      · rename_i hzero
        refine ⟨by simp [Stage], ?_⟩
        intro v hv hnot _ htr
        -- An empty entry is not under copy-on-write.
        refine hdone v hv hnot ?_ htr
        rintro rfl
        simp [hzero, tracked] at htr
      · refine ⟨trivial, ?_⟩
        intro v hv hnot hpage htr
        exact hdone v hv hnot (fun h => hpage (by rw [h]; rfl)) htr
  | getPage va =>
    simp only [hpc] at h
    cases h
    exact walkInv_test hinv (by rw [hpc]; rfl) rfl trivial
  | testW va pg =>
    simp only [hpc] at h
    split at h <;> cases h
    · exact walkInv_test hinv (by rw [hpc]; rfl) rfl trivial
    · rename_i hw
      exact walkInv_test hinv (by rw [hpc]; rfl) rfl (cow_of_tracked (Or.inl (by simpa using hw)))
  | testP va pg =>
    simp only [hpc] at h
    split at h <;> cases h
    · exact walkInv_test hinv (by rw [hpc]; rfl) rfl trivial
    · rename_i hp
      exact walkInv_test hinv (by rw [hpc]; rfl) rfl
        (cow_of_tracked (Or.inr (Or.inl (by simpa using hp))))
  | testStack va pg =>
    simp only [hpc] at h
    split at h <;> cases h
    · exact walkInv_test hinv (by rw [hpc]; rfl) rfl
        (cow_of_tracked (Or.inr (Or.inr (Or.inl ‹_›))))
    · exact walkInv_test hinv (by rw [hpc]; rfl) rfl trivial
  | testCow va pg =>
    simp only [hpc] at h
    split at h <;> cases h
    · exact walkInv_test hinv (by rw [hpc]; rfl) rfl
        (cow_of_tracked (Or.inr (Or.inr (Or.inr (Or.inl ‹_›)))))
    · exact walkInv_test hinv (by rw [hpc]; rfl) rfl trivial
  | testNocow va pg =>
    simp only [hpc] at h
    split at h <;> cases h
    · exact walkInv_test hinv (by rw [hpc]; rfl) rfl
        (cow_of_tracked (Or.inr (Or.inr (Or.inr (Or.inr ‹_›)))))
    · exact walkInv_test hinv (by rw [hpc]; rfl) rfl trivial
  | cow1 va pg =>
    simp only [hpc] at h
    cases h
    refine ⟨?_, done_step hinv rfl rfl (by rw [hpc]; rfl) rfl
      (fun v hv => by simp [hv]) (fun _ _ => rfl)⟩
    simpa [Stage] using protected_cowCopy1 (s.main va)
  | cow2 va pg =>
    simp only [hpc] at h hstage
    cases h
    refine ⟨?_, done_step hinv rfl rfl (by rw [hpc]; rfl) rfl
      (fun _ _ => rfl) (fun v hv => by simp [hv])⟩
    simpa [Stage] using fun _ => ⟨hstage, protected_cowCopy2 (s.main va)⟩
  | plain1 va pg =>
    simp only [hpc] at h hstage
    cases h
    refine ⟨?_, done_step hinv rfl rfl (by rw [hpc]; rfl) rfl
      (fun v hv => by simp [hv]) (fun _ _ => rfl)⟩
    simp only [Stage, Function.update_self]
    intro htr
    have hcow := hstage htr
    exact ⟨hcow, protected_plainCopy1 hcow (hmainInv.readonly va hcow)⟩
  | plain2 va pg =>
    simp only [hpc] at h hstage
    cases h
    refine ⟨?_, done_step hinv rfl rfl (by rw [hpc]; rfl) rfl
      (fun _ _ => rfl) (fun v hv => by simp [hv])⟩
    simp only [Stage, Function.update_self]
    intro htr
    obtain ⟨hcow, hfirst⟩ := hstage htr
    exact ⟨hfirst, protected_plainCopy2 hcow (hmainInv.readonly va hcow)⟩
  | getRef va pg =>
    simp only [hpc] at h hstage
    -- The page joins those behind the copier.
    have hdone : ∀ v ∈ cfg.vas, v ∉ s.todo → tracked (s.main v) = true →
        Protected (s.main v) (s.shadow1 v) ∧ Protected (s.main v) (s.shadow2 v) := by
      intro v hv hnot htr
      by_cases hva : v = va
      · subst hva
        exact hstage htr
      · refine hinv.done v hv hnot ?_ htr
        rw [hpc]
        simpa [CopyPc.page] using Ne.symm hva
    split at h <;> cases h
    · exact ⟨trivial, fun v hv hnot _ htr => hdone v hv hnot htr⟩
    · exact ⟨trivial, fun v hv hnot _ htr => hdone v hv hnot htr⟩

theorem walkInv_step (hmainInv : MainInv cfg s) (hinv : WalkInv cfg s)
    (hok : copyUndisturbed s l = true) (hstep : step cfg s l = some s') : WalkInv cfg s' := by
  cases l with
  | walk => exact walkInv_walk hmainInv hinv hstep
  | _ => exact walkInv_other hmainInv hinv hok hstep (by simp)

/-! ## The shadow tables -/

/-- The walk is over. -/
def State.copied (s : State α) : Bool := s.copier == .next && s.todo.isEmpty

/-- Every page under copy-on-write is protected in both shadow tables. -/
def ShadowsProtect (cfg : Config) (s : State α) : Prop :=
  ∀ va ∈ cfg.vas, tracked (s.main va) = true →
    Protected (s.main va) (s.shadow1 va) ∧ Protected (s.main va) (s.shadow2 va)

/-- **The shadow copy is safe** against running main cores, in every run in
    which no leaf becomes writable between its failed test and its second
    copy. -/
theorem shadow_copy (h : (system (α := α) cfg).RunsTo (fun s l => copyUndisturbed s l = true) s)
    (hend : s.copied = true) : ShadowsProtect cfg s := by
  have hinv : WalkInv cfg s := System.invariant_when_using
    (fun _ hr => mainInv_reachable hr.reachable) (fun _ => walkInv_init)
    (fun _ _ _ => walkInv_step) h
  simp only [State.copied, Bool.and_eq_true, beq_iff_eq, List.isEmpty_iff] at hend
  intro va hva htr
  exact hinv.done va hva (by simp [hend.2]) (by simp [hend.1, CopyPc.page]) htr

/-- A main core makes the page writable after the copier has reached it and
    before the copier tests it. -/
def earlyFault : List (Label Nat) :=
  [Label.walk, .walk, .fault 0 0x1000#64 true] ++ List.replicate 6 (Label.handler 0) ++
  [Label.copy 0 0x100001000#64] ++ List.replicate 5 (Label.handler 0) ++ List.replicate 8 Label.walk

theorem shadow_copy_early_fault :
    ∃ s : State Nat, ((system onePage).RunsTo (fun s l => copyUndisturbed s l = true) s ∧ s.copied = true ∧
      isW (s.main 0x1000#64) = true) ∧ ShadowsProtect onePage s := by
  obtain ⟨s, hrun, hend⟩ := System.exists_runsTo (system onePage) copyUndisturbed init_afterSwitch
    earlyFault (fun s => s.copied = true ∧ isW (s.main 0x1000#64) = true) (by decide +kernel)
  exact ⟨s, ⟨hrun, hend⟩, shadow_copy hrun hend.1⟩

/-- The copier finds the page protected, then a main core makes it
    writable, then the copier copies it. -/
def lateFault : List (Label Nat) :=
  [Label.walk, .walk, .walk, .fault 0 0x1000#64 true] ++ List.replicate 6 (Label.handler 0) ++
  [Label.copy 0 0x100001000#64] ++ List.replicate 5 (Label.handler 0) ++ List.replicate 3 Label.walk

/-- **A late fault leaks a writable entry** into both shadow tables. -/
theorem late_fault_leaks :
    ∃ s, (system onePage).exec afterSwitch lateFault = some s ∧
      (s.copied = true ∧ tracked (s.main 0x1000#64) = true ∧
        (isW (s.shadow1 0x1000#64) = true ∧ isCow (s.shadow1 0x1000#64) = false) ∧
        (isW (s.shadow2 0x1000#64) = true ∧ isCow (s.shadow2 0x1000#64) = false)) ∧
      (system onePage).Reachable s ∧ ¬ ShadowsProtect onePage s := by
  refine (system onePage).exists_exec_of _ (by decide +kernel) fun s hexec hend => ⟨hend, ?_⟩
  refine ⟨System.reachable_of_exec init_afterSwitch hexec, ?_⟩
  intro hprot
  have hro := (hprot 0x1000#64 (by simp [onePage]) hend.2.1).1.readonly
  rw [hend.2.2.1.1] at hro
  cases hro

end CowFault
