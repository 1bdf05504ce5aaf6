import Libdbos.Tabby.Residency

/-! # New Pages

    An `AllocGuard` takes a frame from a free list, constructs the page in it,
    stores the address of the page in its word, and locks it. From the store to the
    lock the page looks like any other page that nobody has locked, and the clock
    scan of an evictor may mark it. Then the compare-exchange of the guard fails,
    which only an assertion looks at, and the guard goes on without a lock
    (`new_page_not_locked`).

    In runs in which the scan does not mark such a page (`sound`), the frame
    belongs to the thread from the free list to the end of the guard
    (`new_page_exclusive`).
-/

open LTS

namespace Tabby

variable {α : Type} {cfg : Config α} {s s' : State α} {t u e f g : Nat} {p : Pid}

/-- The frame has left the free lists for thread `t`, which has not released it. -/
def Owner.heldBy (t : Nat) : Owner → Prop
  | .popped u | .filling u _ | .fresh u _ | .guarded u _ => u = t
  | _ => False

/-- The steps of evictors and of the writes that they wait for. -/
def Label.byEvictor : Label α → Prop
  | .startEvict _ | .evict _ | .diskWrite _ _ _ => True
  | _ => False

/-- Thread `t` alone holds page `p`: it has taken the lock, on frame `f`. -/
structure SoleHolder (s : State α) (t : Nat) (p : Pid) (f : Nat) : Prop where
  locked : (s.word f).state = VmPageState.locked
  addr : (s.word f).addr = p
  taken : s.owner f = .guarded t p
  reached : s.translate t p = f
  alone : ∀ u g, s.holds u p g → u = t

theorem Owner.heldBy.agent {o : Owner} (h : o.heldBy t) : o.agent = some (.thread t) := by
  cases o <;> first | exact congrArg (fun u => some (Agent.thread u)) h | exact h.elim

/-- An exclusive lock is held by one thread, and nobody shares it. -/
theorem Inv.soleHolder (hinv : Inv cfg s) (hheld : (s.threads t).exclusive p = some f) :
    SoleHolder s t p f := by
  obtain ⟨hframe, howner, htlb, _⟩ := ((hinv.thread t).hold p).exclusive f hheld
  have hword := hinv.base.frame f
  rw [howner] at hword
  refine ⟨hword.2.2, hword.2.1, howner, hframe ▸ htlb.translate, fun u g hholds => ?_⟩
  -- Whoever holds the page holds it on this frame, whose owner says who.
  have hloaded : (s.owner f).loaded = some p := by
    rw [howner]
    rfl
  have hgf := hinv.base.unique g f p (hinv.holds_frame hholds).1 hloaded
  rcases hholds with hexcl | hshared | hpc
  · obtain ⟨_, hother, _⟩ := ((hinv.thread u).hold p).exclusive g hexcl
    rw [hgf, howner] at hother
    cases hother
    rfl
  · have hold := (hinv.thread u).hold p
    have hpos := List.length_pos_of_mem hshared
    have hreader : u ∈ s.readers p := List.count_pos_iff.mp (by have := hold.count; omega)
    have hres := hinv.base.read p (List.ne_nil_of_mem hreader)
    rw [← hframe, howner] at hres
    cases hres
  · obtain ⟨_, _, hother, _⟩ := hinv.pcOk hpc
    rw [hgf, howner] at hother
    cases hother
    rfl

/-- The word of a new page is as the constructor has stored it. -/
theorem Inv.new_word (hinv : Inv cfg s) {v : VmPageState} (hpc : (s.threads t).pc = .lockNew p v) :
    s.word (s.translate t p) = v ∧ v = ⟨p, 0#20, VmPageState.unlocked⟩ := by
  obtain ⟨_, hbuilt, hv⟩ := hinv.pcOk hpc
  have hframe := hinv.base.frame (s.pte p).frame
  rw [hbuilt.owner] at hframe
  rw [hbuilt.tlb.translate]
  exact ⟨hv.symm, hv.trans hframe.2.1⟩

/-- A step of an evictor is a change by an evictor. -/
theorem evictor_change (hinv : Inv cfg s) {l : Label α} (hl : l.byEvictor)
    (hmark : markOk s l = true) (hstep : step cfg s l = some s') :
    ∃ e q, Change cfg (facts s l) s.toShared (.evictor e) q s'.toShared := by
  match l with
  | .startEvict e =>
    obtain ⟨_, hs⟩ := Option.ite_none_right_eq_some.mp hstep
    obtain rfl := Option.some.inj hs
    exact ⟨e, .nothing, .quiet _⟩
  | .evict e =>
    obtain ⟨q, hchange⟩ := (evict_step hinv hmark hstep).change
    exact ⟨e, q, hchange⟩
  | .diskWrite e f p =>
    simp only [step] at hstep
    split at hstep
    · next pending toEvict toWrite hx =>
      obtain ⟨hmem, hs⟩ := Option.ite_none_right_eq_some.mp hstep
      obtain rfl := Option.some.inj hs
      obtain ⟨q, hchange⟩ := (diskWrite_step hinv hx
        (List.contains_iff_mem.mp hmem)).change
      exact ⟨e, q, hchange⟩
    · cases hstep

/-- **A new page is exclusively owned**: in every run under `sound`, the lock of an
    `AllocGuard` is taken; when its constructor returns, its thread alone holds the
    page; and no evictor changes the word of a frame that a thread has taken from a
    free list and not released. -/
theorem new_page_exclusive (h : (system cfg).RunsTo (fun s l => sound s l = true) s) :
    (∀ t p v, (s.threads t).pc = .lockNew p v →
      s.word (s.translate t p) = v ∧ v.state = VmPageState.unlocked) ∧
    (∀ t p f s', (s.threads t).pc = .setDirty p f → step cfg s (.thread t) = some s' →
      (s'.threads t).pc = .run ∧ SoleHolder s' t p f) ∧
    (∀ l s', l.byEvictor → sound s l = true → step cfg s l = some s' →
      ∀ t f, (s.owner f).heldBy t → s'.word f = s.word f ∧ (s'.owner f).heldBy t) := by
  have hinv := inv_of_runsTo h
  refine ⟨fun t p v hpc => ?_, fun t p f s' hpc hstep => ?_,
    fun l s' hl hsound hstep t f hheld => ?_⟩
  · obtain ⟨hword, hv⟩ := hinv.new_word hpc
    exact ⟨hword, by rw [hv]⟩
  · have hsound : sound s (.thread t) = true := by simp [sound, lockAtEntry, markOk, hpc]
    have hinv' := inv_of_runsTo (.step h hsound hstep)
    have hs' : (s'.threads t).pc = .run ∧ (s'.threads t).exclusive p = some f := by
      simp only [step, threadStep, hpc] at hstep
      obtain rfl := Option.some.inj hstep
      simp [State.setThread]
    exact ⟨hs'.1, hinv'.soleHolder hs'.2⟩
  · simp only [sound, Bool.and_eq_true] at hsound
    obtain ⟨e, q, hchange⟩ := evictor_change hinv hl hsound.2 hstep
    obtain ⟨hown, hframe⟩ := hchange.own hinv.base hheld.agent (by simp)
    exact ⟨congrArg Page.word hframe, hown ▸ hheld⟩

/-- Thread 0 allocates page 5; the scan comes when it is locked. -/
theorem new_page_exclusive_scanned :
    ∃ s s', (system (small true 1)).RunsTo (fun s l => sound s l = true) s ∧
      (s.threads 0).pc = .setDirty 5#36 0 ∧ step (small true 1) s (.thread 0) = some s' ∧
      SoleHolder s' 0 5#36 0 := by
  obtain ⟨s, hrun, hpc⟩ := (system (small true 1)).exists_runsTo sound (init_boot (small true 1))
    ([.allocPage 0 5#36] ++ threadSteps 5 0 ++ [.construct 0 1 true] ++ threadSteps 3 0 ++
      [.startEvict 0] ++ evictSteps 4 0)
    (fun s => (s.threads 0).pc = .setDirty 5#36 0) (by decide +kernel)
  obtain ⟨s', hstep⟩ : ∃ s', step (small true 1) s (.thread 0) = some s' := by
    simp [step, threadStep, hpc]
  exact ⟨s, s', hrun, hpc, hstep, ((new_page_exclusive hrun).2.1 0 _ _ s' hpc hstep).2⟩

/-- **A guard without a lock**: the scan marks page 5 between the load of its word
    and the compare-exchange. The constructor returns, and the page is not locked. -/
theorem new_page_not_locked :
    Init (small true 1) (boot (small true 1)) ∧
    ∃ s, (system (small true 1)).exec (boot (small true 1))
      ([.allocPage 0 5#36] ++ threadSteps 5 0 ++ [.construct 0 1 true] ++ threadSteps 2 0 ++
        [.startEvict 0] ++ evictSteps 4 0 ++ threadSteps 2 0) = some s ∧
      (s.threads 0).pc = .run ∧ (s.threads 0).exclusive 5#36 = some 0 ∧
      s.word 0 = ⟨5#36, 0#20, VmPageState.marked⟩ := by
  refine ⟨init_boot _, ?_⟩
  exact (system (small true 1)).exists_exec _ _ _ (by decide +kernel)

end Tabby
