import Libdbos.Tabby.ThreadSteps

/-! # Steps of the Evictors, and Every Step

    Each step of an evictor is a change, and leaves the evictor with what its
    new position says. The clock scan must not mark a frame that only looks
    resident, `markOk`. With the steps of the threads this gives the
    invariant of all runs, `inv_of_runsTo`.
-/

open LTS

namespace Tabby

variable {α : Type} {cfg : Config α} {k : Facts} {s s' : State α} {m' : Shared α}

variable {m : Shared α} {pc : EvictPc} {saved : Bool} {pending : List (Nat × Pid)}
  {toEvict toWrite : List Nat}
  {t e f : Nat} {p : Pid}

/-! ## Steps that change only the position -/

theorem Inv.evictGoto (hinv : Inv cfg s)
    (hchange : Change cfg k s.toShared (.evictor e) .nothing m') (hok : EvictorOk m' e pc)
    (hshared : s'.toShared = m') (hthreads : s'.threads = s.threads)
    (hevictors : s'.evictors = Function.update s.evictors e pc) (hguards : s'.guards = s.guards)
    (hfixes : s'.fixes = s.fixes) : StepOk cfg k (.evictor e) s s' :=
  ⟨hinv.evictorStep hchange hshared hthreads hevictors hok hguards,
    ⟨.nothing, by rw [hshared]; exact hchange⟩, .inl hfixes⟩

theorem Inv.evictQuiet (hinv : Inv cfg s) (hok : EvictorOk s.toShared e pc) :
    StepOk cfg k (.evictor e) s (s.setEvictor e pc) :=
  hinv.evictGoto (.quiet _) hok rfl rfl rfl rfl rfl

theorem Inv.evictorOk (hinv : Inv cfg s) (hx : s.evictors e = pc) :
    EvictorOk s.toShared e pc := by
  have hok := hinv.evictor e
  rwa [hx] at hok

/-- Two positions with the same lists. -/
theorem EvictorOk.of_eq {pc' : EvictPc} (h : EvictorOk m e pc)
    (hlocked : pc'.locked = pc.locked) (hunsaved : ∀ f, f ∈ pc'.unsaved ↔ f ∈ pc.unsaved)
    (hpending : pc'.pending = pc.pending) (hdone : pc'.done = pc.done) (hseen : pc'.seen m) :
    EvictorOk m e pc' := by
  refine ⟨?_, ?_, ?_, ?_, ?_, ?_, hseen⟩
  · rw [hlocked]
    exact h.nodup
  · intro f hf
    rw [hlocked] at hf
    obtain ⟨p, saved, ho, hsaved⟩ := h.locked f hf
    exact ⟨p, saved, ho, fun hfalse => (hunsaved f).2 (hsaved hfalse)⟩
  · intro f hf
    rw [hlocked]
    exact h.unsaved f ((hunsaved f).1 hf)
  · rw [hpending]
    exact h.pending
  · rw [hdone]
    exact h.done
  · rw [hdone]
    exact h.doneNodup

theorem Inv.evictSame {pc' : EvictPc} (hinv : Inv cfg s) (hok : EvictorOk s.toShared e pc)
    (hlocked : pc'.locked = pc.locked) (hunsaved : pc'.unsaved = pc.unsaved)
    (hpending : pc'.pending = pc.pending) (hdone : pc'.done = pc.done)
    (hseen : pc'.seen s.toShared) : StepOk cfg k (.evictor e) s (s.setEvictor e pc') :=
  hinv.evictQuiet (hok.of_eq hlocked (fun f => by rw [hunsaved]) hpending hdone hseen)

/-! ## Locks and marks -/

/-- A frame that is locked is one more frame of the evictor. -/
theorem EvictorOk.lock {pc' : EvictPc} {w : VmPageState} (h : EvictorOk m e pc)
    (howner : m.owner f = .resident p) (hlocked : pc'.locked.Perm (f :: pc.locked))
    (hunsaved : ∀ g, g ∈ pc'.unsaved ↔ g ∈ pc.unsaved ∨ g = f ∧ saved = false)
    (hpending : pc'.pending = pc.pending) (hdone : pc'.done = pc.done)
    (hseen : ∀ m : Shared α, pc'.seen m) :
    EvictorOk ((m.setWord f w).setOwner f (.evicting e p saved)) e pc' := by
  have hnot : f ∉ pc.locked := by
    intro hf
    obtain ⟨q, b, ho, _⟩ := h.locked f hf
    rw [howner] at ho
    cases ho
  have hother : ∀ g, g ≠ f →
      ((m.setWord f w).setOwner f (.evicting e p saved)).owner g = m.owner g :=
    fun g hg => Function.update_of_ne hg _ _
  refine ⟨hlocked.nodup_iff.2 (List.nodup_cons.2 ⟨hnot, h.nodup⟩), ?_, ?_, ?_, ?_, ?_, hseen _⟩
  · intro g hg
    rcases List.mem_cons.1 (hlocked.mem_iff.1 hg) with rfl | hg
    · exact ⟨p, saved, Function.update_self .., fun hfalse => (hunsaved g).2 (.inr ⟨rfl, hfalse⟩)⟩
    · have hgf : g ≠ f := by
        rintro rfl
        exact hnot hg
      obtain ⟨q, b, ho, hb⟩ := h.locked g hg
      exact ⟨q, b, (hother g hgf).trans ho, fun hfalse => (hunsaved g).2 (.inl (hb hfalse))⟩
  · intro g hg
    refine hlocked.mem_iff.2 ?_
    rcases (hunsaved g).1 hg with hg | ⟨rfl, _⟩
    · exact List.mem_cons_of_mem _ (h.unsaved g hg)
    · exact List.mem_cons_self
  · intro g q hg
    rw [hpending] at hg
    obtain ⟨b, ho⟩ := h.pending g q hg
    have hgf : g ≠ f := by
      rintro rfl
      rw [howner] at ho
      cases ho
    exact ⟨b, (hother g hgf).trans ho⟩
  · intro g
    rw [hdone, h.done g]
    by_cases hgf : g = f
    · subst hgf
      rw [Shared.setOwner_owner, howner]
      simp
    · rw [hother g hgf]
  · rw [hdone]
    exact h.doneNodup

/-- Swapping the word of a frame that nobody owns. -/
theorem EvictorOk.setWord {w : VmPageState} (h : EvictorOk m e pc)
    (hseen : ∀ m : Shared α, pc.seen m) : EvictorOk (m.setWord f w) e pc :=
  { h with seen := hseen _ }

theorem Inv.evictLock {pc' : EvictPc} {v : VmPageState} (hinv : Inv cfg s)
    (hx : s.evictors e = pc) (hv : s.word f = v) (hmarked : v.state = VmPageState.marked)
    (hlocked : pc'.locked.Perm (f :: pc.locked))
    (hunsaved : ∀ g, g ∈ pc'.unsaved ↔ g ∈ pc.unsaved ∨ g = f ∧ saved = false)
    (hpending : pc'.pending = pc.pending) (hdone : pc'.done = pc.done)
    (hseen : ∀ m : Shared α, pc'.seen m) (hsaved : saved = true → k.relocked f) :
    StepOk cfg k (.evictor e) s ((s.evictLock e f v saved).setEvictor e pc') := by
  subst hv
  have howner := resident_of_marked hinv.base hmarked
  have hlock : (s.word f).lockable = true := by simp [VmPageState.lockable, hmarked]
  exact hinv.evictGoto (.evictLock e _ f saved howner hlock hsaved)
    ((hinv.evictorOk hx).lock howner hlocked hunsaved hpending hdone hseen) rfl rfl rfl rfl rfl

/-- A mark is put on a resident frame without readers. -/
theorem swap_mark (hinv : Inv cfg s) (a : Agent) (hstate : (s.word f).state = VmPageState.unlocked)
    (haddr : (s.word f).addr ≠ invalidAddr) (hzero : s.word f ≠ zeroWord)
    (hfresh : (s.owner f).isFresh = false) :
    Change cfg k s.toShared a .nothing (s.setWord f (s.word f).mark) := by
  have howner : s.owner f = .resident (s.word f).addr := by
    rcases loaded_of_word hinv.base (fun h => haddr h.1) hzero (by rw [hstate]; decide) with h | ⟨t, h⟩
    · exact h
    · rw [h] at hfresh
      cases hfresh
  have hcounts := (hinv.base.frameOk howner).2.2
  have hnil := hcounts.nil_of_lockable (by simp [VmPageState.lockable, hstate])
  exact .swap a _ f _ howner rfl rfl (.inr ⟨hnil, rfl⟩)

/-! ## Writes, invalidation and release -/

theorem EvictorOk.clean {todo : List Nat}
    (h : EvictorOk m e (.clean (f :: todo) pending toEvict toWrite)) (x : Page α) :
    EvictorOk (m.setPage f x) e (.prep f todo pending toEvict toWrite) :=
  { h with seen := trivial }

theorem EvictorOk.prep {todo : List Nat} (hbase : Base cfg m)
    (h : EvictorOk m e (.prep f todo pending toEvict toWrite)) :
    EvictorOk m e (.clean todo (pending ++ [(f, (m.word f).addr)]) toEvict toWrite) := by
  have hmem : ∀ g, g ∈ EvictPc.unsaved (.clean todo (pending ++ [(f, (m.word f).addr)]) toEvict
      toWrite) ↔ g ∈ EvictPc.unsaved (.prep f todo pending toEvict toWrite) := by
    intro g
    simp only [EvictPc.unsaved, List.map_append, List.map_cons, List.map_nil, List.mem_append,
      List.mem_cons, List.not_mem_nil, or_false, List.cons_append]
    grind
  refine ⟨h.nodup, ?_, ?_, ?_, h.done, h.doneNodup, trivial⟩
  · intro g hg
    obtain ⟨p, saved, ho, hsaved⟩ := h.locked g hg
    exact ⟨p, saved, ho, fun hfalse => (hmem g).2 (hsaved hfalse)⟩
  · intro g hg
    exact h.unsaved g ((hmem g).1 hg)
  · intro g q hg
    rcases List.mem_append.1 hg with hg | hg
    · exact h.pending g q hg
    · cases List.mem_singleton.1 hg
      obtain ⟨p, saved, ho, _⟩ := h.locked f (h.unsaved f List.mem_cons_self)
      rw [(hbase.frameOk ho).2.1]
      exact ⟨saved, ho⟩

theorem EvictorOk.diskWrite {x : Page α} (h : EvictorOk m e (.write pending toEvict toWrite))
    (howner : m.owner f = .evicting e p saved) :
    EvictorOk { m.setOwner f (.evicting e p true) with disk := Function.update m.disk p x } e
      (.write (pending.erase (f, p)) toEvict toWrite) := by
  have hself : (m.setOwner f (.evicting e p true)).owner f = .evicting e p true :=
    Function.update_self ..
  have hother : ∀ g, g ≠ f → (m.setOwner f (.evicting e p true)).owner g = m.owner g :=
    fun g hg => Function.update_of_ne hg _ _
  refine ⟨h.nodup, ?_, ?_, ?_, ?_, h.doneNodup, trivial⟩
  · intro g hg
    by_cases hgf : g = f
    · subst hgf
      exact ⟨p, true, hself, by simp⟩
    · obtain ⟨q, b, ho, hb⟩ := h.locked g hg
      refine ⟨q, b, (hother g hgf).trans ho, ?_⟩
      intro hfalse
      obtain ⟨⟨g', r⟩, hmem, rfl⟩ := List.mem_map.1 (hb hfalse)
      refine List.mem_map.2 ⟨(g', r), ?_, rfl⟩
      refine (List.mem_erase_of_ne ?_).2 hmem
      intro heq
      exact hgf (congrArg Prod.fst heq)
  · intro g hg
    obtain ⟨⟨g', r⟩, hmem, rfl⟩ := List.mem_map.1 hg
    exact h.unsaved g' (List.mem_map.2 ⟨(g', r), List.mem_of_mem_erase hmem, rfl⟩)
  · intro g q hg
    obtain ⟨b, ho⟩ := h.pending g q (List.mem_of_mem_erase hg)
    by_cases hgf : g = f
    · subst hgf
      rw [howner] at ho
      cases ho
      exact ⟨true, hself⟩
    · exact ⟨b, (hother g hgf).trans ho⟩
  · intro g
    have hdone : g ∈ [] ↔ m.owner g = .evicted e := h.done g
    show g ∈ [] ↔ (m.setOwner f (.evicting e p true)).owner g = .evicted e
    by_cases hgf : g = f
    · subst hgf
      rw [hself]
      simp
    · rw [hother g hgf]
      exact hdone

theorem EvictorOk.invalidate {v w : VmPageState} {todo done : List Nat}
    (h : EvictorOk m e (.invalStore f v todo done)) (howner : m.owner f = .evicting e p saved) :
    EvictorOk ((m.setWord f w).setOwner f (.evicted e)) e (.inval todo (done ++ [f])) := by
  have hnot := List.nodup_cons.1 h.nodup
  have hother : ∀ g, g ≠ f → ((m.setWord f w).setOwner f (.evicted e)).owner g = m.owner g :=
    fun g hg => Function.update_of_ne hg _ _
  have hfdone : f ∉ done := by
    intro hf
    have ho := (h.done f).1 hf
    rw [howner] at ho
    cases ho
  refine ⟨hnot.2, ?_, fun g hg => (List.not_mem_nil hg).elim,
    fun g q hg => (List.not_mem_nil hg).elim, ?_, ?_, trivial⟩
  · intro g hg
    have hgf : g ≠ f := by
      rintro rfl
      exact hnot.1 hg
    obtain ⟨q, b, ho, hb⟩ := h.locked g (List.mem_cons_of_mem _ hg)
    exact ⟨q, b, (hother g hgf).trans ho, hb⟩
  · intro g
    by_cases hgf : g = f
    · subst hgf
      rw [Shared.setOwner_owner]
      simp [EvictPc.done]
    · rw [hother g hgf, ← h.done g]
      simp [EvictPc.done, hgf]
  · refine List.nodup_append.2 ⟨h.doneNodup, by simp, ?_⟩
    intro g hg g' hg'
    rw [List.mem_singleton.1 hg']
    rintro rfl
    exact hfdone hg

theorem EvictorOk.release {done : List Nat} {i : Nat} {l : List Nat}
    (h : EvictorOk m e (.release done)) :
    EvictorOk ((m.setFree i l).setOwners done .free) e .idle := by
  refine ⟨List.nodup_nil, fun g hg => (List.not_mem_nil hg).elim,
    fun g hg => (List.not_mem_nil hg).elim, fun g q hg => (List.not_mem_nil hg).elim, ?_,
    List.nodup_nil, trivial⟩
  intro g
  have hdone : g ∈ done ↔ m.owner g = .evicted e := h.done g
  by_cases hg : g ∈ done
  · simp [EvictPc.done, Shared.setOwners_mem _ hg]
  · have hne : m.owner g ≠ .evicted e := fun ho => hg (hdone.2 ho)
    simp [EvictPc.done, Shared.setOwners_not_mem _ hg, Shared.setFree, hne]

/-! ## Every step of an evictor -/

theorem evict_step (hinv : Inv cfg s) (hclean : markOk s (.evict e) = true)
    (hstep : evictStep cfg s e = some s') : StepOk cfg (facts s (.evict e)) (.evictor e) s s' := by
  have hok := hinv.evictor e
  simp only [evictStep] at hstep
  generalize hx : s.evictors e = pc at hstep hok
  cases pc with
  | idle => cases hstep
  | scan c =>
    simp only at hstep
    split at hstep
    · cases hstep
      exact hinv.evictSame hok rfl rfl rfl rfl trivial
    · split at hstep
      · cases hstep
        refine hinv.evictGoto (.quiet _) ?_ rfl rfl rfl rfl rfl
        exact hok.of_eq rfl (fun _ => Iff.rfl) rfl rfl trivial
      · split at hstep <;> cases hstep
        exact hinv.evictQuiet (hok.of_eq rfl (by simp [EvictPc.unsaved]) rfl rfl trivial)
  | looked v c =>
    cases hstep
    split
    · exact hinv.evictSame hok rfl rfl rfl rfl trivial
    · rename_i haddr
      split
      · rename_i hmarked
        exact hinv.evictSame hok rfl rfl rfl rfl hmarked
      · split
        · rename_i hunlocked
          exact hinv.evictSame hok rfl rfl rfl rfl ⟨hunlocked, haddr⟩
        · exact hinv.evictSame hok rfl rfl rfl rfl trivial
  | dirty v c =>
    cases hstep
    split
    · exact hinv.evictSame hok rfl rfl rfl rfl hok.seen
    · exact hinv.evictSame hok rfl rfl rfl rfl trivial
  | lock v c =>
    simp only at hstep
    split at hstep
    · rename_i hv
      cases hstep
      refine hinv.evictLock hx hv hok.seen ?_ ?_ rfl rfl (fun _ => trivial) (by simp)
      · exact List.perm_append_singleton c.pos c.toWrite
      · intro g
        simp [EvictPc.unsaved]
    · cases hstep
      exact hinv.evictSame hok rfl rfl rfl rfl trivial
  | mark v c =>
    simp only at hstep
    split at hstep
    · rename_i hv
      cases hstep
      subst hv
      simp only [markOk, hx, Bool.or_eq_true, decide_eq_true_eq, Bool.and_eq_true,
        Bool.not_eq_true'] at hclean
      obtain ⟨hzero, hfresh⟩ := hclean.resolve_left (by simp)
      refine hinv.evictGoto (swap_mark hinv _ hok.seen.1 hok.seen.2 hzero hfresh) ?_
        rfl rfl rfl rfl rfl
      refine EvictorOk.setWord ?_ fun _ => trivial
      exact hok.of_eq rfl (fun _ => Iff.rfl) rfl rfl trivial
    · cases hstep
      exact hinv.evictSame hok rfl rfl rfl rfl trivial
  | clean todo pending toEvict toWrite =>
    cases todo with
    | nil =>
      cases hstep
      exact hinv.evictQuiet (hok.of_eq rfl (by simp [EvictPc.unsaved]) rfl rfl trivial)
    | cons f todo =>
      cases hstep
      obtain ⟨p, saved, ho, _⟩ := hok.locked f (hok.unsaved f List.mem_cons_self)
      exact hinv.evictGoto (.clean e p f saved ho) (hok.clean _) rfl rfl rfl rfl rfl
  | prep f todo pending toEvict toWrite =>
    cases hstep
    exact hinv.evictQuiet (hok.prep hinv.base)
  | write pending toEvict toWrite =>
    cases pending with
    | nil =>
      cases hstep
      exact hinv.evictQuiet (hok.of_eq rfl (by simp [EvictPc.unsaved]) rfl rfl trivial)
    | cons f pending => cases hstep
  | relook todo kept toWrite =>
    cases todo with
    | nil =>
      cases hstep
      exact hinv.evictSame hok rfl rfl rfl rfl trivial
    | cons f todo =>
      cases hstep
      split
      · rename_i hmarked
        exact hinv.evictSame hok rfl rfl rfl rfl hmarked
      · exact hinv.evictSame hok rfl rfl rfl rfl trivial
  | relock f v todo kept toWrite =>
    simp only at hstep
    split at hstep
    · rename_i hv
      cases hstep
      refine hinv.evictLock hx hv hok.seen ?_ ?_ rfl rfl (fun _ => trivial) ?_
      · simp only [EvictPc.locked, List.append_assoc, List.singleton_append]
        exact List.perm_middle
      · intro g
        simp [EvictPc.unsaved]
      · intro _ hrelock
        simp only [relockClean, hx, hv, Bool.or_eq_true, decide_eq_true_eq,
          Bool.not_eq_true'] at hrelock
        exact hrelock.resolve_left (by simp)
    · cases hstep
      exact hinv.evictSame hok rfl rfl rfl rfl trivial
  | inval todo done =>
    cases todo with
    | nil =>
      cases hstep
      exact hinv.evictSame hok rfl rfl rfl rfl trivial
    | cons f todo =>
      cases hstep
      exact hinv.evictSame hok rfl rfl rfl rfl rfl
  | invalStore f v todo done =>
    cases hstep
    have hv : v = s.word f := hok.seen
    subst hv
    obtain ⟨p, saved, ho, hsaved⟩ := hok.locked f List.mem_cons_self
    cases saved with
    | false => exact (List.not_mem_nil (hsaved rfl)).elim
    | true =>
      exact hinv.evictGoto (.invalidate e p f ho) (hok.invalidate ho) rfl rfl rfl rfl rfl
  | release done =>
    cases hstep
    exact hinv.evictGoto (.release e _ done hok.doneNodup fun g hg => (hok.done g).1 hg) hok.release
      rfl rfl rfl rfl rfl

theorem diskWrite_step (hinv : Inv cfg s) (hx : s.evictors e = .write pending toEvict toWrite)
    (hmem : (f, p) ∈ pending) :
    StepOk cfg k (.evictor e) s ((s.put { s.setOwner f (.evicting e p true) with
      disk := Function.update s.disk p (s.frames f) }).setEvictor e
        (.write (pending.erase (f, p)) toEvict toWrite)) := by
  have hok := hinv.evictorOk hx
  obtain ⟨saved, ho⟩ := hok.pending f p hmem
  exact hinv.evictGoto (.diskWrite e p f saved ho) (hok.diskWrite ho) rfl rfl rfl rfl rfl

/-! ## Every step -/

/-- A step at the end of which no thread or evictor has moved. -/
theorem Inv.core (hinv : Inv cfg s) (hchange : Change cfg k s.toShared .core .nothing s'.toShared)
    (hthreads : s'.threads = s.threads) (hevictors : s'.evictors = s.evictors)
    (hguards : ∀ g ∈ s'.guards, s.known g.page = true) (hfixes : s'.fixes = s.fixes) :
    StepOk cfg k .core s s' :=
  ⟨hinv.coreStep hchange hthreads hevictors hguards, ⟨.nothing, hchange⟩, .inl hfixes⟩

theorem State.guard_mem {id : Nat} {g : Guard α} (h : s.guard id = some g) :
    g ∈ s.guards ∧ g.id = id := by
  unfold State.guard at h
  exact ⟨List.mem_of_find?_eq_some h, by simpa using List.find?_some h⟩

theorem upgrade_step (hinv : Inv cfg s) {id : Nat} {mode : Option Upgrade → Mode}
    (hmode : ∀ up, mode up ≠ .allocate) (hstep : upgradeStep s id mode = some s') :
    ∃ a, StepOk cfg k a s s' := by
  unfold upgradeStep at hstep
  split at hstep
  · rename_i g hg
    split at hstep
    · rename_i hrun
      cases hstep
      exact ⟨_, hinv.idle (.look _ _) ⟨hinv.guards g (State.guard_mem hg).1, hmode _⟩
        (by rw [hrun]; rfl) (fun _ h => h) (hinv.becomes ..)⟩
    · cases hstep
  · cases hstep

theorem check_step (hinv : Inv cfg s) {g : Guard α} {v : VmPageState}
    (hrun : (s.threads g.thread).pc = .run) : ∃ a, StepOk cfg k a s (checkStep s g v) := by
  have hvalid : StepOk cfg k .core s (s.validate g.id) := by
    refine hinv.core ?_ (by simp) (by simp) ?_ (by simp)
    · simp only [State.validate_keeps]
      exact .quiet _
    · simp only [State.validate_keeps]
      exact hinv.guards
  have hdrop : StepOk cfg k .core s (s.dropGuard g.id) :=
    hinv.core (.quiet _) rfl rfl (fun h hh => hinv.guards h (List.mem_filter.1 hh).1) rfl
  unfold checkStep
  split
  · exact ⟨_, hvalid⟩
  · split
    · split
      · exact ⟨_, hvalid⟩
      · split
        · rename_i hmarked
          exact ⟨_, hinv.idle (.clearCheck g.id v) hmarked (by rw [hrun]; rfl) (fun _ h => h)
            (hinv.becomes ..)⟩
        · exact ⟨_, hdrop⟩
    · exact ⟨_, hdrop⟩

/-- A page that has not been handed out is in no frame, and nobody deals with
    its entry. -/
theorem allocPage_step (hinv : Inv cfg s) (hrun : (s.threads t).pc = .run)
    (hpage : cfg.isPage p = true) (htaken : s.taken p = false) :
    StepOk cfg k (.thread t) s
      ((s.put { s.toShared with taken := Function.update s.taken p true }).goto t
      (.fault .allocate p .load)) := by
  have hunknown : s.known p = false := by
    rw [← Bool.not_eq_true]
    intro hk
    rw [(hinv.base.known p hk).2.1] at htaken
    cases htaken
  have habsent : Absent s.toShared p := by
    intro f hf
    rw [(hinv.base.present f p hf).1] at htaken
    cases htaken
  obtain ⟨hpresent, husr1⟩ := hinv.base.untaken p htaken
  refine hinv.goto _ (.take _ p) (exclusive_nothing s t) (by simp) ⟨?_, ?_, ?_⟩ (hinv.becomes ..)
  · refine ⟨fun _ => ⟨hpage, Function.update_self .., hunknown⟩, fun h => absurd rfl h, ?_⟩
    exact fun _ => ⟨habsent, hpresent, husr1⟩
  · intro f hf
    exact absurd hf (hinv.none_taken (by rw [hrun]; rfl) f)
  · rintro q ⟨rfl, _⟩
    refine .inr fun u hu => ?_
    rcases hinv.claimed hu with h | h
    · rw [husr1] at h
      cases h
    · have := h.taken
      rw [htaken] at this
      cases this

theorem modify_step (hinv : Inv cfg s) (x : α) (hrun : (s.threads t).pc = .run)
    (hf : (s.threads t).exclusive p = some f) :
    StepOk cfg k (.thread t) s (s.put (s.setPage (s.translate t p)
      { s.frames (s.translate t p) with data := x })) := by
  obtain ⟨rfl, howner, htlb, _⟩ := ((hinv.thread t).hold p).exclusive f hf
  rw [htlb.translate]
  have hthreads : s.threads = Function.update s.threads t { s.threads t with pc := .run } := by
    rw [← hrun]
    exact (Function.update_eq_self t s.threads).symm
  refine hinv.goto .run (.modify t p _ x howner) (exclusive_nothing s t) (by simp)
    ⟨trivial, ?_, fun _ h => h.elim⟩ ⟨rfl, hthreads, rfl, hinv.guards, .inl rfl⟩
  intro g hg
  exact absurd hg (hinv.none_taken (by rw [hrun]; rfl) g)

/-- **One step** whose locks are taken where the entries point to, and whose
    marks are put on resident frames, keeps the invariant. -/
theorem step_ok (hinv : Inv cfg s) {l : Label α} (hlock : lockAtEntry s l = true)
    (hmark : markOk s l = true) (hstep : step cfg s l = some s') :
    ∃ a, StepOk cfg (facts s l) a s s' := by
  cases l with
  | fix t m p =>
    simp only [step] at hstep
    split at hstep
    · rename_i h
      obtain ⟨hrun, hknown, hm⟩ := h
      cases hstep
      have hmd : m ≠ .allocate := by
        rintro rfl
        simp at hm
      exact ⟨_, hinv.idle (.look m p) ⟨hknown, hmd⟩ (by rw [hrun]; rfl) (fun _ h => h) (hinv.becomes ..)⟩
    · cases hstep
  | upgradeX id => exact upgrade_step hinv (by simp) hstep
  | upgradeS id => exact upgrade_step hinv (by simp) hstep
  | allocPage t p =>
    simp only [step] at hstep
    split at hstep
    · rename_i h
      cases hstep
      exact ⟨_, allocPage_step hinv h.1 h.2.1 h.2.2⟩
    · cases hstep
  | thread t => exact ⟨_, thread_step hinv hlock hstep⟩
  | steal t i =>
    simp only [step] at hstep
    split at hstep
    · rename_i m p old hx
      split at hstep
      · cases hstep
      · cases hstep
        exact ⟨_, fault_steal hinv i stealMax hx⟩
    · cases hstep
  | construct t x setsDirty =>
    simp only [step] at hstep
    split at hstep
    · rename_i p hx
      cases hstep
      exact ⟨_, construct_step hinv x _ hx⟩
    · cases hstep
  | modify t p x =>
    simp only [step] at hstep
    split at hstep
    · rename_i h
      obtain ⟨hrun, hsome⟩ := h
      obtain ⟨f, hf⟩ := Option.isSome_iff_exists.1 hsome
      cases hstep
      exact ⟨_, modify_step hinv x hrun hf⟩
    · cases hstep
  | unfixX t p =>
    simp only [step] at hstep
    split at hstep
    · rename_i h
      obtain ⟨hrun, hsome⟩ := h
      obtain ⟨f, hf⟩ := Option.isSome_iff_exists.1 hsome
      obtain ⟨rfl, howner, htlb, _⟩ := ((hinv.thread t).hold p).exclusive f hf
      cases hstep
      exact ⟨_, hinv.idle (.unlockX p _) ⟨_, hf, by rw [htlb.translate]⟩ (by rw [hrun]; rfl)
        (fun _ h => h) (hinv.becomes ..)⟩
    · cases hstep
  | unfixS t p =>
    simp only [step] at hstep
    split at hstep
    · rename_i h
      cases hstep
      exact ⟨_, hinv.idle (.reloadS p) h.2 (by rw [h.1]; rfl) (fun _ h => h) (hinv.becomes ..)⟩
    · cases hstep
  | readO id =>
    simp only [step] at hstep
    split at hstep
    · split at hstep
      · cases hstep
        refine ⟨_, hinv.core (.quiet _) rfl rfl ?_ rfl⟩
        intro h hh
        obtain ⟨g', hg', rfl⟩ := List.mem_map.1 hh
        split
        · exact hinv.guards g' hg'
        · exact hinv.guards g' hg'
      · cases hstep
    · cases hstep
  | checkO id =>
    simp only [step] at hstep
    split at hstep
    · split at hstep
      · rename_i hrun
        cases hstep
        exact check_step hinv hrun
      · cases hstep
    · cases hstep
  | dropO id =>
    simp only [step] at hstep
    split at hstep
    · split at hstep
      · cases hstep
        exact ⟨_, hinv.core (.quiet _) rfl rfl (fun h hh => hinv.guards h (List.mem_filter.1 hh).1) rfl⟩
      · cases hstep
    · cases hstep
  | tlbFill t p =>
    simp only [step] at hstep
    split at hstep
    · rename_i hpresent
      cases hstep
      refine ⟨_, hinv.core (.tlb _ t p _ ?_) rfl rfl hinv.guards rfl⟩
      intro f hf
      exact ⟨(Option.some.inj hf).symm, hpresent⟩
    · cases hstep
  | tlbDrop t p =>
    cases hstep
    exact ⟨_, hinv.core (.tlb _ t p none (by simp)) rfl rfl hinv.guards rfl⟩
  | startEvict e =>
    simp only [step] at hstep
    split at hstep
    · rename_i hidle
      cases hstep
      exact ⟨_, hinv.evictQuiet
        ((hinv.evictorOk hidle).of_eq rfl (fun _ => Iff.rfl) rfl rfl trivial)⟩
    · cases hstep
  | evict e => exact ⟨_, evict_step hinv hmark hstep⟩
  | diskWrite e f p =>
    simp only [step] at hstep
    split at hstep
    · rename_i pending toEvict toWrite hx
      split at hstep
      · rename_i hmem
        cases hstep
        exact ⟨_, diskWrite_step hinv hx (by simpa using hmem)⟩
      · cases hstep
    · cases hstep

/-! ## Every run -/

theorem base_init (h : Init cfg s) : Base cfg s.toShared := by
  have hmem : ∀ i f, f ∈ s.free i → f % cfg.freeLists = i := by
    intro i f hf
    rw [h.free, List.mem_filter] at hf
    simpa using hf.2
  have hloaded : ∀ f p, (s.owner f).loaded ≠ some p := by
    intro f p
    rw [h.owner]
    simp [Owner.loaded]
  constructor
  · intro f
    rw [h.owner, h.frames]
    exact ⟨rfl, rfl⟩
  · exact fun f _ p hf => absurd hf (hloaded f p)
  · exact fun f p hf => absurd hf (hloaded f p)
  · exact fun f p hf => absurd hf (hloaded f p)
  · exact fun p hp => absurd (h.readers p) hp
  · intro f t p hf
    rw [h.owner] at hf
    cases hf
  · intro p hp
    rw [h.known] at hp
    cases hp
  · exact fun p _ => h.pte p
  · exact fun t p _ => h.tlb t p
  · exact h.disk
  · exact fun _ f _ => h.owner f
  · intro f hlt _
    refine ⟨f % cfg.freeLists, ?_⟩
    rw [h.free, List.mem_filter]
    exact ⟨List.mem_range.2 hlt, by simp⟩
  · intro i
    rw [h.free]
    exact List.nodup_range.filter _
  · intro i j f hi hj
    rw [← hmem i f hi, hmem j f hj]

theorem inv_init (h : Init cfg s) : Inv cfg s := by
  refine ⟨base_init h, ?_, ?_, ?_, ?_⟩
  · intro t
    rw [h.threads]
    refine ⟨?_, trivial, ?_⟩
    · intro p
      exact ⟨by simp, by simp, by simp, by simp⟩
    · intro f hf
      rw [h.owner] at hf
      cases hf
  · intro e
    rw [h.evictors]
    refine ⟨List.nodup_nil, by simp [EvictPc.locked], by simp [EvictPc.unsaved],
      by simp [EvictPc.pending], ?_, List.nodup_nil, trivial⟩
    intro f
    rw [h.owner]
    simp [EvictPc.done]
  · intro t u p ht
    rw [h.threads] at ht
    cases ht
  · rw [h.guards]
    simp

/-- Locks are taken where the entries point to, and marks are put on
    resident frames. -/
def sound (s : State α) (l : Label α) : Bool := lockAtEntry s l && markOk s l

theorem inv_of_runsTo (h : (system cfg).RunsTo (fun s l => sound s l = true) s) : Inv cfg s := by
  refine System.invariant_when (fun _ => inv_init) ?_ h
  intro s l s' hinv hsound hstep
  simp only [sound, Bool.and_eq_true] at hsound
  obtain ⟨_, hok⟩ := step_ok hinv hsound.1 hsound.2 hstep
  exact hok.inv

end Tabby
