import Libdbos.Tabby.Changes

/-! # Steps of the Threads

    Each step of a thread is a change, and leaves the thread with what its
    new position says. A lock has to be taken on the frame to which the
    entry of the page points, `lockAtEntry`: a frame that has just been
    loaded is unlocked before the entry is set, and a thread that reaches it
    through an old translation would lock it there.
-/

open LTS

namespace Tabby

variable {α : Type} {cfg : Config α} {k : Facts} {s s' : State α} {m' : Shared α} {t : Nat} {p : Pid}

variable {f : Nat} {old : Pte} {v w : VmPageState}

/-- What every step does, here one of agent `a`. -/
structure StepOk (cfg : Config α) (k : Facts) (a : Agent) (s s' : State α) : Prop where
  inv : Inv cfg s'
  change : ∃ q, Change cfg k s.toShared a q s'.toShared
  fixes : s'.fixes = s.fixes ∨ ∃ p f, s.owner f = .resident p ∧
    s'.fixes = ⟨p, (s.frames f).data, s.last p⟩ :: s.fixes

/-! ## Guards and records -/

section Guards

variable (s) (id : Nat) (up : Option Upgrade)

@[simp] theorem State.validate_keeps : (s.validate id).toShared = s.toShared ∧
    (s.validate id).threads = s.threads ∧ (s.validate id).evictors = s.evictors ∧
    (s.validate id).fixes = s.fixes ∧ (s.validate id).guards = s.guards ∧
    (s.validate id).nextGuard = s.nextGuard := by
  unfold State.validate
  split <;> exact ⟨rfl, rfl, rfl, rfl, rfl, rfl⟩

@[simp] theorem State.upgraded_keeps : (s.upgraded up).toShared = s.toShared ∧
    (s.upgraded up).threads = s.threads ∧ (s.upgraded up).evictors = s.evictors ∧
    (s.upgraded up).fixes = s.fixes ∧ (s.upgraded up).nextGuard = s.nextGuard := by
  cases up with
  | none => exact ⟨rfl, rfl, rfl, rfl, rfl⟩
  | some u =>
    obtain ⟨hshared, hthreads, hevictors, hfixes, _, hnext⟩ := s.validate_keeps u.guard
    exact ⟨hshared, hthreads, hevictors, hfixes, hnext⟩

theorem State.upgraded_guards {g : Guard α} (h : g ∈ (s.upgraded up).guards) : g ∈ s.guards := by
  cases up with
  | none => exact h
  | some u =>
    have hmem := (List.mem_filter.1 h).1
    rwa [(s.validate_keeps u.guard).2.2.2.2.1] at hmem

@[simp] theorem State.giveUp_keeps : (s.giveUp up).toShared = s.toShared ∧
    (s.giveUp up).threads = s.threads ∧ (s.giveUp up).evictors = s.evictors ∧
    (s.giveUp up).fixes = s.fixes := by
  cases up <;> exact ⟨rfl, rfl, rfl, rfl⟩

theorem State.giveUp_guards {g : Guard α} (h : g ∈ (s.giveUp up).guards) : g ∈ s.guards := by
  cases up with
  | none => exact h
  | some u => exact (List.mem_filter.1 h).1

end Guards

/-! ## A step and the thread that makes it -/

theorem PcOk.congr {m : Shared α} {x y : Thread} {pc : Pc} (h : PcOk cfg m t x pc)
    (hexcl : y.exclusive = x.exclusive) (hshared : y.shared = x.shared) : PcOk cfg m t y pc := by
  cases pc with
  | unlockX p v => simpa only [PcOk, hexcl] using h
  | reloadS p => simpa only [PcOk, hshared] using h
  | unlockS p v => simpa only [PcOk, hshared] using h
  | _ => exact h

theorem HoldOk.congr {m : Shared α} {x y : Thread} (h : HoldOk m t x p)
    (hexcl : y.exclusive p = x.exclusive p) (hshared : y.shared p = x.shared p) :
    HoldOk m t y p := by
  refine ⟨?_, ?_, ?_, ?_⟩
  · rw [hexcl]
    exact h.exclusive
  · rw [hshared]
    exact h.shared
  · rw [hshared]
    exact h.count
  · rw [hshared]
    exact h.tlb

/-- The state after a step of thread `t`, with the shared part `m'`. -/
structure Becomes (s : State α) (m' : Shared α) (t : Nat) (x : Thread) (s' : State α) : Prop where
  shared : s'.toShared = m'
  threads : s'.threads = Function.update s.threads t x
  evictors : s'.evictors = s.evictors
  guards : ∀ g ∈ s'.guards, s.known g.page = true
  fixes : s'.fixes = s.fixes ∨ ∃ p f, s.owner f = .resident p ∧
    s'.fixes = ⟨p, (s.frames f).data, s.last p⟩ :: s.fixes

theorem Inv.becomes (hinv : Inv cfg s) (m' : Shared α) (t : Nat) (x : Thread) :
    Becomes s m' t x ((s.put m').setThread t x) :=
  ⟨rfl, rfl, rfl, hinv.guards, .inl rfl⟩

/-- What thread `t` has to show for a step to position `pc`. -/
structure Arrives (cfg : Config α) (s : State α) (m' : Shared α) (t : Nat) (pc : Pc) : Prop where
  ok : PcOk cfg m' t (s.threads t) pc
  frames : ∀ f, (m'.owner f).takenBy t → f ∈ pc.frames m'
  claim : ∀ p, pc.claims p → (s.threads t).pc.claims p ∨ ∀ u, ¬ (s.threads u).pc.claims p

/-- A step to position `pc` that releases no lock. -/
theorem Inv.goto {q : Touch} (hinv : Inv cfg s) (pc : Pc)
    (hchange : Change cfg k s.toShared (.thread t) q m') (hexcl : Exclusive s t q)
    (hrel : ∀ u p, q ≠ .release u p) (hto : Arrives cfg s m' t pc)
    (hs : Becomes s m' t { s.threads t with pc := pc } s') : StepOk cfg k (.thread t) s s' := by
  refine ⟨?_, ⟨q, by rw [hs.shared]; exact hchange⟩, hs.fixes⟩
  refine hinv.threadStep hchange hexcl (fun u p hq => absurd hq (hrel u p)) hs.shared hs.threads
    hs.evictors ?_ hto.claim hs.guards
  refine ⟨?_, hto.ok.congr rfl rfl, hto.frames⟩
  intro p
  exact (((hinv.thread t).hold p).kept hchange hinv.base (hrel t p)).congr rfl rfl

/-- A step to position `pc` that changes nothing else. -/
theorem Inv.quiet (hinv : Inv cfg s) (pc : Pc)
    (hpc : PcOk cfg s.toShared t (s.threads t) pc)
    (hframes : ∀ f ∈ (s.threads t).pc.frames s.toShared, f ∈ pc.frames s.toShared)
    (hclaim : ∀ p, pc.claims p → (s.threads t).pc.claims p ∨ ∀ u, ¬ (s.threads u).pc.claims p)
    (hs : Becomes s s.toShared t { s.threads t with pc := pc } s') :
    StepOk cfg k (.thread t) s s' := by
  refine hinv.goto pc (.quiet _) ?_ (by simp) ⟨hpc, ?_, hclaim⟩ hs
  · intro p hq
    cases hq
  · intro f hf
    exact hframes f ((hinv.thread t).frames f hf)

/-! ## Faults -/

section Fault

variable {md : Mode} {pc pc' : FaultPc}

theorem Inv.pcOk (hinv : Inv cfg s) {pc : Pc} (hx : (s.threads t).pc = pc) :
    PcOk cfg s.toShared t (s.threads t) pc := by
  have hok := (hinv.thread t).pc
  rwa [hx] at hok

theorem NewPage.of_eq {m m' : Shared α} (h : NewPage cfg m p) (htaken : m'.taken = m.taken)
    (hknown : m'.known = m.known) : NewPage cfg m' p :=
  ⟨h.page, by rw [htaken]; exact h.taken, by rw [hknown]; exact h.known⟩

theorem Locks.of_eq {m m' : Shared α} (h : Locks m md p old) (hpte : m'.pte = m.pte) :
    Locks m' md p old :=
  ⟨by rw [hpte]; exact h.pte, h.usr1, h.present⟩

/-- Thread `t` has popped nothing. -/
theorem Inv.none_taken (hinv : Inv cfg s) (h : (s.threads t).pc.frames s.toShared = []) (f : Nat) :
    ¬ (s.owner f).takenBy t := by
  intro hf
  have hmem := (hinv.thread t).frames f hf
  rw [h] at hmem
  cases hmem

/-- An entry that a thread deals with is locked, or its page is new. -/
theorem Inv.claimed (hinv : Inv cfg s) {u : Nat} (h : (s.threads u).pc.claims p) :
    (s.pte p).usr1 = true ∨ NewPage cfg s.toShared p := by
  have hok := (hinv.thread u).pc
  cases hx : (s.threads u).pc with
  | fault md q pc =>
    rw [hx] at h hok
    obtain ⟨rfl, hc⟩ := h
    by_cases hmd : md = .allocate
    · exact .inr (hok.1 hmd)
    · refine .inl ?_
      have hf := hok.2.2
      cases pc with
      | load | lock _ | done => simp [FaultPc.locks, hmd] at hc
      | flush old | check old | alloc old | steal old | refill old stolen | zero old f
      | read old f => rw [hf.1.pte]
      | verify f => exact hf.usr1
      | unlock f => exact hf.1.usr1
      | unlocked f v => exact hf.1.usr1
      | store new => exact hf.locked
  | construct q | initWord q | loadWord q | lockNew q _ =>
    rw [hx] at h hok
    cases h
    exact .inr hok.1
  | run | look _ _ | tested _ _ _ | setDirty _ _ | unlockX _ _ | reloadS _ | unlockS _ _
  | clearCheck _ _ | exited _ =>
    rw [hx] at h
    cases h

/-- A fault is for a page that has been handed out. -/
theorem Inv.fault_taken (hinv : Inv cfg s) (hx : (s.threads t).pc = .fault md p pc) :
    s.taken p = true := by
  obtain ⟨hnew, hknown, _⟩ := hinv.pcOk hx
  by_cases h : md = .allocate
  · exact (hnew h).taken
  · exact (hinv.base.known p (hknown h)).2.1

theorem Inv.exclusive (hinv : Inv cfg s) (h : (s.threads t).pc.claims p) :
    Exclusive s t (.entry p) := by
  intro q hq u hu hc
  cases hq
  exact hu (hinv.claim u t p hc h)

theorem exclusive_nothing (s : State α) (t : Nat) : Exclusive s t .nothing := by
  intro p hq
  cases hq

/-- A thread deals with the entry that its fault has locked. -/
theorem claims_fault (hx : (s.threads t).pc = .fault md p pc) (hlock : pc.locks = true) :
    (s.threads t).pc.claims p := by
  rw [hx]
  exact ⟨rfl, .inl hlock⟩

section FaultSteps

variable {q : Touch} (hinv : Inv cfg s) (hx : (s.threads t).pc = .fault md p pc)
  (hlock : pc.locks = true) (hchange : Change cfg k s.toShared (.thread t) q m')
  (hto : s' = (s.put m').goto t (.fault md p pc')) (hq : q = .nothing ∨ q = .entry p)
  (htaken : m'.taken = s.taken) (hknown : m'.known = s.known)

include hinv hx hlock hchange hto hq htaken hknown

/-- A step of a fault that has locked the entry of its page. -/
theorem Inv.faultGoto (hok : FaultOk m' t md p pc')
    (hframes : ∀ f, (m'.owner f).takenBy t → f ∈ (Pc.fault md p pc').frames m') :
    StepOk cfg k (.thread t) s s' := by
  subst hto
  obtain ⟨hnew, hold, _⟩ := hinv.pcOk hx
  have hc := claims_fault hx hlock
  have hexcl : Exclusive s t q := by
    rcases hq with rfl | rfl
    · exact exclusive_nothing s t
    · exact hinv.exclusive hc
  have hrel : ∀ u r, q ≠ .release u r := by
    rcases hq with rfl | rfl <;> simp
  refine hinv.goto (.fault md p pc') hchange hexcl hrel ⟨⟨?_, ?_, hok⟩, hframes, ?_⟩ (hinv.becomes ..)
  · exact fun h => (hnew h).of_eq htaken hknown
  · intro h
    rw [hknown]
    exact hold h
  · rintro r ⟨rfl, _⟩
    exact .inl hc

/-- Such a step where the frames stay with their owners. -/
theorem Inv.faultKeep (howner : m'.owner = s.owner) (hok : FaultOk m' t md p pc')
    (hframes : ∀ f ∈ (Pc.fault md p pc).frames s.toShared, f ∈ (Pc.fault md p pc').frames m') :
    StepOk cfg k (.thread t) s s' := by
  refine hinv.faultGoto hx hlock hchange hto hq htaken hknown hok ?_
  intro f hf
  rw [howner] at hf
  have hmem := (hinv.thread t).frames f hf
  rw [hx] at hmem
  exact hframes f hmem

end FaultSteps

theorem fault_load (hinv : Inv cfg s) (hx : (s.threads t).pc = .fault md p .load) :
    StepOk cfg k (.thread t) s (s.goto t (.fault md p (.lock (s.pte p)))) := by
  obtain ⟨hnew, hknown, hf⟩ := hinv.pcOk hx
  refine hinv.quiet _ ?_ ?_ ?_ (hinv.becomes ..)
  · exact ⟨hnew, hknown, fun hmd => ⟨hf hmd, rfl⟩⟩
  · rw [hx]
    simp [Pc.frames]
  · rintro q ⟨rfl, hc⟩
    rw [hx]
    exact .inl ⟨rfl, hc⟩

/-- The entry is locked. -/
theorem fault_lock (hinv : Inv cfg s) (hx : (s.threads t).pc = .fault md p (.lock old))
    (husr1 : old.usr1 = false) (hold : s.pte p = old) :
    StepOk cfg k (.thread t) s ((s.put (s.setPte p { old with usr1 := true })).goto t
      (.fault md p (if old.present then .flush old else .alloc old))) := by
  obtain ⟨hnew, hknown, hf⟩ := hinv.pcOk hx
  have hfree : ¬ (s.threads t).pc.claims p → ∀ u, ¬ (s.threads u).pc.claims p := by
    intro hnot u hu
    have hmd : md ≠ .allocate := by
      rintro rfl
      exact hnot (by rw [hx]; exact ⟨rfl, .inr rfl⟩)
    rcases hinv.claimed hu with h | h
    · rw [hold, husr1] at h
      cases h
    · have := h.known
      rw [hknown hmd] at this
      cases this
  have hexcl : Exclusive s t (.entry p) := by
    by_cases hc : (s.threads t).pc.claims p
    · exact hinv.exclusive hc
    · intro q hq u _ hu
      cases hq
      exact hfree hc u hu
  have honly : OnlyIn s.toShared p old.frame := by
    intro f hloaded
    rw [hinv.base.mapped f p hloaded (by rw [hold]; exact husr1), hold]
  have habsent : old.present = false → Absent s.toShared p := by
    intro hpresent f hloaded
    have := (hinv.base.present f p hloaded).2
    rw [hold, hpresent] at this
    cases this
  have hmd : old.present = false ↔ md = .allocate := by
    constructor
    · intro hpresent
      by_contra hmd
      have := (hinv.base.known p (hknown hmd)).2.2
      rw [hold, hpresent] at this
      cases this
    · intro hmd
      rw [← hold]
      exact (hf hmd).1.present
  have hlocks : Locks (s.setPte p { old with usr1 := true }) md p old :=
    ⟨Function.update_self .., husr1, hmd⟩
  have hnone := hinv.none_taken (t := t) (by rw [hx]; simp [Pc.frames])
  refine hinv.goto _ (.entry _ p { old with usr1 := true } (hinv.fault_taken hx) honly ?_ ?_) hexcl
    (by simp) ⟨?_, ?_, ?_⟩
    (hinv.becomes ..)
  · by_cases hpresent : old.present = true
    · exact .inl hpresent
    · exact .inr (habsent (by simpa using hpresent))
  · rw [hold]
    exact id
  · refine ⟨fun h => (hnew h).of_eq rfl rfl, hknown, ?_⟩
    by_cases hpresent : old.present = true
    · rw [if_pos hpresent]
      refine ⟨hlocks, honly, ?_⟩
      intro h
      rw [hmd.2 h] at hpresent
      cases hpresent
    · rw [if_neg hpresent]
      exact ⟨hlocks, habsent (by simpa using hpresent)⟩
  · intro f hf
    exact absurd hf (hnone f)
  · rintro q ⟨rfl, _⟩
    by_cases hc : (s.threads t).pc.claims q
    · exact .inl hc
    · exact .inr (hfree hc)

theorem fault_flush (hinv : Inv cfg s) (hx : (s.threads t).pc = .fault md p (.flush old)) :
    StepOk cfg k (.thread t) s ((s.put (s.setTlb t p none)).goto t (.fault md p (.check old))) := by
  obtain ⟨_, _, hlocks, honly, hmd⟩ := hinv.pcOk hx
  refine hinv.faultKeep hx rfl (.tlb _ t p none (by simp)) rfl (.inl rfl) rfl rfl rfl
    ⟨hlocks.of_eq rfl, honly, hmd, ?_⟩ (by simp [Pc.frames])
  intro f hf
  simp [Shared.setTlb] at hf

/-- The word is read where the entry points to. -/
theorem fault_check (hinv : Inv cfg s) (hx : (s.threads t).pc = .fault md p (.check old)) :
    StepOk cfg k (.thread t) s (s.goto t (.fault md p
      (if (s.word (s.translate t p)).addr = p then .store old else .alloc old))) := by
  obtain ⟨_, _, hlocks, honly, hmd, htlb⟩ := hinv.pcOk hx
  have hframe : s.translate t p = old.frame := by
    rw [htlb.translate, hlocks.pte]
  rw [hframe]
  have hpresent : old.present = true := by
    rw [← Bool.not_eq_false]
    exact fun h => hmd (hlocks.present.1 h)
  refine hinv.faultKeep hx rfl (.quiet _) rfl (.inl rfl) rfl rfl rfl ?_ (by simp [Pc.frames])
  split
  · exact ⟨by rw [hlocks.pte], hlocks.usr1, hpresent, honly, fun h => absurd h hmd⟩
  · rename_i hne
    refine ⟨hlocks, ?_⟩
    -- A frame with the page would be the one that was read.
    intro f hf
    have hfo := honly f hf
    subst hfo
    have hok := hinv.base.frame old.frame
    cases ho : s.owner old.frame <;> rw [ho] at hf hok <;> cases hf
    · exact hne (by rw [hok.2.1])
    · exact hne hok.2.1
    · exact hne hok.2.1
    · exact hne hok.2.1

/-- A frame has been taken for a page that no frame holds. -/
theorem faultOk_afterZero {m : Shared α} (habsent : Absent m p) (hlocks : Locks m md p old)
    (hown : m.owner f = .filling t p) :
    FaultOk m t md p (afterZero md old f) ∧ f ∈ (Pc.fault md p (afterZero md old f)).frames m := by
  unfold afterZero
  split
  · rename_i h
    obtain ⟨hpresent, rfl⟩ := h
    refine ⟨⟨by rw [hlocks.pte], rfl, rfl, fun g hg => absurd hg (habsent g), ?_⟩,
      List.mem_singleton_self f⟩
    intro _
    exact ⟨by rw [hlocks.pte]; exact hpresent, habsent, hown⟩
  · rename_i h
    have hmd : md ≠ .allocate := fun hmd => h ⟨hlocks.present.2 hmd, hmd⟩
    exact ⟨⟨hlocks, habsent, hown, hmd⟩, List.mem_singleton_self f⟩

theorem faultOk_afterAlloc (cfg : Config α) {m : Shared α} (habsent : Absent m p)
    (hlocks : Locks m md p old) (hown : m.owner f = .filling t p) :
    FaultOk m t md p (afterAlloc cfg md old f) ∧
      f ∈ (Pc.fault md p (afterAlloc cfg md old f)).frames m := by
  unfold afterAlloc
  split
  · exact faultOk_afterZero habsent hlocks hown
  · exact ⟨⟨hlocks, habsent, hown⟩, List.mem_singleton_self f⟩

section Frames

variable (hinv : Inv cfg s)

include hinv

/-- A step that makes `f` the frame of the fault, and takes no other one. -/
theorem Inv.faultAlloc (hx : (s.threads t).pc = .fault md p pc) (hlock : pc.locks = true)
    (hchange : Change cfg k s.toShared (.thread t) .nothing m') (hlocks : Locks m' md p old)
    (habsent : Absent s.toShared p) (htaken : m'.taken = s.taken) (hknown : m'.known = s.known)
    (hown : m'.owner f = .filling t p) (hothers : ∀ g, g ≠ f → ¬ (m'.owner g).takenBy t) :
    StepOk cfg k (.thread t) s ((s.put m').goto t (.fault md p (afterAlloc cfg md old f))) := by
  obtain ⟨hok, hmem⟩ := faultOk_afterAlloc cfg (hchange.absent hinv.base (by simp) habsent) hlocks
    hown
  refine hinv.faultGoto hx hlock hchange rfl (.inl rfl) htaken hknown hok ?_
  intro g hg
  by_cases hgf : g = f
  · rw [hgf]
    exact hmem
  · exact absurd hg (hothers g hgf)

theorem fault_alloc {i : Nat} (hx : (s.threads t).pc = .fault md p (.alloc old))
    (hlast : (s.free i).getLast? = some f) :
    StepOk cfg k (.thread t) s
      ((s.put ((s.setFree i (s.free i).dropLast).setOwner f (.filling t p))).goto t
      (.fault md p (afterAlloc cfg md old f))) := by
  obtain ⟨_, _, hlocks, habsent⟩ := hinv.pcOk hx
  refine hinv.faultAlloc hx rfl (.pop t p i f hlast) (hlocks.of_eq rfl) habsent rfl rfl
    (Function.update_self ..) ?_
  intro g hgf
  simp only [Shared.setOwner, Function.update_of_ne hgf]
  exact hinv.none_taken (by rw [hx]; simp [Pc.frames]) g

/-- There is no frame, and the entry is restored. -/
theorem fault_retry (hx : (s.threads t).pc = .fault md p (.alloc old)) :
    StepOk cfg k (.thread t) s ((s.put (s.setPte p old)).goto t (.fault md p (.lock old))) := by
  obtain ⟨_, _, hlocks, habsent⟩ := hinv.pcOk hx
  have hself : (s.setPte p old).pte p = old := Function.update_self ..
  refine hinv.faultKeep hx rfl (.entry _ p old (hinv.fault_taken hx)
    (fun g hg => absurd hg (habsent g)) (.inr habsent) ?_) rfl (.inr rfl) rfl rfl rfl ?_
    (by simp [Pc.frames])
  · rw [hlocks.pte]
    exact id
  · intro hmd
    refine ⟨⟨habsent, ?_, ?_⟩, hself.symm⟩
    · rw [hself]
      exact hlocks.present.2 hmd
    · rw [hself]
      exact hlocks.usr1

theorem fault_toSteal (hx : (s.threads t).pc = .fault md p (.alloc old)) :
    StepOk cfg k (.thread t) s (s.goto t (.fault md p (.steal old))) :=
  hinv.faultKeep hx rfl (.quiet _) rfl (.inl rfl) rfl rfl rfl (hinv.pcOk hx).2.2
    (by simp [Pc.frames])

theorem fault_steal (i n : Nat) (hx : (s.threads t).pc = .fault md p (.steal old)) :
    StepOk cfg k (.thread t) s
      ((s.put ((s.setFree i ((s.free i).take ((s.free i).length - n))).setOwners
      ((s.free i).reverse.take n) (.popped t))).goto t
        (.fault md p (.refill old ((s.free i).reverse.take n)))) := by
  obtain ⟨_, _, hlocks, habsent⟩ := hinv.pcOk hx
  have hchange : Change cfg k s.toShared (.thread t) .nothing _ := .steal t i n
  refine hinv.faultGoto hx rfl hchange rfl (.inl rfl) rfl rfl
    ⟨hlocks.of_eq rfl, hchange.absent hinv.base (by simp) habsent, ?_, ?_⟩ ?_
  · have hrev := (List.reverse_perm (s.free i)).nodup_iff.2 (hinv.base.nodup i)
    exact hrev.sublist (List.take_sublist ..)
  · intro f hf
    exact Shared.setOwners_mem _ hf
  · intro f hf
    by_contra hmem
    have hmem' : f ∉ (s.free i).reverse.take n := hmem
    rw [Shared.setOwners_not_mem _ hmem'] at hf
    exact hinv.none_taken (by rw [hx]; simp [Pc.frames]) f hf

theorem fault_refill {stolen : List Nat} {i : Nat}
    (hx : (s.threads t).pc = .fault md p (.refill old stolen))
    (hlast : stolen.getLast? = some f) :
    StepOk cfg k (.thread t) s
      ((s.put (((s.setFree i (s.free i ++ stolen.dropLast)).setOwners stolen
      .free).setOwner f (.filling t p))).goto t (.fault md p (afterAlloc cfg md old f))) := by
  obtain ⟨_, _, hlocks, habsent, hnodup, hown⟩ := hinv.pcOk hx
  refine hinv.faultAlloc hx rfl (.refill t p i stolen f hlast hnodup hown) (hlocks.of_eq rfl)
    habsent rfl rfl (Function.update_self ..) ?_
  intro g hgf hg
  simp only [Shared.setOwner, Function.update_of_ne hgf] at hg
  by_cases hstolen : g ∈ stolen
  · rw [Shared.setOwners_mem _ hstolen] at hg
    cases hg
  · rw [Shared.setOwners_not_mem _ hstolen] at hg
    have hin := (hinv.thread t).frames g hg
    rw [hx] at hin
    exact absurd hin hstolen

theorem fault_zero (hx : (s.threads t).pc = .fault md p (.zero old f)) :
    StepOk cfg k (.thread t) s ((s.put (s.setPage f ⟨zeroWord, false, cfg.zero⟩)).goto t
      (.fault md p (afterZero md old f))) := by
  obtain ⟨_, _, hlocks, habsent, hown⟩ := hinv.pcOk hx
  obtain ⟨hok, hmem⟩ := faultOk_afterZero (m := s.setPage f ⟨zeroWord, false, cfg.zero⟩) habsent
    (hlocks.of_eq rfl) hown
  refine hinv.faultKeep hx rfl (.fill t p f _ hown (.inr (.inl rfl))) rfl (.inl rfl) rfl rfl rfl
    hok ?_
  intro g hg
  rw [List.mem_singleton.1 hg]
  exact hmem

theorem fault_read (hx : (s.threads t).pc = .fault md p (.read old f)) :
    StepOk cfg k (.thread t) s ((s.put (s.setPage f (s.disk p))).goto t
      (.fault md p (if old.present then .verify f else .store ⟨true, f, false⟩))) := by
  obtain ⟨_, _, hlocks, habsent, hown, hmd⟩ := hinv.pcOk hx
  have hpresent : old.present = true := by
    rw [← Bool.not_eq_false]
    exact fun h => hmd (hlocks.present.1 h)
  rw [if_pos hpresent]
  refine hinv.faultKeep hx rfl (.fill t p f _ hown (.inr (hinv.base.disk p))) rfl (.inl rfl) rfl
    rfl rfl ⟨hmd, ?_, ?_, habsent, hown, Function.update_self ..⟩ (fun _ h => h)
  · exact congrArg Pte.usr1 hlocks.pte
  · exact (congrArg Pte.present hlocks.pte).trans hpresent

theorem fault_verify (hx : (s.threads t).pc = .fault md p (.verify f)) :
    StepOk cfg k (.thread t) s (s.goto t
      (if (s.word f).addr = p then .fault md p (.unlock f) else .exited f)) := by
  obtain ⟨_, _, hfill⟩ := hinv.pcOk hx
  split
  · rename_i haddr
    exact hinv.faultKeep hx rfl (.quiet _) rfl (.inl rfl) rfl rfl rfl ⟨hfill, haddr⟩ (fun _ h => h)
  · rename_i haddr
    refine hinv.quiet _ ?_ ?_ ?_ (hinv.becomes ..)
    · exact ⟨p, hfill.owner, haddr⟩
    · rw [hx]
      exact fun _ h => h
    · rintro q ⟨⟩

theorem fault_unlock (hx : (s.threads t).pc = .fault md p (.unlock f)) :
    StepOk cfg k (.thread t) s (s.goto t (.fault md p (.unlocked f (s.word f)))) := by
  obtain ⟨_, _, hfill, haddr⟩ := hinv.pcOk hx
  exact hinv.faultKeep hx rfl (.quiet _) rfl (.inl rfl) rfl rfl rfl ⟨hfill, haddr, rfl⟩
    (fun _ h => h)

/-- The page has been loaded, and its frame is unlocked. -/
theorem fault_unlocked (hx : (s.threads t).pc = .fault md p (.unlocked f v))
    (hversion : k.version p v.unlockX.version) :
    StepOk cfg k (.thread t) s ((s.put ((s.setWord f v.unlockX).setOwner f (.resident p))).goto t
      (.fault md p (.store ⟨true, f, false⟩))) := by
  obtain ⟨_, hknown, hfill, haddr, rfl⟩ := hinv.pcOk hx
  have hother : ∀ g, g ≠ f →
      ((s.setWord f (s.word f).unlockX).setOwner f (.resident p)).owner g = s.owner g :=
    fun g hg => Function.update_of_ne hg _ _
  refine hinv.faultGoto hx rfl (.load t p f hfill.owner (hknown hfill.mode) hfill.absent hfill.usr1
    hfill.page haddr hversion) rfl (.inr rfl) rfl rfl
    ⟨hfill.usr1, rfl, rfl, ?_, fun h => absurd h hfill.mode⟩ ?_
  · intro g hg
    by_contra hne
    rw [hother g hne] at hg
    exact hfill.absent g hg
  · intro g hg
    by_cases hne : g = f
    · subst hne
      rw [Shared.setOwner_owner] at hg
      cases hg
    · rw [hother g hne] at hg
      have hmem := (hinv.thread t).frames g hg
      rw [hx] at hmem
      exact absurd (List.mem_singleton.1 hmem) hne

theorem fault_store {new : Pte} (hx : (s.threads t).pc = .fault md p (.store new)) :
    StepOk cfg k (.thread t) s ((s.put (s.setPte p new)).goto t (.fault md p .done)) := by
  obtain ⟨_, _, hstore⟩ := hinv.pcOk hx
  have hself : (s.setPte p new).pte p = new := Function.update_self ..
  refine hinv.faultKeep hx rfl (.entry _ p new (hinv.fault_taken hx) hstore.only
    (.inl hstore.present) (fun _ => hstore.present)) rfl (.inr rfl) rfl rfl rfl ?_ ?_
  · intro hmd
    obtain ⟨hpresent, habsent, hown⟩ := hstore.build hmd
    refine ⟨⟨?_, ?_, ?_, ?_, fun g hg => absurd hg (habsent g)⟩, habsent⟩
    · rw [hself]
      exact hstore.present
    · rw [hself]
      exact hstore.usr1
    · rw [hself]
      exact hown
    · -- Nobody has cached a translation of a page that was not present.
      intro f hf
      rw [show (s.setPte p new).tlb t p = none from hinv.base.tlb t p hpresent] at hf
      cases hf
  · intro g hg
    cases md with
    | allocate =>
      simp only [Pc.frames, hself] at hg ⊢
      exact hg
    | _ => simp [Pc.frames] at hg

theorem fault_done (hx : (s.threads t).pc = .fault md p .done) :
    StepOk cfg k (.thread t) s ((s.put (s.setTlb t p none)).goto t
      (if md = .allocate then .construct p else .look md p)) := by
  obtain ⟨hnew, hknown, hf⟩ := hinv.pcOk hx
  refine hinv.goto _ (.tlb _ t p none (by simp)) (exclusive_nothing s t) (by simp) ?_
    (hinv.becomes ..)
  split
  · rename_i hmd
    subst hmd
    obtain ⟨hb, habsent⟩ := hf rfl
    refine ⟨⟨(hnew rfl).of_eq rfl rfl, ⟨hb.present, hb.usr1, hb.owner, ?_, hb.only⟩, habsent⟩,
      ?_, ?_⟩
    · intro f hf
      simp [Shared.setTlb] at hf
    · intro f hf
      have hmem := (hinv.thread t).frames f hf
      rwa [hx] at hmem
    · rintro q rfl
      rw [hx]
      exact .inl ⟨rfl, .inr rfl⟩
  · rename_i hmd
    refine ⟨⟨hknown hmd, hmd⟩, ?_, ?_⟩
    · intro f hf
      refine absurd hf (hinv.none_taken ?_ f)
      rw [hx]
      cases md with
      | allocate => exact absurd rfl hmd
      | _ => rfl
    · rintro q ⟨⟩

end Frames

end Fault

/-! ## Locks -/

section Locks

/-- A step back to the caller that changes what thread `t` holds of `p`. -/
theorem Inv.holdStep {q : Touch} (hinv : Inv cfg s) (x : Thread)
    (hchange : Change cfg k s.toShared (.thread t) q m') (hq : ∀ r, q ≠ .entry r)
    (hrel : ∀ u r, q = .release u r → u = t ∧ r = p) (hpc : x.pc = .run)
    (hother : ∀ r, r ≠ p → x.exclusive r = (s.threads t).exclusive r ∧
      x.shared r = (s.threads t).shared r)
    (hhold : HoldOk m' t x p) (hframes : (s.threads t).pc.frames s.toShared = [])
    (howner : ∀ g, (m'.owner g).takenBy t → (s.owner g).takenBy t)
    (hs : Becomes s m' t x s') : StepOk cfg k (.thread t) s s' := by
  refine ⟨?_, ⟨q, by rw [hs.shared]; exact hchange⟩, hs.fixes⟩
  refine hinv.threadStep hchange (fun r hr => absurd hr (hq r)) (fun u r hr => (hrel u r hr).1)
    hs.shared hs.threads hs.evictors ⟨?_, ?_, ?_⟩ ?_ hs.guards
  · intro r
    by_cases hr : r = p
    · subst hr
      exact hhold
    · have hne : q ≠ .release t r := fun h => hr (hrel t r h).2
      exact (((hinv.thread t).hold r).kept hchange hinv.base hne).congr (hother r hr).1
        (hother r hr).2
  · rw [hpc]
    trivial
  · intro g hg
    exact absurd (howner g hg) (hinv.none_taken hframes g)
  · rw [hpc]
    rintro r ⟨⟩

/-- A frame that gets another word and owner is not one of the frames that
    are being filled. -/
theorem takenBy_of_setOwner {m : Shared α} {o : Owner} {g : Nat} (ho : ¬ o.takenBy t)
    (hg : (((m.setWord f w).setOwner f o).owner g).takenBy t) :
    (m.owner g).takenBy t := by
  by_cases hgf : g = f
  · subst hgf
    rw [Shared.setOwner_owner] at hg
    exact absurd hg ho
  · simp only [Shared.setOwner, Function.update_of_ne hgf] at hg
    exact hg

/-- The word of a known page that can be locked is that of a resident frame. -/
theorem Inv.resident_of_lockable (hinv : Inv cfg s) (hknown : s.known p = true)
    (haddr : (s.word f).addr = p) (hlock : (s.word f).lockable = true) : s.owner f = .resident p := by
  refine resident_of_known hinv.base hknown haddr ?_
  intro hlocked
  simp only [VmPageState.lockable, hlocked] at hlock
  exact absurd hlock (by decide)

theorem Inv.resident_of_lockS (hinv : Inv cfg s) (hknown : s.known p = true)
    (haddr : (s.word f).addr = p) (hlock : (s.word f).lockS = some w) :
    s.owner f = .resident p := by
  refine resident_of_known hinv.base hknown haddr ?_
  intro hlocked
  simp only [VmPageState.lockS, hlocked] at hlock
  rw [if_neg (by decide), if_neg (by decide)] at hlock
  cases hlock

theorem tlbOk_of_translate {m : Shared α} (h : m.translate t p = (m.pte p).frame) :
    TlbOk m t p := by
  intro f hf
  rw [← h, Shared.translate, hf]
  rfl

section Swaps

variable (hinv : Inv cfg s)

include hinv

theorem tested_lockX {up : Option Upgrade} (hx : (s.threads t).pc = .tested (.exclusive up) p v)
    (hlock : v.lockable = true)
    (hclean : lockAtEntry s (.thread t) = true) :
    StepOk cfg k (.thread t) s (s.tryLockX t up p v) := by
  obtain ⟨hknown, _, haddr, _⟩ := hinv.pcOk hx
  simp only [lockAtEntry, hx, Bool.or_eq_true, decide_eq_true_eq] at hclean
  unfold State.tryLockX
  simp only
  split
  · rename_i hv
    subst hv
    have hframe := hclean.resolve_left (by simp)
    have howner := hinv.resident_of_lockable hknown haddr hlock
    refine hinv.goto (.setDirty p (s.translate t p)) (.lockX t p _ howner hframe hlock)
      (exclusive_nothing s t) (by simp)
      ⟨?_, ?_, ?_⟩ ⟨rfl, ?_, ?_, ?_, ?_⟩
    · exact ⟨(hinv.base.known p hknown).2.1, hframe, Function.update_self ..,
        tlbOk_of_translate hframe⟩
    · intro g hg
      refine absurd (takenBy_of_setOwner ?_ hg) (hinv.none_taken (by rw [hx]; simp [Pc.frames]) g)
      rintro ⟨⟩
    · rintro q ⟨⟩
    · simp [State.goto, State.setThread, State.put, State.record]
    · simp [State.goto, State.setThread, State.put, State.record]
    · intro g hg
      exact hinv.guards g (s.upgraded_guards up hg)
    · refine .inr ⟨p, _, howner, ?_⟩
      simp [State.goto, State.setThread, State.put, State.record]
  · refine hinv.quiet _ ?_ ?_ ?_ (hinv.becomes ..)
    · exact ⟨hknown, by simp⟩
    · rw [hx]
      simp [Pc.frames]
    · rintro q ⟨⟩

/-- A step to a position in which thread `t` deals with no entry and fills no
    frame. -/
theorem Inv.idle (pc : Pc) (hpc : PcOk cfg s.toShared t (s.threads t) pc)
    (hframes : (s.threads t).pc.frames s.toShared = []) (hclaim : ∀ p, ¬ pc.claims p)
    (hs : Becomes s s.toShared t { s.threads t with pc := pc } s') :
    StepOk cfg k (.thread t) s s' := by
  refine hinv.quiet pc hpc ?_ (fun p hp => absurd hp (hclaim p)) hs
  rw [hframes]
  simp

theorem Inv.giveUp (up : Option Upgrade) (hframes : (s.threads t).pc.frames s.toShared = []) :
    StepOk cfg k (.thread t) s ((s.giveUp up).goto t .run) := by
  refine hinv.idle .run trivial hframes (fun _ h => h) ⟨?_, ?_, ?_, ?_, .inl ?_⟩
  · simp [State.goto, State.setThread]
  · simp [State.goto, State.setThread]
  · simp [State.goto, State.setThread]
  · intro g hg
    exact hinv.guards g (s.giveUp_guards up hg)
  · simp [State.goto, State.setThread]

theorem tested_lockS {up : Option Upgrade} (hx : (s.threads t).pc = .tested (.shared up) p v)
    (hlock : v.lockS = some w)
    (hclean : lockAtEntry s (.thread t) = true) :
    StepOk cfg k (.thread t) s (s.tryLockS t up p v w) := by
  obtain ⟨hknown, _, haddr, _⟩ := hinv.pcOk hx
  have hnone : (s.threads t).pc.frames s.toShared = [] := by
    rw [hx]
    rfl
  simp only [lockAtEntry, hx, Bool.or_eq_true, decide_eq_true_eq] at hclean
  unfold State.tryLockS
  simp only
  split
  · rename_i hv
    subst hv
    have hframe := hclean.resolve_left (by simp)
    have howner := hinv.resident_of_lockS hknown haddr hlock
    have hold := (hinv.thread t).hold p
    refine hinv.holdStep (p := p) { s.threads t with
        pc := .run
        shared := Function.update (s.threads t).shared p
          (s.translate t p :: (s.threads t).shared p) }
      (.lockS t p _ w howner hframe hlock) (by simp) (by simp) rfl ?_ ?_ hnone ?_
      ⟨rfl, ?_, ?_, ?_, ?_⟩
    · intro r hr
      exact ⟨rfl, Function.update_of_ne hr _ _⟩
    · -- The frame on which the lock is taken is that of the entry.
      refine ⟨?_, ?_, ?_, fun _ => tlbOk_of_translate hframe⟩
      · -- An exclusive lock would exclude the shared one.
        intro g hg
        obtain ⟨rfl, hown, _⟩ := hold.exclusive g hg
        rw [← hframe, howner] at hown
        cases hown
      · intro f hf
        simp only [Function.update_self] at hf
        rcases List.mem_cons.1 hf with rfl | hf
        · exact hframe
        · exact hold.shared f hf
      · simp only [Shared.setReaders, Function.update_self, List.length_cons, List.count_cons_self]
        exact Nat.succ_le_succ hold.count
    · exact fun g hg => hg
    · simp [State.setThread, State.put, State.record]
    · simp [State.setThread, State.put, State.record]
    · intro g hg
      exact hinv.guards g (s.upgraded_guards up hg)
    · refine .inr ⟨p, _, howner, ?_⟩
      simp [State.setThread, State.put, State.record]
  · split
    · exact hinv.giveUp up hnone
    · exact hinv.idle (.look (.shared up) p) ⟨hknown, by simp⟩ hnone (fun _ h => h) (hinv.becomes ..)

/-- A marked frame has no readers, with or without its mark. -/
theorem swap_clearMark (a : Agent) (hmarked : (s.word f).state = VmPageState.marked) :
    Change cfg k s.toShared a .nothing (s.setWord f (s.word f).clearMark) := by
  have howner := resident_of_marked hinv.base hmarked
  have hcounts := (hinv.base.frameOk howner).2.2
  have hnil := hcounts.nil_of_lockable (by simp [VmPageState.lockable, hmarked])
  refine .swap a _ f _ howner rfl rfl ?_
  rw [hnil]
  exact countsReaders_nil

theorem tested_clear (hx : (s.threads t).pc = .tested .optimistic p v) :
    StepOk cfg k (.thread t) s (s.tryClear t p v) := by
  obtain ⟨hknown, _, _, hmarked⟩ := hinv.pcOk hx
  have hnone : (s.threads t).pc.frames s.toShared = [] := by
    rw [hx]
    rfl
  unfold State.tryClear
  simp only
  split
  · rename_i hv
    subst hv
    refine hinv.goto (.run) (swap_clearMark hinv _ (hmarked rfl)) (exclusive_nothing s t)
      (by simp) ⟨trivial, ?_, fun _ h => h.elim⟩ ⟨rfl, rfl, rfl, ?_, .inl rfl⟩
    · intro g hg
      exact absurd hg (hinv.none_taken hnone g)
    · intro g hg
      rcases List.mem_cons.1 hg with rfl | hg
      · exact hknown
      · exact hinv.guards g hg
  · exact hinv.idle (.look .optimistic p) ⟨hknown, by simp⟩ hnone (fun _ h => h) (hinv.becomes ..)

theorem tested_step {md : Mode} (hx : (s.threads t).pc = .tested md p v)
    (hclean : lockAtEntry s (.thread t) = true) :
    StepOk cfg k (.thread t) s (testedStep s t md p v) := by
  obtain ⟨hknown, hmd, _, _⟩ := hinv.pcOk hx
  have hnone : (s.threads t).pc.frames s.toShared = [] := by
    rw [hx]
    rfl
  have hlook : StepOk cfg k (.thread t) s (s.goto t (.look md p)) :=
    hinv.idle (.look md p) ⟨hknown, hmd⟩ hnone (fun _ h => h) (hinv.becomes ..)
  cases md with
  | exclusive up =>
    simp only [testedStep]
    split
    · exact hinv.giveUp up hnone
    · split
      · rename_i hlock
        exact tested_lockX hinv hx hlock hclean
      · exact hlook
  | shared up =>
    simp only [testedStep]
    split
    · exact hinv.giveUp up hnone
    · split
      · rename_i hlock
        exact tested_lockS hinv hx hlock hclean
      · split
        · exact hinv.giveUp up hnone
        · exact hlook
  | optimistic => exact tested_clear hinv hx
  | allocate => exact absurd rfl hmd

theorem look_step {md : Mode} (hx : (s.threads t).pc = .look md p) : StepOk cfg k (.thread t) s
      (lookStep s t md p (s.word (s.translate t p)) (s.translate t p)) := by
  obtain ⟨hknown, hmd⟩ := hinv.pcOk hx
  have hnone : (s.threads t).pc.frames s.toShared = [] := by
    rw [hx]
    rfl
  unfold lookStep
  split
  · rename_i haddr
    split
    · split
      · rename_i hmarked
        exact hinv.idle (.tested .optimistic p _) ⟨hknown, hmd, haddr, fun _ => hmarked⟩ hnone
          (fun _ h => h) (hinv.becomes ..)
      · split
        · exact hinv.idle (.look .optimistic p) ⟨hknown, hmd⟩ hnone (fun _ h => h) (hinv.becomes ..)
        · refine hinv.idle (.run) trivial hnone (fun _ h => h) ⟨rfl, rfl, rfl, ?_, .inl rfl⟩
          intro g hg
          rcases List.mem_cons.1 hg with rfl | hg
          · exact hknown
          · exact hinv.guards g hg
    · rename_i hne
      exact hinv.idle (.tested md p _) ⟨hknown, hmd, haddr, fun h => absurd h hne⟩ hnone
        (fun _ h => h) (hinv.becomes ..)
  · refine hinv.quiet (.fault md p .load) ?_ ?_ ?_ (hinv.becomes ..)
    · exact ⟨fun h => absurd h hmd, fun _ => hknown, fun h => absurd h hmd⟩
    · rw [hnone]
      simp
    · rintro q ⟨_, hc⟩
      simp [FaultPc.locks, hmd] at hc

/-! ## The first lock of a new page, and unlocking -/

theorem initWord_step (hx : (s.threads t).pc = .initWord p) : StepOk cfg k (.thread t) s
      ((s.put ((s.setWord (s.translate t p) ⟨p, 0#20, VmPageState.unlocked⟩).setOwner
      (s.translate t p) (.fresh t p))).goto t (.loadWord p)) := by
  obtain ⟨hnew, hb, habsent⟩ := hinv.pcOk hx
  have hframe : s.translate t p = (s.pte p).frame := hb.tlb.translate
  have hc : (s.threads t).pc.claims p := by
    rw [hx]
    rfl
  rw [hframe]
  refine hinv.goto _ (.initWord t p _ hb.owner hnew.page hnew.taken hnew.known habsent rfl
    hb.present)
    (hinv.exclusive hc) (by simp) ⟨?_, ?_, ?_⟩ (hinv.becomes ..)
  · refine ⟨hnew.of_eq rfl rfl, hb.present, hb.usr1, Function.update_self .., hb.tlb, ?_⟩
    intro g hg
    by_contra hne
    have hne' : g ≠ (s.pte p).frame := hne
    simp only [Shared.setOwner, Function.update_of_ne hne'] at hg
    exact habsent g hg
  · intro g hg
    have hmem := (hinv.thread t).frames g (takenBy_of_setOwner (by rintro ⟨⟩) hg)
    rw [hx] at hmem
    rw [List.mem_singleton.1 hmem, Shared.setOwner_owner] at hg
    cases hg
  · rintro q rfl
    exact .inl hc

theorem loadWord_step (hx : (s.threads t).pc = .loadWord p) :
    StepOk cfg k (.thread t) s (s.goto t (.lockNew p (s.word (s.translate t p)))) := by
  obtain ⟨hnew, hb⟩ := hinv.pcOk hx
  refine hinv.quiet _ ?_ ?_ ?_ (hinv.becomes ..)
  · exact ⟨hnew, hb, by rw [hb.tlb.translate]⟩
  · rw [hx]
    simp [Pc.frames]
  · rintro q rfl
    rw [hx]
    exact .inl rfl

/-- Nobody else gets to a new page, so its first lock succeeds. -/
theorem lockNew_step (hx : (s.threads t).pc = .lockNew p v) : s.word (s.translate t p) = v ∧
    StepOk cfg k (.thread t) s
      ((s.put ((s.setWord (s.translate t p) v.lockX).setOwner (s.translate t p)
      (.guarded t p))).goto t (.setDirty p (s.translate t p))) := by
  obtain ⟨hnew, hb, rfl⟩ := hinv.pcOk hx
  have hframe : s.translate t p = (s.pte p).frame := hb.tlb.translate
  rw [hframe]
  refine ⟨rfl, hinv.goto _ (.lockNew t p _ hb.owner rfl) (exclusive_nothing s t) (by simp)
    ⟨?_, ?_, ?_⟩ (hinv.becomes ..)⟩
  · exact ⟨hnew.taken, rfl, Function.update_self .., hb.tlb⟩
  · intro g hg
    refine absurd (takenBy_of_setOwner ?_ hg) (hinv.none_taken (by rw [hx]; simp [Pc.frames]) g)
    rintro ⟨⟩
  · rintro q ⟨⟩

theorem setDirty_step (hx : (s.threads t).pc = .setDirty p f) :
    StepOk cfg k (.thread t) s ((s.put ((s.setPage (s.translate t p)
      { s.frames (s.translate t p) with dirty := true }).setKnown p)).setThread t
        { s.threads t with
          pc := .run
          exclusive := Function.update (s.threads t).exclusive p (some f) }) := by
  obtain ⟨htaken, rfl, howner, htlb⟩ := hinv.pcOk hx
  have hold := (hinv.thread t).hold p
  rw [htlb.translate]
  refine hinv.holdStep (p := p) _ (.dirty t p _ howner htaken) (by simp) (by simp) rfl ?_ ?_ ?_ ?_
    (hinv.becomes ..)
  · intro r hr
    exact ⟨Function.update_of_ne hr _ _, rfl⟩
  · refine ⟨?_, hold.shared, hold.count, hold.tlb⟩
    intro g hg
    simp only [Function.update_self, Option.some.injEq] at hg
    subst hg
    exact ⟨rfl, howner, htlb, by simp [Shared.setKnown]⟩
  · rw [hx]
    rfl
  · exact fun g hg => hg

theorem unlockX_step (hx : (s.threads t).pc = .unlockX p v)
    (hversion : k.version p v.unlockX.version) :
    StepOk cfg k (.thread t) s
      ((s.put (((s.setWord (s.translate t p) v.unlockX).setOwner (s.translate t p)
      (.resident p)).setLast p (s.frames (s.translate t p)).data)).setThread t
        { s.threads t with
          pc := .run
          exclusive := Function.update (s.threads t).exclusive p none }) := by
  obtain ⟨f, hf, rfl⟩ := hinv.pcOk hx
  have hold := (hinv.thread t).hold p
  obtain ⟨rfl, howner, htlb, hdirty⟩ := hold.exclusive f hf
  rw [htlb.translate]
  refine hinv.holdStep (p := p) _ (.unlockX t p _ howner hdirty hversion) (by simp) ?_ rfl ?_ ?_ ?_ ?_
    (hinv.becomes ..)
  · intro u r hr
    cases hr
    exact ⟨rfl, rfl⟩
  · intro r hr
    exact ⟨Function.update_of_ne hr _ _, rfl⟩
  · refine ⟨?_, hold.shared, hold.count, hold.tlb⟩
    intro g hg
    simp at hg
  · rw [hx]
    rfl
  · intro g hg
    exact takenBy_of_setOwner (o := .resident p) (fun h => h) hg

theorem reloadS_step (hx : (s.threads t).pc = .reloadS p) :
    StepOk cfg k (.thread t) s (s.goto t (.unlockS p (s.word (s.translate t p)))) := by
  have hne : (s.threads t).shared p ≠ [] := hinv.pcOk hx
  exact hinv.idle (.unlockS p _) hne (by rw [hx]; rfl) (fun _ h => h) (hinv.becomes ..)

theorem unlockS_step (hx : (s.threads t).pc = .unlockS p v) (hv : s.word (s.translate t p) = v) :
    StepOk cfg k (.thread t) s ((s.put ((s.setWord (s.translate t p) v.unlockS).setReaders p
      ((s.readers p).erase t))).setThread t
        { s.threads t with
          pc := .run
          shared := Function.update (s.threads t).shared p ((s.threads t).shared p).tail }) := by
  subst hv
  have hne : (s.threads t).shared p ≠ [] := hinv.pcOk hx
  have hold := (hinv.thread t).hold p
  have htlb := hold.tlb hne
  have hmem : t ∈ s.readers p := by
    refine List.count_pos_iff.1 ?_
    have := List.length_pos_iff.2 hne
    have := hold.count
    omega
  have howner := hinv.base.read p (List.ne_nil_of_mem hmem)
  rw [htlb.translate]
  refine hinv.holdStep (p := p) _ (.unlockS t p _ howner rfl hmem) (by simp) ?_ rfl ?_ ?_ ?_ ?_
    (hinv.becomes ..)
  · intro u r hr
    cases hr
    exact ⟨rfl, rfl⟩
  · intro r hr
    exact ⟨rfl, Function.update_of_ne hr _ _⟩
  · refine ⟨?_, ?_, ?_, fun _ => htlb⟩
    · intro g hg
      obtain ⟨rfl, hown, _⟩ := hold.exclusive g hg
      rw [howner] at hown
      cases hown
    · intro f hf
      simp only [Function.update_self] at hf
      exact hold.shared f (List.mem_of_mem_tail hf)
    · simp only [Shared.setReaders, Function.update_self, List.length_tail, List.count_erase_self]
      exact Nat.sub_le_sub_right hold.count 1
  · rw [hx]
    rfl
  · exact fun g hg => hg

theorem clearCheck_step {id : Nat} (hx : (s.threads t).pc = .clearCheck id v) (hv : s.word f = v) :
    StepOk cfg k (.thread t) s (((s.validate id).put (s.setWord f v.clearMark)).goto t .run) := by
  subst hv
  have hmarked : (s.word f).state = VmPageState.marked := hinv.pcOk hx
  refine hinv.goto .run (swap_clearMark hinv _ hmarked) (exclusive_nothing s t) (by simp)
    ⟨trivial, ?_, fun _ h => h.elim⟩ ⟨rfl, ?_, ?_, ?_, .inl ?_⟩
  · intro g hg
    exact absurd hg (hinv.none_taken (by rw [hx]; rfl) g)
  · simp [State.goto, State.setThread, State.put]
  · simp [State.goto, State.setThread, State.put]
  · intro g hg
    refine hinv.guards g ?_
    simpa [State.goto, State.setThread, State.put] using hg
  · simp [State.goto, State.setThread, State.put]

theorem construct_step (x : α) (d : Bool) (hx : (s.threads t).pc = .construct p) :
    StepOk cfg k (.thread t) s ((s.put (s.setPage (s.translate t p)
      ⟨s.word (s.translate t p), d, x⟩)).goto t (.initWord p)) := by
  obtain ⟨hnew, hb, habsent⟩ := hinv.pcOk hx
  have hword := hinv.base.frameOk hb.owner
  rw [hb.tlb.translate]
  refine hinv.goto _ (.fill t p _ ⟨_, d, x⟩ hb.owner hword) (exclusive_nothing s t) (by simp)
    ⟨?_, ?_, ?_⟩ (hinv.becomes ..)
  · exact ⟨hnew.of_eq rfl rfl, ⟨hb.present, hb.usr1, hb.owner, hb.tlb, hb.only⟩, habsent⟩
  · intro g hg
    have hmem := (hinv.thread t).frames g hg
    rwa [hx] at hmem
  · rintro q rfl
    rw [hx]
    exact .inl rfl

end Swaps

end Locks

/-! ## Every step of a thread -/

/-- What the conditions on a step say where the step is made. -/
def facts (s : State α) (l : Label α) : Facts where
  relocked f := relockClean s l = true → (s.frames f).dirty = false
  version p n := freshVersion s l = true → s.newVersion p n = true

theorem fault_step (hinv : Inv cfg s) {md : Mode} {pc : FaultPc}
    (hx : (s.threads t).pc = .fault md p pc) (hstep : faultStep cfg s t md p pc = some s') :
    StepOk cfg (facts s (.thread t)) (.thread t) s s' := by
  cases pc with
  | load =>
    cases hstep
    exact fault_load hinv hx
  | lock old =>
    simp only [faultStep] at hstep
    split at hstep
    · rename_i h
      cases hstep
      exact fault_lock hinv hx h.1 h.2
    · rename_i h
      cases hstep
      obtain ⟨hnew, hknown, hf⟩ := hinv.pcOk hx
      -- The entry of a new page is not locked by anyone else.
      have hmd : md ≠ .allocate := by
        intro hmd
        obtain ⟨hu, rfl⟩ := hf hmd
        exact h ⟨hu.usr1, rfl⟩
      refine hinv.quiet _ ?_ ?_ ?_ (hinv.becomes ..)
      · exact ⟨hnew, hknown, fun h => absurd h hmd⟩
      · rw [hx]
        simp [Pc.frames]
      · rintro q ⟨_, hc⟩
        simp [FaultPc.locks, hmd] at hc
  | flush old =>
    cases hstep
    exact fault_flush hinv hx
  | check old =>
    cases hstep
    exact fault_check hinv hx
  | alloc old =>
    simp only [faultStep] at hstep
    split at hstep
    · rename_i hlast
      cases hstep
      exact fault_alloc hinv hx hlast
    · split at hstep
      · cases hstep
        exact fault_retry hinv hx
      · cases hstep
        exact fault_toSteal hinv hx
  | steal old => cases hstep
  | refill old stolen =>
    simp only [faultStep] at hstep
    split at hstep
    · rename_i hlast
      cases hstep
      exact fault_refill hinv hx hlast
    · cases hstep
  | zero old f =>
    cases hstep
    exact fault_zero hinv hx
  | read old f =>
    cases hstep
    exact fault_read hinv hx
  | verify f =>
    cases hstep
    exact fault_verify hinv hx
  | unlock f =>
    cases hstep
    exact fault_unlock hinv hx
  | unlocked f v =>
    cases hstep
    refine fault_unlocked hinv hx ?_
    intro hfresh
    simpa only [freshVersion, hx] using hfresh
  | store new =>
    cases hstep
    exact fault_store hinv hx
  | done =>
    cases hstep
    exact fault_done hinv hx

theorem thread_step (hinv : Inv cfg s) (hclean : lockAtEntry s (.thread t) = true)
    (hstep : threadStep cfg s t = some s') : StepOk cfg (facts s (.thread t)) (.thread t) s s' := by
  simp only [threadStep] at hstep
  generalize hx : (s.threads t).pc = pc at hstep
  cases pc with
  | run | exited _ | construct _ => cases hstep
  | look md p =>
    cases hstep
    exact look_step hinv hx
  | tested md p v =>
    cases hstep
    exact tested_step hinv hx hclean
  | fault md p pc => exact fault_step hinv hx hstep
  | initWord p =>
    cases hstep
    exact initWord_step hinv hx
  | loadWord p =>
    cases hstep
    exact loadWord_step hinv hx
  | lockNew p v =>
    obtain ⟨hv, hok⟩ := lockNew_step (k := facts s (.thread t)) hinv hx
    simp only [hv, if_true] at hstep
    cases hstep
    exact hok
  | setDirty p f =>
    cases hstep
    exact setDirty_step hinv hx
  | unlockX p v =>
    cases hstep
    refine unlockX_step hinv hx ?_
    intro hfresh
    simpa only [freshVersion, hx] using hfresh
  | reloadS p =>
    cases hstep
    exact reloadS_step hinv hx
  | unlockS p v =>
    simp only at hstep
    split at hstep
    · rename_i hv
      cases hstep
      exact unlockS_step hinv hx hv
    · cases hstep
      have hne : (s.threads t).shared p ≠ [] := hinv.pcOk hx
      exact hinv.idle (.reloadS p) hne (by rw [hx]; rfl) (fun _ h => h) (hinv.becomes ..)
  | clearCheck id v =>
    simp only at hstep
    split at hstep
    · split at hstep
      · rename_i hv
        cases hstep
        exact clearCheck_step hinv hx hv
      · cases hstep
        refine hinv.idle .run trivial (by rw [hx]; rfl) (fun _ h => h) ⟨rfl, rfl, rfl, ?_, .inl rfl⟩
        intro g hg
        exact hinv.guards g (List.mem_filter.1 hg).1
    · cases hstep

end Tabby
