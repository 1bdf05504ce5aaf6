import Libdbos.Tabby.EvictorSteps

/-! # Where Frames and Pages Are

    Every frame is at one place: on one free list, with one thread that fills
    it, with one page, or with one evictor that has invalidated it and has
    yet to free it (`frame_ownership`). And a thread that has locked a page
    reaches, through the address of the page, the frame on which it has taken
    the lock (`held_frame`).

    Both need `sound`: the clock scan takes a zeroed frame, and a new page
    that is not locked yet, for resident ones; and a frame that has been
    loaded is unlocked before the entry of its page points to it.
-/

open LTS

namespace Tabby

variable {α : Type} {cfg : Config α} {s : State α} {t f g : Nat} {p : Pid}

/-! ## Places of a frame -/

/-- Where a frame can be. -/
inductive Place where
  /-- On free list `i`. -/
  | free (i : Nat)
  /-- Popped by thread `t`, which has not stored the address of its page in
      unlocked state yet. -/
  | filling (t : Nat)
  /-- Resident for page `p`. -/
  | resident (p : Pid)
  /-- Invalidated by evictor `e`, which has not put it on a list yet. -/
  | evicted (e : Nat)
  deriving DecidableEq

/-- Frame `f` is at a place. -/
def State.at (cfg : Config α) (s : State α) (f : Nat) : Place → Prop
  | .free i => f ∈ s.free i
  | .filling t => f ∈ (s.threads t).pc.frames s.toShared
  | .resident p => (s.word f).addr = p ∧ cfg.isPage p = true ∧
      ∀ t, f ∉ (s.threads t).pc.frames s.toShared
  | .evicted e => f ∈ (s.evictors e).done

/-- A frame that a thread has popped is not given to a page yet, or its page
    is absent by the time the word has its address. -/
theorem Inv.owner_of_frames (hinv : Inv cfg s) (hf : f ∈ (s.threads t).pc.frames s.toShared) :
    s.owner f = .popped t ∨ ∃ p, s.owner f = .filling t p ∧
      ((s.word f).addr = p → Absent s.toShared p) := by
  have hok := (hinv.thread t).pc
  have hfilling : ∀ {g p}, f ∈ [g] → s.owner g = .filling t p → Absent s.toShared p →
      s.owner f = .popped t ∨ ∃ p, s.owner f = .filling t p ∧
        ((s.word f).addr = p → Absent s.toShared p) := by
    intro g p hg ho habsent
    rw [List.mem_singleton.1 hg]
    exact .inr ⟨p, ho, fun _ => habsent⟩
  cases hx : (s.threads t).pc with
  | fault md p pc =>
    rw [hx] at hf hok
    obtain ⟨_, _, hfault⟩ := hok
    cases pc with
    | refill old stolen => exact .inl (hfault.2.2.2 f hf)
    | zero old g => exact hfilling hf hfault.2.2 hfault.2.1
    | read old g => exact hfilling hf hfault.2.2.1 hfault.2.1
    | verify g => exact hfilling hf hfault.owner hfault.absent
    | unlock g | unlocked g v => exact hfilling hf hfault.1.owner hfault.1.absent
    | store new =>
      cases md with
      | allocate =>
        obtain ⟨_, habsent, ho⟩ := hfault.build rfl
        exact hfilling hf ho habsent
      | _ => cases hf
    | done =>
      cases md with
      | allocate =>
        obtain ⟨hb, habsent⟩ := hfault rfl
        exact hfilling hf hb.owner habsent
      | _ => cases hf
    | load | lock _ | flush _ | check _ | alloc _ | steal _ => cases md <;> cases hf
  | construct p | initWord p =>
    rw [hx] at hf hok
    exact hfilling hf hok.2.1.owner hok.2.2
  | exited g =>
    rw [hx] at hf hok
    obtain ⟨p, ho, hne⟩ := hok
    rw [List.mem_singleton.1 hf]
    exact .inr ⟨p, ho, fun haddr => absurd haddr hne⟩
  | run | look _ _ | tested _ _ _ | loadWord _ | lockNew _ _ | setDirty _ _ | unlockX _ _
  | reloadS _ | unlockS _ _ | clearCheck _ _ =>
    rw [hx] at hf
    cases hf

/-- The frames that a thread has popped are its own. -/
theorem Inv.takenBy_of_frames (hinv : Inv cfg s) (hf : f ∈ (s.threads t).pc.frames s.toShared) :
    (s.owner f).takenBy t := by
  rcases hinv.owner_of_frames hf with ho | ⟨p, ho, _⟩ <;> rw [ho] <;> rfl

/-- The page in a frame is not the address in a word without a page. -/
theorem not_page_of_freeWord {w : VmPageState} (h : FreeWord w) (hpage : cfg.isPage w.addr = true) :
    False := by
  rw [h.1, cfg.invalid_not_page] at hpage
  cases hpage

/-- What the owner of a frame says about where it is. -/
def Owner.place : Owner → Place → Prop
  | .free, .free _ => True
  | .popped t, .filling u | .filling t _, .filling u => t = u
  | .fresh _ p, .resident q | .resident p, .resident q | .guarded _ p, .resident q
  | .evicting _ p _, .resident q => p = q
  | .evicted e, .evicted d => e = d
  | _, _ => False

/-- A frame is only where its owner says. -/
theorem Inv.place_of_at (hinv : Inv cfg s) {x : Place} (h : s.at cfg f x) :
    (s.owner f).place x := by
  have hframe := hinv.base.frame f
  cases x with
  | free i =>
    rw [hinv.base.free i f h]
    trivial
  | filling t =>
    have htaken := hinv.takenBy_of_frames h
    cases ho : s.owner f <;> rw [ho] at htaken <;> cases htaken <;> rfl
  | resident p =>
    obtain ⟨haddr, hpage, hnot⟩ := h
    rw [← haddr] at hpage
    cases ho : s.owner f with
    | free | popped _ | evicted _ =>
      rw [ho] at hframe
      exact (not_page_of_freeWord hframe hpage).elim
    | filling t q => exact absurd ((hinv.thread t).frames f (by rw [ho]; rfl)) (hnot t)
    | fresh t q =>
      rw [ho] at hframe
      rw [hframe.2.1] at haddr
      exact haddr
    | resident q | guarded t q | evicting e q b =>
      rw [ho] at hframe
      exact hframe.2.1.symm.trans haddr
  | evicted e =>
    rw [((hinv.evictor e).done f).1 h]
    rfl

/-- A frame is where its owner says. -/
theorem Inv.at_of_owner (hinv : Inv cfg s) (hlt : f < cfg.physCount) :
    ∃ x, s.at cfg f x := by
  have hframe := hinv.base.frame f
  have hnot : ∀ t, ¬ (s.owner f).takenBy t → f ∉ (s.threads t).pc.frames s.toShared :=
    fun t h hf => h (hinv.takenBy_of_frames hf)
  cases ho : s.owner f with
  | free =>
    obtain ⟨i, hi⟩ := hinv.base.listed f hlt ho
    exact ⟨.free i, hi⟩
  | popped t | filling t p => exact ⟨.filling t, (hinv.thread t).frames f (by rw [ho]; rfl)⟩
  | fresh t p =>
    rw [ho] at hframe hnot
    exact ⟨.resident p, by rw [hframe.2.1], hframe.1, fun u => hnot u fun h => h⟩
  | resident p | guarded t p | evicting e p b =>
    rw [ho] at hframe hnot
    exact ⟨.resident p, hframe.2.1, hframe.1, fun u => hnot u fun h => h⟩
  | evicted e => exact ⟨.evicted e, ((hinv.evictor e).done f).2 ho⟩

/-- A frame is at one place only. -/
theorem Inv.at_unique (hinv : Inv cfg s) {x y : Place} (hx : s.at cfg f x) (hy : s.at cfg f y) :
    x = y := by
  have hpx := hinv.place_of_at hx
  have hpy := hinv.place_of_at hy
  cases x with
  | free i =>
    rw [hinv.base.free i f hx] at hpy
    cases y with
    | free j => rw [hinv.base.disjoint i j f hx hy]
    | _ => cases hpy
  | filling t | resident p =>
    cases ho : s.owner f <;> rw [ho] at hpx hpy <;> cases hpx <;> cases y <;> cases hpy <;> rfl
  | evicted e =>
    cases ho : s.owner f <;> rw [ho] at hpx hpy <;> cases hpx
    cases y <;> cases hpy
    rfl

theorem Owner.loaded_of_place {o : Owner} (h : o.place (.resident p)) : o.loaded = some p := by
  cases o <;> cases h <;> rfl

/-- **Frame ownership**: in every run under `sound`, every frame is at one
    place, and at most once on a free list; no two frames are resident for
    the same page; and a step of an evictor leaves alone what a thread is
    filling. -/
theorem frame_ownership (h : (system cfg).RunsTo (fun s l => sound s l = true) s) :
    (∀ f, f < cfg.physCount → (∃! x, s.at cfg f x) ∧ ∀ i, (s.free i).count f ≤ 1) ∧
    (∀ f g p, s.at cfg f (.resident p) → s.at cfg g (.resident p) → f = g) ∧
    ∀ e s', sound s (.evict e) = true → step cfg s (.evict e) = some s' →
      ∀ t f, s.at cfg f (.filling t) →
        s'.at cfg f (.filling t) ∧ s'.frames f = s.frames f ∧ ∀ i, f ∉ s'.free i := by
  have hinv := inv_of_runsTo h
  refine ⟨?_, ?_, ?_⟩
  · intro f hlt
    obtain ⟨x, hx⟩ := hinv.at_of_owner hlt
    exact ⟨⟨x, hx, fun y hy => hinv.at_unique hy hx⟩,
      fun i => List.nodup_iff_count.1 (hinv.base.nodup i) f⟩
  · intro f g p hf hg
    exact hinv.base.unique f g p (Owner.loaded_of_place (hinv.place_of_at hf))
      (Owner.loaded_of_place (hinv.place_of_at hg))
  · intro e s' hsound hstep t f hf
    simp only [sound, Bool.and_eq_true] at hsound
    have hok := evict_step hinv hsound.2 hstep
    obtain ⟨q, hchange⟩ := hok.change
    have htaken := hinv.takenBy_of_frames hf
    obtain ⟨hown, hframe⟩ := hchange.own hinv.base htaken.agent (by simp)
    rw [← hown] at htaken
    refine ⟨(hok.inv.thread t).frames f htaken, hframe, ?_⟩
    intro i hi
    rw [hok.inv.base.free i f hi] at htaken
    cases htaken

/-- Without preallocation, a frame of a run in which the scan comes too late
    for its zeroed word is resident, and the other one is free. -/
theorem frame_ownership_create :
    ∃ s, (system (small false 2)).RunsTo (fun s l => sound s l = true) s ∧
      s.at (small false 2) 1 (.resident 5#36) ∧ ∃! x, s.at (small false 2) 0 x := by
  obtain ⟨s, hrun, haddr, howner⟩ := (system (small false 2)).exists_runsTo sound (init_boot _)
    ([.allocPage 0 5#36] ++ threadSteps 6 0 ++ [.construct 0 1 true] ++ threadSteps 4 0 ++
      [.unfixX 0 5#36, .thread 0, .startEvict 0] ++ evictSteps 8 0)
    (fun s => (s.word 1).addr = 5#36 ∧ s.owner 1 = .resident 5#36) (by decide +kernel)
  obtain ⟨hplace, _, _⟩ := frame_ownership hrun
  refine ⟨s, hrun, ⟨haddr, rfl, ?_⟩, (hplace 0 (by decide)).1⟩
  intro t ht
  have htaken := (inv_of_runsTo hrun).takenBy_of_frames ht
  rw [howner] at htaken
  cases htaken

/-- **The scan takes a zeroed frame**: without preallocation, thread 0 has
    popped and zeroed a frame; the scan marks it, finds it marked and clean,
    and puts it on the free list. -/
theorem zeroed_frame_freed :
    Init (small false 1) (boot (small false 1)) ∧
    ∃ s, (system (small false 1)).exec (boot (small false 1))
      ([.allocPage 0 5#36] ++ threadSteps 4 0 ++ [.startEvict 0] ++ evictSteps 18 0) = some s ∧
      s.at (small false 1) 0 (.filling 0) ∧ s.at (small false 1) 0 (.free 0) := by
  refine ⟨init_boot _, ?_⟩
  exact (system (small false 1)).exists_exec_of
    (fun s => 0 ∈ (s.threads 0).pc.frames s.toShared ∧ 0 ∈ s.free 0) (by decide +kernel)
    (fun _ _ hs => hs)

/-- **The first lock of a new page is lost**: the scan marks page 5 between
    the load of its word and the swap that is to lock it. The guard goes on
    without a lock, and unlocks a frame that has been evicted meanwhile. -/
theorem new_page_lock_lost :
    Init (small true 1) (boot (small true 1)) ∧
    ∃ s, (system (small true 1)).exec (boot (small true 1))
      ([.allocPage 0 5#36] ++ threadSteps 5 0 ++ [.construct 0 1 true] ++ threadSteps 2 0 ++
        [.startEvict 0] ++ evictSteps 4 0 ++ threadSteps 2 0 ++ evictSteps 9 0 ++
        [.unfixX 0 5#36, .diskWrite 0 0 5#36] ++ evictSteps 6 0 ++ [.thread 0]) = some s ∧
      s.at (small true 1) 0 (.free 0) ∧ (s.word 0).addr = 5#36 := by
  refine ⟨init_boot _, ?_⟩
  exact (system (small true 1)).exists_exec_of (fun s => 0 ∈ s.free 0 ∧ (s.word 0).addr = 5#36)
    (by decide +kernel) (fun _ _ hs => hs)

/-! ## The frame of a page that is held -/

/-- Thread `t` has taken a lock on `p` on frame `f`, and has not released it. -/
def State.holds (s : State α) (t : Nat) (p : Pid) (f : Nat) : Prop :=
  (s.threads t).exclusive p = some f ∨ f ∈ (s.threads t).shared p ∨
    (s.threads t).pc = .setDirty p f

/-- A page that is being loaded is in no other frame. -/
theorem Inv.filling_absent (hinv : Inv cfg s) (ho : s.owner g = .filling t p)
    (haddr : (s.word g).addr = p) : Absent s.toShared p := by
  have hf := (hinv.thread t).frames g (by rw [ho]; rfl)
  rcases hinv.owner_of_frames hf with hown | ⟨q, hown, habsent⟩
  all_goals
    rw [ho] at hown
    cases hown
  exact habsent haddr

/-- Only the frame that holds a page carries its address. -/
theorem Inv.addr_unique (hinv : Inv cfg s) (hloaded : (s.owner f).loaded = some p)
    (haddr : (s.word g).addr = p) : g = f := by
  have hpage : cfg.isPage p = true := by
    have hframe := hinv.base.frame f
    cases ho : s.owner f <;> rw [ho] at hframe hloaded <;> cases hloaded <;> exact hframe.1
  have hframe := hinv.base.frame g
  cases ho : s.owner g with
  | free | popped _ | evicted _ =>
    rw [ho] at hframe
    exact (not_page_of_freeWord hframe (haddr ▸ hpage)).elim
  | filling t q =>
    rw [ho] at hframe
    rcases hframe with hw | hw | hw
    · exact (not_page_of_freeWord hw (haddr ▸ hpage)).elim
    · rw [← haddr, hw, show zeroWord.addr = 0#36 from rfl, cfg.zero_not_page] at hpage
      cases hpage
    · rw [← hw.1.symm.trans haddr] at hloaded
      exact absurd hloaded (hinv.filling_absent ho hw.1 f)
  | fresh t q =>
    rw [ho] at hframe
    rw [hframe.2.1] at haddr
    exact hinv.base.unique g f p (by rw [ho]; exact congrArg some haddr) hloaded
  | resident q | guarded t q | evicting e q b =>
    rw [ho] at hframe
    exact hinv.base.unique g f p (by rw [ho]; exact congrArg some (hframe.2.1.symm.trans haddr))
      hloaded

/-- What is held is in the frame on which the lock was taken. -/
theorem Inv.holds_frame (hinv : Inv cfg s) (h : s.holds t p f) :
    (s.owner f).loaded = some p ∧ s.translate t p = f := by
  have hold := (hinv.thread t).hold p
  rcases h with h | h | h
  · obtain ⟨rfl, howner, htlb, _⟩ := hold.exclusive f h
    exact ⟨by rw [howner]; rfl, htlb.translate⟩
  · have hne := List.ne_nil_of_mem h
    have hpos := List.length_pos_iff.2 hne
    have hmem : t ∈ s.readers p := List.count_pos_iff.1 (by have := hold.count; omega)
    rw [hold.shared f h, hinv.base.read p (List.ne_nil_of_mem hmem)]
    exact ⟨rfl, (hold.tlb hne).translate⟩
  · obtain ⟨_, rfl, howner, htlb⟩ := hinv.pcOk h
    exact ⟨by rw [howner]; rfl, htlb.translate⟩

/-- **Guards reach the right frame**: in every run under `sound`, as long as
    thread `t` has a lock on page `p`, the address of `p` takes it to the
    frame on which the lock was taken, and this frame alone carries the
    address of `p`. -/
theorem held_frame (h : (system cfg).RunsTo (fun s l => sound s l = true) s)
    (hholds : s.holds t p f) :
    s.translate t p = f ∧ ∀ g, (s.word g).addr = p ↔ g = f := by
  have hinv := inv_of_runsTo h
  obtain ⟨hloaded, htranslate⟩ := hinv.holds_frame hholds
  refine ⟨htranslate, ?_⟩
  intro g
  constructor
  · exact hinv.addr_unique hloaded
  · rintro rfl
    have hframe := hinv.base.frame g
    cases ho : s.owner g <;> rw [ho] at hframe hloaded <;> cases hloaded
    · rw [hframe.2.1]
    · exact hframe.2.1
    · exact hframe.2.1
    · exact hframe.2.1

/-- Page 5 has been evicted and loaded again, and is locked by thread 1. -/
theorem held_frame_reloaded :
    ∃ s, (system (small true 2)).RunsTo (fun s l => sound s l = true) s ∧
      s.holds 1 5#36 0 ∧ s.translate 1 5#36 = 0 ∧ ∀ g, (s.word g).addr = 5#36 ↔ g = 0 := by
  obtain ⟨s, hrun, hs⟩ := (system (small true 2)).exists_runsTo sound (init_boot (small true 2))
    (create 0 5#36 1 ++ [.tlbFill 1 5#36] ++ writeOut 0 1 5#36 19 ++ create 0 6#36 2 ++
      [.fix 1 (.exclusive none) 5#36] ++ threadSteps 15 1)
    (fun s => (s.threads 1).exclusive 5#36 = some 0) (by decide +kernel)
  have hholds : s.holds 1 5#36 0 := .inl hs
  exact ⟨s, hrun, hholds, held_frame hrun hholds⟩

/-- **An old translation to a new frame**: thread 1 has cached that page 5 is
    in frame 1. The page has been in frame 0 since then and is loaded into
    frame 1 once more; before the entry is set, thread 1 locks it there. When
    its translation is dropped, it is in frame 0. -/
theorem stale_translation_locks :
    Init (small true 2) (boot (small true 2)) ∧
    ∃ s, (system (small true 2)).exec (boot (small true 2))
      (create 0 5#36 1 ++ [.tlbFill 1 5#36] ++ writeOut 0 1 5#36 19 ++ create 0 6#36 2 ++
        reload 0 5#36 ++ [.startEvict 0] ++ evictSteps 22 0 ++ writeOut 0 1 6#36 9 ++
        [.fix 0 (.shared none) 5#36] ++ threadSteps 10 0 ++
        [.fix 1 (.exclusive none) 5#36] ++ threadSteps 3 1 ++ [.tlbDrop 1 5#36]) = some s ∧
      s.holds 1 5#36 1 ∧ s.translate 1 5#36 = 0 ∧ (s.word 0).addr ≠ 5#36 := by
  refine ⟨init_boot _, ?_⟩
  exact (system (small true 2)).exists_exec_of
    (fun s => (s.threads 1).exclusive 5#36 = some 1 ∧ s.translate 1 5#36 = 0 ∧
      (s.word 0).addr ≠ 5#36) (by decide +kernel)
    (fun _ _ ⟨hheld, hs⟩ => ⟨.inl hheld, hs⟩)

end Tabby
