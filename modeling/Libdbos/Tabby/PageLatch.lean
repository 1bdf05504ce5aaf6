import Libdbos.Framework.System
import Libdbos.Tabby.PageWord

/-! # The Latch of a Page

    The state word as a reader-writer latch, for any number of threads. The
    exclusive lock is taken by a compare-exchange and given back by a load and a
    plain store; shared locks are taken and given back by compare-exchanges. Marks
    are set and cleared in between.

    A compare-exchange comes with the word that the thread has read before, at
    whatever time. What is known of this word is what the callers test: the
    exclusive lock is tried on words that are unlocked or marked, marks are set on
    unlocked words and cleared on marked ones.

    That the load and the store of a release are two steps does no harm: while a
    thread holds the exclusive lock, the word stays as it is (`Inv.storing`).
-/

open LTS

namespace Tabby.Latch

open PageWord

/-! ## Threads -/

/-- The ways to give the exclusive lock back. -/
inductive Release where
  | unlockX
  | unlockXInvalidated
  | downgradeLock
  deriving DecidableEq, Repr

/-- What is stored after `v` has been loaded. -/
def Release.word (v : U64) : Release → U64
  | .unlockX => PageWord.unlockX v
  | .unlockXInvalidated => PageWord.unlockXInvalidated v
  | .downgradeLock => PageWord.downgradeLock v

/-- Where a thread is. -/
inductive Pc where
  | idle
  /-- The word has been loaded; the store is next. -/
  | storing (how : Release) (v : U64)
  /-- In the loop of `unlockS`, before the load. -/
  | loading
  /-- In the loop of `unlockS`, before the compare-exchange. -/
  | swapping (v : U64)
  deriving DecidableEq, Repr

structure State where
  word : U64
  pc : Nat → Pc
  /-- The threads that hold the exclusive lock. -/
  exclusive : List Nat
  /-- The threads that hold shared locks, once for each lock. -/
  shared : List Nat

inductive Label where
  | tryLockX (t : Nat) (v : U64)
  | tryLockS (t : Nat) (v : U64)
  | tryMark (t : Nat) (v : U64)
  /-- A `GuardO` clears a mark. -/
  | clearMark (t : Nat) (v : U64)
  /-- The load of a release of the exclusive lock. -/
  | load (t : Nat) (how : Release)
  | store (t : Nat)
  | unlockS (t : Nat)
  | loadS (t : Nat)
  | swapS (t : Nat)

def State.goto (s : State) (t : Nat) (pc : Pc) : State :=
  { s with pc := Function.update s.pc t pc }

/-- A compare-exchange: where it finds `v`, `s'` comes next. -/
def State.swap (s : State) (v : U64) (s' : State) : State := if s.word = v then s' else s

/-- A release is stored. A downgrade leaves a shared lock. -/
def State.store (s : State) (t : Nat) (how : Release) (v : U64) : State :=
  { s with
    word := how.word v
    exclusive := s.exclusive.erase t
    shared := if how = .downgradeLock then t :: s.shared else s.shared }

def step (s : State) : Label → Option State
  | .tryLockX t v =>
      if s.pc t = .idle ∧ (getState v = unlocked ∨ getState v = marked) then
        some (s.swap v { s with word := lockX v, exclusive := t :: s.exclusive })
      else none
  | .tryLockS t v =>
      if s.pc t = .idle then
        match lockS v with
        | some w => some (s.swap v { s with word := w, shared := t :: s.shared })
        | none => some s
      else none
  | .tryMark t v =>
      if s.pc t = .idle ∧ getState v = unlocked then some (s.swap v { s with word := mark v })
      else none
  | .clearMark t v =>
      if s.pc t = .idle ∧ getState v = marked then some (s.swap v { s with word := clearMark v })
      else none
  | .load t how =>
      if s.pc t = .idle ∧ t ∈ s.exclusive then some (s.goto t (.storing how s.word)) else none
  | .store t =>
      match s.pc t with
      | .storing how v => some ((s.store t how v).goto t .idle)
      | _ => none
  | .unlockS t => if s.pc t = .idle ∧ t ∈ s.shared then some (s.goto t .loading) else none
  | .loadS t =>
      match s.pc t with
      | .loading => some (s.goto t (.swapping s.word))
      | _ => none
  | .swapS t =>
      match s.pc t with
      | .swapping v =>
          if s.word = v then
            some ({ s with word := unlockS v, shared := s.shared.erase t }.goto t .idle)
          else some (s.goto t .loading)
      | _ => none

/-- Nobody holds the latch. -/
def system : System State Label where
  init s := (getState s.word = unlocked ∨ getState s.word = marked) ∧ (∀ t, s.pc t = .idle) ∧
    s.exclusive = [] ∧ s.shared = []
  step := step

variable {s s' : State}

/-! ## Steps -/

/-- The exclusive lock is taken or given back. -/
def State.changesHolder (s : State) : Label → Bool
  | .tryLockX _ v => s.word = v
  | .store _ => true
  | _ => false

/-- What a step does: a compare-exchange that fails changes nothing. -/
inductive Moves (s : State) : Label → State → Prop where
  | stay {l : Label} : s.changesHolder l = false → Moves s l s
  | lockX (t : Nat) : getState s.word = unlocked ∨ getState s.word = marked →
      Moves s (.tryLockX t s.word)
        { s with word := PageWord.lockX s.word, exclusive := t :: s.exclusive }
  | lockS (t : Nat) {w : U64} : PageWord.lockS s.word = some w →
      Moves s (.tryLockS t s.word) { s with word := w, shared := t :: s.shared }
  | mark {t : Nat} : getState s.word = unlocked →
      Moves s (.tryMark t s.word) { s with word := PageWord.mark s.word }
  | clearMark {t : Nat} : getState s.word = marked →
      Moves s (.clearMark t s.word) { s with word := PageWord.clearMark s.word }
  | load (t : Nat) (how : Release) : t ∈ s.exclusive →
      Moves s (.load t how) (s.goto t (.storing how s.word))
  | store {t : Nat} {how : Release} {v : U64} : s.pc t = .storing how v →
      Moves s (.store t) ((s.store t how v).goto t .idle)
  | unlockS (t : Nat) : t ∈ s.shared → Moves s (.unlockS t) (s.goto t .loading)
  | loadS {t : Nat} : s.pc t = .loading → Moves s (.loadS t) (s.goto t (.swapping s.word))
  | swapS {t : Nat} : s.pc t = .swapping s.word → Moves s (.swapS t)
      ({ s with word := PageWord.unlockS s.word, shared := s.shared.erase t }.goto t .idle)
  | retry {t : Nat} {v : U64} : s.pc t = .swapping v → Moves s (.swapS t) (s.goto t .loading)

/-- A compare-exchange does something, or nothing. -/
theorem moves_of_swap {l : Label} {v : U64} {t : State} (hs : some (s.swap v t) = some s')
    (ht : s.word = v → Moves s l t) (hfail : s.word ≠ v → s.changesHolder l = false) :
    Moves s l s' := by
  obtain rfl := Option.some.inj hs
  unfold State.swap
  split
  · next hword => exact ht hword
  · next hword => exact .stay (hfail hword)

theorem moves_of_step {l : Label} (hstep : step s l = some s') : Moves s l s' := by
  match l with
  | .tryLockX t v =>
    obtain ⟨⟨_, hfree⟩, hs⟩ := Option.ite_none_right_eq_some.mp hstep
    apply moves_of_swap hs
    · rintro rfl
      exact .lockX t hfree
    · exact fun hword => decide_eq_false hword
  | .tryLockS t v =>
    obtain ⟨_, hs⟩ := Option.ite_none_right_eq_some.mp hstep
    split at hs
    · next w hw =>
      apply moves_of_swap hs
      · rintro rfl
        exact .lockS t hw
      · exact fun _ => rfl
    · obtain rfl := Option.some.inj hs
      exact .stay rfl
  | .tryMark t v =>
    obtain ⟨⟨_, hfree⟩, hs⟩ := Option.ite_none_right_eq_some.mp hstep
    apply moves_of_swap hs
    · rintro rfl
      exact .mark hfree
    · exact fun _ => rfl
  | .clearMark t v =>
    obtain ⟨⟨_, hfree⟩, hs⟩ := Option.ite_none_right_eq_some.mp hstep
    apply moves_of_swap hs
    · rintro rfl
      exact .clearMark hfree
    · exact fun _ => rfl
  | .load t how =>
    obtain ⟨⟨_, hmem⟩, hs⟩ := Option.ite_none_right_eq_some.mp hstep
    obtain rfl := Option.some.inj hs
    exact .load t how hmem
  | .store t =>
    simp only [step] at hstep
    split at hstep
    · next how v hpc =>
      obtain rfl := Option.some.inj hstep
      exact .store hpc
    · cases hstep
  | .unlockS t =>
    obtain ⟨⟨_, hmem⟩, hs⟩ := Option.ite_none_right_eq_some.mp hstep
    obtain rfl := Option.some.inj hs
    exact .unlockS t hmem
  | .loadS t =>
    simp only [step] at hstep
    split at hstep
    · next hpc =>
      obtain rfl := Option.some.inj hstep
      exact .loadS hpc
    · cases hstep
  | .swapS t =>
    simp only [step] at hstep
    split at hstep
    · next v hpc =>
      split at hstep
      · next hword =>
        obtain rfl := Option.some.inj hstep
        rw [← hword] at hpc ⊢
        exact .swapS hpc
      · obtain rfl := Option.some.inj hstep
        exact .retry hpc
    · cases hstep

/-! ## Invariant -/

theorem getState_unlocked {v : U64} : getState v = unlocked ↔
    (decode v).state = VmPageState.unlocked := by
  rw [BitVec.toNat_eq, BitVec.toNat_eq, getState_eq]
  rfl

theorem getState_marked {v : U64} : getState v = marked ↔
    (decode v).state = VmPageState.marked := by
  rw [BitVec.toNat_eq, BitVec.toNat_eq, getState_eq]
  rfl

theorem getState_locked {v : U64} : getState v = locked ↔
    (decode v).state = VmPageState.locked := by
  rw [BitVec.toNat_eq, BitVec.toNat_eq, getState_eq]
  rfl

/-- A thread is on its way to give back a shared lock. -/
def Pc.unlocksS : Pc → Bool
  | .loading | .swapping _ => true
  | _ => false

structure Inv (s : State) : Prop where
  /-- Either one thread holds the exclusive lock, or the word counts the
      threads with shared locks. -/
  held : ((decode s.word).state = VmPageState.locked ∧ (∃ t, s.exclusive = [t]) ∧ s.shared = []) ∨
    (s.exclusive = [] ∧ CountsReaders s.shared (decode s.word).state)
  storing : ∀ t how v, s.pc t = .storing how v → t ∈ s.exclusive ∧ v = s.word
  unlocking : ∀ t, (s.pc t).unlocksS = true → t ∈ s.shared

theorem counts_not_locked {readers : List Nat} {state : BitVec 8}
    (h : CountsReaders readers state) : state ≠ VmPageState.locked := by
  rintro rfl
  rcases h with ⟨hcount, hle⟩ | ⟨_, hmarked⟩
  · have hcount : (253 : Nat) = readers.length := hcount
    omega
  · exact absurd hmarked (by decide)

theorem lockable_not_locked {v : VmPageState} (h : v.lockable = true) :
    v.state ≠ VmPageState.locked := by
  intro hlocked
  rw [VmPageState.lockable, hlocked] at h
  cases h

theorem lockS_not_locked {v w : VmPageState} (h : v.lockS = some w) :
    v.state ≠ VmPageState.locked := by
  intro hlocked
  rw [VmPageState.lockS, hlocked] at h
  cases h

/-- A word that is not locked counts, and no release is under way. -/
theorem Inv.free (hinv : Inv s) (hstate : (decode s.word).state ≠ VmPageState.locked) :
    s.exclusive = [] ∧ CountsReaders s.shared (decode s.word).state ∧
      ∀ t how v, s.pc t ≠ .storing how v := by
  rcases hinv.held with ⟨hlocked, _⟩ | ⟨hnone, hcounts⟩
  · exact absurd hlocked hstate
  · refine ⟨hnone, hcounts, fun t how v hpc => ?_⟩
    have hmem := (hinv.storing t how v hpc).1
    rw [hnone] at hmem
    cases hmem

/-- Another word takes the place of one that is not locked. -/
theorem Inv.count (hinv : Inv s) (hstate : (decode s.word).state ≠ VmPageState.locked) {w : U64}
    {readers : List Nat} (hcounts : CountsReaders readers (decode w).state)
    (hkeep : ∀ t, (s.pc t).unlocksS = true → t ∈ readers) :
    Inv { s with word := w, shared := readers } := by
  obtain ⟨hnone, _, hnot⟩ := hinv.free hstate
  exact ⟨.inr ⟨hnone, hcounts⟩, fun t how v hpc => absurd hpc (hnot t how v), hkeep⟩

/-- A mark is set or cleared. -/
theorem Inv.relabel (hinv : Inv s) (hfree : (decode s.word).lockable = true) {w : U64}
    (hcounts : CountsReaders [] (decode w).state) : Inv { s with word := w } := by
  have hstate := lockable_not_locked hfree
  have hnil := (hinv.free hstate).2.1.nil_of_lockable hfree
  refine hinv.count hstate ?_ hinv.unlocking
  rw [hnil]
  exact hcounts

/-- A thread goes somewhere; only what it relies on there is new. -/
theorem Inv.goto (hinv : Inv s) {t : Nat} {pc : Pc}
    (hstoring : ∀ how v, pc = .storing how v → t ∈ s.exclusive ∧ v = s.word)
    (hunlocking : pc.unlocksS = true → t ∈ s.shared) : Inv (s.goto t pc) := by
  refine ⟨hinv.held, fun u how v hpc => ?_, fun u hpc => ?_⟩
  · by_cases hu : u = t
    · subst hu
      exact hstoring how v (by simpa [State.goto] using hpc)
    · exact hinv.storing u how v (by simpa [State.goto, hu] using hpc)
  · by_cases hu : u = t
    · subst hu
      exact hunlocking (by simpa [State.goto] using hpc)
    · exact hinv.unlocking u (by simpa [State.goto, hu] using hpc)

/-- The exclusive lock is taken. -/
theorem Inv.lockX (hinv : Inv s) (t : Nat)
    (hfree : (decode s.word).lockable = true) :
    Inv { s with word := PageWord.lockX s.word, exclusive := t :: s.exclusive } := by
  obtain ⟨hnone, hcounts, hnot⟩ := hinv.free (lockable_not_locked hfree)
  have hshared := hcounts.nil_of_lockable hfree
  refine ⟨.inl ⟨?_, ⟨t, by rw [hnone]⟩, hshared⟩, fun u how v hpc => absurd hpc (hnot u how v),
    hinv.unlocking⟩
  rw [decode_lockX]
  rfl

/-- The exclusive lock is given back; a downgrade leaves one reader. -/
theorem Inv.store (hinv : Inv s) {t : Nat} {how : Release} {v : U64}
    (hpc : s.pc t = .storing how v) : Inv ((s.store t how v).goto t .idle) := by
  obtain ⟨hmem, rfl⟩ := hinv.storing t how v hpc
  rcases hinv.held with ⟨_, ⟨u, hone⟩, hshared⟩ | ⟨hnone, _⟩
  · obtain rfl : t = u := by
      rw [hone] at hmem
      exact List.mem_singleton.mp hmem
    have herase : s.exclusive.erase t = [] := by rw [hone, List.erase_cons_head]
    -- The thread itself goes on, and no other one has anything.
    have hother : ∀ u pc, (Function.update s.pc t .idle) u = pc →
        (∀ how v, pc ≠ .storing how v) ∧ pc.unlocksS = false := by
      intro u pc hu
      by_cases hut : u = t
      · rw [hut, Function.update_self] at hu
        rw [← hu]
        exact ⟨fun _ _ h => Pc.noConfusion h, rfl⟩
      · rw [Function.update_of_ne hut] at hu
        constructor
        · rintro how' v' rfl
          have hu' := (hinv.storing u how' v' hu).1
          rw [hone] at hu'
          exact hut (List.mem_singleton.mp hu')
        · cases hunlocks : pc.unlocksS with
          | false => rfl
          | true =>
            have hu' := hinv.unlocking u (by rw [hu]; exact hunlocks)
            rw [hshared] at hu'
            cases hu'
    refine ⟨.inr ⟨herase, ?_⟩, fun u how' v' hu => absurd rfl ((hother u _ hu).1 how' v'),
      fun u hu => ?_⟩
    · show CountsReaders (if how = .downgradeLock then t :: s.shared else s.shared)
        (decode (how.word s.word)).state
      rw [hshared]
      match how with
      | .unlockX =>
        rw [Release.word, decode_unlockX]
        exact countsReaders_nil
      | .unlockXInvalidated =>
        rw [Release.word, decode_unlockXInvalidated]
        exact countsReaders_nil
      | .downgradeLock =>
        rw [Release.word, decode_downgradeLock]
        exact .inl ⟨rfl, Nat.le_of_ble_eq_true rfl⟩
    · have hnot := (hother u _ rfl).2
      have hu : (Function.update s.pc t .idle u).unlocksS = true := hu
      rw [hnot] at hu
      cases hu
  · rw [hnone] at hmem
    cases hmem

/-- Who gives a shared lock back is counted. -/
theorem Inv.counts_unlocking (hinv : Inv s) {t : Nat} (hpc : (s.pc t).unlocksS = true) :
    s.exclusive = [] ∧ CountsReaders s.shared (decode s.word).state ∧
      0 < (decode s.word).state.toNat := by
  have hmem := hinv.unlocking t hpc
  rcases hinv.held with ⟨_, _, hshared⟩ | ⟨hnone, hcounts⟩
  · rw [hshared] at hmem
    cases hmem
  · refine ⟨hnone, hcounts, ?_⟩
    rcases hcounts with ⟨hcount, _⟩ | ⟨hnil, _⟩
    · rw [hcount]
      exact List.length_pos_of_mem hmem
    · rw [hnil] at hmem
      cases hmem

/-- A shared lock is given back. -/
theorem Inv.unlockS (hinv : Inv s) {t : Nat} (hpc : (s.pc t).unlocksS = true) :
    Inv ({ s with word := PageWord.unlockS s.word, shared := s.shared.erase t }.goto t .idle) := by
  obtain ⟨hnone, hcounts, hpos⟩ := hinv.counts_unlocking hpc
  obtain ⟨_, _, hnot⟩ := hinv.free (counts_not_locked hcounts)
  refine ⟨.inr ⟨hnone, ?_⟩, fun u how v hu => ?_, fun u hu => ?_⟩
  · show CountsReaders (s.shared.erase t) (decode (PageWord.unlockS s.word)).state
    rw [decode_unlockS _ hpos]
    exact hcounts.unlockS (hinv.unlocking t hpc)
  · by_cases hut : u = t
    · subst hut
      simp [State.goto] at hu
    · exact absurd (by simpa [State.goto, hut] using hu) (hnot u how v)
  · by_cases hut : u = t
    · subst hut
      simp [State.goto, Pc.unlocksS] at hu
    · have hu : (s.pc u).unlocksS = true := by simpa [State.goto, hut] using hu
      exact (List.mem_erase_of_ne hut).mpr (hinv.unlocking u hu)

theorem decode_of_lockS {v w : U64} (h : PageWord.lockS v = some w) :
    (decode v).lockS = some (decode w) := by
  rw [← decode_lockS, h]
  rfl

theorem lockable_of_getState {v : U64} (h : getState v = unlocked ∨ getState v = marked) :
    (decode v).lockable = true := by
  rw [getState_unlocked, getState_marked] at h
  simpa [VmPageState.lockable] using h

theorem Inv.step {l : Label} (hinv : Inv s) (hmoves : Moves s l s') : Inv s' := by
  cases hmoves with
  | stay _ => exact hinv
  | lockX t hfree => exact hinv.lockX t (lockable_of_getState hfree)
  | lockS t hw =>
    have hlock := decode_of_lockS hw
    have hstate := lockS_not_locked hlock
    obtain ⟨_, hcounts, _⟩ := hinv.free hstate
    exact hinv.count hstate (hcounts.lockS hlock t).2.2
      fun u hu => List.mem_cons_of_mem _ (hinv.unlocking u hu)
  | mark hfree =>
    apply hinv.relabel (lockable_of_getState (.inl hfree))
    rw [decode_mark]
    exact .inr ⟨rfl, rfl⟩
  | clearMark hfree =>
    apply hinv.relabel (lockable_of_getState (.inr hfree))
    rw [decode_clearMark]
    exact countsReaders_nil
  | load t how hmem =>
    refine hinv.goto (fun how' v hpc => ?_) fun h => by cases h
    cases hpc
    exact ⟨hmem, rfl⟩
  | store hpc => exact hinv.store hpc
  | unlockS t hmem => exact hinv.goto (fun _ _ h => by cases h) fun _ => hmem
  | loadS hpc | retry hpc =>
    exact hinv.goto (fun _ _ h => by cases h) fun _ => hinv.unlocking _ (by rw [hpc]; rfl)
  | swapS hpc => exact hinv.unlockS (by rw [hpc]; rfl)

theorem inv_of_reachable (h : system.Reachable s) : Inv s := by
  refine System.invariant ?_ (fun s l s' hinv hstep => hinv.step (moves_of_step hstep)) h
  rintro s ⟨hfree, hidle, hnone, hshared⟩
  refine ⟨.inr ⟨hnone, ?_⟩, fun t how v hpc => ?_, fun t hpc => ?_⟩
  · rw [getState_unlocked, getState_marked] at hfree
    rw [hshared]
    rcases hfree with hstate | hstate
    · rw [hstate]
      exact countsReaders_nil
    · exact .inr ⟨rfl, hstate⟩
  · rw [hidle] at hpc
    cases hpc
  · rw [hidle] at hpc
    cases hpc

/-! ## Addresses and versions -/

/-- The page is given up by its exclusive holder. -/
def State.invalidates (s : State) : Label → Bool
  | .store t =>
      match s.pc t with
      | .storing how _ => how = .unlockXInvalidated
      | _ => false
  | _ => false

/-- How the fields of the word may change in a step. -/
structure Changes (s : State) (l : Label) (w w' : VmPageState) : Prop where
  addr : w'.addr ≠ w.addr → s.invalidates l = true
  version : w'.version = w.version + if s.changesHolder l then 1#20 else 0#20

theorem Changes.same {l : Label} {w w' : VmPageState} (haddr : w'.addr = w.addr)
    (hversion : w'.version = w.version) (hnot : s.changesHolder l = false) : Changes s l w w' := by
  refine ⟨fun hne => absurd haddr hne, ?_⟩
  rw [hnot, hversion]
  exact (BitVec.add_zero _).symm

theorem Changes.next {l : Label} {w w' : VmPageState} (haddr : w'.addr = w.addr)
    (hholder : s.changesHolder l = true) (hversion : w'.version = w.version + 1#20) :
    Changes s l w w' := by
  refine ⟨fun hne => absurd haddr hne, ?_⟩
  rw [hholder, hversion]
  rfl

theorem lockS_fields {v w : VmPageState} (h : v.lockS = some w) :
    w.addr = v.addr ∧ w.version = v.version := by
  unfold VmPageState.lockS at h
  split at h
  · obtain rfl := Option.some.inj h
    exact ⟨rfl, rfl⟩
  · split at h
    · obtain rfl := Option.some.inj h
      exact ⟨rfl, rfl⟩
    · cases h

/-- **A latch step** gives the word a new address only where it invalidates the
    page, and a new version only where the exclusive lock changes hands. -/
theorem Moves.changes {l : Label} (hinv : Inv s) (hmoves : Moves s l s') :
    Changes s l (decode s.word) (decode s'.word) := by
  cases hmoves with
  | stay hnot => exact .same rfl rfl hnot
  | lockX t _ =>
    show Changes s _ _ (decode (PageWord.lockX s.word))
    rw [decode_lockX]
    exact .next rfl (decide_eq_true rfl) rfl
  | lockS t hw =>
    obtain ⟨haddr, hversion⟩ := lockS_fields (decode_of_lockS hw)
    exact .same haddr hversion rfl
  | mark _ =>
    show Changes s _ _ (decode (PageWord.mark s.word))
    rw [decode_mark]
    exact .same rfl rfl rfl
  | clearMark _ =>
    show Changes s _ _ (decode (PageWord.clearMark s.word))
    rw [decode_clearMark]
    exact .same rfl rfl rfl
  | load _ _ _ | unlockS _ _ | loadS _ | retry _ => exact .same rfl rfl rfl
  | @store t how v hpc =>
    obtain ⟨_, rfl⟩ := hinv.storing t how v hpc
    show Changes s _ _ (decode (how.word s.word))
    match how with
    | .unlockX =>
      rw [Release.word, decode_unlockX]
      exact .next rfl rfl rfl
    | .unlockXInvalidated =>
      rw [Release.word, decode_unlockXInvalidated]
      exact ⟨fun _ => by simp [State.invalidates, hpc], rfl⟩
    | .downgradeLock =>
      rw [Release.word, decode_downgradeLock]
      exact .next rfl rfl rfl
  | @swapS t hpc =>
    obtain ⟨_, _, hpos⟩ := @Inv.counts_unlocking s hinv t (by rw [hpc]; rfl)
    show Changes s _ _ (decode (PageWord.unlockS s.word))
    rw [decode_unlockS _ hpos]
    exact .same rfl rfl rfl

/-- The state of a latch: who holds it, and what the word says. -/
structure Counted (s : State) : Prop where
  locked_iff : getState s.word = locked ↔ s.exclusive ≠ []
  exclusive : getState s.word = locked → s.exclusive.length = 1 ∧ s.shared = []
  shared : getState s.word ≠ locked →
    s.shared.length = (if getState s.word = marked then 0 else (getState s.word).toNat) ∧
      s.shared.length ≤ 252

theorem Inv.counted (hinv : Inv s) : Counted s := by
  rcases hinv.held with ⟨hlocked, ⟨t, hone⟩, hshared⟩ | ⟨hnone, hcounts⟩
  · have hstate := getState_locked.mpr hlocked
    refine ⟨⟨fun _ => ?_, fun _ => hstate⟩, fun _ => ⟨?_, hshared⟩, fun hne => absurd hstate hne⟩
    · rw [hone]
      exact List.cons_ne_nil _ _
    · rw [hone]
      rfl
  · have hstate : getState s.word ≠ locked := by
      rw [Ne, getState_locked]
      exact counts_not_locked hcounts
    refine ⟨⟨fun h => absurd h hstate, fun h => absurd hnone h⟩, fun h => absurd h hstate,
      fun _ => ?_⟩
    rcases hcounts with ⟨hcount, hle⟩ | ⟨hnil, hmarked⟩
    · refine ⟨?_, hle⟩
      rw [if_neg, getState_eq, hcount]
      -- 254 readers are too many.
      rw [getState_marked]
      intro hmarked
      rw [hmarked] at hcount
      have hcount : (254 : Nat) = s.shared.length := hcount
      omega
    · rw [if_pos (getState_marked.mpr hmarked), hnil]
      exact ⟨rfl, Nat.zero_le _⟩

/-- **The word is a reader-writer latch.** -/
theorem word_is_latch (h : system.Reachable s) :
    Counted s ∧ ∀ l s', system.step s l = some s' →
      Changes s l (decode s.word) (decode s'.word) := by
  have hinv := inv_of_reachable h
  exact ⟨hinv.counted, fun l s' hstep => (moves_of_step hstep).changes hinv⟩

/-- Nobody holds the latch of page `0x12345`. -/
def freeLatch : State := ⟨0x0000123450000000#64, fun _ => .idle, [], []⟩

/-- Thread 1 takes the exclusive lock and keeps a shared one; thread 2 joins. -/
theorem word_is_latch_downgraded :
    ∃ s, system.Reachable s ∧ s.shared = [2, 1] ∧ Counted s := by
  obtain ⟨s, hrun, hshared⟩ := system.exists_exec freeLatch
    [.tryLockX 1 freeLatch.word, .load 1 .downgradeLock, .store 1,
      .tryLockS 2 0x0000123450100002#64] (fun s => s.shared = [2, 1]) (by decide)
  have hinit : system.init freeLatch := ⟨.inl (by decide), fun _ => rfl, rfl, rfl⟩
  have hreach := System.reachable_of_exec hinit hrun
  exact ⟨s, hreach, hshared, (word_is_latch hreach).1⟩

end Tabby.Latch
