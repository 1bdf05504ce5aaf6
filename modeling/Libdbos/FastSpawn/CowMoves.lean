import Libdbos.FastSpawn.CowFault

/-! # What One Step Can Do

    The steps of the machine, said once as relations that the proofs can
    split on:

    * `Goto`: the steps of the handler that only read shared data;
    * `HandlerMove`: all steps of the handler other than page copies;
    * `Move`: the steps of all parties;
    * `Claim`: what a core owns at its position in the handler. It holds
      the lock of a main leaf or of a snapshot leaf, it knows that a page
      is still shared, it has a copy nobody else can see, or it still has
      to drop a reference.

    A `Goto` never changes the claim of its core, so whatever is said
    about claims survives it.
-/

namespace CowFault

open Pte

variable {α : Type} {cfg : Config} {s s' : State α} {c : Nat}

/-! ## Moves -/

/-- Steps of the handler from one position to another that change nothing
    but the position. -/
inductive Goto (cfg : Config) (s : State α) (c : Nat) : Pc → Pc → Prop where
  | fetchCow {va} (hcow : isCow (s.leaf c va) = true) (hro : isW (s.leaf c va) = false)
      (hunlocked : isLock (s.leaf c va) = false) :
      Goto cfg s c (.fetch va true) (.lockPte va (s.leaf c va))
  | fetchOther {va write} : Goto cfg s c (.fetch va write) (.flush va)
  | lockLost {va old} (h : s.leaf c va ≠ old) : Goto cfg s c (.lockPte va old) (.flush va)
  | refOne {va old} (hpool : cfg.isFromPool (pteAddr old) = true) (hone : s.ref (pteAddr old) = 1) :
      Goto cfg s c (.readRef va old) (.storeOwned va old)
  | refMany {va old} : Goto cfg s c (.readRef va old) (.sample va old)
  | sampleSnap {va old} (hc : c = snapshotCore) : Goto cfg s c (.sample va old) (.copySnap va old)
  | sampleMain {va old} (hc : c ≠ snapshotCore) (hex : cfg.snapshotExists = true) :
      Goto cfg s c (.sample va old) (.loadSnap va old s.started)
  | sampleAlone {va old} (hc : c ≠ snapshotCore) (hex : cfg.snapshotExists = false) :
      Goto cfg s c (.sample va old) (.unlockAlone va old)
  | loadSnap {va old started} :
      Goto cfg s c (.loadSnap va old started) (.lockSnap va old started (s.snap va))
  | lockSnapLost {va old started sold} (h : s.snap va ≠ sold) :
      Goto cfg s c (.lockSnap va old started sold) (.restore va old)
  | installLost {va old started sold page} (h : s.snap va ≠ locked sold) :
      Goto cfg s c (.install va old started sold page) (.reload va old started page)
  | reload {va old started page} :
      Goto cfg s c (.reload va old started page) (.overwrite va old started page (s.snap va))
  | noShootdown {va old started need} (h : (started && (need || !cfg.selective)) = false) :
      Goto cfg s c (.shootdown va old started need) (.putMain va old)
  | flushMain {va} (hc : c ≠ snapshotCore) : Goto cfg s c (.flush va) .idle

/-- Steps of the handler of core `c` from a position, with their effect. -/
inductive HandlerMove (cfg : Config) (s : State α) (c : Nat) : Pc → State α → Prop where
  | goto {p p'} (h : Goto cfg s c p p') : HandlerMove cfg s c p (s.setPc c p')
  | lockMain {va old} (hc : c ≠ snapshotCore) (h : s.main va = old) :
      HandlerMove cfg s c (.lockPte va old)
        ((s.setMain va (locked old)).setPc c (.readRef va old))
  | lockOwn {va old} (hc : c = snapshotCore) (h : s.snap va = old) :
      HandlerMove cfg s c (.lockPte va old)
        ((s.setSnap va (locked old)).setPc c (.readRef va old))
  | ownMain {va old} (hc : c ≠ snapshotCore) :
      HandlerMove cfg s c (.storeOwned va old) ((s.setMain va (unlocked old)).setPc c (.flush va))
  | ownSnap {va old} (hc : c = snapshotCore) :
      HandlerMove cfg s c (.storeOwned va old) ((s.setSnap va (unlocked old)).setPc c (.flush va))
  | storeSnap {va old page} :
      HandlerMove cfg s c (.storeSnap va old page)
        ((s.replace va (privateCopy page old)).setPc c (.putSnap va old))
  | putSnap {va old} :
      HandlerMove cfg s c (.putSnap va old) ((s.put cfg va (pteAddr old)).setPc c (.flush va))
  | lockShared {va old started sold} (h : s.snap va = sold) (hsame : pteAddr old = pteAddr sold) :
      HandlerMove cfg s c (.lockSnap va old started sold)
        ((s.setSnap va (locked sold)).setPc c (.copyMain va old started sold))
  | lockDiverged {va old started sold} (h : s.snap va = sold)
      (hdiff : pteAddr old ≠ pteAddr sold) :
      HandlerMove cfg s c (.lockSnap va old started sold)
        ((s.setSnap va (locked sold)).setPc c (.storeDiverged va old sold))
  | restore {va old} :
      HandlerMove cfg s c (.restore va old)
        ((s.setMain va (restored old)).setPc c (.fetch va true))
  | storeDiverged {va old sold} :
      HandlerMove cfg s c (.storeDiverged va old sold)
        ((s.setSnap va (diverged (locked sold))).setPc c (.unlockMain va old))
  | install {va old started sold page} (h : s.snap va = locked sold) :
      HandlerMove cfg s c (.install va old started sold page)
        ((s.replace va (installed page (locked sold))).setPc c
          (.shootdown va old started (isA (locked sold))))
  | overwrite {va old started page now} :
      HandlerMove cfg s c (.overwrite va old started page now)
        ((s.replace va (overwritten page now)).setPc c (.shootdown va old started true))
  | shootdown {va old started need} (h : (started && (need || !cfg.selective)) = true) :
      HandlerMove cfg s c (.shootdown va old started need)
        ({ s with tlb := Function.update s.tlb va none }.setPc c (.putMain va old))
  | putMain {va old} :
      HandlerMove cfg s c (.putMain va old)
        ((s.put cfg va (pteAddr old)).setPc c (.unlockMain va old))
  | unlockMain {va old} :
      HandlerMove cfg s c (.unlockMain va old) ((s.setMain va (unlocked old)).setPc c (.flush va))
  | unlockAlone {va old} :
      HandlerMove cfg s c (.unlockAlone va old) ((s.setMain va (unlocked old)).setPc c (.flush va))
  | flushSnap {va} (hc : c = snapshotCore) :
      HandlerMove cfg s c (.flush va)
        ({ s with tlb := Function.update s.tlb va none }.setPc c .idle)

/-- **Inversion**: a step of the handler is one of the moves. -/
theorem handlerStep_cases (h : handlerStep cfg s c = some s') :
    HandlerMove cfg s c (s.pc c) s' := by
  unfold handlerStep at h
  cases hp : s.pc c with
  | idle => simp [hp] at h
  | fetch va write =>
    simp only [hp] at h
    split at h <;> cases h
    · rename_i hcond
      simp only [Bool.and_eq_true, Bool.not_eq_true'] at hcond
      obtain ⟨⟨⟨rfl, hcow⟩, hro⟩, hunlocked⟩ := hcond
      exact .goto (.fetchCow hcow hro hunlocked)
    · exact .goto .fetchOther
  | lockPte va old =>
    simp only [hp] at h
    split at h <;> cases h
    · rename_i heq
      by_cases hc : c = snapshotCore
      · simp only [State.leaf, State.setLeaf, hc, if_true] at heq ⊢
        exact .lockOwn rfl heq
      · simp only [State.leaf, State.setLeaf, hc, if_false] at heq ⊢
        exact .lockMain hc heq
    · exact .goto (.lockLost ‹_›)
  | readRef va old =>
    simp only [hp] at h
    split at h <;> cases h
    · rename_i hcond
      simp only [Bool.and_eq_true, beq_iff_eq] at hcond
      exact .goto (.refOne hcond.1 hcond.2)
    · exact .goto .refMany
  | storeOwned va old =>
    simp only [hp, Option.some.injEq] at h
    subst h
    by_cases hc : c = snapshotCore
    · simp only [State.setLeaf, hc, if_true]
      exact .ownSnap rfl
    · simp only [State.setLeaf, hc, if_false]
      exact .ownMain hc
  | sample va old =>
    simp only [hp] at h
    split at h
    · cases h; exact .goto (.sampleSnap ‹_›)
    · split at h <;> cases h
      · exact .goto (.sampleMain ‹_› ‹_›)
      · exact .goto (.sampleAlone ‹_› (by simpa using ‹¬ cfg.snapshotExists = true›))
  | copySnap va old => simp [hp] at h
  | storeSnap va old page => simp only [hp] at h; cases h; exact .storeSnap
  | putSnap va old => simp only [hp] at h; cases h; exact .putSnap
  | loadSnap va old started => simp only [hp] at h; cases h; exact .goto .loadSnap
  | lockSnap va old started sold =>
    simp only [hp, pteAddr_locked] at h
    split at h
    · split at h <;> cases h
      · exact .lockShared ‹_› ‹_›
      · exact .lockDiverged ‹_› ‹_›
    · cases h; exact .goto (.lockSnapLost ‹_›)
  | restore va old => simp only [hp] at h; cases h; exact .restore
  | storeDiverged va old sold => simp only [hp] at h; cases h; exact .storeDiverged
  | copyMain va old started sold => simp [hp] at h
  | install va old started sold page =>
    simp only [hp] at h
    split at h <;> cases h
    · exact .install ‹_›
    · exact .goto (.installLost ‹_›)
  | reload va old started page => simp only [hp] at h; cases h; exact .goto .reload
  | overwrite va old started page now => simp only [hp] at h; cases h; exact .overwrite
  | shootdown va old started need =>
    simp only [hp] at h
    split at h <;> cases h
    · exact .shootdown ‹_›
    · rename_i hcond
      exact .goto (.noShootdown (by simpa using hcond))
  | putMain va old => simp only [hp] at h; cases h; exact .putMain
  | unlockMain va old => simp only [hp] at h; cases h; exact .unlockMain
  | unlockAlone va old => simp only [hp] at h; cases h; exact .unlockAlone
  | flush va =>
    simp only [hp] at h
    split at h <;> cases h
    · exact .flushSnap ‹_›
    · exact .goto (.flushMain ‹_›)

/-- An update of a leaf by the page walker. -/
def Walked (v w : Word) : Prop := ∃ write, walked v write = some w

/-- The steps of all parties, by label. -/
inductive Move (cfg : Config) (s : State α) : Label α → State α → Prop where
  | fault {c : Nat} {va write} (hidle : s.pc c = .idle) (hva : va ∈ cfg.vas)
      (hroot : c = snapshotCore → s.worker ≠ .waiting) :
      Move cfg s (.fault c va write) (s.setPc c (.fetch va write))
  | handler {c : Nat} {t : State α} (h : HandlerMove cfg s c (s.pc c) t) :
      Move cfg s (.handler c) t
  | copySnap {c : Nat} {page va old} (halloc : s.allocatable cfg page = true)
      (hpc : s.pc c = .copySnap va old) :
      Move cfg s (.copy c page)
        ((s.copyInto page (pteAddr (s.snap va))).setPc c (.storeSnap va old page))
  | copyMain {c : Nat} {page va old started sold} (halloc : s.allocatable cfg page = true)
      (hpc : s.pc c = .copyMain va old started sold) :
      Move cfg s (.copy c page)
        ((s.copyInto page (pteAddr (s.main va))).setPc c (.install va old started sold page))
  | walkMain {va write w} (hw : Walked (s.main va) w) :
      Move cfg s (.walkMain va write) (s.setMain va w)
  | walkSnap {va write w} (hroot : s.worker ≠ .waiting) (hw : Walked (s.snap va) w) :
      Move cfg s (.walkSnap va write) (s.setSnap va w)
  | cacheSnap {va} (hroot : s.worker ≠ .waiting) (hp : isP (s.snap va) = true)
      (ha : isA (s.snap va) = true) :
      Move cfg s (.cacheSnap va)
        { s with tlb := Function.update s.tlb va (some (pteAddr (s.snap va))) }
  | storeMain {va x} (hp : isP (s.main va) = true) (hw : isW (s.main va) = true) :
      Move cfg s (.storeMain va x)
        { s with mem := Function.update s.mem (pteAddr (s.main va)) x }
  | storeSnap {va x} (hp : isP (s.snap va) = true) (hw : isW (s.snap va) = true) :
      Move cfg s (.storeSnap va x)
        { s with
          mem := Function.update s.mem (pteAddr (s.snap va)) x
          snapStored := if s.replaced va = 0 then s.snapStored
            else Function.update s.snapStored va (some x) }
  | loadRoot (hwait : s.worker = .waiting) :
      Move cfg s .loadRoot { s with worker := .loaded, tlb := fun _ => none }
  | announce (hload : s.worker = .loaded) : Move cfg s .announce { s with worker := .running }
  | walk {t : State α} (h : walkStep cfg s = some t) : Move cfg s .walk t

theorem step_cases {l : Label α} (h : step cfg s l = some s') : Move cfg s l s' := by
  cases l with
  | fault c va write =>
    simp only [step] at h
    split at h <;> cases h
    rename_i hcond
    exact .fault hcond.1 hcond.2.1 hcond.2.2
  | handler c => exact .handler (handlerStep_cases h)
  | copy c page =>
    simp only [step, copyStep] at h
    split at h
    · rename_i halloc
      split at h <;> cases h
      · exact .copySnap halloc ‹_›
      · exact .copyMain halloc ‹_›
    · cases h
  | walkMain va write =>
    simp only [step, Option.map_eq_some_iff] at h
    obtain ⟨w, hw, rfl⟩ := h
    exact .walkMain ⟨write, hw⟩
  | walkSnap va write =>
    simp only [step] at h
    split at h
    · cases h
    · simp only [Option.map_eq_some_iff] at h
      obtain ⟨w, hw, rfl⟩ := h
      exact .walkSnap ‹_› ⟨write, hw⟩
  | cacheSnap va =>
    simp only [step] at h
    split at h <;> cases h
    rename_i hcond
    exact .cacheSnap hcond.1 hcond.2.1 hcond.2.2
  | storeMain va x =>
    simp only [step] at h
    split at h <;> cases h
    rename_i hcond
    simp only [Bool.and_eq_true] at hcond
    exact .storeMain hcond.1 hcond.2
  | storeSnap va x =>
    simp only [step] at h
    split at h <;> cases h
    rename_i hcond
    exact .storeSnap hcond.2.1 hcond.2.2
  | loadRoot =>
    simp only [step] at h
    split at h <;> cases h
    exact .loadRoot ‹_›
  | announce =>
    simp only [step] at h
    split at h <;> cases h
    exact .announce ‹_›
  | walk => exact .walk h

/-- The walker keeps the mapping and every bit the handler looks at, and
    it touches only present leaves. -/
theorem Walked.flags {v w : Word} (h : Walked v w) :
    SameMapping w v ∧ isLock w = isLock v ∧ isCow w = isCow v ∧ isW w = isW v ∧ isP v = true := by
  obtain ⟨write, hw⟩ := h
  unfold walked at hw
  split at hw <;> split at hw <;> cases hw
  · rename_i hcond
    simp only [Bool.and_eq_true] at hcond
    exact ⟨sameMapping_dirtied v, by simp, by simp, by simp, hcond.1⟩
  · exact ⟨sameMapping_accessed v, by simp, by simp, by simp, ‹_›⟩

theorem Walked.marks {v w : Word} (h : Walked v w) : isA w = true := by
  obtain ⟨write, hw⟩ := h
  unfold walked at hw
  split at hw <;> split at hw <;> cases hw <;> simp

/-- Dropping a reference changes the count and its ghost and nothing else. -/
theorem put_field {β : Type} (g : State α → β)
    (hg : ∀ r d, g { s with ref := r, dropped := d } = g s) (va : Va) (f : Word) :
    g (s.put cfg va f) = g s := by
  unfold State.put
  split
  · exact hg _ _
  · rfl

/-- What the shadow copier leaves alone. -/
structure CopierFrame (s s' : State α) : Prop where
  main : s'.main = s.main
  snap : s'.snap = s.snap
  mem : s'.mem = s.mem
  pc : s'.pc = s.pc
  worker : s'.worker = s.worker
  tlb : s'.tlb = s.tlb
  replaced : s'.replaced = s.replaced
  dropped : s'.dropped = s.dropped
  snapStored : s'.snapStored = s.snapStored
  ref : ∀ f, s.ref f ≤ s'.ref f

theorem walkStep_frame (h : walkStep cfg s = some s') : CopierFrame s s' := by
  unfold walkStep at h
  split at h
  case h_12 va pg hpc =>
    split at h <;> cases h
    · refine ⟨rfl, rfl, rfl, rfl, rfl, rfl, rfl, rfl, rfl, ?_⟩
      intro f
      by_cases hf : f = pg
      · simp [hf]
      · simp [Function.update_of_ne hf]
    · exact ⟨rfl, rfl, rfl, rfl, rfl, rfl, rfl, rfl, rfl, fun _ => Nat.le_refl _⟩
  case h_1 =>
    split at h
    · cases h
    · split at h <;> cases h <;>
        exact ⟨rfl, rfl, rfl, rfl, rfl, rfl, rfl, rfl, rfl, fun _ => Nat.le_refl _⟩
  all_goals
    first
    | cases h; exact ⟨rfl, rfl, rfl, rfl, rfl, rfl, rfl, rfl, rfl, fun _ => Nat.le_refl _⟩
    | split at h <;> cases h <;>
        exact ⟨rfl, rfl, rfl, rfl, rfl, rfl, rfl, rfl, rfl, fun _ => Nat.le_refl _⟩

/-! ## Positions -/

/-- The page a core works on. -/
def Pc.page : Pc → Option Va
  | .idle => none
  | .fetch va _ | .lockPte va _ | .readRef va _ | .storeOwned va _ | .sample va _ | .copySnap va _
  | .storeSnap va _ _ | .putSnap va _ | .loadSnap va _ _ | .lockSnap va _ _ _ | .restore va _
  | .storeDiverged va _ _ | .copyMain va _ _ _ | .install va _ _ _ _ | .reload va _ _ _
  | .overwrite va _ _ _ _ | .shootdown va _ _ _ | .putMain va _ | .unlockMain va _
  | .unlockAlone va _ | .flush va => some va

/-- Positions that only the snapshot core reaches. -/
def Pc.onSnapshot : Pc → Bool
  | .copySnap _ _ | .storeSnap _ _ _ | .putSnap _ _ => true
  | _ => false

/-- Positions that only a main core reaches. -/
def Pc.onMain : Pc → Bool
  | .loadSnap _ _ _ | .lockSnap _ _ _ _ | .restore _ _ | .storeDiverged _ _ _ | .copyMain _ _ _ _
  | .install _ _ _ _ _ | .reload _ _ _ _ | .overwrite _ _ _ _ _ | .shootdown _ _ _ _
  | .putMain _ _ | .unlockMain _ _ | .unlockAlone _ _ => true
  | _ => false

/-- What the position of core `c` alone tells. -/
structure Position (cfg : Config) (c : Nat) (p : Pc) : Prop where
  mapped : ∀ va, p.page = some va → va ∈ cfg.vas
  snapshot : p.onSnapshot = true → c = snapshotCore
  main : p.onMain = true → c ≠ snapshotCore
  checked : ∀ va old, p = .lockPte va old →
    isCow old = true ∧ isW old = false ∧ isLock old = false

/-- A position reached from another one on the same page. -/
theorem Position.next {p p' : Pc} (hp : Position cfg c p)
    (hpage : ∀ va, p'.page = some va → p.page = some va)
    (hsnap : p'.onSnapshot = true → p.onSnapshot = true ∨ c = snapshotCore)
    (hmain : p'.onMain = true → p.onMain = true ∨ c ≠ snapshotCore)
    (hlock : ∀ va old, p' ≠ .lockPte va old) : Position cfg c p' where
  mapped := fun va hva => hp.mapped va (hpage va hva)
  snapshot := fun h => (hsnap h).elim hp.snapshot id
  main := fun h => (hmain h).elim hp.main id
  checked := fun va old h => absurd h (hlock va old)

theorem Goto.position {p p' : Pc} (h : Goto cfg s c p p') (hp : Position cfg c p) :
    Position cfg c p' := by
  cases h with
  | fetchCow hcow hro hunlocked =>
    refine ⟨hp.mapped, by simp [Pc.onSnapshot], by simp [Pc.onMain], ?_⟩
    rintro va old h
    cases h
    exact ⟨hcow, hro, hunlocked⟩
  | sampleSnap hc => exact hp.next (by simp [Pc.page]) (by simp [hc]) (by simp [Pc.onMain]) (by simp)
  | sampleMain hc _ | sampleAlone hc _ =>
    exact hp.next (by simp [Pc.page]) (by simp [Pc.onSnapshot]) (by simp [hc]) (by simp)
  | _ => exact hp.next (by simp [Pc.page]) (by simp [Pc.onSnapshot]) (by simp [Pc.onMain]) (by simp)

/-- A move changes no position but that of its core. -/
theorem HandlerMove.pc_of_ne {p : Pc} (h : HandlerMove cfg s c p s') {d : Nat} (hd : d ≠ c) :
    s'.pc d = s.pc d := by
  cases h <;> simp [State.setPc, State.setMain, State.setSnap, State.replace, State.put, hd] <;>
    split <;> rfl

theorem HandlerMove.position {p : Pc} (h : HandlerMove cfg s c p s') (hp : Position cfg c p) :
    Position cfg c (s'.pc c) := by
  cases h with
  | goto h => simpa [State.setPc] using h.position hp
  | _ =>
    simp only [State.setPc, Function.update_self]
    exact hp.next (by simp [Pc.page]) (by simp [Pc.onSnapshot]) (by simp [Pc.onMain]) (by simp)

/-- **Positions are kept** by every step. -/
theorem Move.position {l : Label α} (h : Move cfg s l s') (hp : ∀ c, Position cfg c (s.pc c)) :
    ∀ c, Position cfg c (s'.pc c) := by
  -- A step moves at most one core; the others keep their positions.
  have hone : ∀ {t : State α} {c : Nat} {p : Pc}, t.pc = s.pc → Position cfg c p →
      ∀ d, Position cfg d ((t.setPc c p).pc d) := by
    intro t c p ht hnew d
    by_cases hd : d = c
    · subst hd
      simpa [State.setPc] using hnew
    · simpa [State.setPc, Function.update_of_ne hd, ht] using hp d
  cases h with
  | @fault c va write hidle hva _ =>
    refine hone rfl ⟨?_, by simp [Pc.onSnapshot], by simp [Pc.onMain], by simp⟩
    rintro va' h
    cases h
    exact hva
  | @handler c s' h =>
    intro d
    by_cases hd : d = c
    · subst hd
      exact h.position (hp d)
    · rw [h.pc_of_ne hd]
      exact hp d
  | @copySnap c page va old _ hpc | @copyMain c page va old started sold _ hpc =>
    have hpos := hp c
    rw [hpc] at hpos
    exact hone rfl
      (hpos.next (by simp [Pc.page]) (by simp [Pc.onSnapshot]) (by simp [Pc.onMain]) (by simp))
  | walk h =>
    rw [(walkStep_frame h).pc]
    exact hp
  | _ => exact hp

/-! ## Claims -/

/-- What a core owns. -/
structure Claim where
  /-- The main leaf whose lock it holds. -/
  main : Option Va := none
  /-- The snapshot leaf whose lock it holds. -/
  snap : Option Va := none
  /-- The page it is about to copy, which both tables still share. -/
  sharing : Option Va := none
  /-- The page whose snapshot reference it still has to drop. -/
  drop : Option Va := none
  /-- The copy that no table maps yet. -/
  fresh : Option Word := none
  /-- The snapshot entry it is about to write back, `old_snapshot_pte`. -/
  kept : Option Word := none
  /-- The entry it locked first, `old_pte`. -/
  old : Word := 0#64

/-- The claim of a main core. -/
def mainClaim : Pc → Claim
  | .readRef va old | .storeOwned va old | .sample va old | .loadSnap va old _
  | .lockSnap va old _ _ | .restore va old | .unlockMain va old | .unlockAlone va old =>
      { main := some va, old := old }
  | .storeDiverged va old sold =>
      { main := some va, snap := some va, kept := some sold, old := old }
  | .copyMain va old _ _ => { main := some va, snap := some va, sharing := some va, old := old }
  | .install va old _ _ page | .reload va old _ page | .overwrite va old _ page _ =>
      { main := some va, snap := some va, sharing := some va, fresh := some page, old := old }
  | .shootdown va old _ _ | .putMain va old => { main := some va, drop := some va, old := old }
  | _ => {}

/-- The claim of the snapshot core. -/
def snapClaim : Pc → Claim
  | .readRef va old | .storeOwned va old | .sample va old | .copySnap va old =>
      { snap := some va, sharing := some va, old := old }
  | .storeSnap va old page =>
      { snap := some va, sharing := some va, fresh := some page, old := old }
  | .putSnap va old => { drop := some va, old := old }
  | _ => {}

def claimAt (c : Nat) (p : Pc) : Claim := if c = snapshotCore then snapClaim p else mainClaim p

theorem claimAt_main (hc : c ≠ snapshotCore) (p : Pc) : claimAt c p = mainClaim p := if_neg hc

theorem claimAt_snap (hc : c = snapshotCore) (p : Pc) : claimAt c p = snapClaim p := if_pos hc

theorem claimAt_idle (c : Nat) : claimAt c .idle = {} := by
  unfold claimAt
  split <;> rfl

theorem claimAt_fetch (c : Nat) (va : Va) (write : Bool) : claimAt c (.fetch va write) = {} := by
  unfold claimAt
  split <;> rfl

def State.claim (s : State α) (c : Nat) : Claim := claimAt c (s.pc c)

/-- **A step that only reads keeps the claim of its core.** -/
theorem Goto.claim {p p' : Pc} (h : Goto cfg s c p p') (hp : Position cfg c p) :
    claimAt c p' = claimAt c p := by
  have hmain := hp.main
  cases h <;> simp_all [claimAt, mainClaim, snapClaim, Pc.onMain]

end CowFault
