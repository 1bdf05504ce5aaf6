import Libdbos.Framework.System

/-! # The Spawn Handshake

    `dune_fast_spawn_on_snapshot` with the two threads that it works with,
    `page_table_copy_worker` and `dbos_fast_spawn_snapshot_worker`, all of
    `libdune/fast_spawn.c`, as far as they wait for each other. Each load and
    store of the shared state is one step; moving the other cores to the new
    root (`RootSwitch`) is one step here.

    The spawner waits on the condition variable for two shadow roots and for
    the end of the last snapshot function, and then polls for the thread
    state `SNAPSHOT`. The copy worker stores the roots and broadcasts, without
    the mutex; the snapshot worker resets the work pointer and does not
    broadcast; and it leaves the state `SNAPSHOT` when the function returns,
    whether the spawner has seen it or not. Each of these can make the spawner
    wait for ever (`spawner_hangs`), and nothing else can (`no_hang`).

    Only the spawner takes the mutex, so it is never waited for.
    `tearing_down` is never set.
-/

open LTS

namespace Handshake

/-! ## State -/

/-- Positions of the spawner: in `dune_fast_spawn_on_snapshot`, and in
    `dune_fast_spawn_signal_copy_worker` (`signal`, `signalled`). -/
inductive SpawnerPc where
  | idle
  | test1
  | test2
  | test3
  /-- The wait predicate was true; about to call `pthread_cond_wait`. -/
  | sleep
  | asleep
  | setRoot
  | setSnapshotRoot
  | switch
  | setWork
  | setArg
  | clear1
  | clear2
  | unlock
  | broadcast
  | poll
  | setJob
  | lastBroadcast
  | signal
  | signalled
  deriving DecidableEq, Repr

/-- Positions of the copy worker, with the roots it has made. -/
inductive CopyPc where
  | wait
  | take
  | assert1
  | assert2
  | clone
  | store1 (root1 root2 : Nat)
  | store2 (root2 : Nat)
  | broadcast
  | fastClone
  | dead
  deriving DecidableEq, Repr

/-- Positions of the snapshot worker. -/
inductive WorkerPc where
  | wait
  | check
  | start
  | setState
  | run
  | setNone
  | clearWork
  | clearArg
  | clearRoot
  | dead
  deriving DecidableEq, Repr

structure State where
  pgroot : Nat
  shadowPgroot1 : Option Nat
  shadowPgroot2 : Option Nat
  pgrootSnapshot : Option Nat
  asyncCopyJob : Bool
  userWorkFunc : Option Nat
  userWorkFuncArg : Option Nat
  /-- The thread state of the snapshot core is `SNAPSHOT`. -/
  inSnapshot : Bool
  runsStarted : Nat
  runsFinished : Nat
  /-- The next root to be allocated. -/
  nextRoot : Nat
  spawner : SpawnerPc
  /-- The parameters of the call. -/
  func : Nat
  arg : Nat
  /-- History: the runs that the spawner has started. -/
  spawned : Nat
  copy : CopyPc
  worker : WorkerPc
  deriving DecidableEq

inductive Label where
  | spawn (func arg : Nat)
  | signal
  | spawner
  /-- `pthread_cond_wait` returns without a broadcast. -/
  | spurious
  | copy
  | worker
  deriving DecidableEq, Repr

/-! ## Steps -/

section Steps

variable (s : State)

/-- Wake the spawner. -/
def State.condBroadcast : State := if s.spawner = .asleep then { s with spawner := .test1 } else s

def spawnerStep : Option State :=
  match s.spawner with
  | .idle | .asleep => none
  | .test1 => some { s with spawner := if s.shadowPgroot1 = none then .sleep else .test2 }
  | .test2 => some { s with spawner := if s.shadowPgroot2 = none then .sleep else .test3 }
  | .test3 => some { s with spawner := if s.userWorkFunc = none then .setRoot else .sleep }
  | .sleep => some { s with spawner := .asleep }
  | .setRoot =>
      some { s with pgroot := s.shadowPgroot1.getD 0, spawner := .setSnapshotRoot }
  | .setSnapshotRoot => some { s with pgrootSnapshot := s.shadowPgroot2, spawner := .switch }
  | .switch => some { s with spawner := .setWork }
  | .setWork =>
      some { s with userWorkFunc := some s.func, spawned := s.spawned + 1, spawner := .setArg }
  | .setArg => some { s with userWorkFuncArg := some s.arg, spawner := .clear1 }
  | .clear1 => some { s with shadowPgroot1 := none, spawner := .clear2 }
  | .clear2 => some { s with shadowPgroot2 := none, spawner := .unlock }
  | .unlock => some { s with spawner := .broadcast }
  -- The spawner is the only one that waits.
  | .broadcast => some { s with spawner := .poll }
  | .poll => some { s with spawner := if s.inSnapshot then .setJob else .poll }
  | .setJob => some { s with asyncCopyJob := true, spawner := .lastBroadcast }
  | .lastBroadcast => some { s with spawner := .idle }
  | .signal => some { s with asyncCopyJob := true, spawner := .signalled }
  | .signalled => some { s with spawner := .idle }

def copyStep : Option State :=
  match s.copy with
  | .wait => some { s with copy := if s.asyncCopyJob then .take else .wait }
  | .take => some { s with asyncCopyJob := false, copy := .assert1 }
  | .assert1 => some { s with copy := if s.shadowPgroot1 = none then .assert2 else .dead }
  | .assert2 => some { s with copy := if s.shadowPgroot2 = none then .clone else .dead }
  | .clone => some { s with nextRoot := s.nextRoot + 2, copy := .store1 s.nextRoot (s.nextRoot + 1) }
  | .store1 root1 root2 => some { s with shadowPgroot1 := some root1, copy := .store2 root2 }
  | .store2 root2 => some { s with shadowPgroot2 := some root2, copy := .broadcast }
  | .broadcast => some { s.condBroadcast with copy := .fastClone }
  | .fastClone => some { s with copy := .wait }
  | .dead => none

def workerStep : Option State :=
  match s.worker with
  | .wait => some { s with worker := if s.userWorkFunc = none then .wait else .check }
  | .check => some { s with worker := if s.pgrootSnapshot = none then .dead else .start }
  | .start => some { s with runsStarted := s.runsStarted + 1, worker := .setState }
  | .setState => some { s with inSnapshot := true, worker := .run }
  -- The function takes as long as it likes, and returns.
  | .run => some { s with runsFinished := s.runsFinished + 1, worker := .setNone }
  | .setNone => some { s with inSnapshot := false, worker := .clearWork }
  | .clearWork => some { s with userWorkFunc := none, worker := .clearArg }
  | .clearArg => some { s with userWorkFuncArg := none, worker := .clearRoot }
  | .clearRoot => some { s with pgrootSnapshot := none, worker := .wait }
  | .dead => none

def step : Label → Option State
  | .spawn func arg =>
      if s.spawner = .idle then some { s with func := func, arg := arg, spawner := .test1 } else none
  | .signal => if s.spawner = .idle then some { s with spawner := .signal } else none
  | .spawner => spawnerStep s
  | .spurious => if s.spawner = .asleep then some { s with spawner := .test1 } else none
  | .copy => copyStep s
  | .worker => workerStep s

end Steps

/-- After `dune_fast_spawn_init`. -/
def start : State where
  pgroot := 0
  shadowPgroot1 := none
  shadowPgroot2 := none
  pgrootSnapshot := none
  asyncCopyJob := false
  userWorkFunc := none
  userWorkFuncArg := none
  inSnapshot := false
  runsStarted := 0
  runsFinished := 0
  nextRoot := 1
  spawner := .idle
  func := 0
  arg := 0
  spawned := 0
  copy := .wait
  worker := .wait

def system : System State Label where
  init s := s = start
  step := step

/-! ## The two ways to hang -/

/-- The wait predicate of the spawner. -/
def State.mustWait (s : State) : Bool :=
  s.shadowPgroot1.isNone || s.shadowPgroot2.isNone || s.userWorkFunc.isSome

/-- The roots have been stored, and the broadcast for them is still to come. -/
def State.broadcastToCome (s : State) : Bool := decide (s.copy = .broadcast)

/-- Asleep, although there is nothing to wait for, and nobody to wake up. -/
def State.lostWakeup (s : State) : Bool :=
  decide (s.spawner = .asleep) && !s.mustWait && !s.broadcastToCome

/-- Polling for the thread state of a run that is over. -/
def State.missedRun (s : State) : Bool :=
  decide (s.spawner = .poll) && decide (s.runsFinished = s.spawned)

/-- The spawner has started a run and has not seen it. -/
def SpawnerPc.watching : SpawnerPc → Bool
  | .setArg | .clear1 | .clear2 | .unlock | .broadcast | .poll => true
  | _ => false

/-- The condition on steps: the copy worker does not broadcast between the
    test of the spawner and its sleep; the snapshot worker does not reset the
    work pointer while the spawner sleeps, or is about to, with both roots in
    place and no broadcast to come; and a snapshot function does not return
    before the spawner has seen the thread state. -/
def timely (s : State) : Label → Bool
  | .copy => !(decide (s.copy = .broadcast) && decide (s.spawner = .sleep))
  | .worker =>
      match s.worker with
      | .clearWork =>
          !((decide (s.spawner = .sleep) || decide (s.spawner = .asleep)) &&
            s.shadowPgroot1.isSome && s.shadowPgroot2.isSome && !s.broadcastToCome)
      | .run => !s.spawner.watching
      | _ => true
  | _ => true

/-! ## Invariant -/

/-- The wait predicate was true when the spawner tested it. -/
def SpawnerPc.waiting : SpawnerPc → Bool
  | .sleep | .asleep => true
  | _ => false

/-- The spawner has found the work pointer reset. -/
def SpawnerPc.spawning : SpawnerPc → Bool
  | .setRoot | .setSnapshotRoot | .switch | .setWork => true
  | _ => false

/-- The function has returned, and the work pointer is still set. -/
def WorkerPc.returned : WorkerPc → Bool
  | .setNone | .clearWork => true
  | _ => false

/-- The worker has no work to do. -/
def WorkerPc.resting : WorkerPc → Bool
  | .wait | .clearArg | .clearRoot => true
  | _ => false

/-- What the copy worker knows of the shadow roots. -/
def CopyPc.Ok (s : State) : CopyPc → Prop
  | .assert2 => s.shadowPgroot1 = none
  | .clone | .store1 _ _ => s.shadowPgroot1 = none ∧ s.shadowPgroot2 = none
  | .store2 _ => s.shadowPgroot2 = none
  | _ => True

structure Inv (s : State) : Prop where
  copy : s.copy.Ok s
  waiting : s.spawner.waiting = true → s.mustWait = true ∨ s.broadcastToCome = true
  spawning : s.spawner.spawning = true → s.userWorkFunc = none
  watching : s.spawner.watching = true → s.userWorkFunc ≠ none ∧ s.worker.returned = false
  noWork : s.userWorkFunc = none → s.worker.resting = true ∧ s.runsFinished = s.spawned
  returned : s.userWorkFunc ≠ none → s.worker.returned = true → s.runsFinished = s.spawned
  running : s.userWorkFunc ≠ none → s.worker.returned = false → s.runsFinished + 1 = s.spawned

variable {s s' : State}

theorem inv_start : Inv start := by
  constructor <;> simp [start, CopyPc.Ok, SpawnerPc.waiting, SpawnerPc.spawning, SpawnerPc.watching,
    WorkerPc.resting]

section

variable {root f x : Nat} {snapshot workArg : Option Nat} {job : Bool}

/-- A step of the spawner that leaves the shadow roots and the work pointer alone. -/
theorem Inv.moveSpawner {pc : SpawnerPc} (hs : Inv s)
    (hwaiting : pc.waiting = true → s.mustWait = true ∨ s.broadcastToCome = true)
    (hspawning : pc.spawning = true → s.userWorkFunc = none)
    (hwatching : pc.watching = true → s.spawner.watching = true) :
    Inv { s with
      pgroot := root, pgrootSnapshot := snapshot, asyncCopyJob := job, userWorkFuncArg := workArg,
      func := f, arg := x, spawner := pc } :=
  { hs with
    waiting := hwaiting, spawning := hspawning, watching := fun h => hs.watching (hwatching h) }

end

theorem spawnerStep_inv (hs : Inv s) (h : spawnerStep s = some s') : Inv s' := by
  unfold spawnerStep at h
  cases hpc : s.spawner with
  | idle => simp [hpc] at h
  | asleep => simp [hpc] at h
  | test1 | test2 =>
    simp only [hpc, Option.some.injEq] at h
    subst h
    split
    · rename_i hnone
      exact hs.moveSpawner (fun _ => .inl (by simp [State.mustWait, hnone])) nofun nofun
    · exact hs.moveSpawner nofun nofun nofun
  | test3 =>
    simp only [hpc, Option.some.injEq] at h
    subst h
    split
    · rename_i hnone
      exact hs.moveSpawner nofun (fun _ => hnone) nofun
    · rename_i hsome
      refine hs.moveSpawner (fun _ => .inl ?_) nofun nofun
      simp [State.mustWait, Option.isSome_iff_ne_none.2 hsome]
  | sleep =>
    simp only [hpc, Option.some.injEq] at h
    subst h
    exact hs.moveSpawner (fun _ => hs.waiting (by rw [hpc]; rfl)) nofun nofun
  | setRoot | setSnapshotRoot | switch =>
    simp only [hpc, Option.some.injEq] at h
    subst h
    exact hs.moveSpawner nofun (fun _ => hs.spawning (by rw [hpc]; rfl)) nofun
  | setWork =>
    simp only [hpc, Option.some.injEq] at h
    subst h
    -- The worker rests, so the run is still to come.
    obtain ⟨hrest, hfin⟩ := hs.noWork (hs.spawning (by rw [hpc]; rfl))
    have hret : s.worker.returned = false := by
      cases hw : s.worker <;> simp_all [WorkerPc.resting, WorkerPc.returned]
    refine ⟨hs.copy, nofun, nofun, fun _ => ⟨nofun, hret⟩, nofun, ?_, fun _ _ => by simp only [hfin]⟩
    intro _ hret'
    rw [hret] at hret'
    cases hret'
  | clear1 | clear2 =>
    simp only [hpc, Option.some.injEq] at h
    subst h
    refine ⟨?_, nofun, nofun, fun _ => hs.watching (by rw [hpc]; rfl), hs.noWork, hs.returned,
      hs.running⟩
    have hcopy := hs.copy
    cases hc : s.copy <;> simp_all [CopyPc.Ok]
  | setArg | unlock | broadcast =>
    simp only [hpc, Option.some.injEq] at h
    subst h
    exact hs.moveSpawner nofun nofun fun _ => by rw [hpc]; rfl
  | poll =>
    simp only [hpc, Option.some.injEq] at h
    subst h
    split
    · exact hs.moveSpawner nofun nofun nofun
    · exact hs.moveSpawner nofun nofun fun _ => by rw [hpc]; rfl
  | setJob | signal | lastBroadcast | signalled =>
    simp only [hpc, Option.some.injEq] at h
    subst h
    exact hs.moveSpawner nofun nofun nofun

/-- A step of the copy worker up to the broadcast. -/
theorem Inv.moveCopy {pc : CopyPc} {job : Bool} {next : Nat} (hs : Inv s) (hok : pc.Ok s)
    (hpc : s.copy ≠ .broadcast) :
    Inv { s with asyncCopyJob := job, nextRoot := next, copy := pc } := by
  refine { hs with copy := hok, waiting := ?_ }
  intro hw
  rcases hs.waiting hw with hmust | hcome
  · exact .inl hmust
  · exact absurd (of_decide_eq_true hcome) hpc

theorem copyStep_inv (hs : Inv s) (hok : timely s .copy = true) (h : copyStep s = some s') :
    Inv s' := by
  have hcopy := hs.copy
  unfold copyStep at h
  cases hpc : s.copy with
  | wait =>
    simp only [hpc, Option.some.injEq] at h
    subst h
    split <;> exact hs.moveCopy trivial (by simp [hpc])
  | take | fastClone =>
    simp only [hpc, Option.some.injEq] at h
    subst h
    exact hs.moveCopy trivial (by simp [hpc])
  | assert1 =>
    simp only [hpc, Option.some.injEq] at h
    subst h
    split
    · rename_i hnone
      exact hs.moveCopy hnone (by simp [hpc])
    · exact hs.moveCopy trivial (by simp [hpc])
  | assert2 =>
    simp only [hpc, Option.some.injEq] at h
    rw [hpc] at hcopy
    subst h
    split
    · rename_i hnone
      exact hs.moveCopy ⟨hcopy, hnone⟩ (by simp [hpc])
    · exact hs.moveCopy trivial (by simp [hpc])
  | clone =>
    simp only [hpc, Option.some.injEq] at h
    rw [hpc] at hcopy
    subst h
    exact hs.moveCopy hcopy (by simp [hpc])
  | store1 root1 root2 =>
    simp only [hpc, Option.some.injEq] at h
    rw [hpc] at hcopy
    subst h
    -- The second root is still missing.
    refine { hs with copy := hcopy.2, waiting := fun _ => .inl ?_ }
    simp [State.mustWait, hcopy.2]
  | store2 root2 =>
    simp only [hpc, Option.some.injEq] at h
    subst h
    exact { hs with copy := trivial, waiting := fun _ => .inr rfl }
  | broadcast =>
    simp only [hpc, Option.some.injEq] at h
    subst h
    -- A spawner that is asleep is woken, and one that is about to sleep is excluded.
    unfold State.condBroadcast
    split
    · exact ⟨trivial, nofun, nofun, nofun, hs.noWork, hs.returned, hs.running⟩
    · rename_i hawake
      refine { hs with copy := trivial, waiting := ?_ }
      intro hw
      simp only [timely, hpc] at hok
      cases hsp : s.spawner <;> simp_all [SpawnerPc.waiting]
  | dead => simp [hpc] at h

/-- A step of the worker before the function returns. -/
theorem Inv.moveWorker {pc : WorkerPc} {started : Nat} {inSnapshot : Bool}
    {workArg snapshot : Option Nat} (hs : Inv s)
    (hrest : s.userWorkFunc = none → pc.resting = true) (hret : pc.returned = s.worker.returned) :
    Inv { s with
      runsStarted := started, inSnapshot := inSnapshot, userWorkFuncArg := workArg,
      pgrootSnapshot := snapshot, worker := pc } := by
  refine ⟨hs.copy, hs.waiting, hs.spawning, ?_, ?_, ?_, ?_⟩
  · intro hw
    obtain ⟨hwork, hr⟩ := hs.watching hw
    exact ⟨hwork, hret.trans hr⟩
  · exact fun hnone => ⟨hrest hnone, (hs.noWork hnone).2⟩
  · exact fun hwork hr => hs.returned hwork (hret.symm.trans hr)
  · exact fun hwork hr => hs.running hwork (hret.symm.trans hr)

/-- A worker that does not rest has work. -/
theorem Inv.busy (hs : Inv s) (hbusy : s.worker.resting = false) : s.userWorkFunc ≠ none := by
  intro hnone
  rw [(hs.noWork hnone).1] at hbusy
  cases hbusy

theorem workerStep_inv (hs : Inv s) (hok : timely s .worker = true) (h : workerStep s = some s') :
    Inv s' := by
  unfold workerStep at h
  unfold timely at hok
  cases hpc : s.worker with
  | wait =>
    simp only [hpc, Option.some.injEq] at h
    subst h
    split
    · exact hs.moveWorker (fun _ => rfl) (by rw [hpc])
    · rename_i hsome
      exact hs.moveWorker (fun hnone => absurd hnone hsome) (by rw [hpc]; rfl)
  | check =>
    simp only [hpc, Option.some.injEq] at h
    subst h
    have hwork := hs.busy (by rw [hpc]; rfl)
    split <;> exact hs.moveWorker (fun hnone => absurd hnone hwork) (by rw [hpc]; rfl)
  | start | setState | setNone =>
    simp only [hpc, Option.some.injEq] at h
    subst h
    have hwork := hs.busy (by rw [hpc]; rfl)
    exact hs.moveWorker (fun hnone => absurd hnone hwork) (by rw [hpc]; rfl)
  | run =>
    simp only [hpc, Option.some.injEq] at h hok
    subst h
    have hwork := hs.busy (by rw [hpc]; rfl)
    have hfin := hs.running hwork (by rw [hpc]; rfl)
    refine ⟨hs.copy, hs.waiting, hs.spawning, ?_, fun hnone => absurd hnone hwork,
      fun _ _ => hfin, nofun⟩
    intro hw
    rw [hw] at hok
    cases hok
  | clearWork =>
    simp only [hpc, Option.some.injEq] at h hok
    subst h
    have hwork := hs.busy (by rw [hpc]; rfl)
    have hfin := hs.returned hwork (by rw [hpc]; rfl)
    refine ⟨hs.copy, ?_, fun _ => rfl, ?_, fun _ => ⟨rfl, hfin⟩, fun hne => absurd rfl hne,
      fun hne => absurd rfl hne⟩
    · intro hw
      have hwait : (decide (s.spawner = .sleep) || decide (s.spawner = .asleep)) = true := by
        cases hsp : s.spawner <;> simp_all [SpawnerPc.waiting]
      rw [hwait, Bool.true_and] at hok
      cases h1 : s.shadowPgroot1 with
      | none => simp [State.mustWait]
      | some root1 =>
        cases h2 : s.shadowPgroot2 with
        | none => simp [State.mustWait]
        | some root2 =>
          rw [h1, h2] at hok
          have hcome : s.broadcastToCome = true := by simpa using hok
          exact .inr hcome
    · intro hw
      have hret := (hs.watching hw).2
      rw [hpc] at hret
      cases hret
  | clearArg | clearRoot =>
    simp only [hpc, Option.some.injEq] at h
    subst h
    exact hs.moveWorker (fun _ => rfl) (by rw [hpc]; rfl)
  | dead => simp [hpc] at h

theorem step_inv {l : Label} (hs : Inv s) (hok : timely s l = true) (h : step s l = some s') :
    Inv s' := by
  cases l with
  | spawn func arg =>
    simp only [step] at h
    split at h
    · cases h
      exact hs.moveSpawner nofun nofun nofun
    · cases h
  | signal | spurious =>
    simp only [step] at h
    split at h
    · cases h
      exact hs.moveSpawner nofun nofun nofun
    · cases h
  | spawner => exact spawnerStep_inv hs h
  | copy => exact copyStep_inv hs hok h
  | worker => exact workerStep_inv hs hok h

/-! ## Results -/

/-- **The handshake does not hang** in runs whose steps are timely: the
    spawner sleeps only while it has to wait or a broadcast is to come, and
    does not poll for a run that is over. -/
theorem no_hang (h : system.RunsTo (fun s l => timely s l = true) s) :
    s.lostWakeup = false ∧ s.missedRun = false := by
  have hs : Inv s := by
    refine System.invariant_when ?_ (fun _ _ _ => step_inv) h
    rintro _ rfl
    exact inv_start
  constructor
  · unfold State.lostWakeup
    by_cases hasleep : s.spawner = .asleep
    · rcases hs.waiting (by rw [hasleep]; rfl) with hmust | hcome
      · simp [hmust]
      · simp [hcome]
    · simp [hasleep]
  · unfold State.missedRun
    by_cases hpoll : s.spawner = .poll
    · obtain ⟨hwork, hret⟩ := hs.watching (by rw [hpoll]; rfl)
      have hrun := hs.running hwork hret
      have hne : s.runsFinished ≠ s.spawned := by omega
      simp [hne]
    · simp [hpoll]

/-- The first copy is requested and made. -/
def firstCopy : List Label :=
  [Label.signal, .spawner, .spawner] ++ List.replicate 9 Label.copy

/-- A spawn that does not have to wait, up to the first look at the thread
    state. -/
def spawnToPoll : List Label := .spawn 7 8 :: List.replicate 12 .spawner

/-- A spawn waits for the first copy and is woken; the next one waits for
    the second copy. -/
theorem no_hang_two :
    ∃ s : State, (s.spawner = .asleep ∧ s.runsFinished = 1 ∧ s.mustWait = true) ∧
      s.lostWakeup = false ∧ s.missedRun = false := by
  obtain ⟨s, hrun, hp⟩ := system.exists_runsTo timely (s := start) rfl
    ([Label.signal, .spawner, .spawner, .spawn 7 8, .spawner, .spawner] ++
      List.replicate 9 Label.copy ++ List.replicate 12 Label.spawner ++
      List.replicate 4 Label.worker ++ List.replicate 3 Label.spawner ++ List.replicate 5 Label.worker ++ [Label.spawn 7 9, .spawner, .spawner])
    (fun s => s.spawner = .asleep ∧ s.runsFinished = 1 ∧ s.mustWait = true)
    (by decide +kernel)
  exact ⟨s, hp, no_hang hrun⟩

/-- The copy worker broadcasts before the spawner is asleep. -/
def earlyBroadcast : List Label :=
  [Label.signal, .spawner, .spawner, .spawn 7 8, .spawner] ++ List.replicate 9 Label.copy ++
    [Label.spawner]

/-- The snapshot worker resets the work pointer while the spawner is asleep. -/
def silentReset : List Label :=
  firstCopy ++ spawnToPoll ++ List.replicate 4 Label.worker ++ List.replicate 3 Label.spawner ++
    List.replicate 9 Label.copy ++ [Label.spawn 7 9, .spawner, .spawner, .spawner, .spawner] ++
    List.replicate 3 Label.worker

/-- The snapshot function returns before the spawner polls. -/
def shortRun : List Label := firstCopy ++ spawnToPoll ++ List.replicate 9 .worker

/-- **The handshake can hang**, in three ways. In the first two the copy
    worker has no job either, so nobody will broadcast. -/
theorem spawner_hangs :
    (∃ s, system.exec start earlyBroadcast = some s ∧
      s.lostWakeup = true ∧ s.copy = .wait ∧ s.asyncCopyJob = false) ∧
    (∃ s, system.exec start silentReset = some s ∧
      s.lostWakeup = true ∧ s.copy = .wait ∧ s.asyncCopyJob = false) ∧
    ∃ s, system.exec start shortRun = some s ∧ s.missedRun = true ∧ s.inSnapshot = false := by
  refine ⟨?_, ?_, ?_⟩
  · exact system.exists_exec start earlyBroadcast _ (by decide +kernel)
  · exact system.exists_exec start silentReset _ (by decide +kernel)
  · exact system.exists_exec start shortRun _ (by decide +kernel)

end Handshake
