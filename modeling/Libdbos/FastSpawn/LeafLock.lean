import Libdbos.FastSpawn.SnapLeaf

/-! # The Lock Bit of a Leaf

    `PTE_LOCK` is meant to let one handler at a time replace a leaf. Main
    leaves are locked with a test of the bit before the compare-exchange.
    A snapshot leaf that a main core locks is not tested: when the entry
    it loaded already has the bit, the compare-exchange swaps the entry
    for itself and succeeds while the snapshot core is still at work.

    * `intruder_discards_store`: a run in which this happens, the copy the
      snapshot has written to is thrown away and the shared frame loses
      two references;
    * `leaf_lock`: when it does not happen, the bit is a lock.
-/

open LTS

namespace CowFault

open Pte

variable {α : Type} {cfg : Config} {s : State α}

/-- What the lock bit is for. -/
structure LeafLock (s : State α) : Prop where
  /-- At most one core is between taking and releasing the lock of a leaf. -/
  main_exclusive : ∀ c d va, (s.claim c).main = some va → (s.claim d).main = some va → c = d
  snap_exclusive : ∀ c d va, (s.claim c).snap = some va → (s.claim d).snap = some va → c = d
  /-- A snapshot leaf moves to a private copy at most once. -/
  moved_once : ∀ va, s.replaced va ≤ 1
  /-- What the snapshot stored into its copy is what it reads. -/
  store_kept : ∀ va x, s.snapStored va = some x → s.mem (pteAddr (s.snap va)) = x
  /-- The reference to the shared frame is dropped at most once. -/
  dropped_once : ∀ va, s.dropped va ≤ 1

/-- **The lock bit excludes** in every run in which no main core takes the
    lock of a snapshot leaf that is already locked. -/
theorem leaf_lock (h : (system (α := α) cfg).RunsTo (fun s l => lockRespected s l = true) s) :
    LeafLock s := by
  have hmain := mainInv_reachable h.reachable
  have hsnap := snapInv_runsTo h
  refine ⟨hmain.locks.exclusive, hsnap.locks.exclusive, hsnap.once, ?_, ?_⟩
  · exact fun va x hx => (hsnap.stored va x hx).2
  · exact fun va => Nat.le_trans (hsnap.dropped va) (hsnap.once va)

/-- The snapshot core replaces its leaf and stores into the copy; then a
    main core faults on the same page, finds the leaf diverged and goes on. -/
def oneAfterTheOther : List (Label Nat) :=
  [Label.loadRoot, .announce, .fault snapshotCore 0x1000#64 true] ++
  List.replicate 4 (Label.handler snapshotCore) ++ [Label.copy snapshotCore 0x100001000#64] ++
  List.replicate 3 (Label.handler snapshotCore) ++
  [Label.storeSnap 0x1000#64 7, .fault 0 0x1000#64 true] ++
  List.replicate 9 (Label.handler 0) ++ [Label.storeMain 0x1000#64 9]

theorem leaf_lock_one_after_the_other :
    ∃ s, (system onePage).RunsTo (fun s l => lockRespected s l = true) s ∧
      (s.snapStored 0x1000#64 = some 7 ∧ isW (s.main 0x1000#64) = true ∧
        s.mem (pteAddr (s.main 0x1000#64)) = 9) ∧ LeafLock s := by
  obtain ⟨s, hrun, hend⟩ := System.exists_runsTo (system onePage) lockRespected init_afterSwitch
    oneAfterTheOther (fun s => s.snapStored 0x1000#64 = some 7 ∧
      isW (s.main 0x1000#64) = true ∧ s.mem (pteAddr (s.main 0x1000#64)) = 9) (by decide +kernel)
  exact ⟨s, hrun, hend, leaf_lock hrun⟩

/-! ## When the lock is not respected -/

/-- The snapshot core holds the lock of its leaf and is about to copy the
    page when a main core loads the locked entry and swaps it for itself. -/
def intrusion : List (Label Nat) :=
  [Label.loadRoot, .announce, .fault snapshotCore 0x1000#64 true] ++
  List.replicate 4 (Label.handler snapshotCore) ++ [Label.fault 0 0x1000#64 true] ++
  List.replicate 6 (Label.handler 0)

/-- Both go on: the snapshot core maps its copy and stores into it, then
    the main core's compare-exchange fails and it overwrites the leaf. -/
def discard : List (Label Nat) :=
  [Label.copy snapshotCore 0x100001000#64] ++ List.replicate 3 (Label.handler snapshotCore) ++
  [Label.storeSnap 0x1000#64 7, .copy 0 0x100002000#64] ++ List.replicate 5 (Label.handler 0)

/-- **The lock bit does not exclude a main core from a snapshot leaf.**
    After `intrusion` two cores hold one lock. After `discard` the leaf has
    moved twice, the snapshot reads 5 where it stored 7, and the shared
    frame has lost two references. -/
theorem intruder_discards_store :
    ∃ s, (system onePage).exec afterSwitch intrusion = some s ∧
      ((s.claim 0).snap = some 0x1000#64 ∧ (s.claim snapshotCore).snap = some 0x1000#64) ∧
      ∃ t, (system onePage).exec s discard = some t ∧
        (t.replaced 0x1000#64 = 2 ∧ t.dropped 0x1000#64 = 2 ∧ t.snapStored 0x1000#64 = some 7 ∧
          t.mem (pteAddr (t.snap 0x1000#64)) = 5) ∧
        (system onePage).Reachable t ∧ ¬ LeafLock t := by
  refine (system onePage).exists_exec_of (fun s : State Nat =>
      ((s.claim 0).snap = some 0x1000#64 ∧ (s.claim snapshotCore).snap = some 0x1000#64) ∧
      ((system onePage).exec s discard).any fun t : State Nat =>
        decide (t.replaced 0x1000#64 = 2 ∧ t.dropped 0x1000#64 = 2 ∧
          t.snapStored 0x1000#64 = some 7 ∧ t.mem (pteAddr (t.snap 0x1000#64)) = 5))
    (by decide +kernel) ?_
  intro s hs hheld
  refine ⟨hheld.1, (system onePage).exists_exec_of _ hheld.2 fun t ht hend => ⟨hend, ?_, ?_⟩⟩
  · exact (System.reachable_of_exec init_afterSwitch hs).exec ht
  · intro hlock
    have hkept := hlock.store_kept _ _ hend.2.2.1
    rw [hend.2.2.2] at hkept
    cases hkept

end CowFault
