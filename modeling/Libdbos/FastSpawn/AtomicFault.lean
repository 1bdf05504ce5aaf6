import Libdbos.FastSpawn.CowFault

/-! # Copy-on-Write Faults as One Step

    `dbos_fast_spawn_pgflt_handler` run from its entry to its end with
    nobody in between, as a function on the two tables, the reference
    counts and the memory. No compare-exchange can fail, and no lock is
    seen from outside.

    A main core leaves its leaf on the old frame and moves the snapshot
    leaf, if there is one that still shares it; the snapshot core moves
    its own leaf. `MainFault` and `SnapFault` list the outcomes.
-/

namespace CowFault

open Pte

/-! ## Tables -/

/-- The part of the state that a fault changes for good. -/
structure Tables (α : Type) where
  main : Va → Word
  snap : Va → Word
  ref : Word → Nat
  mem : Word → α

section

variable {α : Type} (cfg : Config) (t : Tables α)

def Tables.setMain (va : Va) (w : Word) : Tables α :=
  { t with main := Function.update t.main va w }

def Tables.setSnap (va : Va) (w : Word) : Tables α :=
  { t with snap := Function.update t.snap va w }

/-- `dune_page_put` for a frame of the pool. -/
def Tables.put (f : Word) : Tables α :=
  if cfg.isFromPool f then { t with ref := Function.update t.ref f (t.ref f - 1) } else t

/-- Allocation of `page` and `memcpy` into it. -/
def Tables.copyInto (page src : Word) : Tables α :=
  { t with ref := Function.update t.ref page 1, mem := Function.update t.mem page (t.mem src) }

/-- A page the allocator can hand out. -/
def Tables.allocatable (page : Word) : Bool :=
  cfg.isFromPool page && t.ref page == 0 && pteAddr page == page

/-! ## The handler -/

/-- The entry needs the handler: copy-on-write, read-only, not locked. -/
def needsCow (w : Word) : Bool := isCow w && !isW w && !isLock w

/-- A write fault of a main core on `va`; `page` is what the allocator
    would hand out. -/
def pgfltMain (snapshotExists : Bool) (va : Va) (page : Word) : Option (Tables α) :=
  let old := t.main va
  if needsCow old then
    if cfg.isFromPool (pteAddr old) && t.ref (pteAddr old) == 1 then
      some (t.setMain va (unlocked old))
    else if snapshotExists then
      let new := locked (t.snap va)
      if pteAddr old = pteAddr new then
        if t.allocatable cfg page then
          some ((((t.copyInto page (pteAddr old)).setSnap va (installed page new)).put cfg
            (pteAddr new)).setMain va (unlocked old))
        else none
      else some ((t.setSnap va (diverged new)).setMain va (unlocked old))
    else some (t.setMain va (unlocked old))
  else some t

/-- A write fault of the snapshot core on `va`. -/
def pgfltSnap (va : Va) (page : Word) : Option (Tables α) :=
  let old := t.snap va
  if needsCow old then
    if cfg.isFromPool (pteAddr old) && t.ref (pteAddr old) == 1 then
      some (t.setSnap va (unlocked old))
    else if t.allocatable cfg page then
      some (((t.copyInto page (pteAddr old)).setSnap va (privateCopy page old)).put cfg
        (pteAddr old))
    else none
  else some t

end

/-! ## Outcomes -/

variable {α : Type} {cfg : Config} {t t' : Tables α} {snapshotExists : Bool} {va : Va} {page : Word}

/-- What a fault of a main core can do. -/
inductive MainFault (cfg : Config) (snapshotExists : Bool) (t : Tables α) (va : Va) (page : Word) :
    Tables α → Prop where
  | ignored (h : needsCow (t.main va) = false) : MainFault cfg snapshotExists t va page t
  | owned (h : needsCow (t.main va) = true) (hpool : cfg.isFromPool (pteAddr (t.main va)) = true)
      (hone : t.ref (pteAddr (t.main va)) = 1) :
      MainFault cfg snapshotExists t va page (t.setMain va (unlocked (t.main va)))
  | alone (h : needsCow (t.main va) = true) (hex : snapshotExists = false) :
      MainFault cfg snapshotExists t va page (t.setMain va (unlocked (t.main va)))
  | diverged (h : needsCow (t.main va) = true) (hex : snapshotExists = true)
      (hdiff : pteAddr (t.snap va) ≠ pteAddr (t.main va)) :
      MainFault cfg snapshotExists t va page
        ((t.setSnap va (Pte.diverged (locked (t.snap va)))).setMain va (unlocked (t.main va)))
  | copied (h : needsCow (t.main va) = true) (hex : snapshotExists = true)
      (hsame : pteAddr (t.snap va) = pteAddr (t.main va)) (halloc : t.allocatable cfg page = true) :
      MainFault cfg snapshotExists t va page
        ((((t.copyInto page (pteAddr (t.main va))).setSnap va
          (installed page (locked (t.snap va)))).put cfg (pteAddr (t.main va))).setMain va
            (unlocked (t.main va)))

theorem pgfltMain_cases (h : pgfltMain cfg t snapshotExists va page = some t') :
    MainFault cfg snapshotExists t va page t' := by
  simp only [pgfltMain, pteAddr_locked] at h
  split at h
  · rename_i hneed
    split at h
    · rename_i hown
      cases h
      simp only [Bool.and_eq_true, beq_iff_eq] at hown
      exact .owned hneed hown.1 hown.2
    · split at h
      · rename_i hex
        split at h
        · rename_i hsame
          split at h <;> cases h
          rename_i halloc
          have hc := MainFault.copied hneed hex hsame.symm halloc
          rwa [hsame] at hc ⊢
        · rename_i hdiff
          cases h
          exact .diverged hneed hex (Ne.symm hdiff)
      · rename_i hex
        cases h
        exact .alone hneed (by simpa using hex)
  · rename_i hneed
    cases h
    exact .ignored (by simpa using hneed)

/-- What a fault of the snapshot core can do. -/
inductive SnapFault (cfg : Config) (t : Tables α) (va : Va) (page : Word) : Tables α → Prop where
  | ignored (h : needsCow (t.snap va) = false) : SnapFault cfg t va page t
  | owned (h : needsCow (t.snap va) = true) (hpool : cfg.isFromPool (pteAddr (t.snap va)) = true)
      (hone : t.ref (pteAddr (t.snap va)) = 1) :
      SnapFault cfg t va page (t.setSnap va (unlocked (t.snap va)))
  | copied (h : needsCow (t.snap va) = true) (halloc : t.allocatable cfg page = true) :
      SnapFault cfg t va page
        (((t.copyInto page (pteAddr (t.snap va))).setSnap va (privateCopy page (t.snap va))).put cfg
          (pteAddr (t.snap va)))

theorem pgfltSnap_cases (h : pgfltSnap cfg t va page = some t') : SnapFault cfg t va page t' := by
  simp only [pgfltSnap] at h
  split at h
  · rename_i hneed
    split at h
    · rename_i hown
      cases h
      simp only [Bool.and_eq_true, beq_iff_eq] at hown
      exact .owned hneed hown.1 hown.2
    · split at h <;> cases h
      exact .copied hneed ‹_›
  · rename_i hneed
    cases h
    exact .ignored (by simpa using hneed)

theorem needsCow_iff {w : Word} :
    needsCow w = true ↔ isCow w = true ∧ isW w = false ∧ isLock w = false := by
  simp [needsCow, and_assoc]

/-- A page the allocator hands out comes from the pool and is unreferenced. -/
theorem allocatable_iff :
    t.allocatable cfg page = true ↔
      cfg.isFromPool page = true ∧ t.ref page = 0 ∧ pteAddr page = page := by
  simp [Tables.allocatable, and_assoc]

theorem put_parts (t : Tables α) (f : Word) :
    (t.put cfg f).main = t.main ∧ (t.put cfg f).snap = t.snap ∧ (t.put cfg f).mem = t.mem ∧
    (∀ g, g ≠ f → (t.put cfg f).ref g = t.ref g) ∧ t.ref f - 1 ≤ (t.put cfg f).ref f := by
  unfold Tables.put
  split
  · refine ⟨rfl, rfl, rfl, fun g hg => by simp [hg], by simp⟩
  · exact ⟨rfl, rfl, rfl, fun _ _ => rfl, by omega⟩

end CowFault
