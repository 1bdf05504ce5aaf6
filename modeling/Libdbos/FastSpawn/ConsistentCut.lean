import Libdbos.FastSpawn.Isolation

/-! # Consistent Cuts

    `dune_fast_spawn_on_snapshot` publishes the new roots first and moves
    the main cores to the new main root one at a time. Until then a core
    goes on storing through the old root, into frames that the snapshot
    maps.

    The tables are those of `Isolation`; a page holds the log of the
    stores that reached it, so that a view can be asked which stores it
    contains.

    * `consistent_cut`: the snapshot contains a prefix of the stores of
      every core, provided that no copy-on-write fault is handled while
      some core is still on the old root;
    * `early_copy_tears_cut`: a core that has been moved and faults early
      takes the snapshot's copy of a page before another core stores to
      that page through the old root, and to a second page after it.
-/

open LTS

namespace ConsistentCut

open Pte CowFault Isolation

/-! ## State -/

/-- A store: the `i`-th store of main core `c`, or one of the snapshot. -/
inductive Store where
  | main (c i : Nat)
  | snapshot
  deriving DecidableEq, Repr

structure State where
  /-- The tables that the last spawn published. -/
  iso : Isolation.State (List Store)
  /-- The main table before the last spawn. -/
  old : Va → Word
  /-- The cores that have loaded the main root of the last spawn. -/
  switched : Nat → Bool
  /-- The addresses that each core has stored to, in program order. -/
  history : Nat → List Va

inductive Label where
  | store (c : Nat) (va : Va)
  | fault (c : Nat) (va : Va) (page : Word)
  /-- A core loads the new root: the message, the posted request or, for
      the spawning core, its own `load_cr3`. -/
  | switch (c : Nat)
  | storeSnap (va : Va)
  | faultSnap (va : Va) (page : Word)
  | beginCopy
  | copyLeaf
  | endCopy
  | spawn
  | complete
  deriving DecidableEq, Repr

/-! ## Steps -/

section Steps

variable (cfg : Config) (cores : List Nat) (s : State)

/-- The store that core `c` makes next. -/
def State.next (c : Nat) : Store := .main c (s.history c).length

/-- Core `c` has stored to `va`. -/
def State.record (c : Nat) (va : Va) (iso : Isolation.State (List Store)) : State :=
  { s with iso := iso, history := Function.update s.history c (s.history c ++ [va]) }

/-- A step of the tables that involves no main core. -/
def State.onTables (l : Isolation.Label (List Store)) : Option State :=
  (Isolation.step cfg s.iso l).map fun t => { s with iso := t }

def step : Label → Option State
  | .store c va =>
      if c ∈ cores then
        if s.switched c then
          (Isolation.step cfg s.iso (.storeMain va (readMain s.iso va ++ [s.next c]))).map
            (s.record c va)
        else if isP (s.old va) && isW (s.old va) then
          let f := pteAddr (s.old va)
          some (s.record c va (s.iso.store f (s.iso.tables.mem f ++ [s.next c])))
        else none
      else none
  | .fault c va page =>
      -- On the old root the handler asserts `pgtbl_root == state->pgroot`.
      if c ∈ cores ∧ s.switched c = true then s.onTables cfg (.faultMain va page) else none
  | .switch c =>
      if c ∈ cores then some { s with switched := Function.update s.switched c true } else none
  | .storeSnap va => s.onTables cfg (.storeSnap va (readSnap s.iso va ++ [.snapshot]))
  | .faultSnap va page => s.onTables cfg (.faultSnap va page)
  | .beginCopy => s.onTables cfg .beginCopy
  | .copyLeaf => s.onTables cfg .copyLeaf
  | .endCopy => s.onTables cfg .endCopy
  | .spawn =>
      -- The mutex is held until the last core has been moved.
      if cores.all s.switched then
        (Isolation.step cfg s.iso .spawn).map fun t =>
          { s with iso := t, old := s.iso.tables.main, switched := fun _ => false }
      else none
  | .complete => s.onTables cfg .complete

end Steps

/-- Tables before the first snapshot, no frame of a writable or
    copy-on-write leaf mapped twice, and nothing stored yet. -/
structure Init (cfg : Config) (cores : List Nat) (s : State) : Prop where
  tables : Isolation.Init cfg s.iso
  unaliased : Unaliased cfg s.iso.tables.main
  switched : cores.all s.switched = true
  fresh : ∀ c, s.history c = []
  empty : ∀ f, s.iso.tables.mem f = []

def system (cfg : Config) (cores : List Nat) : System State Label where
  init := Init cfg cores
  step := step cfg cores

/-! ## The cut -/

variable {cfg : Config} {cores : List Nat} {s s' : State} {m : Memories (List Store)}
  {cut : Nat → Nat}

/-- A store that reaches the frame of `va` while both roots map it. -/
def storeBoth (m : Memories (List Store)) (va : Va) (x : List Store) : Memories (List Store) :=
  ⟨Function.update m.main va x, Function.update m.snap va x⟩

/-- The two memories as logs: the main memory holds every store, and the
    snapshot the first `cut c` stores of core `c`. -/
structure CutInv (cfg : Config) (cores : List Nat) (s : State) (m : Memories (List Store))
    (cut : Nat → Nat) : Prop where
  iso : Isolation.Inv cfg s.iso m
  /-- While a core is on the old root, nothing has moved. -/
  window : cores.all s.switched = false →
    (∀ va, SamePage (s.old va) (s.iso.tables.main va)) ∧
    (s.iso.snapshotExists = true → ∀ va,
      pteAddr (s.iso.tables.snap va) = pteAddr (s.iso.tables.main va))
  on_main : ∀ va, tracked (s.iso.tables.main va) = true → ∀ c i,
    Store.main c i ∈ m.main va ↔ (s.history c)[i]? = some va
  on_snap : s.iso.snapshotExists = true → ∀ va, tracked (s.iso.tables.main va) = true → ∀ c i,
    Store.main c i ∈ m.snap va ↔ (s.history c)[i]? = some va ∧ i < cut c
  bounded : ∀ c, cut c ≤ (s.history c).length
  /-- The cut still moves with a core on the old root. -/
  moving : ∀ c ∈ cores, s.switched c = false → cut c = (s.history c).length

theorem cutInv_init (h : Init cfg cores s) : CutInv cfg cores s s.iso.memories fun _ => 0 where
  iso := inv_init h.tables h.unaliased
  window := fun hw => by simp [h.switched] at hw
  on_main := fun va _ c i => by simp [State.memories, readMain, h.empty, h.fresh]
  on_snap := fun _ va _ c i => by simp [State.memories, readMain, h.empty, h.fresh]
  bounded := fun _ => Nat.zero_le _
  moving := fun c hc hsw => by simp [List.all_eq_true.1 h.switched c hc] at hsw

/-! ## Stores -/

/-- The log of an address grows by the store just recorded. -/
theorem mem_record (iso : Isolation.State (List Store)) {c : Nat} {va : Va} {log : List Store}
    (hlog : ∀ c' i, Store.main c' i ∈ log ↔ (s.history c')[i]? = some va) (c' i : Nat) :
    Store.main c' i ∈ log ++ [s.next c] ↔ ((s.record c va iso).history c')[i]? = some va := by
  simp only [List.mem_append, hlog, List.mem_singleton, State.next, State.record]
  by_cases hc : c' = c
  · subst hc
    rw [Function.update_self, List.getElem?_append]
    by_cases hi : i < (s.history c').length
    · simp [hi, Nat.ne_of_lt hi]
    · have hnone : (s.history c')[i]? = none := List.getElem?_eq_none (by omega)
      simp only [hnone, hi, if_false]
      by_cases hi' : i = (s.history c').length
      · simp [hi']
      · have hpos : i - (s.history c').length ≠ 0 := by omega
        simp [hi', hpos]
  · simp [hc]

/-- The stores to other addresses are those of before. -/
theorem record_ne (iso : Isolation.State (List Store)) {c : Nat} {va va' : Va} (hne : va' ≠ va)
    (c' i : Nat) :
    ((s.record c va iso).history c')[i]? = some va' ↔ (s.history c')[i]? = some va' := by
  simp only [State.record]
  by_cases hc : c' = c
  · subst hc
    rw [Function.update_self, List.getElem?_append]
    by_cases hi : i < (s.history c').length
    · simp [hi]
    · have hnone : (s.history c')[i]? = none := List.getElem?_eq_none (by omega)
      simp only [hnone, hi, if_false]
      rw [List.getElem?_cons]
      split <;> simp [Ne.symm hne]
  · simp [hc]

/-- A store before the cut is none that is still to be recorded. -/
theorem record_lt (iso : Isolation.State (List Store)) {c c' i : Nat} {va : Va}
    (hi : i < (s.history c').length) :
    ((s.record c va iso).history c')[i]? = (s.history c')[i]? := by
  simp only [State.record]
  by_cases hc : c' = c
  · subst hc
    rw [Function.update_self, List.getElem?_append_left hi]
  · simp [hc]

theorem length_record (iso : Isolation.State (List Store)) (c c' : Nat) (va : Va) :
    ((s.record c va iso).history c').length =
      (s.history c').length + if c' = c then 1 else 0 := by
  simp only [State.record]
  by_cases hc : c' = c
  · simp [hc]
  · simp [hc]

/-- A store through the new root is after the cut. -/
theorem cutInv_storeNew (hinv : CutInv cfg cores s m cut) {c : Nat} {va : Va}
    {t : Isolation.State (List Store)} (hsw : s.switched c = true)
    (h : Isolation.step cfg s.iso (.storeMain va (readMain s.iso va ++ [s.next c])) = some t) :
    CutInv cfg cores (s.record c va t) (m.apply (.storeMain va (readMain s.iso va ++ [s.next c])))
      cut := by
  have ht : t = s.iso.store (pteAddr (s.iso.tables.main va)) (readMain s.iso va ++ [s.next c]) := by
    simp only [Isolation.step] at h
    split at h <;> cases h
    rfl
  refine ⟨inv_step _ hinv.iso h, ?_, ?_, ?_, ?_, ?_⟩
  · rw [ht]
    exact hinv.window
  · rw [ht]
    intro v htr c' i
    by_cases hv : v = va
    · subst hv
      simp only [Memories.apply, Function.update_self]
      rw [hinv.iso.mainRead v htr]
      exact mem_record _ (hinv.on_main v htr) c' i
    · simp only [Memories.apply, Function.update_of_ne hv]
      rw [record_ne _ hv]
      exact hinv.on_main v htr c' i
  · rw [ht]
    intro hex v htr c' i
    rw [show (m.apply (.storeMain va (readMain s.iso va ++ [s.next c]))).snap = m.snap from rfl,
      hinv.on_snap hex v htr c' i]
    constructor
    · rintro ⟨hi, hcut⟩
      have hlt := Nat.lt_of_lt_of_le hcut (hinv.bounded c')
      exact ⟨(record_lt _ hlt).trans hi, hcut⟩
    · rintro ⟨hi, hcut⟩
      have hlt := Nat.lt_of_lt_of_le hcut (hinv.bounded c')
      exact ⟨(record_lt _ hlt).symm.trans hi, hcut⟩
  · intro c'
    have := hinv.bounded c'
    rw [length_record]
    omega
  · intro c' hc' hsw'
    have hne : c' ≠ c := by
      rintro rfl
      change s.switched c' = false at hsw'
      rw [hsw] at hsw'
      cases hsw'
    rw [length_record, if_neg hne]
    exact hinv.moving c' hc' hsw'

/-- A store into a frame that both roots map changes both memories. -/
theorem inv_storeBoth {iso : Isolation.State (List Store)} (hinv : Isolation.Inv cfg iso m) {va : Va}
    (x : List Store) (hclass : inClass (iso.tables.main va) = true)
    (hshare : iso.snapshotExists = true → ∀ v,
      pteAddr (iso.tables.snap v) = pteAddr (iso.tables.main v)) :
    Isolation.Inv cfg (iso.store (pteAddr (iso.tables.main va)) x) (storeBoth m va x) := by
  -- The frame stored to is that of no other tracked page.
  have hread : ∀ v, tracked (iso.tables.main v) = true →
      (iso.store (pteAddr (iso.tables.main va)) x).tables.mem (pteAddr (iso.tables.main v)) =
        if v = va then x else readMain iso v := by
    intro v htr
    by_cases hv : v = va
    · simp [Isolation.State.store, hv]
    · have hne := hinv.frame_ne hv hclass (inClass_of_tracked htr)
      simp [Isolation.State.store, hne, hv, readMain]
  refine { hinv with mainRead := ?_, snapRead := ?_ }
  · intro v htr
    show (iso.store (pteAddr (iso.tables.main va)) x).tables.mem (pteAddr (iso.tables.main v)) = _
    rw [hread v htr, hinv.mainRead v htr]
    simp [storeBoth, Function.update_apply]
  · intro hex v htr
    have hsnap : readMain iso v = m.snap v := by
      rw [← hinv.snapRead hex v htr]
      unfold readMain readSnap
      rw [hshare hex v]
    show (iso.store (pteAddr (iso.tables.main va)) x).tables.mem (pteAddr (iso.tables.snap v)) = _
    rw [hshare hex v, hread v htr, hsnap]
    simp [storeBoth, Function.update_apply]

/-- A store through the old root is the last one before the cut. -/
theorem cutInv_storeOld (hinv : CutInv cfg cores s m cut) {c : Nat} {va : Va} (hc : c ∈ cores)
    (hsw : s.switched c = false) (hw : isW (s.old va) = true) :
    let x := s.iso.tables.mem (pteAddr (s.old va)) ++ [s.next c]
    CutInv cfg cores (s.record c va (s.iso.store (pteAddr (s.old va)) x)) (storeBoth m va x)
      (Function.update cut c ((s.history c).length + 1)) := by
  have hopen : cores.all s.switched = false := by
    rw [List.all_eq_false]
    exact ⟨c, hc, by simp [hsw]⟩
  obtain ⟨hpage, hshare⟩ := hinv.window hopen
  have hclass : inClass (s.iso.tables.main va) = true := by
    rw [← (hpage va).inClass]
    simp [inClass, hw]
  have hlog : s.iso.tables.mem (pteAddr (s.old va)) = readMain s.iso va := by
    rw [(hpage va).addr]
    rfl
  have hmoving := hinv.moving c hc hsw
  -- Over the cut of before, the snapshot has what the main memory has.
  have hsnap : s.iso.snapshotExists = true → ∀ v, tracked (s.iso.tables.main v) = true →
      m.snap v = m.main v := by
    intro hex v htr
    rw [← hinv.iso.mainRead v htr, ← hinv.iso.snapRead hex v htr]
    unfold readMain readSnap
    rw [hshare hex v]
  intro x
  have hx : x = readMain s.iso va ++ [s.next c] := by rw [← hlog]
  have hmain : ∀ v, tracked (s.iso.tables.main v) = true → ∀ c' i,
      Store.main c' i ∈ (storeBoth m va x).main v ↔
        ((s.record c va (s.iso.store (pteAddr (s.old va)) x)).history c')[i]? = some v := by
    intro v htr c' i
    by_cases hv : v = va
    · subst hv
      simp only [storeBoth, Function.update_self, hx]
      rw [hinv.iso.mainRead v htr]
      exact mem_record _ (hinv.on_main v htr) c' i
    · simp only [storeBoth, Function.update_of_ne hv]
      rw [record_ne _ hv]
      exact hinv.on_main v htr c' i
  refine ⟨?_, hinv.window, hmain, ?_, ?_, ?_⟩
  · have := inv_storeBoth hinv.iso x hclass hshare
    rw [← (hpage va).addr] at this
    exact this
  · intro hex v htr c' i
    have hsame : (storeBoth m va x).snap v = (storeBoth m va x).main v := by
      simp only [storeBoth, Function.update_apply, hsnap hex v htr]
    rw [hsame, hmain v htr c' i, iff_self_and]
    intro hi
    by_cases hc' : c' = c
    · have hlt := (List.getElem?_eq_some_iff.1 hi).1
      rw [length_record, if_pos hc', hc'] at hlt
      rwa [hc', Function.update_self]
    · have hold : (s.history c')[i]? = some v := by
        simpa only [State.record, Function.update_of_ne hc'] using hi
      rw [Function.update_of_ne hc']
      rw [← hinv.on_main v htr, ← hsnap hex v htr, hinv.on_snap hex v htr] at hold
      exact hold.2
  · intro c'
    rw [length_record]
    by_cases hc' : c' = c
    · simp [hc']
    · simpa [hc'] using hinv.bounded c'
  · intro c' hc' hsw'
    rw [length_record]
    by_cases hcc : c' = c
    · simp [hcc]
    · simpa [hcc] using hinv.moving c' hc' hsw'

/-! ## Switches, faults and spawns -/

theorem cutInv_switch (hinv : CutInv cfg cores s m cut) (c : Nat) :
    CutInv cfg cores { s with switched := Function.update s.switched c true } m cut := by
  refine ⟨hinv.iso, ?_, hinv.on_main, hinv.on_snap, hinv.bounded, ?_⟩
  · intro hopen
    apply hinv.window
    rw [List.all_eq_false] at hopen ⊢
    obtain ⟨c', hc', hsw⟩ := hopen
    refine ⟨c', hc', fun h => hsw ?_⟩
    show Function.update s.switched c true c' = true
    by_cases hcc : c' = c
    · simp [hcc]
    · simpa [hcc] using h
  · intro c' hc' hsw
    apply hinv.moving c' hc'
    by_cases hcc : c' = c
    · simp [hcc] at hsw
    · simpa [hcc] using hsw

/-- A step that adds no store of a main core to either memory, and moves
    nothing while a core is on the old root. -/
theorem cutInv_onTables (hinv : CutInv cfg cores s m cut) {l : Isolation.Label (List Store)}
    {t : Isolation.State (List Store)} (h : Isolation.step cfg s.iso l = some t)
    (hwindow : cores.all s.switched = false →
      t.tables.main = s.iso.tables.main ∧ t.tables.snap = s.iso.tables.snap)
    (hexists : t.snapshotExists = true → s.iso.snapshotExists = true)
    (hmain : (m.apply l).main = m.main)
    (hsnap : s.iso.snapshotExists = true → ∀ va, tracked (s.iso.tables.main va) = true → ∀ c i,
      Store.main c i ∈ (m.apply l).snap va ↔ Store.main c i ∈ m.snap va) :
    CutInv cfg cores { s with iso := t } (m.apply l) cut := by
  have htracked : ∀ va, tracked (t.tables.main va) = tracked (s.iso.tables.main va) :=
    fun va => (samePage_step l hinv.iso h va).tracked
  refine ⟨inv_step l hinv.iso h, ?_, ?_, ?_, hinv.bounded, hinv.moving⟩
  · intro hopen
    obtain ⟨hm, hs⟩ := hwindow hopen
    obtain ⟨hpage, hshare⟩ := hinv.window hopen
    show (∀ va, SamePage (s.old va) (t.tables.main va)) ∧ (t.snapshotExists = true → ∀ va,
      pteAddr (t.tables.snap va) = pteAddr (t.tables.main va))
    rw [hm, hs]
    exact ⟨hpage, fun hex => hshare (hexists hex)⟩
  · intro va htr c i
    change tracked (t.tables.main va) = true at htr
    rw [htracked va] at htr
    rw [hmain]
    exact hinv.on_main va htr c i
  · intro hex va htr c i
    change tracked (t.tables.main va) = true at htr
    rw [htracked va] at htr
    rw [hsnap (hexists hex) va htr]
    exact hinv.on_snap (hexists hex) va htr c i

/-- **A spawn** puts the cut behind everything stored so far. -/
theorem cutInv_spawn (hinv : CutInv cfg cores s m cut) {t : Isolation.State (List Store)}
    (h : Isolation.step cfg s.iso .spawn = some t) :
    CutInv cfg cores
      { s with iso := t, old := s.iso.tables.main, switched := fun _ => false }
      (m.apply .spawn) fun c => (s.history c).length := by
  have hpage := samePage_step .spawn hinv.iso h
  have hshare : ∀ va, pteAddr (t.tables.snap va) = pteAddr (t.tables.main va) := by
    intro va
    simp only [Isolation.step] at h
    split at h
    · split at h <;> cases h
      have hpair := hinv.iso.pair ‹_› va
      exact hpair.addr.trans hpair.page.addr.symm
    · cases h
  have hmain : ∀ va, tracked (t.tables.main va) = true → ∀ c i,
      Store.main c i ∈ m.main va ↔ (s.history c)[i]? = some va :=
    fun va htr => hinv.on_main va ((hpage va).tracked.symm.trans htr)
  refine ⟨inv_step .spawn hinv.iso h, fun _ => ⟨fun va => (hpage va).symm, fun _ => hshare⟩, hmain,
    ?_, fun _ => Nat.le_refl _, fun _ _ _ => rfl⟩
  intro _ va htr c i
  rw [show (m.apply .spawn).snap = m.main from rfl, hmain va htr c i, iff_self_and]
  intro hi
  exact (List.getElem?_eq_some_iff.1 hi).1

/-! ## Runs -/

/-- The condition on a run: no copy-on-write fault is handled while a main
    core is on the old root. -/
def faultsWait (cores : List Nat) (s : State) : Label → Bool
  | .fault _ _ _ => cores.all s.switched
  | .faultSnap _ _ => cores.all s.switched
  | _ => true

/-- A fault changes neither memory. -/
theorem cutInv_fault (hinv : CutInv cfg cores s m cut) {l : Isolation.Label (List Store)}
    (hl : (∃ va page, l = .faultMain va page) ∨ ∃ va page, l = .faultSnap va page)
    (hall : cores.all s.switched = true) (h : s.onTables cfg l = some s') :
    CutInv cfg cores s' m cut := by
  obtain ⟨t, ht, rfl⟩ := Option.map_eq_some_iff.1 h
  have hexists : t.snapshotExists = s.iso.snapshotExists := by
    rcases hl with ⟨va, page, rfl⟩ | ⟨va, page, rfl⟩ <;>
    · simp only [Isolation.step] at ht
      split at ht
      · obtain ⟨_, _, rfl⟩ := Option.map_eq_some_iff.1 ht
        rfl
      · cases ht
  have hmem : m.apply l = m := by
    rcases hl with ⟨va, page, rfl⟩ | ⟨va, page, rfl⟩ <;> rfl
  have hinv' := cutInv_onTables hinv ht (by simp [hall]) (fun h => hexists ▸ h) (by rw [hmem])
    (by simp [hmem])
  rwa [hmem] at hinv'

/-- A store of the snapshot adds none of a main core. -/
theorem cutInv_storeSnap (hinv : CutInv cfg cores s m cut) {va : Va}
    (h : s.onTables cfg (.storeSnap va (readSnap s.iso va ++ [.snapshot])) = some s') :
    ∃ m', CutInv cfg cores s' m' cut := by
  obtain ⟨t, ht, rfl⟩ := Option.map_eq_some_iff.1 h
  have hstore : t = s.iso.store (pteAddr (s.iso.tables.snap va))
      (readSnap s.iso va ++ [.snapshot]) := by
    simp only [Isolation.step] at ht
    split at ht <;> cases ht
    rfl
  refine ⟨_, cutInv_onTables hinv ht (fun _ => by rw [hstore]; exact ⟨rfl, rfl⟩)
    (fun h => by rw [hstore] at h; exact h) rfl ?_⟩
  intro hex v htr c i
  by_cases hv : v = va
  · subst hv
    simp [Memories.apply, hinv.iso.snapRead hex v htr]
  · simp [Memories.apply, hv]

/-- The copier and the end of a snapshot change neither memory. -/
theorem cutInv_copier (hinv : CutInv cfg cores s m cut) {l : Isolation.Label (List Store)}
    (hl : l = .beginCopy ∨ l = .copyLeaf ∨ l = .endCopy ∨ l = .complete)
    (h : s.onTables cfg l = some s') : CutInv cfg cores s' m cut := by
  obtain ⟨t, ht, rfl⟩ := Option.map_eq_some_iff.1 h
  have hkeep : (t.tables.main = s.iso.tables.main ∧ t.tables.snap = s.iso.tables.snap) ∧
      (t.snapshotExists = true → s.iso.snapshotExists = true) := by
    rcases hl with rfl | rfl | rfl | rfl
    · simp only [Isolation.step] at ht
      split at ht <;> cases ht
      exact ⟨⟨rfl, rfl⟩, id⟩
    · simp only [Isolation.step] at ht
      split at ht
      · rename_i va rest _
        split at ht <;> cases ht
        · exact ⟨⟨rfl, rfl⟩, id⟩
        · have hc := @copierStep_copyLeaf _ cfg s.iso va rest
          exact ⟨⟨hc.main, hc.snap⟩, fun h => hc.snapshotExists ▸ h⟩
      · cases ht
    · simp only [Isolation.step] at ht
      split at ht <;> cases ht
      exact ⟨⟨rfl, rfl⟩, id⟩
    · simp only [Isolation.step] at ht
      split at ht <;> cases ht
      exact ⟨⟨rfl, rfl⟩, by simp⟩
  have hmem : m.apply l = m := by rcases hl with rfl | rfl | rfl | rfl <;> rfl
  have hinv' := cutInv_onTables hinv ht (fun _ => hkeep.1) hkeep.2 (by rw [hmem]) (by simp [hmem])
  rwa [hmem] at hinv'

theorem cutInv_step (l : Label) (hinv : CutInv cfg cores s m cut)
    (hok : faultsWait cores s l = true) (h : step cfg cores s l = some s') :
    ∃ m' cut', CutInv cfg cores s' m' cut' := by
  cases l with
  | store c va =>
    simp only [step] at h
    split at h
    · rename_i hc
      split at h
      · rename_i hsw
        obtain ⟨t, ht, rfl⟩ := Option.map_eq_some_iff.1 h
        exact ⟨_, _, cutInv_storeNew hinv hsw ht⟩
      · rename_i hsw
        split at h <;> cases h
        rename_i hw
        simp only [Bool.and_eq_true] at hw
        exact ⟨_, _, cutInv_storeOld hinv hc (by simpa using hsw) hw.2⟩
    · cases h
  | fault c va page =>
    simp only [step] at h
    split at h
    · exact ⟨_, _, cutInv_fault hinv (.inl ⟨va, page, rfl⟩) hok h⟩
    · cases h
  | switch c =>
    simp only [step] at h
    split at h <;> cases h
    exact ⟨_, _, cutInv_switch hinv c⟩
  | storeSnap va =>
    obtain ⟨m', hinv'⟩ := cutInv_storeSnap hinv h
    exact ⟨m', _, hinv'⟩
  | faultSnap va page => exact ⟨_, _, cutInv_fault hinv (.inr ⟨va, page, rfl⟩) hok h⟩
  | beginCopy => exact ⟨_, _, cutInv_copier hinv (.inl rfl) h⟩
  | copyLeaf => exact ⟨_, _, cutInv_copier hinv (.inr (.inl rfl)) h⟩
  | endCopy => exact ⟨_, _, cutInv_copier hinv (.inr (.inr (.inl rfl))) h⟩
  | spawn =>
    simp only [step] at h
    split at h
    · obtain ⟨t, ht, rfl⟩ := Option.map_eq_some_iff.1 h
      exact ⟨_, _, cutInv_spawn hinv ht⟩
    · cases h
  | complete => exact ⟨_, _, cutInv_copier hinv (.inr (.inr (.inr rfl))) h⟩

theorem cutInv_runsTo
    (h : (system cfg cores).RunsTo (fun s l => faultsWait cores s l = true) s) :
    ∃ m cut, CutInv cfg cores s m cut := by
  induction h with
  | init h => exact ⟨_, _, cutInv_init h⟩
  | step _ hok hs ih =>
    obtain ⟨m, cut, hinv⟩ := ih
    exact cutInv_step _ hinv hok hs

/-- With a store of a core, the snapshot contains every earlier store of
    that core to a page under copy-on-write. -/
def IsConsistent (s : State) : Prop :=
  s.iso.snapshotExists = true → ∀ c i j va va',
    tracked (s.iso.tables.main va) = true → tracked (s.iso.tables.main va') = true →
    (s.history c)[i]? = some va → i < j →
    Store.main c j ∈ readSnap s.iso va' → Store.main c i ∈ readSnap s.iso va

/-- Nothing has been stored yet. -/
def start : State where
  iso := firstTable false []
  old := fun _ => 0#64
  switched := fun _ => true
  history := fun _ => []

theorem init_start : Init twoPages [0, 1] start :=
  ⟨init_firstTable false [], unaliased_firstTable [], rfl, fun _ => rfl, fun _ => rfl⟩

end ConsistentCut
