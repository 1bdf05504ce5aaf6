import Libdbos.FastSpawn.AtomicFault

/-! # Snapshot Isolation

    The life of the page tables over many snapshots, with every fault as
    one step: stores of main cores and of the snapshot, the faults they
    raise, the background copy of the main table into two shadow tables
    (leaf by leaf), the spawn that installs the shadow tables as main and
    snapshot table, and the end of a snapshot.

    What this is for is two memories (`Memories`): a store changes one of
    them, a spawn copies one into the other, and nothing else happens. On
    pages under copy-on-write the tables implement that.

    * `isolation`: reads through either root return what the two memories
      hold, provided that no frame of a writable or copy-on-write leaf is
      mapped by a second application leaf;
    * `aliased_page_leaks`: without that proviso they do not, since
      copy-on-write is tracked per leaf and not per frame.
-/

open LTS

namespace Isolation

open Pte CowFault

/-! ## State -/

/-- Where the shadow copier stands. -/
inductive Copy where
  | idle
  | walking (todo : List Va)
  | ready
  deriving DecidableEq, Repr

structure State (α : Type) where
  tables : Tables α
  /-- A snapshot runs, `state->pgroot_snapshot != NULL`. -/
  snapshotExists : Bool
  copy : Copy
  shadow1 : Va → Word
  shadow2 : Va → Word

inductive Label (α : Type) where
  | storeMain (va : Va) (x : α)
  | storeSnap (va : Va) (x : α)
  | faultMain (va : Va) (page : Word)
  | faultSnap (va : Va) (page : Word)
  /-- The copier starts a walk of the main table. -/
  | beginCopy
  /-- The copier copies the next leaf into both shadow tables. -/
  | copyLeaf
  /-- The copier publishes the shadow tables. -/
  | endCopy
  | spawn
  | complete
  deriving DecidableEq, Repr

/-! ## Steps -/

section Steps

variable {α : Type} (cfg : Config) (s : State α)

/-- What a core reads through a root. -/
def readMain (va : Va) : α := s.tables.mem (pteAddr (s.tables.main va))

def readSnap (va : Va) : α := s.tables.mem (pteAddr (s.tables.snap va))

/-- The condition under which `pgtable_cow_copy` write-protects a leaf. -/
def copiesCow (w : Word) : Bool :=
  isW w && isP w && !isStack w && !isCow w && !isNocow w

/-- One run of `pgtable_cow_copy` on the leaf of `va`. -/
def State.copyLeaf (va : Va) : State α :=
  let w := s.tables.main va
  let f := pteAddr w
  { s with
    shadow1 := Function.update s.shadow1 va (if copiesCow w then cowCopy1 w else plainCopy1 w)
    shadow2 := Function.update s.shadow2 va (if copiesCow w then cowCopy2 w else plainCopy2 w)
    tables := if cfg.isFromPool f then
        { s.tables with ref := Function.update s.tables.ref f (s.tables.ref f + 2) }
      else s.tables }

def State.store (f : Word) (x : α) : State α :=
  { s with tables := { s.tables with mem := Function.update s.tables.mem f x } }

def step : Label α → Option (State α)
  | .storeMain va x =>
      if isP (s.tables.main va) && isW (s.tables.main va) then
        some (s.store (pteAddr (s.tables.main va)) x)
      else none
  | .storeSnap va x =>
      if s.snapshotExists && isP (s.tables.snap va) && isW (s.tables.snap va) then
        some (s.store (pteAddr (s.tables.snap va)) x)
      else none
  | .faultMain va page =>
      if cfg.vas.contains va then
        (pgfltMain cfg s.tables s.snapshotExists va page).map fun t => { s with tables := t }
      else none
  | .faultSnap va page =>
      if cfg.vas.contains va && s.snapshotExists then
        (pgfltSnap cfg s.tables va page).map fun t => { s with tables := t }
      else none
  | .beginCopy =>
      match s.copy with
      | .idle => some { s with
          copy := .walking cfg.vas, shadow1 := fun _ => 0#64, shadow2 := fun _ => 0#64 }
      | _ => none
  | .copyLeaf =>
      match s.copy with
      | .walking (va :: rest) =>
          if s.tables.main va = 0#64 then some { s with copy := .walking rest }
          else some { s.copyLeaf cfg va with copy := .walking rest }
      | _ => none
  | .endCopy =>
      match s.copy with
      | .walking [] => some { s with copy := .ready }
      | _ => none
  | .spawn =>
      match s.copy with
      | .ready =>
          if s.snapshotExists then none
          else some { s with
            tables := { s.tables with main := s.shadow1, snap := s.shadow2 }
            snapshotExists := true
            copy := .idle }
      | _ => none
  | .complete =>
      if s.snapshotExists then some { s with snapshotExists := false } else none

end Steps

/-- A main table before the first snapshot: copy-on-write leaves are
    read-only, and mapped pages of the pool are referenced. -/
structure Init {α : Type} (cfg : Config) (s : State α) : Prop where
  unmapped : ∀ va, va ∉ cfg.vas → s.tables.main va = 0#64
  readonly : ∀ va, isCow (s.tables.main va) = true → isW (s.tables.main va) = false
  referenced : ∀ va ∈ cfg.vas, cfg.isFromPool (pteAddr (s.tables.main va)) = true →
    1 ≤ s.tables.ref (pteAddr (s.tables.main va))
  alone : s.snapshotExists = false
  fresh : s.copy = .idle

def system {α : Type} (cfg : Config) : System (State α) (Label α) where
  init := Init cfg
  step := step cfg

/-! ## Two memories -/

/-- What main cores and the snapshot are to see. -/
structure Memories (α : Type) where
  main : Va → α
  snap : Va → α

def Memories.apply {α : Type} (m : Memories α) : Label α → Memories α
  | .storeMain va x => { m with main := Function.update m.main va x }
  | .storeSnap va x => { m with snap := Function.update m.snap va x }
  | .spawn => { m with snap := m.main }
  | _ => m

/-- The two memories at the start of a run. -/
def State.memories {α : Type} (s : State α) : Memories α := ⟨readMain s, readMain s⟩

/-- The copier has copied the leaf of `va` and no spawn has used it yet. -/
def State.copied {α : Type} (cfg : Config) (s : State α) (va : Va) : Bool :=
  cfg.vas.contains va &&
  match s.copy with
  | .idle => false
  | .walking todo => !todo.contains va
  | .ready => true

/-! ## The invariant -/

variable {α : Type} {cfg : Config} {s s' : State α} {m : Memories α}

variable {va : Va} {page : Word}

/-- Writable or copy-on-write. -/
def inClass (w : Word) : Bool := isW w || isCow w

/-- Two entries for one page. -/
structure SamePage (v w : Word) : Prop extends SameMapping v w where
  inClass : inClass v = inClass w

theorem SamePage.refl (w : Word) : SamePage w w := ⟨.refl w, rfl⟩

theorem SamePage.trans {u v w : Word} (h : SamePage u v) (h' : SamePage v w) : SamePage u w :=
  ⟨h.toSameMapping.trans h'.toSameMapping, h.inClass.trans h'.inClass⟩

theorem SamePage.symm {v w : Word} (h : SamePage v w) : SamePage w v :=
  ⟨⟨h.addr.symm, h.p.symm, h.stack.symm, h.nocow.symm⟩, h.inClass.symm⟩

theorem SamePage.tracked {v w : Word} (h : SamePage v w) : tracked v = tracked w := by
  have hclass := h.inClass
  unfold Isolation.inClass at hclass
  simp only [Pte.tracked, h.p, h.stack, h.nocow, hclass]

theorem inClass_of_tracked {w : Word} (h : tracked w = true) : inClass w = true := by
  simp only [tracked, Bool.and_eq_true] at h
  exact h.2

/-- A frame with a writable or copy-on-write leaf is mapped once. -/
def Unaliased (cfg : Config) (main : Va → Word) : Prop :=
  ∀ va ∈ cfg.vas, ∀ va' ∈ cfg.vas, va' ≠ va → inClass (main va) = true →
    pteAddr (main va') ≠ pteAddr (main va)

/-- The snapshot leaf `w` of a page whose main leaf is `v`: as long as it is
    on the same frame neither side can write a page under copy-on-write. -/
structure SnapLeaf (v w : Word) : Prop where
  shared : pteAddr w = pteAddr v →
    isCow w = isCow v ∧ isW w = isW v ∧ (tracked v = true → isCow v = true)
  moved : pteAddr w ≠ pteAddr v → isCow w = false

/-- The shadow leaves `a` and `b` of a page whose main leaf is `v`. -/
structure ShadowPair (v a b : Word) : Prop where
  page : SamePage a v
  addr : pteAddr b = pteAddr v
  readonly : isCow a = true → isW a = false
  cow : isCow b = isCow a
  writable : isW b = isW a
  tracked : tracked v = true → isCow a = true

/-- The reference that a snapshot leaf holds on the frame of the main leaf. -/
def State.sharedRefs (s : State α) (va : Va) : Nat :=
  if s.snapshotExists = true ∧ pteAddr (s.tables.snap va) = pteAddr (s.tables.main va) then 1 else 0

/-- The references that two shadow leaves hold. -/
def State.copiedRefs (cfg : Config) (s : State α) (va : Va) : Nat :=
  if s.copied cfg va then 2 else 0

structure Inv (cfg : Config) (s : State α) (m : Memories α) : Prop where
  unmapped : ∀ va, va ∉ cfg.vas → s.tables.main va = 0#64
  unaliased : Unaliased cfg s.tables.main
  readonly : ∀ va, isCow (s.tables.main va) = true → isW (s.tables.main va) = false
  refs : ∀ va ∈ cfg.vas, cfg.isFromPool (pteAddr (s.tables.main va)) = true →
    1 + s.sharedRefs va + s.copiedRefs cfg va ≤ s.tables.ref (pteAddr (s.tables.main va))
  snapLeaf : s.snapshotExists = true → ∀ va, SnapLeaf (s.tables.main va) (s.tables.snap va)
  /-- A snapshot leaf that has moved is on a frame of its own. -/
  owned : s.snapshotExists = true → ∀ va,
    pteAddr (s.tables.snap va) ≠ pteAddr (s.tables.main va) →
    cfg.isFromPool (pteAddr (s.tables.snap va)) = true ∧
    1 ≤ s.tables.ref (pteAddr (s.tables.snap va)) ∧
    (∀ va', pteAddr (s.tables.main va') ≠ pteAddr (s.tables.snap va)) ∧
    ∀ va', va' ≠ va → pteAddr (s.tables.snap va') ≠ pteAddr (s.tables.snap va)
  shadows : ∀ va, s.copied cfg va = true →
    ShadowPair (s.tables.main va) (s.shadow1 va) (s.shadow2 va)
  shadows_zero : s.copy ≠ .idle → ∀ va, s.tables.main va = 0#64 →
    s.shadow1 va = 0#64 ∧ s.shadow2 va = 0#64
  mainRead : ∀ va, tracked (s.tables.main va) = true → readMain s va = m.main va
  snapRead : s.snapshotExists = true → ∀ va, tracked (s.tables.main va) = true →
    readSnap s va = m.snap va

theorem inv_init (h : Init cfg s) (hun : Unaliased cfg s.tables.main) : Inv cfg s s.memories where
  unmapped := h.unmapped
  unaliased := hun
  readonly := h.readonly
  refs := fun va hva hpool => by
    have hnot : s.copied cfg va = false := by simp [State.copied, h.fresh]
    simpa [State.sharedRefs, State.copiedRefs, h.alone, hnot] using h.referenced va hva hpool
  snapLeaf := fun hex => by simp [h.alone] at hex
  owned := fun hex => by simp [h.alone] at hex
  shadows := fun va hva => by simp [State.copied, h.fresh] at hva
  shadows_zero := fun hne => absurd h.fresh hne
  mainRead := fun _ _ => rfl
  snapRead := fun hex => by simp [h.alone] at hex

/-- A page that is in the class is mapped. -/
theorem Inv.mapped (hinv : Inv cfg s m) (h : inClass (s.tables.main va) = true) :
    va ∈ cfg.vas := by
  by_contra hva
  rw [hinv.unmapped va hva] at h
  revert h
  decide

/-- The frame of a page under copy-on-write is not that of another page
    in the class. -/
theorem Inv.frame_ne (hinv : Inv cfg s m) {va' : Va} (hne : va' ≠ va)
    (h : inClass (s.tables.main va) = true) (h' : inClass (s.tables.main va') = true) :
    pteAddr (s.tables.main va') ≠ pteAddr (s.tables.main va) :=
  hinv.unaliased va (hinv.mapped h) va' (hinv.mapped h') hne h

/-! ## Stores -/

theorem inv_storeMain (hinv : Inv cfg s m) {x : α} (hw : isW (s.tables.main va) = true) :
    Inv cfg (s.store (pteAddr (s.tables.main va)) x) (m.apply (.storeMain va x)) := by
  have hclass : inClass (s.tables.main va) = true := by simp [inClass, hw]
  refine { hinv with mainRead := ?_, snapRead := ?_ }
  · intro v htr
    by_cases hv : v = va
    · subst hv
      simp [readMain, State.store, Memories.apply]
    · have hne := hinv.frame_ne hv hclass (inClass_of_tracked htr)
      have hread := hinv.mainRead v htr
      simp only [readMain, State.store, Memories.apply, Function.update_of_ne hne,
        Function.update_of_ne hv]
      exact hread
  · intro hex v htr
    -- The snapshot's frame of a tracked page is not the frame stored to.
    have hne : pteAddr (s.tables.snap v) ≠ pteAddr (s.tables.main va) := by
      by_cases hsh : pteAddr (s.tables.snap v) = pteAddr (s.tables.main v)
      · have hcow := ((hinv.snapLeaf hex v).shared hsh).2.2 htr
        have hv : v ≠ va := by
          rintro rfl
          rw [hinv.readonly v hcow] at hw
          cases hw
        rw [hsh]
        exact hinv.frame_ne hv hclass (inClass_of_tracked htr)
      · exact Ne.symm ((hinv.owned hex v hsh).2.2.1 va)
    have hread := hinv.snapRead hex v htr
    simp only [readSnap, State.store, Memories.apply, Function.update_of_ne hne]
    exact hread

theorem inv_storeSnap (hinv : Inv cfg s m) (hex : s.snapshotExists = true) {x : α}
    (hw : isW (s.tables.snap va) = true) :
    Inv cfg (s.store (pteAddr (s.tables.snap va)) x) (m.apply (.storeSnap va x)) := by
  have hleaf := hinv.snapLeaf hex va
  -- A tracked page is not written through a frame that it shares.
  have hmain : ∀ v, tracked (s.tables.main v) = true →
      pteAddr (s.tables.main v) ≠ pteAddr (s.tables.snap va) := by
    intro v htr
    by_cases hsh : pteAddr (s.tables.snap va) = pteAddr (s.tables.main va)
    · obtain ⟨_, hw', hcow⟩ := hleaf.shared hsh
      rw [hw] at hw'
      have hv : v ≠ va := by
        rintro rfl
        rw [hinv.readonly v (hcow htr)] at hw'
        cases hw'
      rw [hsh]
      exact hinv.frame_ne hv (by simp [inClass, ← hw']) (inClass_of_tracked htr)
    · exact (hinv.owned hex va hsh).2.2.1 v
  refine { hinv with mainRead := ?_, snapRead := ?_ }
  · intro v htr
    have hread := hinv.mainRead v htr
    simp only [readMain, State.store, Memories.apply, Function.update_of_ne (hmain v htr)]
    exact hread
  · intro _ v htr
    by_cases hv : v = va
    · subst hv
      simp [readSnap, State.store, Memories.apply]
    · have hne : pteAddr (s.tables.snap v) ≠ pteAddr (s.tables.snap va) := by
        by_cases hsh : pteAddr (s.tables.snap v) = pteAddr (s.tables.main v)
        · rw [hsh]
          exact hmain v htr
        · exact Ne.symm ((hinv.owned hex v hsh).2.2.2 va (Ne.symm hv))
      have hread := hinv.snapRead hex v htr
      simp only [readSnap, State.store, Memories.apply, Function.update_of_ne hne,
        Function.update_of_ne hv]
      exact hread

/-! ## Faults -/

/-- The leaf that the handler writes maps the same page as before. -/
theorem samePage_unlocked {t : Tables α} (hneed : needsCow (t.main va) = true) (v : Va) :
    SamePage ((t.setMain va (unlocked (t.main va))).main v) (t.main v) := by
  by_cases hv : v = va
  · subst hv
    refine ⟨?_, ?_⟩
    · simpa [Tables.setMain] using sameMapping_unlocked (t.main v)
    · simp [Tables.setMain, inClass, (needsCow_iff.1 hneed).1]
  · simpa [Tables.setMain, hv] using SamePage.refl _

/-- The main leaf becomes writable after the snapshot leaf has moved. -/
theorem inv_unlock (hinv : Inv cfg s m) (hneed : needsCow (s.tables.main va) = true)
    (hmoved : s.snapshotExists = true → pteAddr (s.tables.snap va) ≠ pteAddr (s.tables.main va)) :
    Inv cfg { s with tables := s.tables.setMain va (unlocked (s.tables.main va)) } m := by
  obtain ⟨hcow, hro, _⟩ := needsCow_iff.1 hneed
  have hpage := samePage_unlocked hneed
  have haddr := fun v => (hpage v).addr
  have hother : ∀ v, v ≠ va →
      (s.tables.setMain va (unlocked (s.tables.main va))).main v = s.tables.main v := by
    intro v hv
    simp [Tables.setMain, hv]
  refine ⟨?_, ?_, ?_, ?_, ?_, ?_, ?_, ?_, ?_, ?_⟩
  · intro v hv
    have hne : v ≠ va := by
      rintro rfl
      rw [hinv.unmapped v hv] at hcow
      simp at hcow
    rw [hother v hne]
    exact hinv.unmapped v hv
  · intro v hv v' hv' hne hclass
    rw [haddr v, haddr v']
    rw [(hpage v).inClass] at hclass
    exact hinv.unaliased v hv v' hv' hne hclass
  · intro v hv
    by_cases hva : v = va
    · simp [Tables.setMain, hva] at hv
    · rw [hother v hva] at hv ⊢
      exact hinv.readonly v hv
  · intro v hv hpool
    have href := hinv.refs v hv
    rw [haddr v] at hpool ⊢
    have hsh : State.sharedRefs
        { s with tables := s.tables.setMain va (unlocked (s.tables.main va)) } v =
        s.sharedRefs v := by
      unfold State.sharedRefs
      rw [haddr v]
      rfl
    rw [hsh]
    exact href hpool
  · intro hex v
    by_cases hva : v = va
    · subst hva
      have hleaf := hinv.snapLeaf hex v
      refine ⟨?_, ?_⟩
      · intro hsh
        rw [haddr v] at hsh
        exact absurd hsh (hmoved hex)
      · intro hne
        rw [haddr v] at hne
        exact hleaf.moved hne
    · rw [hother v hva]
      exact hinv.snapLeaf hex v
  · intro hex v hne
    rw [haddr v] at hne
    obtain ⟨h1, h2, h3, h4⟩ := hinv.owned hex v hne
    exact ⟨h1, h2, fun v' => by rw [haddr v']; exact h3 v', h4⟩
  · intro v hv
    obtain ⟨h1, h2, h3, h4, h5, h6⟩ := hinv.shadows v hv
    have hback := (hpage v).symm
    exact ⟨h1.trans hback, h2.trans hback.addr, h3, h4, h5, fun h => h6 (hback.tracked.trans h)⟩
  · intro hcopy v hzero
    have hne : v ≠ va := by
      rintro rfl
      have hw := congrArg isW hzero
      simp [Tables.setMain] at hw
    rw [hother v hne] at hzero
    exact hinv.shadows_zero hcopy v hzero
  · intro v htr
    rw [(hpage v).tracked] at htr
    have hread := hinv.mainRead v htr
    unfold readMain at hread ⊢
    rw [haddr v]
    exact hread
  · intro hex v htr
    rw [(hpage v).tracked] at htr
    exact hinv.snapRead hex v htr

/-- A snapshot leaf that has moved is written back. -/
theorem inv_diverged (hinv : Inv cfg s m) {w : Word}
    (haddr : pteAddr w = pteAddr (s.tables.snap va)) (hcow : isCow w = isCow (s.tables.snap va))
    (hmoved : pteAddr (s.tables.snap va) ≠ pteAddr (s.tables.main va)) :
    Inv cfg { s with tables := s.tables.setSnap va w } m := by
  have hsame : ∀ v, pteAddr ((s.tables.setSnap va w).snap v) = pteAddr (s.tables.snap v) := by
    intro v
    by_cases hv : v = va
    · simp [Tables.setSnap, hv, haddr]
    · simp [Tables.setSnap, hv]
  refine { hinv with refs := ?_, snapLeaf := ?_, owned := ?_, snapRead := ?_ }
  · intro v hv hpool
    have hsh : State.sharedRefs { s with tables := s.tables.setSnap va w } v = s.sharedRefs v := by
      unfold State.sharedRefs
      rw [hsame v]
      rfl
    rw [hsh]
    exact hinv.refs v hv hpool
  · intro hex v
    have hleaf := hinv.snapLeaf hex v
    by_cases hv : v = va
    · subst hv
      have hset : (s.tables.setSnap v w).snap v = w := by simp [Tables.setSnap]
      rw [hset]
      refine ⟨?_, ?_⟩
      · intro hsh
        exact absurd (haddr.symm.trans hsh) hmoved
      · intro _
        rw [hcow]
        exact hleaf.moved hmoved
    · have hset : (s.tables.setSnap va w).snap v = s.tables.snap v := by simp [Tables.setSnap, hv]
      rw [hset]
      exact hleaf
  · intro hex v hne
    rw [hsame v] at hne ⊢
    obtain ⟨h1, h2, h3, h4⟩ := hinv.owned hex v hne
    exact ⟨h1, h2, h3, fun v' hv' => by rw [hsame v']; exact h4 v' hv'⟩
  · intro hex v htr
    have hread := hinv.snapRead hex v htr
    unfold readSnap at hread ⊢
    rw [hsame v]
    exact hread

/-- A page that the allocator can hand out is no main leaf's frame. -/
theorem Inv.fresh_page (hinv : Inv cfg s m) (hpool : cfg.isFromPool page = true)
    (hfree : s.tables.ref page = 0) (va : Va) : pteAddr (s.tables.main va) ≠ page := by
  rintro rfl
  by_cases hva : va ∈ cfg.vas
  · have := hinv.refs va hva hpool
    omega
  · rw [hinv.unmapped va hva] at hpool
    simp [Config.isFromPool, pteAddr] at hpool

/-- From `t` to `t'` the snapshot leaf of `va` becomes `w`, on a copy of the
    main leaf's frame in `page`. -/
structure Moved (t : Tables α) (va : Va) (page w : Word) (t' : Tables α) : Prop where
  main : t'.main = t.main
  snap : t'.snap = Function.update t.snap va w
  mem_page : t'.mem page = t.mem (pteAddr (t.main va))
  mem_ne : ∀ f, f ≠ page → t'.mem f = t.mem f
  ref_page : pteAddr (t.main va) ≠ page → t'.ref page = 1
  ref_old : pteAddr (t.main va) ≠ page →
    t.ref (pteAddr (t.main va)) - 1 ≤ t'.ref (pteAddr (t.main va))
  ref_ne : ∀ f, f ≠ page → f ≠ pteAddr (t.main va) → t'.ref f = t.ref f

theorem moved_put (t : Tables α) (va : Va) (page w : Word) :
    Moved t va page w (((t.copyInto page (pteAddr (t.main va))).setSnap va w).put cfg
      (pteAddr (t.main va))) := by
  obtain ⟨hmain, hsnap, hmem, href, hold⟩ :=
    @put_parts α cfg ((t.copyInto page (pteAddr (t.main va))).setSnap va w) (pteAddr (t.main va))
  refine ⟨hmain, hsnap, ?_, ?_, ?_, ?_, ?_⟩
  · rw [hmem]
    simp [Tables.copyInto, Tables.setSnap]
  · intro f hf
    rw [hmem]
    simp [Tables.copyInto, Tables.setSnap, hf]
  · intro hne
    rw [href page (Ne.symm hne)]
    simp [Tables.copyInto, Tables.setSnap]
  · intro hne
    refine Nat.le_trans ?_ hold
    simp [Tables.copyInto, Tables.setSnap, hne]
  · intro f hf hf'
    rw [href f hf']
    simp [Tables.copyInto, Tables.setSnap, hf]

/-- **The snapshot leaf moves to a copy** of the frame that it shares. -/
theorem inv_move (hinv : Inv cfg s m) (hex : s.snapshotExists = true) {w : Word} {t : Tables α}
    (hmv : Moved s.tables va page w t)
    (hshared : pteAddr (s.tables.snap va) = pteAddr (s.tables.main va))
    (hclass : inClass (s.tables.main va) = true) (halloc : s.tables.allocatable cfg page = true)
    (haddr : pteAddr w = pteAddr page) (hcow : isCow w = false) :
    Inv cfg { s with tables := t } m := by
  obtain ⟨hpool, hfree, hpage⟩ := allocatable_iff.1 halloc
  have hfresh := hinv.fresh_page hpool hfree
  rw [hpage] at haddr
  obtain ⟨hmain, hsnap, hmemPage, hmem, hrefPage, hrefOld, href⟩ := hmv
  specialize hrefPage (hfresh va)
  specialize hrefOld (hfresh va)
  have hsnapOther : ∀ v, v ≠ va → t.snap v = s.tables.snap v := by
    intro v hv
    rw [hsnap, Function.update_of_ne hv]
  have hsnapSelf : pteAddr (t.snap va) = page := by rw [hsnap, Function.update_self, haddr]
  -- A frame that some leaf of the snapshot already owns is not the new page.
  have hownedNe : ∀ v, pteAddr (s.tables.snap v) ≠ page := by
    intro v h
    by_cases hsh : pteAddr (s.tables.snap v) = pteAddr (s.tables.main v)
    · exact hfresh v (hsh.symm.trans h)
    · have := (hinv.owned hex v hsh).2.1
      rw [h] at this
      omega
  refine ⟨?_, ?_, ?_, ?_, ?_, ?_, ?_, ?_, ?_, ?_⟩
  · rw [hmain]; exact hinv.unmapped
  · rw [hmain]; exact hinv.unaliased
  · rw [hmain]; exact hinv.readonly
  · intro v hv hpoolv
    show 1 + (State.sharedRefs { s with tables := t } v) + s.copiedRefs cfg v ≤
      t.ref (pteAddr (t.main v))
    rw [hmain] at hpoolv ⊢
    have hold := hinv.refs v hv hpoolv
    by_cases hva : v = va
    · -- One reference is gone, and one leaf that held it.
      subst hva
      have hbefore : s.sharedRefs v = 1 := by simp [State.sharedRefs, hex, hshared]
      have hafter : State.sharedRefs { s with tables := t } v = 0 := by
        simp [State.sharedRefs, hsnapSelf, hmain, Ne.symm (hfresh v)]
      rw [hafter]
      omega
    · have hsame : State.sharedRefs { s with tables := t } v = s.sharedRefs v := by
        simp [State.sharedRefs, hsnapOther v hva, hmain]
      rw [hsame, href _ (hfresh v)
        (hinv.unaliased va (hinv.mapped hclass) v hv hva hclass)]
      exact hold
  · intro _ v
    rw [hmain]
    by_cases hva : v = va
    · subst hva
      rw [hsnap, Function.update_self]
      refine ⟨?_, fun _ => hcow⟩
      intro h
      rw [haddr] at h
      exact absurd h.symm (hfresh v)
    · rw [hsnapOther v hva]
      exact hinv.snapLeaf hex v
  · intro _ v hne
    rw [hmain] at hne ⊢
    by_cases hva : v = va
    · subst hva
      rw [hsnapSelf]
      refine ⟨hpool, Nat.le_of_eq hrefPage.symm, hfresh, ?_⟩
      intro v' hv'
      rw [hsnapOther v' hv']
      exact hownedNe v'
    · rw [hsnapOther v hva] at hne ⊢
      obtain ⟨h1, h2, h3, h4⟩ := hinv.owned hex v hne
      refine ⟨h1, ?_, h3, ?_⟩
      · rw [href _ (hownedNe v) (Ne.symm (h3 va))]
        exact h2
      · intro v' hv'
        by_cases hva' : v' = va
        · rw [hva', hsnapSelf]
          exact Ne.symm (hownedNe v)
        · rw [hsnapOther v' hva']
          exact h4 v' hv'
  · rw [hmain]; exact hinv.shadows
  · rw [hmain]; exact hinv.shadows_zero
  · intro v htr
    rw [hmain] at htr
    have hread := hinv.mainRead v htr
    unfold readMain at hread ⊢
    rw [hmain, hmem _ (hfresh v)]
    exact hread
  · intro _ v htr
    rw [hmain] at htr
    have hread := hinv.snapRead hex v htr
    unfold readSnap at hread ⊢
    by_cases hva : v = va
    · subst hva
      rw [hsnapSelf, hmemPage, ← hshared]
      exact hread
    · rw [hsnapOther v hva, hmem _ (hownedNe v)]
      exact hread

/-- The shortcut for pages with one reference is not taken for a page that
    the snapshot shares. -/
theorem Inv.not_shared (hinv : Inv cfg s m) (hva : va ∈ cfg.vas)
    (hpool : cfg.isFromPool (pteAddr (s.tables.main va)) = true)
    (hone : s.tables.ref (pteAddr (s.tables.main va)) = 1) (hex : s.snapshotExists = true) :
    pteAddr (s.tables.snap va) ≠ pteAddr (s.tables.main va) := by
  intro hsh
  have hrefs := hinv.refs va hva hpool
  have : s.sharedRefs va = 1 := by simp [State.sharedRefs, hex, hsh]
  omega

theorem inv_faultMain (hinv : Inv cfg s m) {t : Tables α} (hva : va ∈ cfg.vas)
    (h : pgfltMain cfg s.tables s.snapshotExists va page = some t) :
    Inv cfg { s with tables := t } m := by
  cases pgfltMain_cases h with
  | ignored _ => exact hinv
  | owned hneed hpool hone => exact inv_unlock hinv hneed (hinv.not_shared hva hpool hone)
  | alone hneed hno =>
    refine inv_unlock hinv hneed fun hex => ?_
    rw [hno] at hex
    cases hex
  | diverged hneed hex hdiff =>
    have hinv' := inv_diverged (w := diverged (locked (s.tables.snap va))) hinv (by simp) (by simp)
      hdiff
    refine inv_unlock hinv' hneed fun _ => ?_
    simpa [Tables.setSnap] using hdiff
  | copied hneed hex hsame halloc =>
    have hcow := (needsCow_iff.1 hneed).1
    obtain ⟨hpool, hfree, hpage⟩ := allocatable_iff.1 halloc
    have hmv := @moved_put α cfg s.tables va page (installed page (locked (s.tables.snap va)))
    have hinv' := inv_move hinv hex hmv hsame (by simp [inClass, hcow]) halloc (by simp) (by simp)
    generalize ((s.tables.copyInto page (pteAddr (s.tables.main va))).setSnap va
      (installed page (locked (s.tables.snap va)))).put cfg (pteAddr (s.tables.main va)) = t at *
    rw [← hmv.main] at hneed ⊢
    refine inv_unlock hinv' hneed fun _ => ?_
    show pteAddr (t.snap va) ≠ pteAddr (t.main va)
    rw [hmv.main, hmv.snap, Function.update_self, pteAddr_installed, hpage]
    exact Ne.symm (hinv.fresh_page hpool hfree va)

theorem inv_faultSnap (hinv : Inv cfg s m) (hex : s.snapshotExists = true) {t : Tables α}
    (hva : va ∈ cfg.vas) (h : pgfltSnap cfg s.tables va page = some t) :
    Inv cfg { s with tables := t } m := by
  have hleaf := hinv.snapLeaf hex va
  -- A copy-on-write leaf of the snapshot has not moved.
  have hshared : needsCow (s.tables.snap va) = true →
      pteAddr (s.tables.snap va) = pteAddr (s.tables.main va) := by
    intro hneed
    by_contra hne
    have hcow := (needsCow_iff.1 hneed).1
    rw [hleaf.moved hne] at hcow
    cases hcow
  cases pgfltSnap_cases h with
  | ignored _ => exact hinv
  | owned hneed hpool hone =>
    have hsh := hshared hneed
    rw [hsh] at hpool hone
    exact absurd hsh (hinv.not_shared hva hpool hone hex)
  | copied hneed halloc =>
    have hsh := hshared hneed
    have hcow := (hleaf.shared hsh).1.symm.trans (needsCow_iff.1 hneed).1
    rw [hsh]
    exact inv_move hinv hex (moved_put s.tables va page (privateCopy page (s.tables.snap va))) hsh
      (by simp [inClass, hcow]) halloc (by simp) (by simp)

/-! ## Copies, spawns and completions -/

theorem shadowPair_copied {w : Word} (hro : isCow w = true → isW w = false) :
    ShadowPair w (if copiesCow w then cowCopy1 w else plainCopy1 w)
      (if copiesCow w then cowCopy2 w else plainCopy2 w) := by
  by_cases hc : copiesCow w = true
  · rw [if_pos hc, if_pos hc]
    simp only [copiesCow, Bool.and_eq_true, Bool.not_eq_true'] at hc
    have hclass : inClass (cowCopy1 w) = inClass w := by simp [inClass, hc.1.1.1.1]
    exact ⟨⟨sameMapping_cowCopy1 w, hclass⟩, pteAddr_cowCopy2 w, by simp, by simp, by simp,
      by simp⟩
  · rw [if_neg hc, if_neg hc]
    have hclass : inClass (plainCopy1 w) = inClass w := by simp [inClass]
    refine ⟨⟨sameMapping_plainCopy1 w, hclass⟩, pteAddr_plainCopy2 w, by simpa using hro, by simp,
      by simp, ?_⟩
    -- A tracked leaf that is not write-protected here was so before.
    intro htr
    rw [(plainCopy1_flags w).2.1]
    simp only [copiesCow, tracked] at hc htr
    grind

theorem shadowPair_zero : ShadowPair 0#64 0#64 0#64 :=
  ⟨.refl _, rfl, by decide, rfl, rfl, by decide⟩

theorem copied_walking {todo : List Va} (h : s.copy = .walking todo) :
    s.copied cfg va = true ↔ va ∈ cfg.vas ∧ va ∉ todo := by
  simp [State.copied, h]

/-- A step of the copier leaves both tables and the memory alone. -/
structure CopierStep (s s' : State α) : Prop where
  main : s'.tables.main = s.tables.main
  snap : s'.tables.snap = s.tables.snap
  mem : s'.tables.mem = s.tables.mem
  snapshotExists : s'.snapshotExists = s.snapshotExists
  ref : ∀ f, s.tables.ref f ≤ s'.tables.ref f

/-- A step of the copier has to account for the leaves that it copies. -/
theorem Inv.copier (hinv : Inv cfg s m) (hkeep : CopierStep s s')
    (htaken : ∀ va, s'.copied cfg va = true → s.copied cfg va = true ∨
      (cfg.isFromPool (pteAddr (s.tables.main va)) = true →
        s.tables.ref (pteAddr (s.tables.main va)) + 2 ≤ s'.tables.ref (pteAddr (s.tables.main va))))
    (hpairs : ∀ va, s'.copied cfg va = true →
      ShadowPair (s.tables.main va) (s'.shadow1 va) (s'.shadow2 va))
    (hzero : ∀ va, s.tables.main va = 0#64 → s'.shadow1 va = 0#64 ∧ s'.shadow2 va = 0#64) :
    Inv cfg s' m := by
  obtain ⟨hmain, hsnap, hmem, hexists, href⟩ := hkeep
  have hshared : ∀ va, s'.sharedRefs va = s.sharedRefs va := by
    intro va
    simp only [State.sharedRefs, hmain, hsnap, hexists]
  refine ⟨?_, ?_, ?_, ?_, ?_, ?_, ?_, ?_, ?_, ?_⟩
  · rw [hmain]; exact hinv.unmapped
  · rw [hmain]; exact hinv.unaliased
  · rw [hmain]; exact hinv.readonly
  · intro va hva hpool
    rw [hmain] at hpool ⊢
    have hrefs := hinv.refs va hva hpool
    have hgrow := href (pteAddr (s.tables.main va))
    rw [hshared va]
    by_cases hc : s'.copied cfg va = true
    · rcases htaken va hc with hold | hnew
      · simp only [State.copiedRefs, hold, hc, if_true] at hrefs ⊢
        omega
      · have hnew := hnew hpool
        simp only [State.copiedRefs, hc, if_true] at hrefs ⊢
        omega
    · have hnone : s'.copiedRefs cfg va = 0 := by simp [State.copiedRefs, hc]
      omega
  · rw [hexists, hmain, hsnap]; exact hinv.snapLeaf
  · rw [hexists, hmain, hsnap]
    intro hex va hne
    obtain ⟨h1, h2, h3, h4⟩ := hinv.owned hex va hne
    exact ⟨h1, Nat.le_trans h2 (href _), h3, h4⟩
  · rw [hmain]; exact hpairs
  · rw [hmain]; exact fun _ => hzero
  · unfold readMain
    rw [hmain, hmem]
    exact hinv.mainRead
  · unfold readSnap
    rw [hexists, hmain, hsnap, hmem]
    exact hinv.snapRead

theorem inv_beginCopy (hinv : Inv cfg s m) :
    Inv cfg { s with copy := .walking cfg.vas, shadow1 := fun _ => 0#64, shadow2 := fun _ => 0#64 }
      m := by
  have hnone : ∀ va, State.copied cfg { s with
      copy := .walking cfg.vas, shadow1 := fun _ => 0#64, shadow2 := fun _ => 0#64 } va ≠ true := by
    intro va
    simp [State.copied]
  exact hinv.copier ⟨rfl, rfl, rfl, rfl, fun _ => Nat.le_refl _⟩ (fun va h => absurd h (hnone va))
    (fun va h => absurd h (hnone va)) fun _ _ => ⟨rfl, rfl⟩

/-- The walk skips an entry that is zero. -/
theorem inv_skipLeaf (hinv : Inv cfg s m) {rest : List Va}
    (hwalk : s.copy = .walking (va :: rest)) (hempty : s.tables.main va = 0#64) :
    Inv cfg { s with copy := .walking rest } m := by
  have hzero := hinv.shadows_zero (by simp [hwalk])
  refine hinv.copier ⟨rfl, rfl, rfl, rfl, fun _ => Nat.le_refl _⟩ ?_ ?_ hzero
  · intro v hv
    by_cases hva : v = va
    · right
      intro hpool
      rw [hva, hempty] at hpool
      simp [Config.isFromPool, pteAddr] at hpool
    · left
      obtain ⟨hmem, hrest⟩ := (copied_walking rfl).1 hv
      exact (copied_walking hwalk).2 ⟨hmem, by simp [hva, hrest]⟩
  · intro v hv
    by_cases hva : v = va
    · obtain ⟨h1, h2⟩ := hzero va hempty
      rw [hva, hempty]
      show ShadowPair 0#64 (s.shadow1 va) (s.shadow2 va)
      rw [h1, h2]
      exact shadowPair_zero
    · obtain ⟨hmem, hrest⟩ := (copied_walking rfl).1 hv
      exact hinv.shadows v ((copied_walking hwalk).2 ⟨hmem, by simp [hva, hrest]⟩)

theorem copierStep_copyLeaf (va : Va) (rest : List Va) :
    CopierStep s { s.copyLeaf cfg va with copy := .walking rest } := by
  simp only [State.copyLeaf]
  split
  · refine ⟨rfl, rfl, rfl, rfl, fun f => ?_⟩
    by_cases hf : f = pteAddr (s.tables.main va)
    · simp [hf]
    · simp [hf]
  · exact ⟨rfl, rfl, rfl, rfl, fun _ => Nat.le_refl _⟩

/-- The copier takes the next leaf, and a reference for each shadow leaf. -/
theorem inv_copyLeaf (hinv : Inv cfg s m) {rest : List Va}
    (hwalk : s.copy = .walking (va :: rest)) (hmapped : s.tables.main va ≠ 0#64) :
    Inv cfg { s.copyLeaf cfg va with copy := .walking rest } m := by
  have hbefore : ∀ v, v ≠ va → State.copied cfg { s.copyLeaf cfg va with copy := .walking rest } v =
      true → s.copied cfg v = true := by
    intro v hva hv
    obtain ⟨hmem, hrest⟩ := (copied_walking rfl).1 hv
    exact (copied_walking hwalk).2 ⟨hmem, by simp [hva, hrest]⟩
  refine hinv.copier (copierStep_copyLeaf va rest) ?_ ?_ ?_
  · intro v hv
    by_cases hva : v = va
    · right
      intro hpool
      rw [hva] at hpool ⊢
      simp [State.copyLeaf, hpool]
    · exact .inl (hbefore v hva hv)
  · intro v hv
    by_cases hva : v = va
    · subst hva
      simpa [State.copyLeaf] using shadowPair_copied (hinv.readonly v)
    · simpa [State.copyLeaf, hva] using hinv.shadows v (hbefore v hva hv)
  · intro v hzero
    have hva : v ≠ va := by
      rintro rfl
      exact hmapped hzero
    simpa [State.copyLeaf, hva] using hinv.shadows_zero (by simp [hwalk]) v hzero

theorem inv_endCopy (hinv : Inv cfg s m) (hwalk : s.copy = .walking []) :
    Inv cfg { s with copy := .ready } m := by
  have hsame : ∀ va, State.copied cfg { s with copy := .ready } va = true →
      s.copied cfg va = true := by
    intro va hva
    simpa [State.copied, hwalk] using hva
  exact hinv.copier ⟨rfl, rfl, rfl, rfl, fun _ => Nat.le_refl _⟩ (fun va h => .inl (hsame va h))
    (fun va h => hinv.shadows va (hsame va h)) (hinv.shadows_zero (by simp [hwalk]))

/-- When the copier is done, every leaf has its pair of shadow leaves. -/
theorem Inv.pair (hinv : Inv cfg s m) (hready : s.copy = .ready) (va : Va) :
    ShadowPair (s.tables.main va) (s.shadow1 va) (s.shadow2 va) := by
  by_cases hva : va ∈ cfg.vas
  · exact hinv.shadows va (by simp [State.copied, hready, hva])
  · have hmain := hinv.unmapped va hva
    obtain ⟨h1, h2⟩ := hinv.shadows_zero (by simp [hready]) va hmain
    rw [hmain, h1, h2]
    exact shadowPair_zero

/-- **A spawn** makes the shadow tables the main and the snapshot table. -/
theorem inv_spawn (hinv : Inv cfg s m) (hready : s.copy = .ready) :
    Inv cfg { s with
        tables := { s.tables with main := s.shadow1, snap := s.shadow2 }
        snapshotExists := true
        copy := .idle } (m.apply .spawn) := by
  have hpair := hinv.pair hready
  have haddr : ∀ va, pteAddr (s.shadow1 va) = pteAddr (s.tables.main va) :=
    fun va => (hpair va).page.addr
  have haddr2 : ∀ va, pteAddr (s.shadow2 va) = pteAddr (s.shadow1 va) :=
    fun va => (hpair va).addr.trans (haddr va).symm
  refine ⟨?_, ?_, fun va => (hpair va).readonly, ?_, ?_, ?_, ?_, ?_, ?_, ?_⟩
  · intro va hva
    exact (hinv.shadows_zero (by simp [hready]) va (hinv.unmapped va hva)).1
  · intro va hva va' hva' hne hclass
    show pteAddr (s.shadow1 va') ≠ pteAddr (s.shadow1 va)
    rw [haddr va, haddr va']
    exact hinv.unaliased va hva va' hva' hne ((hpair va).page.inClass.symm.trans hclass)
  · intro va hva hpool
    -- Of the two references of the copier one is now the snapshot's.
    change cfg.isFromPool (pteAddr (s.shadow1 va)) = true at hpool
    show _ ≤ s.tables.ref (pteAddr (s.shadow1 va))
    rw [haddr va] at hpool ⊢
    have hrefs := hinv.refs va hva hpool
    have hcopied : s.copiedRefs cfg va = 2 := by
      simp [State.copiedRefs, State.copied, hready, hva]
    have hshared : ∀ t : State α, t.sharedRefs va ≤ 1 := by
      intro t
      unfold State.sharedRefs
      split <;> omega
    have hidle : State.copiedRefs cfg { s with
        tables := { s.tables with main := s.shadow1, snap := s.shadow2 }
        snapshotExists := true
        copy := .idle } va = 0 := by simp [State.copiedRefs, State.copied]
    have := hshared { s with
        tables := { s.tables with main := s.shadow1, snap := s.shadow2 }
        snapshotExists := true
        copy := .idle }
    omega
  · intro _ va
    refine ⟨fun _ => ⟨(hpair va).cow, (hpair va).writable, ?_⟩,
      fun hne => absurd (haddr2 va) hne⟩
    intro htr
    exact (hpair va).tracked ((hpair va).page.tracked.symm.trans htr)
  · intro _ va hne
    exact absurd (haddr2 va) hne
  · intro va hva
    simp [State.copied] at hva
  · intro hne
    exact absurd rfl hne
  · intro va htr
    have hread := hinv.mainRead va ((hpair va).page.tracked.symm.trans htr)
    show s.tables.mem (pteAddr (s.shadow1 va)) = m.main va
    rw [haddr va]
    exact hread
  · intro _ va htr
    have hread := hinv.mainRead va ((hpair va).page.tracked.symm.trans htr)
    show s.tables.mem (pteAddr (s.shadow2 va)) = m.main va
    rw [(hpair va).addr]
    exact hread

theorem inv_complete (hinv : Inv cfg s m) : Inv cfg { s with snapshotExists := false } m := by
  refine { hinv with refs := ?_, snapLeaf := by simp, owned := by simp, snapRead := by simp }
  intro va hva hpool
  have hrefs := hinv.refs va hva hpool
  have hnone : State.sharedRefs { s with snapshotExists := false } va = 0 := by
    simp [State.sharedRefs]
  rw [hnone]
  refine Nat.le_trans ?_ hrefs
  show 1 + 0 + s.copiedRefs cfg va ≤ _
  omega

/-! ## Runs -/

/-- Every step does to what is read what its label does to the two memories. -/
theorem inv_step (l : Label α) (hinv : Inv cfg s m) (h : step cfg s l = some s') :
    Inv cfg s' (m.apply l) := by
  cases l with
  | storeMain va x =>
    simp only [step] at h
    split at h <;> cases h
    rename_i hw
    simp only [Bool.and_eq_true] at hw
    exact inv_storeMain hinv hw.2
  | storeSnap va x =>
    simp only [step] at h
    split at h <;> cases h
    rename_i hw
    simp only [Bool.and_eq_true] at hw
    exact inv_storeSnap hinv hw.1.1 hw.2
  | faultMain va page =>
    simp only [step] at h
    split at h
    · rename_i hva
      obtain ⟨t, ht, rfl⟩ := Option.map_eq_some_iff.1 h
      exact inv_faultMain hinv (List.contains_iff_mem.1 hva) ht
    · cases h
  | faultSnap va page =>
    simp only [step] at h
    split at h
    · rename_i hva
      simp only [Bool.and_eq_true, List.contains_iff_mem] at hva
      obtain ⟨t, ht, rfl⟩ := Option.map_eq_some_iff.1 h
      exact inv_faultSnap hinv hva.2 hva.1 ht
    · cases h
  | beginCopy =>
    simp only [step] at h
    split at h <;> cases h
    exact inv_beginCopy hinv
  | copyLeaf =>
    simp only [step] at h
    split at h
    · rename_i va rest hwalk
      split at h <;> cases h
      · exact inv_skipLeaf hinv hwalk ‹_›
      · exact inv_copyLeaf hinv hwalk ‹_›
    · cases h
  | endCopy =>
    simp only [step] at h
    split at h <;> cases h
    exact inv_endCopy hinv ‹_›
  | spawn =>
    simp only [step] at h
    split at h
    · split at h <;> cases h
      exact inv_spawn hinv ‹_›
    · cases h
  | complete =>
    simp only [step] at h
    split at h <;> cases h
    exact inv_complete hinv

/-- A fault of a main core leaves every main leaf on its page. -/
theorem samePage_faultMain (h : step cfg s (.faultMain va page) = some s') (v : Va) :
    SamePage (s'.tables.main v) (s.tables.main v) := by
  simp only [step] at h
  split at h
  · obtain ⟨t, ht, rfl⟩ := Option.map_eq_some_iff.1 h
    cases pgfltMain_cases ht with
    | ignored _ => exact .refl _
    | owned hneed _ _ | alone hneed _ | diverged hneed _ _ => exact samePage_unlocked hneed v
    | copied hneed _ _ _ =>
      have hmv := @moved_put α cfg s.tables va page (installed page (locked (s.tables.snap va)))
      generalize ((s.tables.copyInto page (pteAddr (s.tables.main va))).setSnap va
        (installed page (locked (s.tables.snap va)))).put cfg (pteAddr (s.tables.main va)) = t at *
      rw [← hmv.main] at hneed ⊢
      exact samePage_unlocked hneed v
  · cases h

/-- No step changes which page a leaf of the main table maps, or whether it
    is tracked. -/
theorem samePage_step (l : Label α) (hinv : Inv cfg s m) (h : step cfg s l = some s') (v : Va) :
    SamePage (s'.tables.main v) (s.tables.main v) := by
  cases l with
  | faultMain va page => exact samePage_faultMain h v
  | faultSnap va page =>
    simp only [step] at h
    split at h
    · obtain ⟨t, ht, rfl⟩ := Option.map_eq_some_iff.1 h
      cases pgfltSnap_cases ht with
      | ignored _ | owned _ _ _ => exact .refl _
      | copied _ _ =>
        have hmain := (@put_parts α cfg
          ((s.tables.copyInto page (pteAddr (s.tables.snap va))).setSnap
          va (privateCopy page (s.tables.snap va))) (pteAddr (s.tables.snap va))).1
        rw [hmain]
        exact .refl _
    · cases h
  | copyLeaf =>
    simp only [step] at h
    split at h
    · rename_i va rest _
      split at h <;> cases h
      · exact .refl _
      · rw [(copierStep_copyLeaf va rest).main]
        exact .refl _
    · cases h
  | spawn =>
    simp only [step] at h
    split at h
    · split at h <;> cases h
      exact (hinv.pair ‹_› v).page
    · cases h
  | storeMain va x | storeSnap va x | complete | beginCopy | endCopy =>
    simp only [step] at h
    split at h <;> cases h
    exact .refl _

/-- What the tables of `s` give to readers is `m`. -/
structure Isolated (cfg : Config) (s : State α) (m : Memories α) : Prop where
  main_read : ∀ va, tracked (s.tables.main va) = true → readMain s va = m.main va
  snap_read : s.snapshotExists = true → ∀ va, tracked (s.tables.main va) = true →
    readSnap s va = m.snap va
  main_frames : ∀ va page s', step cfg s (.faultMain va page) = some s' →
    ∀ v, pteAddr (s'.tables.main v) = pteAddr (s.tables.main v)
  shadow_frames : ∀ va, s.copied cfg va = true →
    pteAddr (s.shadow1 va) = pteAddr (s.tables.main va) ∧
    pteAddr (s.shadow2 va) = pteAddr (s.tables.main va)

/-- **Isolation**: over any run, of any number of snapshots, the two memories
    are what main cores and the snapshot see. -/
theorem isolation {s₀ : State α} {ls : List (Label α)} (h0 : Init cfg s₀)
    (hun : Unaliased cfg s₀.tables.main) (hrun : (system cfg).exec s₀ ls = some s) :
    Isolated cfg s (ls.foldl Memories.apply s₀.memories) := by
  have hinv : Inv cfg s (ls.foldl Memories.apply s₀.memories) :=
    System.exec_simulation (R := Inv cfg) Memories.apply (fun _ _ l _ hi hs => inv_step l hi hs)
      (inv_init h0 hun) hrun
  refine ⟨hinv.mainRead, hinv.snapRead, fun _ _ _ h v => (samePage_faultMain h v).addr, ?_⟩
  intro va hva
  have hpair := hinv.shadows va hva
  exact ⟨hpair.page.addr, hpair.addr⟩

/-- Two addresses. -/
def twoPages : Config := { onePage with vas := [0x1000#64, 0x2000#64] }

theorem mem_twoPages : va ∈ twoPages.vas ↔ va = 0x1000#64 ∨ va = 0x2000#64 := by
  simp [twoPages]

/-- Both addresses are writable, on one frame of the pool or on two. -/
def firstLeaf (shared : Bool) (va : Va) : Word :=
  if va = 0x1000#64 then 0x100000067#64
  else if va = 0x2000#64 then if shared then 0x100000067#64 else 0x100008067#64
  else 0#64

/-- Tables before the first snapshot; every frame holds `x`. -/
def firstTable (shared : Bool) (x : α) : State α where
  tables :=
    { main := firstLeaf shared
      snap := fun _ => 0#64
      ref := (twoPages.vas.map fun va => pteAddr (firstLeaf shared va)).count
      mem := fun _ => x }
  snapshotExists := false
  copy := .idle
  shadow1 := fun _ => 0#64
  shadow2 := fun _ => 0#64

theorem init_firstTable (shared : Bool) (x : α) : Init twoPages (firstTable shared x) where
  unmapped := fun va hva => by
    rw [mem_twoPages, not_or] at hva
    exact (if_neg hva.1).trans (if_neg hva.2)
  readonly := fun va => by
    simp only [firstTable, firstLeaf]
    split
    · decide
    · split
      · cases shared <;> decide
      · decide
  referenced := fun va hva _ => List.count_pos_iff.2 (List.mem_map_of_mem hva)
  alone := rfl
  fresh := rfl

theorem unaliased_firstTable (x : α) : Unaliased twoPages (firstTable false x).tables.main := by
  intro va hva va' hva' hne _
  obtain rfl | rfl := mem_twoPages.1 hva
  · obtain rfl | rfl := mem_twoPages.1 hva'
    · exact absurd rfl hne
    · show pteAddr 0x100008067#64 ≠ pteAddr 0x100000067#64
      decide
  · obtain rfl | rfl := mem_twoPages.1 hva'
    · show pteAddr 0x100000067#64 ≠ pteAddr 0x100008067#64
      decide
    · exact absurd rfl hne

/-- Two snapshots of two pages: main cores move first in one of them, at one page, and the
    snapshot in the other, at the other page. -/
def twoSnapshots : List (Label Nat) :=
  [.beginCopy, .copyLeaf, .copyLeaf, .endCopy, .spawn, .faultMain 0x1000#64 0x100001000#64,
    .storeMain 0x1000#64 6, .storeSnap 0x1000#64 7, .beginCopy, .complete, .copyLeaf, .copyLeaf,
    .endCopy, .spawn, .faultSnap 0x2000#64 0x100002000#64, .storeSnap 0x2000#64 8,
    .faultMain 0x2000#64 0x100003000#64, .storeMain 0x2000#64 9]

theorem isolation_two_snapshots :
    ∃ s, (system twoPages).exec (firstTable false 5) twoSnapshots = some s ∧
      Isolated twoPages s (twoSnapshots.foldl Memories.apply (firstTable false 5).memories) ∧
      readMain s 0x1000#64 = 6 ∧ readSnap s 0x1000#64 = 6 ∧
      readMain s 0x2000#64 = 9 ∧ readSnap s 0x2000#64 = 8 := by
  refine (system twoPages).exists_exec_of (fun t : State Nat => readMain t 0x1000#64 = 6 ∧
    readSnap t 0x1000#64 = 6 ∧ readMain t 0x2000#64 = 9 ∧ readSnap t 0x2000#64 = 8)
    (by decide +kernel) fun s hrun hs => ⟨?_, hs⟩
  exact isolation (init_firstTable false 5) (unaliased_firstTable 5) hrun

/-- A store of a main core through one of two addresses of a frame, after
    the snapshot leaf of that address has moved. -/
def storeThroughAlias : List (Label Nat) :=
  [.beginCopy, .copyLeaf, .copyLeaf, .endCopy, .spawn, .faultMain 0x1000#64 0x100001000#64,
    .storeMain 0x1000#64 6]

/-- **Aliases leak**: at the switch the page at `0x2000` holds 5, nothing is
    stored at that address, and yet the snapshot reads 6 there. -/
theorem aliased_page_leaks :
    Init twoPages (firstTable true 5) ∧
    ∃ s, (system twoPages).exec (firstTable true 5) storeThroughAlias = some s ∧
      s.snapshotExists = true ∧ tracked (s.tables.main 0x2000#64) = true ∧
      (storeThroughAlias.foldl Memories.apply (firstTable true 5).memories).snap 0x2000#64 = 5 ∧
      readSnap s 0x2000#64 = 6 := by
  refine ⟨init_firstTable true 5, ?_⟩
  exact (system twoPages).exists_exec _ _ _ (by decide +kernel)

end Isolation
