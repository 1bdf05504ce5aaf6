import Mathlib.Data.List.Nodup
import Libdbos.Framework.Census
import Libdbos.FastSpawn.Isolation

/-! # Reference Counts under Copy-on-Write

    One generation of page tables and the page pool behind it:
    `dune_vm_my_clone` walks the main table and builds two shadow tables,
    and faults on the new main and snapshot tables follow, each of them one
    step. The walk allocates the pages of the new tables on its way, and
    `pgtable_cow_copy` takes two references for every leaf it copies.

    A leaf inside the pool's own range of addresses maps a 2 MB block of
    the pool, and the walk takes references to the first frame of the
    block, whatever that frame is used for. All other leaves are ordinary.

    * `counts_exact`: the count of a frame behind an ordinary leaf is the
      number of ordinary leaves on it, in the old table and in both new
      ones, and the frame is not free.

    The proof is an instance of `Census.Exact`, with the ordinary leaves as
    users and the first frames of blocks set apart.
-/

open LTS

namespace RefCounts

open Pte CowFault

/-! ## Addresses -/

/-- The end of the pool's range of addresses, `PAGEBASE_END`. -/
def pagebaseEnd : Nat := 0x300000000

/-- The address belongs to the mapping of the pool itself. -/
def inPoolRange (va : Va) : Bool :=
  decide (0x100000000 ≤ va.toNat ∧ va.toNat < pagebaseEnd)

/-- The bounds of regions that are never put under copy-on-write and
    depend on sizes of records or on the kernel. -/
structure Regions where
  /-- `IPI_ADDR_SHARED_STATE_END`. -/
  ipiEnd : Nat
  /-- `dune_pmem_alloc_begin()`. -/
  pmemBegin : Nat
  /-- `dune_pmem_alloc_end()`. -/
  pmemEnd : Nat

/-- The second test of `pgtable_cow_copy`: rings and shared state of IPIs, the
    APIC page, the posted-interrupt descriptors and the allocator's record. -/
def Regions.avoidCow (r : Regions) (va : Va) : Bool :=
  decide (0xffff800000000000 ≤ va.toNat ∧ va.toNat < r.ipiEnd) ||
  decide (0xfffffffffffff000 ≤ va.toNat) ||
  decide (0x200000000000 ≤ va.toNat ∧ va.toNat < 0x200000000000 + 104 * 4096) ||
  decide (r.pmemBegin ≤ va.toNat ∧ va.toNat < r.pmemEnd)

/-- The first frame of a 2 MB block of the pool. -/
def isBlockFrame (cfg : Config) (f : Word) : Bool :=
  cfg.isFromPool f && f.toNat % 0x200000 == 0

/-- A main table: where its leaves are, in the order of the walk. -/
structure Layout where
  cfg : Config
  regions : Regions
  leaves : List Va
  distinct : leaves.Nodup

/-- The 4 KB leaves outside the mapping of the pool. -/
def Layout.ordinary (L : Layout) : List Va := L.leaves.filter fun va => !inPoolRange va

theorem Layout.ordinary_nodup (L : Layout) : L.ordinary.Nodup := L.distinct.filter _

theorem Layout.mem_ordinary {L : Layout} {va : Va} :
    va ∈ L.ordinary ↔ va ∈ L.leaves ∧ inPoolRange va = false := by
  simp [Layout.ordinary]

/-! ## State -/

inductive Phase where
  /-- `dune_vm_my_clone` walks the main table. -/
  | walking (todo : List Va)
  | built
  deriving DecidableEq, Repr

structure State (α : Type) where
  /-- The main table that is cloned. -/
  old : Va → Word
  /-- The two new tables, the counts and the memory. -/
  tables : Tables α
  /-- The pages on the free lists, all lists together. -/
  free : List Word
  phase : Phase

inductive Label where
  /-- `alloc_page` for a root or an inner table of the clone. -/
  | allocTable (page : Word)
  /-- `pgtable_cow_copy` on the next leaf. -/
  | copyLeaf
  /-- The walk returns. -/
  | finish
  | faultMain (snapshotExists : Bool) (va : Va) (page : Word)
  | faultSnap (va : Va) (page : Word)
  deriving DecidableEq, Repr

/-! ## The clone -/

section Steps

variable {α : Type} (L : Layout) (s : State α)

/-- The entry `dune_vm_map_phys_with_pte_flags` writes for a leaf of the pool's
    own mapping; its argument `pte_flags` is an `int`. -/
def blockCopy (w : Word) : Word := pteAddr w ||| (pteFlags w &&& 0xffffffff#64)

/-- The entries of the two new tables for a leaf with entry `w`. -/
def copies (va : Va) (w : Word) : Word × Word :=
  if inPoolRange va then (blockCopy w, blockCopy w)
  else if L.regions.avoidCow va then (plainCopy2 w, plainCopy2 w)
  else if Isolation.copiesCow w then (cowCopy1 w, cowCopy2 w)
  else (plainCopy1 w, plainCopy2 w)

/-- Two times `dune_page_get`, if the frame is from the pool. -/
def getTwice (t : Tables α) (f : Word) : Tables α :=
  if L.cfg.isFromPool f then { t with ref := Function.update t.ref f (t.ref f + 2) } else t

/-- One run of `pgtable_cow_copy`. -/
def State.copyLeaf (va : Va) : State α :=
  let w := s.old va
  let t := (s.tables.setMain va (copies L va w).1).setSnap va (copies L va w).2
  { s with tables := getTwice L t (pteAddr w) }

/-- `dune_page_alloc` for a page table. -/
def State.allocTable (page : Word) : State α :=
  { s with
    tables := { s.tables with ref := Function.update s.tables.ref page (s.tables.ref page + 1) }
    free := s.free.erase page }

/-! ## Faults -/

/-- The fault took `page` from the allocator. -/
def taken (page : Word) (t' : Tables α) : Bool := s.tables.ref page == 0 && t'.ref page != 0

/-- The state after a fault of a core whose leaf was on frame `f`. The
    allocator takes the page off its list, and `dune_page_put` lists the
    frame when its count has dropped to zero. -/
def State.afterFault (page f : Word) (t' : Tables α) : Option (State α) :=
  if taken s page t' && !s.free.contains page then none
  else
    let rest := if taken s page t' then s.free.erase page else s.free
    some { s with
      tables := t'
      free := if s.tables.ref f ≠ 0 ∧ t'.ref f = 0 then f :: rest else rest }

def step : Label → Option (State α)
  | .allocTable page =>
      match s.phase with
      | .walking _ => if s.free.contains page then some (s.allocTable page) else none
      | .built => none
  | .copyLeaf =>
      match s.phase with
      | .walking (va :: rest) =>
          if s.old va = 0#64 then some { s with phase := .walking rest }
          else some { s.copyLeaf L va with phase := .walking rest }
      | _ => none
  | .finish =>
      match s.phase with
      | .walking [] => some { s with phase := .built }
      | _ => none
  | .faultMain snapshotExists va page =>
      if s.phase = .built && L.ordinary.contains va then
        (pgfltMain L.cfg s.tables snapshotExists va page).bind
          (s.afterFault page (pteAddr (s.tables.main va)))
      else none
  | .faultSnap va page =>
      if s.phase = .built && L.ordinary.contains va then
        (pgfltSnap L.cfg s.tables va page).bind (s.afterFault page (pteAddr (s.tables.snap va)))
      else none

/-! ## The census -/

/-- The number of ordinary leaves of a table that map a frame. -/
def Layout.mapped (tbl : Va → Word) (f : Word) : Nat :=
  L.ordinary.countP fun va => pteAddr (tbl va) == f

/-- The number of ordinary leaves of the three tables that map a frame. -/
def State.leaves (f : Word) : Nat :=
  L.mapped s.old f + L.mapped s.tables.main f + L.mapped s.tables.snap f

end Steps

/-- The state in which `dune_vm_my_clone` starts. -/
structure Init {α : Type} (L : Layout) (s : State α) : Prop where
  phase : s.phase = .walking L.leaves
  main : s.tables.main = fun _ => 0#64
  snap : s.tables.snap = fun _ => 0#64
  /-- The leaves in the pool's range map 2 MB blocks. -/
  blocks : ∀ va ∈ L.leaves, inPoolRange va = true →
    L.cfg.isFromPool (pteAddr (s.old va)) = true → isBlockFrame L.cfg (pteAddr (s.old va)) = true
  /-- The counts of frames behind ordinary leaves are exact. -/
  counted : ∀ f, L.cfg.isFromPool f = true → 0 < L.mapped s.old f →
    s.tables.ref f = L.mapped s.old f
  /-- No ordinary leaf maps the first frame of a block. -/
  regular : ∀ f, L.cfg.isFromPool f = true → 0 < L.mapped s.old f → isBlockFrame L.cfg f = false
  /-- The pool is intact, up to the first frames of blocks. -/
  pages : ∀ p ∈ s.free, L.cfg.isFromPool p = true ∧ pteAddr p = p
  unused : ∀ p ∈ s.free, isBlockFrame L.cfg p = false → s.tables.ref p = 0
  once : ∀ p, isBlockFrame L.cfg p = false → s.free.count p ≤ 1

def system {α : Type} (L : Layout) : System (State α) Label where
  init := Init L
  step := step L

/-- Private copies are not made into the first frame of a block. -/
def copiesAvoidBlocks (L : Layout) : Label → Bool
  | .faultMain _ _ page | .faultSnap _ page => !isBlockFrame L.cfg page
  | _ => true

/-! ## Counting leaves -/

section Counting

variable {L : Layout} {tbl tbl' : Va → Word} {va : Va} {w f : Word}

theorem Layout.mapped_congr (h : ∀ va ∈ L.ordinary, pteAddr (tbl' va) = pteAddr (tbl va)) :
    L.mapped tbl' f = L.mapped tbl f := by
  unfold Layout.mapped
  apply List.countP_congr
  intro va hva
  rw [h va hva]

/-- Leaves of the pool's own mapping do not count. -/
theorem Layout.mapped_update_block (h : va ∉ L.ordinary) :
    L.mapped (Function.update tbl va w) f = L.mapped tbl f := by
  apply Layout.mapped_congr
  intro v hv
  have hne : v ≠ va := by
    rintro rfl
    exact h hv
  rw [Function.update_of_ne hne]

theorem Layout.mapped_update (hva : va ∈ L.ordinary) (tbl : Va → Word) (w f : Word) :
    L.mapped (Function.update tbl va w) f + (if f = pteAddr (tbl va) then 1 else 0) =
      L.mapped tbl f + if f = pteAddr w then 1 else 0 := by
  have h := Census.countP_update L.ordinary_nodup hva tbl w fun x => pteAddr x == f
  simp only [beq_iff_eq] at h
  simp only [Layout.mapped, @eq_comm _ f]
  exact h

theorem Layout.mapped_pos (hva : va ∈ L.ordinary) (tbl : Va → Word) :
    0 < L.mapped tbl (pteAddr (tbl va)) :=
  List.countP_pos_iff.mpr ⟨va, hva, by simp⟩

end Counting

theorem ne_zero_of_isFromPool {cfg : Config} {f : Word} (h : cfg.isFromPool f = true) :
    f ≠ 0#64 := by
  rintro rfl
  simp [Config.isFromPool] at h

/-! ## The invariant -/

variable {α : Type} {L : Layout} {s s' : State α}

/-- What is behind the walk is counted, and what is ahead is not mapped yet. -/
structure Inv (L : Layout) (s : State α) : Prop where
  census : Census.Exact (fun f => L.cfg.isFromPool f = true) (fun f => isBlockFrame L.cfg f = true)
    s.tables.ref (s.leaves L) s.free
  blocks : ∀ va ∈ L.leaves, inPoolRange va = true →
    L.cfg.isFromPool (pteAddr (s.old va)) = true → isBlockFrame L.cfg (pteAddr (s.old va)) = true
  pages : ∀ p ∈ s.free, L.cfg.isFromPool p = true ∧ pteAddr p = p
  ahead : ∀ todo, s.phase = .walking todo → todo.Nodup ∧
    ∀ va ∈ todo, va ∈ L.leaves ∧ s.tables.main va = 0#64 ∧ s.tables.snap va = 0#64

/-- In an empty table no frame of the pool is mapped. -/
theorem Layout.mapped_empty {f : Word} (hf : L.cfg.isFromPool f = true) :
    L.mapped (fun _ => 0#64) f = 0 := by
  have hne := ne_zero_of_isFromPool hf
  have hzero : pteAddr 0#64 = 0#64 := by decide
  simp [Layout.mapped, hzero, Ne.symm hne]

theorem init_leaves (h : Init L s) {f : Word} (hf : L.cfg.isFromPool f = true) :
    s.leaves L f = L.mapped s.old f := by
  simp [State.leaves, h.main, h.snap, Layout.mapped_empty hf]

theorem inv_init (h : Init L s) : Inv L s where
  census := {
    counted := fun f hf hused => by
      rw [init_leaves h hf] at hused ⊢
      exact h.counted f hf hused
    regular := fun f hf hused => by
      rw [init_leaves h hf] at hused
      simp [h.regular f hf hused]
    unused := fun p hp hblock => h.unused p hp (by simpa using hblock)
    once := fun p hblock => h.once p (by simpa using hblock) }
  blocks := h.blocks
  pages := h.pages
  ahead := fun todo htodo => by
    rw [h.phase] at htodo
    cases htodo
    exact ⟨L.distinct, fun va hva => ⟨hva, by rw [h.main], by rw [h.snap]⟩⟩

/-! ## The clone keeps the counts -/

theorem inv_allocTable (h : Inv L s) {page : Word} (hpage : page ∈ s.free) :
    Inv L (s.allocTable page) where
  census := h.census.take hpage _
  blocks := h.blocks
  pages := fun p hp => h.pages p (List.mem_of_mem_erase hp)
  ahead := h.ahead

/-- Both copies of an ordinary leaf are on its frame. -/
theorem pteAddr_copies {va : Va} (hva : inPoolRange va = false) (w : Word) :
    pteAddr (copies L va w).1 = pteAddr w ∧ pteAddr (copies L va w).2 = pteAddr w := by
  unfold copies
  rw [hva, if_neg (by decide)]
  split
  · exact ⟨pteAddr_plainCopy2 w, pteAddr_plainCopy2 w⟩
  · split
    · exact ⟨pteAddr_cowCopy1 w, pteAddr_cowCopy2 w⟩
    · exact ⟨pteAddr_plainCopy1 w, pteAddr_plainCopy2 w⟩

@[simp] theorem getTwice_tables (t : Tables α) (f : Word) :
    (getTwice L t f).main = t.main ∧ (getTwice L t f).snap = t.snap := by
  unfold getTwice
  split <;> exact ⟨rfl, rfl⟩

theorem getTwice_ref (t : Tables α) (f : Word) :
    (getTwice L t f).ref =
      if L.cfg.isFromPool f then Function.update t.ref f (t.ref f + 2) else t.ref := by
  unfold getTwice
  split <;> rfl

/-- Copying an ordinary leaf adds two leaves on its frame. -/
theorem copyLeaf_leaves {va : Va} (hva : va ∈ L.ordinary) (hmain : s.tables.main va = 0#64)
    (hsnap : s.tables.snap va = 0#64) {g : Word} (hg : L.cfg.isFromPool g = true) :
    (s.copyLeaf L va).leaves L g = s.leaves L g + if g = pteAddr (s.old va) then 2 else 0 := by
  obtain ⟨haddr1, haddr2⟩ := pteAddr_copies (L := L) (Layout.mem_ordinary.mp hva).2 (s.old va)
  have hzero : pteAddr 0#64 = 0#64 := by decide
  have hne := ne_zero_of_isFromPool hg
  have hm := L.mapped_update hva s.tables.main (copies L va (s.old va)).1 g
  have hs := L.mapped_update hva s.tables.snap (copies L va (s.old va)).2 g
  rw [hmain, hzero, if_neg hne, haddr1] at hm
  rw [hsnap, hzero, if_neg hne, haddr2] at hs
  simp only [State.leaves, State.copyLeaf, getTwice_tables, Tables.setMain, Tables.setSnap]
  by_cases hgf : g = pteAddr (s.old va)
  · rw [if_pos hgf] at hm hs ⊢
    omega
  · rw [if_neg hgf] at hm hs ⊢
    omega

theorem copyLeaf_leaves_block {va : Va} (hva : va ∉ L.ordinary) (g : Word) :
    (s.copyLeaf L va).leaves L g = s.leaves L g := by
  simp only [State.leaves, State.copyLeaf, getTwice_tables, Tables.setMain, Tables.setSnap,
    L.mapped_update_block hva]

theorem copyLeaf_census (h : Inv L s) {va : Va} (hva : va ∈ L.leaves)
    (hmain : s.tables.main va = 0#64) (hsnap : s.tables.snap va = 0#64) :
    Census.Exact (fun f => L.cfg.isFromPool f = true) (fun f => isBlockFrame L.cfg f = true)
      (s.copyLeaf L va).tables.ref ((s.copyLeaf L va).leaves L) s.free := by
  have href : (s.copyLeaf L va).tables.ref = if L.cfg.isFromPool (pteAddr (s.old va)) then
      Function.update s.tables.ref (pteAddr (s.old va)) (s.tables.ref (pteAddr (s.old va)) + 2)
      else s.tables.ref := getTwice_ref _ _
  rw [href]
  cases hrange : inPoolRange va with
  | false =>
    have hord : va ∈ L.ordinary := Layout.mem_ordinary.mpr ⟨hva, hrange⟩
    have hleaves := fun g hg => copyLeaf_leaves (s := s) (g := g) hord hmain hsnap hg
    split
    · rename_i hpool
      have hpos := L.mapped_pos hord s.old
      exact h.census.share hpool (by unfold State.leaves; omega) 2 hleaves
    · rename_i hpool
      refine h.census.congr fun g hg => ?_
      have hne : g ≠ pteAddr (s.old va) := by
        rintro rfl
        exact hpool hg
      rw [hleaves g hg, if_neg hne, Nat.add_zero]
  | true =>
    have hord : va ∉ L.ordinary := by
      intro hmem
      rw [(Layout.mem_ordinary.mp hmem).2] at hrange
      cases hrange
    have hsame : (s.copyLeaf L va).leaves L = s.leaves L :=
      funext fun g => copyLeaf_leaves_block hord g
    rw [hsame]
    split
    · rename_i hpool
      exact h.census.recount (h.blocks va hva hrange hpool) _
    · exact h.census

theorem inv_copyLeaf (h : Inv L s) {va : Va} {rest : List Va}
    (hphase : s.phase = .walking (va :: rest)) :
    Inv L { s.copyLeaf L va with phase := .walking rest } where
  census := by
    obtain ⟨_, hahead⟩ := h.ahead _ hphase
    obtain ⟨hva, hmain, hsnap⟩ := hahead va List.mem_cons_self
    exact copyLeaf_census h hva hmain hsnap
  blocks := h.blocks
  pages := h.pages
  ahead := fun todo htodo => by
    cases htodo
    obtain ⟨hnodup, hahead⟩ := h.ahead _ hphase
    obtain ⟨hnot, hnodup⟩ := List.nodup_cons.mp hnodup
    refine ⟨hnodup, fun v hv => ?_⟩
    obtain ⟨hleaf, hmain, hsnap⟩ := hahead v (List.mem_cons_of_mem _ hv)
    have hne : v ≠ va := by
      rintro rfl
      exact hnot hv
    simp only [State.copyLeaf, getTwice_tables, Tables.setMain, Tables.setSnap,
      Function.update_of_ne hne]
    exact ⟨hleaf, hmain, hsnap⟩

/-! ## Faults keep the counts -/

/-- A fault that takes no page and drops no reference. -/
theorem inv_kept (h : Inv L s) {page f : Word} {t' : Tables α}
    (hstep : s.afterFault page f t' = some s') (hbuilt : s.phase = .built)
    (href : t'.ref = s.tables.ref)
    (hmain : ∀ va, pteAddr (t'.main va) = pteAddr (s.tables.main va))
    (hsnap : ∀ va, pteAddr (t'.snap va) = pteAddr (s.tables.snap va)) : Inv L s' := by
  have htaken : taken s page t' = false := by
    simp only [taken, href]
    cases s.tables.ref page <;> rfl
  have hdrop : ¬ (s.tables.ref f ≠ 0 ∧ t'.ref f = 0) := by
    rw [href]
    exact fun hc => hc.1 hc.2
  simp only [State.afterFault, htaken, hdrop, if_false, Bool.false_and] at hstep
  cases hstep
  have hleaves : ({ s with tables := t' } : State α).leaves L = s.leaves L := by
    funext g
    simp only [State.leaves]
    rw [Layout.mapped_congr fun va _ => hmain va, Layout.mapped_congr fun va _ => hsnap va]
  refine ⟨?_, h.blocks, h.pages, fun todo htodo => ?_⟩
  · exact hleaves ▸ href ▸ h.census
  · rw [hbuilt] at htodo
    cases htodo

theorem put_ref (t : Tables α) (f : Word) :
    (t.put L.cfg f).ref =
      if L.cfg.isFromPool f then Function.update t.ref f (t.ref f - 1) else t.ref := by
  unfold Tables.put
  split <;> rfl

/-- What a fault does that moves the snapshot leaf from its frame to `page`. -/
structure Moves (L : Layout) (s : State α) (va : Va) (page : Word) (t' : Tables α) : Prop where
  ordinary : va ∈ L.ordinary
  fresh : s.tables.allocatable L.cfg page = true
  main : ∀ v, pteAddr (t'.main v) = pteAddr (s.tables.main v)
  snap : ∃ w, pteAddr w = page ∧ t'.snap = Function.update s.tables.snap va w
  ref : t'.ref = ((s.tables.copyInto page (pteAddr (s.tables.snap va))).put L.cfg
    (pteAddr (s.tables.snap va))).ref

section Moves

variable {va : Va} {page : Word} {t' : Tables α} (h : Moves L s va page t')

include h

theorem Moves.users_pos : 0 < s.leaves L (pteAddr (s.tables.snap va)) := by
  have hpos := L.mapped_pos h.ordinary s.tables.snap
  unfold State.leaves
  omega

/-- No ordinary leaf maps the new page. -/
theorem Moves.page_unused (hinv : Inv L s) : s.leaves L page = 0 := by
  obtain ⟨hpool, hzero, _⟩ := allocatable_iff.mp h.fresh
  by_contra hne
  have hcount := hinv.census.counted page hpool (Nat.pos_of_ne_zero hne)
  omega

theorem Moves.frame_ne (hinv : Inv L s) : pteAddr (s.tables.snap va) ≠ page := by
  intro heq
  have hpos := h.users_pos
  rw [heq, h.page_unused hinv] at hpos
  omega

/-- The fault moves one leaf. -/
theorem Moves.leaves (g : Word) :
    ({ s with tables := t' } : State α).leaves L g +
        (if g = pteAddr (s.tables.snap va) then 1 else 0) =
      s.leaves L g + if g = page then 1 else 0 := by
  obtain ⟨w, hw, hsnap⟩ := h.snap
  have hmap := L.mapped_update h.ordinary s.tables.snap w g
  rw [hw] at hmap
  simp only [State.leaves, hsnap]
  rw [Layout.mapped_congr fun v _ => h.main v]
  omega

/-- The counts after the fault, the new page being taken first. -/
theorem Moves.ref_eq (hinv : Inv L s) :
    t'.ref = if L.cfg.isFromPool (pteAddr (s.tables.snap va)) then
        Function.update (Function.update s.tables.ref page 1) (pteAddr (s.tables.snap va))
          (s.tables.ref (pteAddr (s.tables.snap va)) - 1)
      else Function.update s.tables.ref page 1 := by
  rw [h.ref, put_ref]
  simp only [Tables.copyInto, Function.update_of_ne (h.frame_ne hinv)]

theorem Moves.taken (hinv : Inv L s) : RefCounts.taken s page t' = true := by
  have hone : t'.ref page = 1 := by
    rw [h.ref_eq hinv]
    split
    · rw [Function.update_of_ne (h.frame_ne hinv).symm, Function.update_self]
    · rw [Function.update_self]
  simp [RefCounts.taken, (allocatable_iff.mp h.fresh).2.1, hone]

/-- The old frame is listed exactly when its last reference is dropped. -/
theorem Moves.listed (hinv : Inv L s) (rest : List Word) :
    (if s.tables.ref (pteAddr (s.tables.snap va)) ≠ 0 ∧ t'.ref (pteAddr (s.tables.snap va)) = 0 then
        pteAddr (s.tables.snap va) :: rest else rest) =
      if L.cfg.isFromPool (pteAddr (s.tables.snap va)) then
        Census.relisted (Function.update s.tables.ref page 1) (pteAddr (s.tables.snap va)) rest
      else rest := by
  have hne := h.frame_ne hinv
  rw [h.ref_eq hinv]
  split
  · rename_i hpool
    have hcount := hinv.census.counted _ hpool h.users_pos
    have hpos := h.users_pos
    rw [Function.update_self, Census.relisted, Function.update_of_ne hne]
    have hiff : (s.tables.ref (pteAddr (s.tables.snap va)) ≠ 0 ∧
        s.tables.ref (pteAddr (s.tables.snap va)) - 1 = 0) ↔
        s.tables.ref (pteAddr (s.tables.snap va)) = 1 := by omega
    simp only [hiff]
  · rw [Function.update_of_ne hne, if_neg (fun hc => hc.1 hc.2)]

/-- The counts are exact after the fault. -/
theorem Moves.census (hinv : Inv L s)
    (hpage : isBlockFrame L.cfg page = false) (hmem : page ∈ s.free) :
    Census.Exact (fun f => L.cfg.isFromPool f = true) (fun f => isBlockFrame L.cfg f = true)
      t'.ref (({ s with tables := t' } : State α).leaves L)
      (if L.cfg.isFromPool (pteAddr (s.tables.snap va)) then
        Census.relisted (Function.update s.tables.ref page 1) (pteAddr (s.tables.snap va))
          (s.free.erase page)
      else s.free.erase page) := by
  have hne := h.frame_ne hinv
  have htake := hinv.census.take hmem 1
  have hpage' : ¬ isBlockFrame L.cfg page = true := by simp [hpage]
  have hnone := h.page_unused hinv
  rw [h.ref_eq hinv]
  split
  · rename_i hpool
    have hsettle : Census.Exact _ _ _ (fun g => s.leaves L g + if g = page then 1 else 0) _ :=
      htake.settle hpage' (Function.update_self ..) hnone fun _ _ => rfl
    have hleave := hsettle.leave (f := pteAddr (s.tables.snap va)) hpool
      (Nat.add_pos_left h.users_pos _) fun g _ => h.leaves g
    rwa [Function.update_of_ne hne] at hleave
  · rename_i hpool
    refine htake.settle hpage' (Function.update_self ..) hnone fun g hg => ?_
    have hmove := h.leaves g
    have hgf : g ≠ pteAddr (s.tables.snap va) := by
      rintro rfl
      exact hpool hg
    rw [if_neg hgf, Nat.add_zero] at hmove
    exact hmove

theorem inv_moves (hinv : Inv L s) (hbuilt : s.phase = .built)
    (hpage : isBlockFrame L.cfg page = false)
    (hstep : s.afterFault page (pteAddr (s.tables.snap va)) t' = some s') : Inv L s' := by
  simp only [State.afterFault, h.taken hinv, Bool.true_and, if_true, h.listed hinv] at hstep
  split at hstep
  · cases hstep
  · rename_i hmem
    have hmem : page ∈ s.free := by simpa using hmem
    cases hstep
    refine ⟨h.census hinv hpage hmem, hinv.blocks, fun p hp => ?_, fun todo htodo => ?_⟩
    · have hold : ∀ p ∈ s.free.erase page, L.cfg.isFromPool p = true ∧ pteAddr p = p :=
        fun p hp => hinv.pages p (List.mem_of_mem_erase hp)
      dsimp only at hp
      split at hp
      · rename_i hpool
        unfold Census.relisted at hp
        split at hp
        · rcases List.mem_cons.mp hp with rfl | hp
          · exact ⟨hpool, pteAddr_pteAddr _⟩
          · exact hold p hp
        · exact hold p hp
      · exact hold p hp
    · dsimp only at htodo
      rw [hbuilt] at htodo
      cases htodo

end Moves

/-- A leaf whose entry changes its flags only stays on its frame. -/
theorem pteAddr_update {tbl : Va → Word} {va : Va} {w : Word} (hw : pteAddr w = pteAddr (tbl va))
    (v : Va) : pteAddr (Function.update tbl va w v) = pteAddr (tbl v) := by
  by_cases hv : v = va
  · rw [hv, Function.update_self, hw]
  · rw [Function.update_of_ne hv]

theorem inv_faultMain (hinv : Inv L s) {snapshotExists : Bool} {va : Va} {page : Word}
    {t' : Tables α} (hbuilt : s.phase = .built) (hva : va ∈ L.ordinary)
    (hpage : isBlockFrame L.cfg page = false)
    (hfault : pgfltMain L.cfg s.tables snapshotExists va page = some t')
    (hstep : s.afterFault page (pteAddr (s.tables.main va)) t' = some s') : Inv L s' := by
  cases pgfltMain_cases hfault with
  | ignored => exact inv_kept hinv hstep hbuilt rfl (fun _ => rfl) (fun _ => rfl)
  | owned | alone =>
    exact inv_kept hinv hstep hbuilt rfl (pteAddr_update (pteAddr_unlocked _)) (fun _ => rfl)
  | diverged =>
    refine inv_kept hinv hstep hbuilt rfl (pteAddr_update (pteAddr_unlocked _)) (pteAddr_update ?_)
    rw [pteAddr_diverged, pteAddr_locked]
  | copied _ _ hsame halloc =>
    rw [← hsame] at hstep
    refine inv_moves ⟨hva, halloc, ?_, ?_, ?_⟩ hinv hbuilt hpage hstep
    · intro v
      simp only [Tables.setMain, (put_parts _ _).1]
      exact pteAddr_update (pteAddr_unlocked _) v
    · refine ⟨_, ?_, (put_parts _ _).2.1⟩
      rw [pteAddr_installed]
      exact (allocatable_iff.mp halloc).2.2
    · simp only [Tables.setMain, put_ref, hsame]
      rfl

theorem inv_faultSnap (hinv : Inv L s) {va : Va} {page : Word} {t' : Tables α}
    (hbuilt : s.phase = .built) (hva : va ∈ L.ordinary) (hpage : isBlockFrame L.cfg page = false)
    (hfault : pgfltSnap L.cfg s.tables va page = some t')
    (hstep : s.afterFault page (pteAddr (s.tables.snap va)) t' = some s') : Inv L s' := by
  cases pgfltSnap_cases hfault with
  | ignored => exact inv_kept hinv hstep hbuilt rfl (fun _ => rfl) (fun _ => rfl)
  | owned =>
    exact inv_kept hinv hstep hbuilt rfl (fun _ => rfl) (pteAddr_update (pteAddr_unlocked _))
  | copied _ halloc =>
    refine inv_moves ⟨hva, halloc, ?_, ?_, ?_⟩ hinv hbuilt hpage hstep
    · intro v
      rw [(put_parts _ _).1]
      rfl
    · refine ⟨_, ?_, (put_parts _ _).2.1⟩
      rw [pteAddr_privateCopy]
      exact (allocatable_iff.mp halloc).2.2
    · rw [put_ref, put_ref]
      rfl

/-! ## Whole runs -/

theorem inv_step {l : Label} (hinv : Inv L s) (hok : copiesAvoidBlocks L l = true)
    (hstep : step L s l = some s') : Inv L s' := by
  cases l with
  | allocTable page =>
    simp only [step] at hstep
    split at hstep
    · split at hstep <;> cases hstep
      rename_i hmem
      exact inv_allocTable hinv (by simpa using hmem)
    · cases hstep
  | copyLeaf =>
    simp only [step] at hstep
    split at hstep
    · rename_i va rest hphase
      split at hstep <;> cases hstep
      · refine ⟨hinv.census, hinv.blocks, hinv.pages, fun todo htodo => ?_⟩
        cases htodo
        obtain ⟨hnodup, hahead⟩ := hinv.ahead _ hphase
        exact ⟨(List.nodup_cons.mp hnodup).2, fun v hv => hahead v (List.mem_cons_of_mem _ hv)⟩
      · exact inv_copyLeaf hinv hphase
    · cases hstep
  | finish =>
    simp only [step] at hstep
    split at hstep <;> cases hstep
    exact ⟨hinv.census, hinv.blocks, hinv.pages, fun _ htodo => by cases htodo⟩
  | faultMain snapshotExists va page =>
    simp only [step, Bool.and_eq_true, decide_eq_true_eq, List.contains_iff_mem] at hstep
    split at hstep
    · rename_i hcond
      obtain ⟨t', hfault, hstep⟩ := Option.bind_eq_some_iff.mp hstep
      exact inv_faultMain hinv hcond.1 hcond.2 (by simpa [copiesAvoidBlocks] using hok) hfault hstep
    · cases hstep
  | faultSnap va page =>
    simp only [step, Bool.and_eq_true, decide_eq_true_eq, List.contains_iff_mem] at hstep
    split at hstep
    · rename_i hcond
      obtain ⟨t', hfault, hstep⟩ := Option.bind_eq_some_iff.mp hstep
      exact inv_faultSnap hinv hcond.1 hcond.2 (by simpa [copiesAvoidBlocks] using hok) hfault hstep
    · cases hstep

theorem inv_runsTo (h : (system L).RunsTo (fun _ l => copiesAvoidBlocks L l = true) s) : Inv L s :=
  System.invariant_when (fun _ => inv_init) (fun _ _ _ => inv_step) h

/-- **Copy-on-write keeps reference counts exact**: the count of every pool
    frame behind an ordinary leaf of the old or of a new table is the number
    of these leaves, and the frame is on no free list. -/
theorem counts_exact (L : Layout) {s : State α}
    (h : (system L).RunsTo (fun _ l => copiesAvoidBlocks L l = true) s) (f : Word)
    (hpool : L.cfg.isFromPool f = true) (hmapped : 0 < s.leaves L f) :
    s.tables.ref f = s.leaves L f ∧ f ∉ s.free :=
  ⟨(inv_runsTo h).census.counted f hpool hmapped,
    (inv_runsTo h).census.not_listed hpool hmapped⟩

/-- Two application pages, and the pool's mapping of its first block. -/
def twoPages : Layout where
  cfg := { vas := [0x1000#64, 0x2000#64], numPages := 1024, snapshotExists := true,
           selective := true }
  regions := ⟨0xffff800000100000, 0, 0⟩
  leaves := [0x1000#64, 0x2000#64, 0x100000000#64]
  distinct := by decide

/-- The table before the clone. The first page of the second block is free. -/
def beforeClone : State Nat where
  old va := if va = 0x1000#64 then 0x100001067#64 else if va = 0x2000#64 then 0x100002067#64
    else if va = 0x100000000#64 then 0x1000000e3#64 else 0#64
  tables := {
    main := fun _ => 0#64
    snap := fun _ => 0#64
    ref := fun f => if f = 0x100001000#64 ∨ f = 0x100002000#64 then 1 else 0
    mem := fun _ => 7 }
  free := [0x100200000#64, 0x100003000#64, 0x100004000#64, 0x100005000#64]
  phase := .walking twoPages.leaves

theorem mapped_beforeClone (f : Word) :
    twoPages.mapped beforeClone.old f =
      if f = 0x100001000#64 ∨ f = 0x100002000#64 then 1 else 0 := by
  have hord : twoPages.ordinary = [0x1000#64, 0x2000#64] := by decide
  have h1 : pteAddr (beforeClone.old 0x1000#64) = 0x100001000#64 := by decide
  have h2 : pteAddr (beforeClone.old 0x2000#64) = 0x100002000#64 := by decide
  simp only [Layout.mapped, hord, List.countP_cons, List.countP_nil, h1, h2, beq_iff_eq]
  by_cases hf1 : f = 0x100001000#64
  · subst hf1
    decide
  · by_cases hf2 : f = 0x100002000#64
    · subst hf2
      decide
    · simp [hf1, hf2, Ne.symm hf1, Ne.symm hf2]

theorem init_beforeClone : Init twoPages beforeClone where
  phase := rfl
  main := rfl
  snap := rfl
  blocks := fun va hva _ _ => by
    simp only [twoPages, List.mem_cons, List.not_mem_nil, or_false] at hva
    rcases hva with rfl | rfl | rfl
    · contradiction
    · contradiction
    · decide
  counted := fun f _ _ => by
    rw [mapped_beforeClone]
    rfl
  regular := fun f _ hmapped => by
    by_cases hf : f = 0x100001000#64 ∨ f = 0x100002000#64
    · rcases hf with rfl | rfl <;> decide
    · rw [mapped_beforeClone, if_neg hf] at hmapped
      omega
  pages := fun p hp => by
    simp only [beforeClone, List.mem_cons, List.not_mem_nil, or_false] at hp
    rcases hp with rfl | rfl | rfl | rfl <;> decide
  unused := fun p hp _ => by
    simp only [beforeClone, List.mem_cons, List.not_mem_nil, or_false] at hp
    rcases hp with rfl | rfl | rfl | rfl <;> decide
  once := fun p _ => by
    have hnodup : beforeClone.free.Nodup := by decide
    exact List.nodup_iff_count_le_one.mp hnodup p

/-- A clone and a fault on each side: the page of the first fault has one leaf,
    the frame it was copied from two. -/
theorem counts_exact_two : ∃ s : State Nat,
    (system twoPages).RunsTo (fun _ l => copiesAvoidBlocks twoPages l = true) s ∧
    (s.tables.ref 0x100004000#64 = s.leaves twoPages 0x100004000#64 ∧ 0x100004000#64 ∉ s.free) ∧
    s.tables.ref 0x100001000#64 = s.leaves twoPages 0x100001000#64 ∧ 0x100001000#64 ∉ s.free := by
  obtain ⟨s, hrun, hend⟩ := (system twoPages).exists_runsTo
    (fun _ l => copiesAvoidBlocks twoPages l) (s := beforeClone) init_beforeClone
    [.allocTable 0x100200000#64, .allocTable 0x100003000#64, .copyLeaf, .copyLeaf, .copyLeaf,
      .finish, .faultMain true 0x1000#64 0x100004000#64, .faultSnap 0x2000#64 0x100005000#64]
    (fun s => s.leaves twoPages 0x100004000#64 = 1 ∧ s.leaves twoPages 0x100001000#64 = 2)
    (by decide +kernel)
  exact ⟨s, hrun, counts_exact twoPages hrun _ (by decide) (by omega),
    counts_exact twoPages hrun _ (by decide) (by omega)⟩

end RefCounts
