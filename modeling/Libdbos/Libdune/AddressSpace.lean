import Libdbos.Libdune.VmClone

/-! # Page Tables as Address Spaces

    What the calls of `libdune/vm.c` are for: a table stands for a map from the
    pages of a block of 2^48 bytes to leaves, of any page size, and each call
    changes the map page by page as `VmOp.onLeaf` says, whatever calls came
    before (`calls_refine`). Left out are calls that take frames from the pool
    (`dune_vm_map_pages`) or give frames back to it.
-/

namespace Dune

open Pte Radix Sweep

variable {σ : Type} {b root va len : Nat} {s : Vm σ}

/-- The entry that `dune_vm_map_phys` makes for page `p`. -/
def physEntry (va pa : Nat) (perm : Word) (p : Nat) : Word :=
  (MapPhysData.mk (getPtePerm perm) (BitVec.ofNat 64 va) (BitVec.ofNat 64 pa) 0).entry (4096 * p)

/-- What a call makes of the leaf of page `p`. -/
def VmOp.onLeaf (p : Nat) (leaf : Option (Nat × Word)) : VmOp → Option (Nat × Word)
  | .mapPhys va len pa perm =>
      let k := (createOf perm).level
      if unitOf k (va / 4096) ≤ p ∧ p < unitAfter k ((va + len - 1) / 4096) then
        leafWord k (physEntry va pa perm (unitOf k p))
      else leaf
  | .unmap va len => rewritten (fun _ _ => 0#64) va (va + len - 1) p leaf
  | .mprotect va len perm =>
      -- rights to write without rights to read are refused
      if !Word.has perm permR && Word.has perm permW then leaf else
        rewritten (fun _ => protectWord (getPtePerm (effective perm))) va (va + len - 1) p leaf
  | .mapPages _ _ _ => leaf

/-- The range is in block `b`; a mapping succeeds and meets no larger leaf; what
    is unmapped is not of the pool. -/
def VmOp.Fits (b root : Nat) (s : Vm σ) : VmOp → Prop
  | .mapPhys va len pa perm => InBlock va len ∧ va / 2 ^ 48 = b ∧
      (Dune.mapPhys root va len pa perm s).2 = .ok ∧
      ∀ p l e, unitOf (createOf perm).level (va / 4096) ≤ p → p ≤ (va + len - 1) / 4096 →
        leafOf s.mem root p = some (l, e) → l ≤ (createOf perm).level
  | .unmap va len => InBlock va len ∧ va / 2 ^ 48 = b ∧ (vmUnmap root va len s).pool = s.pool
  | .mprotect va len _ => InBlock va len ∧ va / 2 ^ 48 = b
  | .mapPages _ _ _ => False

/-- Every call fits when it is made. -/
def AllFit (b root : Nat) : List VmOp → Vm σ → Prop
  | [], _ => True
  | op :: ops, s => op.Fits b root s ∧ AllFit b root ops (op.run root s)

/-- The table is well formed, and the leaves of block `b` are the old ones, changed by `g`. -/
def Refines (b root : Nat) (g : Nat → Option (Nat × Word) → Option (Nat × Word))
    (s s' : Vm σ) : Prop :=
  WellFormed root s' ∧ ∀ p, p / 2 ^ 36 = b → leafOf s'.mem root p = g p (leafOf s.mem root p)

/-- A walk that rewrites leaves and leaves the pool alone. -/
theorem walk_refines {cb : Callback σ} {f : Nat → Word → Word} (hcb : Rewrites cb f)
    (hkind : ∀ k w c, shape.kind k w = .leaf → shape.kind k (f k w) ≠ .table c)
    (hwf : WellFormed root s) (hrange : InBlock va len) (hb : va / 2 ^ 48 = b)
    (hpool : (vmPageWalk cb root va (lastVa va len) s).1.pool = s.pool) :
    Refines b root (rewritten f va (va + len - 1)) s
      (vmPageWalk cb root va (lastVa va len) s).1 := by
  have hwalk := hrange.walkRange
  rw [hrange.lastVa_eq] at hpool ⊢
  obtain ⟨_, hleaf, hcount⟩ := hcb.walk hkind hwf.tree hwalk
  -- The tables are the old ones, since no leaf becomes a table, and so are the free pages.
  refine ⟨⟨?_, ?_, ?_, ?_⟩, fun p hp => hleaf p (by unfold SameBlock; omega)⟩
  · exact fun p => (hcount p).trans_le (hwf.tree p)
  · rw [hpool]
    exact fun pg hpg => (hcount _).trans (hwf.apart pg hpg)
  · rw [hpool]
    exact hwf.nodup
  · rw [hpool]
    exact hwf.inPool

/-- Each call does to the leaves what the abstract call does. -/
theorem VmOp.step (op : VmOp) (hwf : WellFormed root s) (hfits : op.Fits b root s) :
    Refines b root (fun p leaf => op.onLeaf p leaf) s (op.run root s) := by
  cases op with
  | mapPhys va len pa perm =>
    obtain ⟨hrange, hb, hok, hlarge⟩ := hfits
    have hcreate : createOf perm ≠ .none := by
      unfold createOf
      grind
    have hmaps := @mapWalk_maps _ (getPtePerm perm) _ root va len pa s hcreate hwf hrange
      (physEntry va pa perm) (fun _ => rfl) (fun a => entry_not_table _ rfl (4096 * a)) hlarge
    obtain ⟨hwf', hleaf⟩ := hmaps.good hok
    have hsame := hrange.sameBlock (createOf perm)
    have hblock := hrange.block
    unfold SameBlock at hsame
    simp only [VmOp.run, Dune.mapPhys, after, VmOp.onLeaf]
    exact ⟨hwf', fun p hp => hleaf p (by unfold SameBlock; omega)⟩
  | unmap va len =>
    obtain ⟨hrange, hb, hpool⟩ := hfits
    simp only [VmOp.run, VmOp.onLeaf]
    rw [vmUnmap, after, ← vmPageWalk] at hpool ⊢
    have hcb : Rewrites (σ := σ) freeHelper fun _ _ => 0#64 := fun _ _ _ _ _ => ⟨rfl, rfl⟩
    exact walk_refines hcb (fun k _ c _ => by simp [zero_kind]) hwf hrange hb hpool
  | mprotect va len perm =>
    obtain ⟨hrange, hb⟩ := hfits
    have hne := getPtePerm_effective_ne_zero perm
    have hcb := mprotectHelper_rewrites (σ := σ) (getPtePerm (effective perm))
    simp only [VmOp.run, Dune.mprotect, after, VmOp.onLeaf]
    split
    · exact ⟨hwf, fun _ _ => rfl⟩
    · apply walk_refines hcb (fun k w c h => by simp [protectWord_leaf hne h]) hwf hrange hb
      rw [hrange.lastVa_eq, hcb.may.walk_eq hwf.tree hrange.walkRange]
      -- the helper writes the entry and nothing else
      exact @sweep_invariant _ _ Ret _ .ok (visit (mprotectHelper _)) _ (·.pool = s.pool)
        (fun _ _ _ h => h) s rfl
  | mapPages => exact hfits.elim

/-- **A page table is an address space**: after any calls that fit, the leaf of
    a page is what the calls make of its old leaf, one after the other. -/
theorem calls_refine (ops : List VmOp) : ∀ s : Vm σ, WellFormed root s → AllFit b root ops s →
    Refines b root (fun p leaf => ops.foldl (VmOp.onLeaf p) leaf) s
      (ops.foldl (fun s op => op.run root s) s) := by
  -- `VmOp.onLeaf` looks at one page only, so that the leaf of each page has a history of its own.
  induction ops with
  | nil => exact fun _ hwf _ => ⟨hwf, fun _ _ => rfl⟩
  | cons op ops ih =>
    intro s hwf hfit
    obtain ⟨hwf', hleaf⟩ := op.step hwf hfit.1
    obtain ⟨hend, hleaf'⟩ := ih _ hwf' hfit.2
    refine ⟨hend, fun p hp => ?_⟩
    rw [List.foldl_cons, hleaf' p hp, hleaf p hp]
    rfl

/-- Two pages are mapped, one is unmapped again, and the other one loses its rights. -/
def bootCalls : List VmOp :=
  [.mapPhys 0x5000 0x2000 0x8000 permR, .unmap 0x5000 0x1000, .mprotect 0x6000 0x1000 0#64]

theorem calls_refine_boot :
    WellFormed 0x1000 (bootCalls.foldl (fun s op => op.run 0x1000 s) bootVm) := by
  refine (calls_refine (b := 0) bootCalls _ bootVm_wellFormed
    ⟨⟨⟨by decide, by decide, rfl⟩, rfl, by decide +kernel, ?_⟩,
      ⟨⟨by decide, by decide, rfl⟩, rfl, rfl⟩, ⟨⟨by decide, by decide, rfl⟩, rfl⟩, trivial⟩).1
  intro p l e _ _ hleaf
  rw [leafOf_blank rfl] at hleaf
  cases hleaf

end Dune
