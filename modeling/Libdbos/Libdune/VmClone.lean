import Libdbos.Libdune.Mprotect

/-! # The Other Calls on Page Tables

    `dune_vm_clone` of `libdune/vm.c`: a walk over all leaves of a table maps
    each of them into a new one, by a walk of its own, and takes a reference
    on its frame. `dune_vm_free` takes the new table down again.
    `dune_vm_map_pages` maps new pages, and `dune_vm_unmap` drops the reference
    on each page that it removes.
-/

namespace Dune

open Pte Radix Sweep

section

variable {σ : Type}

def pgsize (level : Nat) : Nat := 4096 * 512 ^ level

/-- The assertions of `__dune_vm_clone_helper` on the level of an entry. -/
def cloneAsserts : Nat → Word → Bool
  | 0, w => !pteBig w
  | 1, w => pteBig w
  | 2, w => pteBig w
  | _, _ => false

def createPerm : Nat → Word
  | 0 => 0#64
  | 1 => permBig
  | _ => permBig1gb

/-- The function `__dune_vm_clone_helper`. -/
def cloneHelper (newRoot : Nat) : Callback σ := fun dir i va level s =>
  let pte := s.mem dir i
  if cloneAsserts level pte then
    let r := mapPhysWithPteFlags newRoot va (pgsize level) (tableOf pte) (pteFlags pte)
      (createPerm level) s
    if r.2 = .ok then
      if pageIsfrompool (tableOf (r.1.mem dir i)) then
        ({ r.1 with pool := pageGet r.1.pool (pa2page (tableOf pte)) }, .ok)
      else r
    else r
  else (s, .abort)

/-- The function `__dune_vm_free_helper`. -/
def freeHelper : Callback σ := fun dir i _ _ s =>
  let pte := s.mem dir i
  ({ s with
    pool := if pageIsfrompool (tableOf pte) then pagePut s.pool (pa2page (tableOf pte)) else s.pool
    mem := write s.mem dir i 0#64 }, .ok)

def vaEnd : Nat := 2 ^ 64 - 1

/-- The function `put_page`, with the assertion of `dune_page_put`. -/
def putPage (page : Nat) (s : Vm σ) : Vm σ × Ret :=
  if pageIsfrompool page then ({ s with pool := pagePut s.pool (pa2page page) }, .ok)
  else (s, .abort)

/-- The machine after a call whose result is ignored. -/
def after (r : Vm σ × Ret) : Vm σ := r.1

/-- The function `dune_vm_free`: the walks take the root for a table of level 3,
    then of level 2 and then of level 1. -/
def vmFree (root : Nat) (s : Vm σ) : Vm σ × Ret :=
  let s := after (pageWalk freeHelper .none 3 root 0 vaEnd s)
  let s := after (pageWalk freeHelper .none 2 root 0 vaEnd s)
  let s := after (pageWalk freeHelper .none 1 root 0 vaEnd s)
  putPage root s

/-- The function `dune_vm_unmap`. -/
def vmUnmap (root va len : Nat) (s : Vm σ) : Vm σ :=
  after (pageWalk freeHelper .none 3 root va (lastVa va len) s)

/-- What a clone returns. -/
inductive NewRoot where
  | root (page : Nat)
  | null
  | abort
  deriving DecidableEq, Repr

/-- The function `dune_vm_clone`. A new root that is null is written to. -/
def vmClone (root : Nat) (s : Vm σ) : Vm σ × NewRoot :=
  match allocZeroed s with
  | (s, none) => (s, .abort)
  | (s, some newRoot) =>
      match vmPageWalk (cloneHelper newRoot) root 0 vaEnd s with
      | (s, .abort) => (s, .abort)
      | (s, .code ret) =>
          if ret < 0 then
            match vmFree newRoot s with
            | (s, .code _) => (s, .null)
            | (s, .abort) => (s, .abort)
          else (s, .root newRoot)

/-! ### Calls that change a table -/

/-- The function `__dune_vm_map_pages_helper`. -/
def mapPagesHelper (perm : Word) : Callback σ := fun dir i _ _ s =>
  match pageAlloc s.pool with
  | (pool, none) => ({ s with pool := pool }, enomem)
  | (pool, some pg) =>
      ({ s with
        pool := pool
        mem := write s.mem dir i (pteAddr (BitVec.ofNat 64 (page2pa pg)) ||| perm) }, .ok)

/-- The function `dune_vm_map_pages`. -/
def mapPages (root va len : Nat) (perm : Word) (s : Vm σ) : Vm σ × Ret :=
  if Word.has perm permR = false ∧ perm &&& ~~~permR ≠ 0#64 then (s, einval)
  else pageWalk (mapPagesHelper (getPtePerm perm)) .normal 3 root va (lastVa va len) s

/-- The calls that change a table. -/
inductive VmOp where
  | mapPhys (va len pa : Nat) (perm : Word)
  | mapPages (va len : Nat) (perm : Word)
  | unmap (va len : Nat)
  | mprotect (va len : Nat) (perm : Word)

def VmOp.run (root : Nat) : VmOp → Vm σ → Vm σ
  | .mapPhys va len pa perm, s => after (Dune.mapPhys root va len pa perm s)
  | .mapPages va len perm, s => after (Dune.mapPages root va len perm s)
  | .unmap va len, s => vmUnmap root va len s
  | .mprotect va len perm, s => after (Dune.mprotect root va len perm s)

end

end Dune
