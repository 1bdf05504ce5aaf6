import Libdbos.Libdune.Lookup

/-! # The Default Handler for Copy-on-Write

    `dune_vm_default_pgflt_handler` makes a page writable after a write to it has
    faulted. A page of the pool with one reference is used as it is; otherwise the
    page is copied to a new one, and a reference to the old one is dropped.

    The handler begins with an assertion that the fault was not one of a page
    that is present, but pages under copy-on-write are present: the processor
    reports `FEC_P` for each of them, so that no such fault is resolved
    (`cow_fault_asserts`).

    Pages of data are rows of memory like tables. The window through which the
    library reaches the pages of the pool maps all of them, tables and free ones
    included; nothing is asked of its addresses (`Ordinary`).
-/

namespace Dune.CowHandler

open Pte Radix Sweep

section

variable {σ : Type}

/-! ## The handler -/

def fecP : Word := 0x1#64
def fecW : Word := 0x2#64
def fecU : Word := 0x4#64
def fecRsv : Word := 0x8#64

/-- The page of memory that the processor finds for page `a`. -/
def frameOf (mem : Mem Word) (root a : Nat) : Option Nat :=
  match leafOf mem root a with
  | some (n, w) => if isP w then some (tableOf w + a % 512 ^ n * 4096) else none
  | none => none

/-- The permissions without copy-on-write. -/
def cowPerm (w : Word) : Word := (pteFlags w &&& ~~~pteCow) ||| pteW

/-- The copy of page `a`, whose entry is `i` of table `t`. The bytes are read through the
    page table. -/
def duplicate (root a t i : Nat) (s : Vm σ) : Vm σ × Ret :=
  let w := s.mem t i
  match pageAlloc s.pool, frameOf s.mem root a with
  | (pool, some pg), some frame =>
      ({ s with
        pool := if pageIsfrompool (tableOf w) then pagePut pool (pa2page (tableOf w)) else pool
        mem := write (Function.update s.mem (page2pa pg) (s.mem frame)) t i
          (pteAddr (BitVec.ofNat 64 (page2pa pg)) ||| cowPerm w) }, .ok)
  -- the bytes are copied to address 0
  | (pool, _), _ => ({ s with pool := pool }, .abort)

/-- The function `dune_vm_default_pgflt_handler`. -/
def pgfltHandler (root addr : Nat) (fec : Word) (s : Vm σ) : Vm σ × Ret :=
  if Word.has fec (fecP ||| fecRsv) then (s, .abort)
  else
    match vmLookup root addr false s with
    | (s, .entry t i) =>
        let w := s.mem t i
        if Word.has fec fecW && isCow w then
          if pageIsfrompool (tableOf w) && s.pool.ref (pa2page (tableOf w)) == 1#64 then
            ({ s with mem := write s.mem t i (pteAddr w ||| cowPerm w) }, .ok)
          else duplicate root (addr / 4096) t i s
        else (s, .ok)
    | (s, _) => (s, .abort)

/-! ## Faults on pages under copy-on-write -/

/-- The error code that the processor reports for a write to a page with the entry `w`. -/
def writeFec (w : Word) (user : Bool) : Word :=
  (if isP w then fecP else 0#64) ||| fecW ||| (if user then fecU else 0#64)

/-- Page `a` has a present leaf of level `n` under copy-on-write, which is not writable. -/
structure CowLeaf (mem : Mem Word) (root a n : Nat) (w : Word) : Prop where
  leaf : leafOf mem root a = some (n, w)
  present : isP w = true
  cow : isCow w = true
  readOnly : isW w = false

/-- A page of the guest's addresses that is not in the window on the pool. -/
def Ordinary (a : Nat) : Prop :=
  a < 2 ^ 36 ∧ ¬(pageBase / 4096 ≤ a ∧ a < pageBase / 4096 + maxPages)

/-- The fault of page `a` of table `root`, which was mapped to `old`, is resolved: it is mapped
    to page `new` now. -/
structure Resolved (roots : List Nat) (root a old : Nat) (s s' : Vm σ) (new : Nat) : Prop where
  writable : ∃ n w, leafOf s'.mem root a = some (n, w) ∧ isP w = true ∧ isW w = true
  frame : frameOf s'.mem root a = some new
  contents : s'.mem new = s.mem old
  /-- The bytes of all other pages are as before. -/
  others : ∀ r ∈ roots, ∀ a', Ordinary a' → (r ≠ root ∨ a' ≠ a) → ∀ f,
    frameOf s.mem r a' = some f → ∃ f', frameOf s'.mem r a' = some f' ∧ s'.mem f' = s.mem f
  /-- No other table sees what is written to this page from now on. -/
  alone : ∀ r ∈ roots, r ≠ root → ∀ a', Ordinary a' → frameOf s'.mem r a' ≠ some new
  /-- The old page loses a reference exactly with a copy. -/
  dropped : pageIsfrompool old = true → s'.pool.ref (pa2page old) =
    if new = old then s.pool.ref (pa2page old) else s.pool.ref (pa2page old) - 1#64

/-- The handler returns, and the fault is resolved. -/
def Resolves (roots : List Nat) (root addr : Nat) (fec : Word) (s : Vm σ) : Prop :=
  ∃ s' old new, pgfltHandler root addr fec s = (s', .ok) ∧
    frameOf s.mem root (addr / 4096) = some old ∧
    Resolved roots root (addr / 4096) old s s' new

/-- The code of a fault on a present page does not pass the assertion. -/
theorem writeFec_present {w : Word} (h : isP w = true) (user : Bool) :
    Word.has (writeFec w user) (fecP ||| fecRsv) = true := by
  rw [writeFec, if_pos h]
  cases user <;> decide

/-- **No fault is resolved**: for all tables, every present leaf of any size under
    copy-on-write and the error code of a write to it, the handler fails its assertion. -/
theorem cow_fault_asserts (roots : List Nat) (s : Vm σ) (root addr n : Nat) (w : Word)
    (hleaf : CowLeaf s.mem root (addr / 4096) n w) (user : Bool) :
    ¬ Resolves roots root addr (writeFec w user) s := by
  rintro ⟨s', old, new, hreturns, -, -⟩
  rw [pgfltHandler, if_pos (writeFec_present hleaf.present user)] at hreturns
  cases hreturns

end

/-! ## A table with one page under copy-on-write -/

/-- Page 5 is mapped to address 0x8000, outside the pool. -/
def cowVm : Vm Unit := (mapPhys 0x1000 0x5000 0x1000 0x8000 (permR ||| permCow) bootVm).1

/-- Its entry: present, under copy-on-write and not executable. -/
def cowEntry : Word := 0x8000000000008201#64

/-- A write by the user to page 5. -/
theorem cow_fault_asserts_page : CowLeaf cowVm.mem 0x1000 5 0 cowEntry ∧
    ¬ Resolves [0x1000] 0x1000 0x5123 7#64 cowVm :=
  have hleaf : CowLeaf cowVm.mem 0x1000 5 0 cowEntry :=
    ⟨by decide +kernel, by decide, by decide, by decide⟩
  ⟨hleaf, cow_fault_asserts [0x1000] cowVm 0x1000 0x5123 0 cowEntry hleaf true⟩

/-- The machine with one large page under copy-on-write, from address 0 on. -/
def largeCowVm : Vm Unit := (mapPhys 0x1000 0 0x200000 0 (permR ||| permCow ||| permBig) bootVm).1

/-- The handler fails its assertion with the code that the processor reports for a write by
    the user to a present page. If it passes, a fault on page 5 of a large page moves page 6
    as well, to bytes that have not been copied. -/
theorem handler_asserts :
    (leafOf cowVm.mem 0x1000 5 = some (0, cowEntry) ∧ isP cowEntry = true ∧
      isCow cowEntry = true ∧ isW cowEntry = false ∧
      (pgfltHandler 0x1000 0x5123 7#64 cowVm).2 = .abort) ∧
    frameOf largeCowVm.mem 0x1000 6 = some 0x6000 ∧
    (pgfltHandler 0x1000 0x5123 6#64 largeCowVm).2 = .ok ∧
    frameOf (pgfltHandler 0x1000 0x5123 6#64 largeCowVm).1.mem 0x1000 6 =
      some (page2pa 2 + 0x6000) := by
  decide +kernel

end Dune.CowHandler
