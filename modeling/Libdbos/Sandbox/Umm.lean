import Libdbos.Framework.System
import Libdbos.Libdune.PageVisits
import Libdbos.Libdune.VaToPa

/-! # Memory Calls of the Sandbox

    The sandbox runs an untrusted program in the same address space as its
    monitor. The program may use two windows: `[0, APP_MAX_ELF_VADDR)` for
    the executable, and `APP_MMAP_LEN` bytes from `mmap_base` on.
    `mem_ref_is_safe` checks a range of addresses against them, and the
    functions of `umm.c` serve the program's memory calls.

    Every call changes two things, the process's mappings in the host kernel
    and the guest page table. A call is modelled by its result, the new
    values of `brk_len` and `mmap_len`, and the list of its changes.
    What the host answers is open, up to what it never accepts: a range that
    is not aligned or that leaves the user addresses.
-/

open LTS

namespace Sandbox

open Dune

/-! ## Windows -/

def appMaxElfVaddr : Word := 0x70000000#64

def appMmapBaseOff : Word := 0x200000000#64

def appMmapLen : Word := 0x200000000#64

def appStackSize : Word := 0x800000#64

/-- A user process: `mmap_base` is what the kernel reports, a whole gigabyte with
    room for the window below the end of the user addresses. -/
structure Process where
  layout : DuneLayout
  aligned : layout.baseMap.toNat % 2 ^ 30 = 0
  user : layout.baseMap.toNat + 2 ^ 33 < 2 ^ 47

/-- The process that the kernel module describes to the library. -/
def Process.ofLayout (l : Ept.Layout) : Process where
  layout := getLayout l.toMm
  aligned := l.toMm.mmapStart_mod
  user := by
    obtain ⟨habove, hbelow, _⟩ := l.windows
    have hbase : (getLayout l.toMm).baseMap = l.toMm.mmapStart := rfl
    rw [hbase]
    omega

/-- The variable `mmap_base`. -/
def Process.mmapBase (p : Process) : Word := p.layout.baseMap

/-- The addresses the program may use. -/
def Process.inWindows (p : Process) (a : Nat) : Bool :=
  decide (a < 0x70000000) ||
    decide (p.mmapBase.toNat ≤ a ∧ a < p.mmapBase.toNat + 0x200000000)

section

variable (p : Process)

/-- Do the bytes from `ptr` on belong to the program? -/
def memRefIsSafe (ptr len : Word) : Bool :=
  let first := ptr
  let last := ptr + len
  if len ≤ appMaxElfVaddr ∧ 0#64 ≤ first ∧ last ≤ appMaxElfVaddr then true
  else if len ≤ appMmapLen ∧ p.mmapBase ≤ first ∧ last < p.mmapBase + appMmapLen then true
  else false

/-! ## Pages -/

/-- The macro `PGOFF`. -/
def pgOff (la : Word) : Word := la &&& 0xfff#64

/-- The macro `BIG_PGADDR`. -/
def bigPgAddr (la : Word) : Word := la &&& ~~~0x1fffff#64

/-- A length in whole pages. -/
def pgRound (len : Word) : Word := pgAddr (len + 0x1000#64 - 1#64)

/-- A length in whole large pages. -/
def bigPgRound (len : Word) : Word := bigPgAddr (len + 0x200000#64 - 1#64)

/-! ## Changes -/

/-- Permissions of the guest page table, `PERM_R` and so on. -/
structure Perm where
  r : Bool
  w : Bool
  x : Bool
  u : Bool
  deriving DecidableEq, Repr

/-- The bits `PROT_READ`, `PROT_WRITE` and `PROT_EXEC`. -/
def protToPerm (prot : Word) : Perm where
  r := Word.has prot 1#64
  w := Word.has prot 2#64
  x := Word.has prot 4#64
  u := true

/-- A change of the process's mappings. -/
inductive Change where
  /-- The host maps, unmaps or protects a range. -/
  | host (addr len : Word)
  /-- The function `dune_vm_map_phys`. -/
  | mapPhys (va len pa : Word) (perm : Perm)
  /-- The function `dune_vm_unmap`. -/
  | unmap (va len : Word)
  /-- The function `dune_vm_mprotect`. -/
  | mprotect (va len : Word) (perm : Perm)
  deriving DecidableEq, Repr

/-- Whether the walk of `__dune_vm_page_walk` over the `len` bytes from `va` on calls back for
    the entry that maps address `a`. `level a` is the level of this entry: 0 for a page, 1 for
    a leaf of 2 MB. The empty range at address 0 ends with the last address. -/
def guestMeets (level : Nat → Nat) (va len : Word) (a : Nat) : Bool :=
  leafMeets va.toNat (va + len - 1#64).toNat (level a) (a / 4096)

/-- Whether a change can affect the mapping of address `a`. -/
def Change.affects (level : Nat → Nat) (a : Nat) : Change → Bool
  | .host addr len => decide (addr.toNat ≤ a ∧ a < addr.toNat + (len.toNat + 4095) / 4096 * 4096)
  | .mapPhys va len _ _ | .unmap va len | .mprotect va len _ => guestMeets level va len a

/-! ## The host -/

/-- What the environment decides in a call: whether its first and its
    second system call succeed, and whether `dune_vm_map_phys` does. -/
structure Answers where
  host : Bool
  again : Bool
  vm : Bool
  deriving DecidableEq, Repr

/-- A range of user addresses, in whole pages. -/
def inUserSpace (addr len : Word) : Bool :=
  decide (addr.toNat % 4096 = 0) &&
    decide (addr.toNat + (len.toNat + 4095) / 4096 * 4096 ≤ 0x7ffffffff000)

/-- The host changes mappings of such ranges only, and not of empty ones. -/
def hostAccepts (addr len : Word) : Bool := inUserSpace addr len && len != 0#64

/-- What a system call that fails may have changed. -/
def attempt (addr len : Word) : List Change :=
  if hostAccepts addr len then [.host addr len] else []

/-! ## The calls -/

inductive Err where
  | einval
  | enomem
  | eacces
  /-- The error of the host. -/
  | errno
  /-- The error of `dune_vm_map_phys`. -/
  | vm
  /-- A failed assertion, or `exit`. -/
  | abort
  deriving DecidableEq, Repr

structure Umm where
  brkLen : Word
  mmapLen : Word
  deriving DecidableEq, Repr

structure Outcome where
  ret : Except Err Word
  umm : Umm
  changes : List Change

variable (s : Umm) (ans : Answers)

def ummSpaceLeft (len : Word) : Bool := decide (s.brkLen + s.mmapLen + len < appMmapLen)

def ummGetMapPos : Word := p.mmapBase + appMmapBaseOff - s.mmapLen

/-- The way to a new mapping that all calls share: a system call with a fixed
    address, then `dune_vm_map_phys`, whose failure takes the mapping back.
    A system call that fails leaves the changes `failed`. -/
def mapHostAndGuest (addr len : Word) (perm : Perm) (failed : List Change) :
    Except Err Unit × List Change :=
  if ans.host && hostAccepts addr len then
    let done : List Change := [.host addr len, .mapPhys addr len (vaToPa p.layout addr) perm]
    if ans.vm then (.ok (), done) else (.error .vm, done ++ [.host addr len])
  else (.error .errno, failed)

def ummMmapAnom (addr len prot : Word) : Except Err Unit × List Change :=
  mapHostAndGuest p ans addr len (protToPerm prot) (attempt addr len)

def ummMmapFile (addr len prot : Word) : Except Err Unit × List Change :=
  mapHostAndGuest p ans addr len (protToPerm prot) (attempt addr len)

def protRead : Word := 1#64

def protWrite : Word := 2#64

def ummBrk (brk : Word) : Outcome :=
  if brk = 0#64 then ⟨.ok p.mmapBase, s, []⟩
  else if brk < p.mmapBase then ⟨.error .einval, s, []⟩
  else
    let len := pgRound (brk - p.mmapBase)
    if !ummSpaceLeft s len then ⟨.error .enomem, s, []⟩
    else if len = s.brkLen then ⟨.ok brk, s, []⟩
    else if len < s.brkLen then
      let addr := p.mmapBase + len
      if ans.host && hostAccepts addr (s.brkLen - len) then
        ⟨.ok brk, { s with brkLen := len },
          [.host addr (s.brkLen - len), .unmap addr (s.brkLen - len)]⟩
      else ⟨.error .errno, s, attempt addr (s.brkLen - len)⟩
    else
      match ummMmapAnom p ans (p.mmapBase + s.brkLen) (len - s.brkLen) (protRead ||| protWrite) with
      | (.ok _, changes) => ⟨.ok brk, { s with brkLen := len }, changes⟩
      | (.error e, changes) => ⟨.error e, s, changes⟩

/-- The end of a call that maps `len` bytes at `addr`, which the call has
    chosen itself if `adjust` is set. -/
def mapped (addr len : Word) (adjust : Bool) (r : Except Err Unit × List Change) : Outcome :=
  match r with
  | (.ok _, changes) =>
      ⟨.ok addr, if adjust then { s with mmapLen := s.mmapLen + pgRound len } else s, changes⟩
  | (.error e, changes) => ⟨.error e, s, changes⟩

/-- The address of a call that may leave it open. -/
def ummPlace (addr len : Word) : Except Err (Word × Bool) :=
  if addr = 0#64 then
    if !ummSpaceLeft s len then .error .enomem
    else .ok (ummGetMapPos p s - pgRound len, true)
  else if !memRefIsSafe p addr len then .error .einval
  else .ok (addr, false)

def mapAnonymous : Word := 0x20#64

def ummMmap (addr len prot flags : Word) (fd : Int) : Outcome :=
  match ummPlace p s addr len with
  | .error e => ⟨.error e, s, []⟩
  | .ok (addr, adjust) =>
      if Word.has flags mapAnonymous then
        mapped s addr len adjust (ummMmapAnom p ans addr len prot)
      else if 0 < fd then mapped s addr len adjust (ummMmapFile p ans addr len prot)
      else ⟨.error .einval, s, []⟩

def ummMunmap (addr len : Word) : Outcome :=
  if !memRefIsSafe p addr len then ⟨.error .eacces, s, []⟩
  else if ans.host && hostAccepts addr len then
    ⟨.ok 0#64, s, [.host addr len, .unmap addr len]⟩
  else if ans.again && hostAccepts addr (bigPgRound len) then
    ⟨.ok 0#64, s,
      attempt addr len ++ [.host addr (bigPgRound len), .unmap addr (bigPgRound len)]⟩
  else ⟨.error .errno, s, attempt addr len ++ attempt addr (bigPgRound len)⟩

/-- The system call `mprotect`; it has nothing to do for an empty range. -/
def hostProtects (addr len : Word) : Bool :=
  if len = 0#64 then decide (addr.toNat % 4096 = 0) else ans.host && hostAccepts addr len

def ummMprotect (addr len prot : Word) : Outcome :=
  if !memRefIsSafe p addr len then ⟨.error .eacces, s, []⟩
  else if hostProtects ans addr len then
    let perm := protToPerm prot
    if perm.r then ⟨.ok 0#64, s, attempt addr len ++ [.mprotect addr len perm]⟩
    else if perm.w then ⟨.error .abort, s, attempt addr len⟩
    else ⟨.ok 0#64, s, attempt addr len ++ [.mprotect addr len ⟨false, false, false, false⟩]⟩
  else ⟨.error .errno, s, attempt addr len⟩

/-- The host may round the address of a segment down to its page; the call then
    fails, and the segment stays attached. -/
def ummShmat (addr : Word) (segsz : Option Word) (rdonly : Bool) : Outcome :=
  match segsz with
  | none => ⟨.error .errno, s, []⟩
  | some len =>
      match ummPlace p s addr len with
      | .error e => ⟨.error e, s, []⟩
      | .ok (addr, adjust) =>
          mapped s addr len adjust (mapHostAndGuest p ans addr len
            (protToPerm (if rdonly then protRead else protRead ||| protWrite))
            (attempt (pgAddr addr) len))

def mremapMaymove : Word := 1#64

def mremapFixed : Word := 2#64

/-- The new address of `umm_mremap`. -/
def mremapPlace (newSize flags new : Word) : Except Err (Word × Bool) :=
  if Word.has flags mremapFixed then
    if !memRefIsSafe p new newSize then .error .eacces else .ok (new, false)
  else if !ummSpaceLeft s newSize then .error .enomem
  else .ok (ummGetMapPos p s - pgRound newSize, true)

def ummMremap (old oldSize newSize flags new : Word) : Outcome :=
  if !memRefIsSafe p old oldSize then ⟨.error .eacces, s, []⟩
  else
    match mremapPlace p s newSize flags new with
    | .error e => ⟨.error e, s, []⟩
    | .ok (new, adjust) =>
        if !Word.has flags mremapMaymove then ⟨.error .einval, s, []⟩
        else if ans.host && hostAccepts new newSize && inUserSpace old oldSize then
          ⟨if ans.vm then .ok new else .error .abort,
            if adjust then { s with mmapLen := s.mmapLen + pgRound newSize } else s,
            attempt old oldSize ++ [.host new newSize, .unmap old oldSize,
              .mapPhys new newSize (vaToPa p.layout new) (protToPerm (protRead ||| protWrite))]⟩
        else ⟨.error .errno, s, attempt old oldSize ++ attempt new newSize⟩

def ummAllocStack : Outcome :=
  let base := ummGetMapPos p s
  if !ummSpaceLeft s appStackSize then ⟨.error .enomem, s, []⟩
  else
    match ummMmapAnom p ans (pgAddr base - appStackSize + 0x1000#64) (appStackSize - 0x1000#64)
      (protRead ||| protWrite) with
    | (.ok _, changes) =>
        ⟨.ok (pgAddr base), { s with mmapLen := s.mmapLen + (appStackSize + pgOff base) }, changes⟩
    | (.error e, changes) => ⟨.error e, s, changes⟩

end

/-! ## Runs -/

inductive Call where
  | brk (brk : Word)
  | mmap (addr len prot flags : Word) (fd : Int)
  | munmap (addr len : Word)
  | mprotect (addr len prot : Word)
  | shmat (addr : Word) (segsz : Option Word) (rdonly : Bool)
  | mremap (old oldSize newSize flags new : Word)
  | allocStack
  deriving DecidableEq, Repr

def run (p : Process) (s : Umm) (ans : Answers) : Call → Outcome
  | .brk b => ummBrk p s ans b
  | .mmap addr len prot flags fd => ummMmap p s ans addr len prot flags fd
  | .munmap addr len => ummMunmap p s ans addr len
  | .mprotect addr len prot => ummMprotect p s ans addr len prot
  | .shmat addr segsz rdonly => ummShmat p s ans addr segsz rdonly
  | .mremap old oldSize newSize flags new => ummMremap p s ans old oldSize newSize flags new
  | .allocStack => ummAllocStack p s ans

def system (p : Process) : System Umm (Call × Answers) where
  init s := s = ⟨0#64, 0#64⟩
  step s l := some (run p s l.2 l.1).umm

end Sandbox
