import Libdbos.Framework.Radix
import Libdbos.Kern.AddressMap

/-! # Extended Page Tables

    The tables of `kern/ept.c` through which guest-physical addresses of a
    process are translated: `ept_lookup_gpa`, the functions that clear entries
    and free tables, the EPT fault with its special pages, and the callbacks
    with which the host takes pages back.

    A state has the table pages in memory and two accounts: the references
    that this code has on host pages, and the table pages that it has
    allocated. What the host does (its page table, its allocator) comes in as
    arguments. Functions that fail return what they have done until then.
-/

namespace Ept

/-! ## Entries -/

/-- An entry `epte_t`: the page of `epte_addr`, and the flags. -/
structure Epte where
  page : Nat
  flags : BitVec 12
  deriving DecidableEq, Repr

def epteRead : BitVec 12 := 0x001#12

def epteWrite : BitVec 12 := 0x002#12

def epteExec : BitVec 12 := 0x004#12

def epteIpat : BitVec 12 := 0x040#12

def epteSz : BitVec 12 := 0x080#12

def epteA : BitVec 12 := 0x100#12

def epteD : BitVec 12 := 0x200#12

def eptePfnmap : BitVec 12 := 0x400#12

def epteType (n : BitVec 12) : BitVec 12 := (n &&& 7#12) <<< 3

/-- Cache types of an entry. -/
inductive CacheType where
  | uc
  | wc
  | wb
  deriving DecidableEq, Repr

def CacheType.code : CacheType → BitVec 12
  | .uc => 0#12
  | .wc => 1#12
  | .wb => 6#12

def epteNone : Epte := ⟨0, 0#12⟩

def epteFull : BitVec 12 := epteRead ||| epteWrite ||| epteExec

section

variable (e : Epte)

/-- The truth value of `epte & m`. -/
def Epte.has (m : BitVec 12) : Bool := e.flags &&& m != 0#12

def eptePresent : Bool := e.has epteFull

def epteBig : Bool := e.has epteSz

end

/-- Levels are 0 through 3; on levels 1 and 2 large pages are leaves. -/
def eptKind (level : Nat) (e : Epte) : Radix.Kind :=
  if !eptePresent e then .empty
  else if level = 0 ∨ (level ≤ 2 ∧ epteBig e) then .leaf
  else .table e.page

def eptShape : Radix.Shape Epte where
  fan := 512
  kind := eptKind
  bottom e c := by
    unfold eptKind
    split
    · simp
    · simp

/-! ## State -/

structure State where
  mem : Radix.Mem Epte
  root : Nat
  /-- The references on host pages. -/
  refs : Nat → Int
  /-- The table pages that have been allocated and not freed. -/
  tables : Nat → Int
  /-- The host pages for which `set_page_dirty` was called. -/
  dirty : Nat → Bool

/-- A processor with its tables, and the regions that the host serves. -/
structure Vm where
  layout : Layout
  adEnabled : Bool
  /-- The number of `num_possible_cpus`. -/
  cpus : Nat
  postedInterruptDescRegion : Nat
  tlbInfoRegion : Nat

def Vm.mm (vm : Vm) : Mm := vm.layout.toMm

inductive Errno where
  | enoent
  | enomem
  | einval
  | efault
  /-- An error of the host. -/
  | host
  deriving DecidableEq, Repr

/-- A pointer to an entry: entry `idx` of table page `dir`. -/
structure Loc where
  dir : Nat
  idx : Nat
  deriving DecidableEq, Repr

section

variable (s : State)

def State.entry (loc : Loc) : Epte := s.mem loc.dir loc.idx

def State.setEntry (loc : Loc) (e : Epte) : State :=
  { s with mem := Radix.write s.mem loc.dir loc.idx e }

def State.getPage (p : Nat) : State := { s with refs := Function.update s.refs p (s.refs p + 1) }

def State.putPage (p : Nat) : State := { s with refs := Function.update s.refs p (s.refs p - 1) }

def State.setPageDirty (p : Nat) : State := { s with dirty := Function.update s.dirty p true }

/-- A new table page, all zero. -/
def State.getFreePage (p : Nat) : State :=
  { s with
    mem := Function.update s.mem p fun _ => epteNone
    tables := Function.update s.tables p (s.tables p + 1) }

def State.freePage (p : Nat) : State :=
  { s with tables := Function.update s.tables p (s.tables p - 1) }

end

/-! ## Lookup -/

/-- The macro `ADDR_TO_IDX`. -/
def addrToIdx (la : Word) (n : Nat) : Nat := ((la >>> (12 + 9 * n)) &&& 511#64).toNat

/-- The loop of `ept_lookup_gpa` at level `i`, with table `dir`. The pages
    that the allocator has to give are `free`. -/
def lookupFrom (gpa : Word) (level : Nat) (create : Bool) :
    Nat → Nat → List Nat → State → Except Errno Loc × State
  | 0, dir, _, s => (.ok ⟨dir, addrToIdx gpa level⟩, s)
  | i + 1, dir, free, s =>
      if i + 1 ≤ level then (.ok ⟨dir, addrToIdx gpa level⟩, s)
      else
        let idx := addrToIdx gpa (i + 1)
        let e := s.mem dir idx
        if eptePresent e then
          if epteBig e then
            if i + 1 ≠ 1 ∧ i + 1 ≠ 2 then (.error .einval, s) else (.ok ⟨dir, idx⟩, s)
          else lookupFrom gpa level create i e.page free s
        else if create then
          match free with
          | [] => (.error .enomem, s)
          | page :: free =>
              lookupFrom gpa level create i page free
                ((s.getFreePage page).setEntry ⟨dir, idx⟩ ⟨page, epteFull⟩)
        else (.error .enoent, s)

def eptLookupGpa (s : State) (gpa : Word) (level : Nat) (create : Bool) (free : List Nat) :
    Except Errno Loc × State :=
  lookupFrom gpa level create 3 s.root free s

def eptLookup (vm : Vm) (s : State) (hva : Word) (level : Nat) : Except Errno Loc :=
  let gpa := hvaToGpa vm.mm hva
  if gpa = addrInval then .error .einval else (eptLookupGpa s gpa level false []).1

/-! ## Clearing -/

def freeEptPage (s : State) (e : Epte) : State :=
  if e.has eptePfnmap then s
  else (if e.has epteWrite then s.setPageDirty e.page else s).putPage e.page

/-- As `freeEptPage`, with the page locked while it is marked dirty. -/
def freeEptPageLock (s : State) (e : Epte) : State := freeEptPage s e

/-- The loops of `vmx_free_ept`, `ept_clear_l1_epte` and `ept_clear_l2_epte`:
    table `t` of level `l` is freed with all that is below it, and `drop` is
    called for each leaf. -/
def freeTable (drop : State → Epte → State) : Nat → Nat → State → State
  | 0, t, s =>
      ((List.range 512).foldl (fun s i =>
        match eptKind 0 (s.mem t i) with
        | .leaf => drop s (s.mem t i)
        | _ => s) s).freePage t
  | l + 1, t, s =>
      ((List.range 512).foldl (fun s i =>
        match eptKind (l + 1) (s.mem t i) with
        | .empty => s
        | .leaf => drop s (s.mem t i)
        | .table c => freeTable drop l c s) s).freePage t

def vmxFreeEpt (s : State) : State := freeTable freeEptPageLock 3 s.root s

/-- Whether an entry was cleared, and the state after it. -/
def eptClearEpte (s : State) (loc : Loc) : Bool × State :=
  let e := s.entry loc
  if e = epteNone then (false, s) else (true, (freeEptPage s e).setEntry loc epteNone)

/-- An entry that refers to a table of level `l` is cleared. -/
def clearTable (l : Nat) (s : State) (loc : Loc) : Bool × State :=
  let e := s.entry loc
  if e = epteNone then (false, s) else
    (true, (freeTable freeEptPage l e.page s).setEntry loc epteNone)

def eptClearL1Epte (s : State) (loc : Loc) : Bool × State := clearTable 0 s loc

def eptClearL2Epte (s : State) (loc : Loc) : Bool × State := clearTable 1 s loc

/-! ## Special pages -/

/-- Flags for reading, for writing, and the access flags that go with them. -/
def accessFlags (vm : Vm) (makeWrite : Bool) : BitVec 12 :=
  (if makeWrite then epteWrite else 0#12) |||
    (if vm.adEnabled then epteA ||| (if makeWrite then epteD else 0#12) else 0#12)

/-- A page without a `struct page` is mapped: what was there is cleared. -/
def mapPfn (s : State) (gpa : Word) (page : Nat) (flags : BitVec 12) (free : List Nat) :
    Except Errno Unit × State :=
  match eptLookupGpa s gpa 0 true free with
  | (.error err, s) => (.error err, s)
  | (.ok loc, s) =>
      let s := if eptePresent (s.entry loc) then (eptClearEpte s loc).2 else s
      (.ok (), s.setEntry loc ⟨page, flags⟩)

/-- The page of `APIC_DEFAULT_PHYS_BASE`. -/
def apicDefaultPage : Nat := 0xfee00

def eptMapApicPage (vm : Vm) (s : State) (makeWrite : Bool) (gpa : Word) (free : List Nat) :
    Except Errno Unit × State :=
  mapPfn s gpa apicDefaultPage
    (epteRead ||| epteType CacheType.uc.code ||| epteIpat ||| eptePfnmap |||
      accessFlags vm makeWrite) free

/-- A page of a region of the host is mapped, whatever was there. -/
def mapRegion (s : State) (gpa : Word) (page : Nat) (free : List Nat) :
    Except Errno Unit × State :=
  match eptLookupGpa s gpa 0 true free with
  | (.error err, s) => (.error err, s)
  | (.ok loc, s) =>
      (.ok (), s.setEntry loc ⟨page, epteRead ||| epteWrite ||| epteType CacheType.wb.code⟩)

/-- The number of the page of `gpa` after that of `base`. -/
def pageOffset (gpa base : Word) : Nat := ((gpa - base) >>> 12).toNat

def eptMapPostedIntrDescPage (vm : Vm) (s : State) (gpa : Word) (free : List Nat) :
    Except Errno Unit × State :=
  mapRegion s gpa (vm.postedInterruptDescRegion + pageOffset gpa gpaPostedIntrDescs) free

def eptMapTlbInfoPage (vm : Vm) (s : State) (gpa : Word) (free : List Nat) :
    Except Errno Unit × State :=
  mapRegion s gpa (vm.tlbInfoRegion + pageOffset gpa gpaPvInfoPages) free

/-! ## Faults -/

/-- A page that the host has: number `pos` of a compound page of `2 ^ order`
    pages. -/
structure HostPage where
  head : Nat
  order : Nat
  pos : Nat
  inside : pos < 2 ^ order
  aligned : head % 2 ^ order = 0
  deriving DecidableEq

/-- The number of the page itself. -/
def HostPage.pfn (page : HostPage) : Nat := page.head + page.pos

/-- The level on which a compound page is mapped. -/
def HostPage.level (page : HostPage) : Nat :=
  if page.order + 12 = 30 then 2 else if page.order + 12 = 21 then 1 else 0

structure Vma where
  anonymous : Bool
  /-- The area has `VM_IO` or `VM_PFNMAP`. -/
  pfnmap : Bool
  cache : CacheType
  deriving DecidableEq

/-- What the host answers for an address: `find_vma`, `get_user_pages_fast`
    and `hva_to_pfn_remapped`, the last two for reading or writing. -/
structure Answer where
  vma : Option Vma
  page : Bool → Option HostPage
  pfn : Bool → Except Errno Nat

def leafFlags (vm : Vm) (makeWrite : Bool) (level : Nat) : BitVec 12 :=
  (epteRead ||| epteExec ||| epteType CacheType.wb.code ||| epteIpat |||
    accessFlags vm makeWrite) ||| (if level ≠ 0 then epteSz else 0#12)

/-- What was at `loc` makes room for a leaf of the level asked for. -/
def clearForLeaf (s : State) (loc : Loc) (level : Nat) : State :=
  let e := s.entry loc
  if eptePresent e then
    if !epteBig e ∧ level = 2 then (eptClearL2Epte s loc).2
    else if !epteBig e ∧ level = 1 then (eptClearL1Epte s loc).2
    else (eptClearEpte s loc).2
  else s

/-- The lookup of `ept_set_epte`: tables are created only where needed. -/
def lookupForLeaf (s : State) (gpa : Word) (level : Nat) (free : List Nat) :
    Except Errno Loc × State :=
  match eptLookupGpa s gpa level false [] with
  | (.error .enoent, _) => eptLookupGpa s gpa level true free
  | r => r

/-- The second half of `ept_set_epte`, once the host has given a page, with a
    reference on it. -/
def installPage (vm : Vm) (s : State) (makeWrite : Bool) (gpa : Word) (page : HostPage)
    (free : List Nat) : Except Errno Unit × State :=
  let level := page.level
  match lookupForLeaf s gpa level free with
  | (.error err, s) => (.error err, s.putPage page.pfn)
  | (.ok loc, s) =>
      let s := clearForLeaf s loc level
      let flags := leafFlags vm makeWrite level
      if level ≠ 0 then
        (.ok (), ((s.getPage page.head).putPage page.pfn).setEntry loc ⟨page.head, flags⟩)
      else (.ok (), s.setEntry loc ⟨page.pfn, flags⟩)

/-- The pages that `ept_set_pfnmap_epte` serves itself. -/
def isServed (vm : Vm) (gpa : Word) : Bool :=
  decide (gpa &&& pageMask = gpaApicPage) || inPages gpaPostedIntrDescs vm.cpus gpa ||
    inPages gpaPvInfoPages vm.cpus gpa

def eptSetPfnmapEpte (vm : Vm) (s : State) (makeWrite : Bool) (gpa : Word) (host : Answer)
    (free : List Nat) : Except Errno Unit × State :=
  if gpa &&& pageMask = gpaApicPage then eptMapApicPage vm s makeWrite gpa free
  else if inPages gpaPostedIntrDescs vm.cpus gpa then eptMapPostedIntrDescPage vm s gpa free
  else if inPages gpaPvInfoPages vm.cpus gpa then eptMapTlbInfoPage vm s gpa free
  else
    match host.vma with
    | none => (.error .efault, s)
    | some vma =>
        if !vma.pfnmap then (.error .efault, s)
        else
          match host.pfn makeWrite with
          | .error err => (.error err, s)
          | .ok pfn =>
              mapPfn s gpa pfn
                (epteRead ||| epteType vma.cache.code ||| epteIpat ||| eptePfnmap |||
                  accessFlags vm makeWrite) free

/-- Whether the leaf is made writable; fails without an area. -/
def leafWrite (vm : Vm) (makeWrite : Bool) (gpa : Word) (host : Answer) : Except Errno Bool :=
  if isServed vm gpa then .ok makeWrite
  else
    match host.vma with
    | none => .error .efault
    | some vma => .ok (makeWrite || (vma.anonymous && !vma.pfnmap))

def eptSetEpte (vm : Vm) (s : State) (makeWrite : Bool) (gpa : Word) (host : Answer)
    (free : List Nat) : Except Errno Unit × State :=
  match leafWrite vm makeWrite gpa host with
  | .error err => (.error err, s)
  | .ok makeWrite =>
      match host.page makeWrite with
      | none => eptSetPfnmapEpte vm s makeWrite gpa host free
      | some page => installPage vm (s.getPage page.pfn) makeWrite gpa page free

/-- An EPT fault at `gpa`; `host` answers for host addresses. -/
def vmxDoEptFault (vm : Vm) (s : State) (makeWrite : Bool) (gpa : Word) (host : Word → Answer)
    (free : List Nat) : Except Errno Unit × State :=
  let hva := gpaToHva vm.mm gpa
  if hva = addrInval then (.error .einval, s)
  else eptSetEpte vm s makeWrite gpa (host hva) free

/-! ## Callbacks of the host -/

/-- What is flushed on every core: all translations, or those of one address. -/
inductive Sync where
  | context
  | addr (gpa : Word)
  deriving DecidableEq, Repr

def eptInvalidatePage (vm : Vm) (s : State) (addr : Word) : Bool × State × Option Sync :=
  let gpa := hvaToGpa vm.mm addr
  if gpa = addrInval then (false, s, none)
  else
    match (eptLookupGpa s gpa 0 false []).1 with
    | .error _ => (false, s, none)
    | .ok loc =>
        let (cleared, s) := eptClearEpte s loc
        (cleared, s, if cleared then some (.addr gpa) else none)

/-- A truth value as a number. -/
def ofBool (b : Bool) : BitVec 12 := if b then 1#12 else 0#12

def eptCheckPageAccessed (vm : Vm) (s : State) (addr : Word) (flush : Bool) :
    BitVec 12 × State × Option Sync :=
  let gpa := hvaToGpa vm.mm addr
  if gpa = addrInval then (0#12, s, none)
  else
    match (eptLookupGpa s gpa 0 false []).1 with
    | .error _ => (0#12, s, none)
    | .ok loc =>
        let e := s.entry loc
        let accessed := e.flags &&& epteA
        -- The source has `flush & accessed`, bit by bit.
        if ofBool flush &&& accessed ≠ 0#12 then
          (accessed, s.setEntry loc { e with flags := e.flags &&& ~~~epteA }, some (.addr gpa))
        else (accessed, s, none)

def hugePageSize : Word := 2097152#64

/-- The variables of `ept_mmu_notifier_invalidate_range_start`. -/
structure Scan where
  state : State
  pos : Word
  gpa : Word
  syncNeeded : Bool
  /-- An `int`, which wraps. -/
  count : BitVec 32

/-- A round of the loop, for what the lookup returns. -/
def scanFound (vm : Vm) (c : Scan) : Except Errno Loc → Scan
  | .ok loc =>
      let e := c.state.entry loc
      { state := (eptClearEpte c.state loc).2
        pos := c.pos + (if epteBig e then hugePageSize else pageSize)
        gpa := hvaToGpa vm.mm c.pos
        syncNeeded := if e = epteNone then false else true
        count := c.count + 1 }
  | .error _ => { c with pos := c.pos + pageSize, count := c.count + 1 }

def scanStep (vm : Vm) (c : Scan) : Scan := scanFound vm c (eptLookup vm c.state c.pos 0)

/-- The loop goes on while `pos` is before `fin`, for `n` rounds at most. -/
def scanLoop (vm : Vm) (fin : Word) : Nat → Scan → Scan
  | 0, c => c
  | n + 1, c => if c.pos < fin then scanLoop vm fin n (scanStep vm c) else c

def scanRange (vm : Vm) (s : State) (start fin : Word) : Scan :=
  scanLoop vm fin ((fin.toNat - start.toNat + 4095) / 4096) ⟨s, start, 0#64, false, 0⟩

/-- What is flushed once the loop has ended. -/
def Scan.sync (c : Scan) : Option Sync :=
  if c.syncNeeded then
    if c.count = 1 then if c.gpa ≠ 0#64 then some (.addr c.gpa) else none
    else some .context
  else none

def invalidateRangeStart (vm : Vm) (s : State) (start fin : Word) : State × Option Sync :=
  ((scanRange vm s start fin).state, (scanRange vm s start fin).sync)

/-- A round of `ept_mmu_notifier_clear_flush_young`. -/
def clearYoung (vm : Vm) (s : State) (addr : Word) : BitVec 12 × State :=
  if vm.adEnabled then
    ((eptCheckPageAccessed vm s addr true).1, (eptCheckPageAccessed vm s addr true).2.1)
  else (ofBool (eptInvalidatePage vm s addr).1, (eptInvalidatePage vm s addr).2.1)

/-- The loop of `ept_mmu_notifier_clear_flush_young` over `n` pages. -/
def clearFlushYoung (vm : Vm) : Nat → State → Word → BitVec 12 × State
  | 0, s, _ => (0#12, s)
  | n + 1, s, start =>
      let rest := clearFlushYoung vm n (clearYoung vm s start).2 (start + pageSize)
      ((clearYoung vm s start).1 ||| rest.1, rest.2)

/-! ## Translation -/

/-- The leaf, with its level, to which `gpa` leads. -/
def State.leaf (s : State) (gpa : Word) : Option (Nat × Epte) :=
  Radix.leafAt eptShape s.mem (addrToIdx gpa) 3 s.root

/-- The page to which a leaf of level `k` takes `gpa`. -/
def leafPage (k : Nat) (e : Epte) (gpa : Word) : Nat :=
  e.page / 512 ^ k * 512 ^ k + gpa.toNat / 4096 % 512 ^ k

/-- The page to which the processor translates `gpa`. -/
def State.translate (s : State) (gpa : Word) : Option Nat :=
  (s.leaf gpa).map fun x => leafPage x.1 x.2 gpa

/-- How often page `p` is a table of the EPT. -/
def State.occurs (s : State) (p : Nat) : Nat := Radix.count eptShape s.mem p 3 s.root

/-- A well-formed EPT: no table occurs twice, present entries that are not
    leaves refer to table pages, and large leaves are on levels 1 and 2 only.
    Entries that are not present are zero. -/
structure WellFormed (s : State) : Prop where
  tree : Radix.Tree eptShape s.mem 3 s.root
  tables : ∀ p, 0 < s.occurs p → s.tables p = 1
  top : ∀ i, i < 512 → eptePresent (s.mem s.root i) = true → epteBig (s.mem s.root i) = false
  small : ∀ gpa e, s.leaf gpa = some (0, e) → epteBig e = false
  vacant : ∀ p i, 0 < s.occurs p → eptePresent (s.mem p i) = false → s.mem p i = epteNone

end Ept
