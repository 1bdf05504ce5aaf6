import Libdbos.Framework.Serial
import Libdbos.Sandbox.Regions

/-! # Memory Calls of Several Threads

    `syscall_do` takes a lock around `mmap`, `munmap` and `mprotect`, but not
    around `brk`, `shmat` and `mremap`, which read and change the same two
    lengths. Here every access to `brk_len` and `mmap_len` and every call of the
    host is a step of its own, and the steps of all threads are interleaved.

    A call that runs alone does what `run` says (`prog_runs`). So the regions
    stay apart as long as the calls without the lock do not overlap with others.
-/

open LTS

namespace Sandbox

open Dune Serial

/-! ## The accesses of each call -/

abbrev Accesses := Prog Umm (Except Err Word)

section

variable (p : Process)

/-- The two variables are read one after the other. -/
def readSpaceLeft (len : Word) (k : Bool → Accesses) : Accesses :=
  .read Umm.brkLen fun brkLen => .read Umm.mmapLen fun mmapLen =>
    k (decide (brkLen + mmapLen + len < appMmapLen))

def readMapPos (k : Word → Accesses) : Accesses :=
  .read Umm.mmapLen fun mmapLen => k (p.mmapBase + appMmapBaseOff - mmapLen)

/-- `brk_len = len`. -/
def setBrkLen (len : Word) (k : Accesses) : Accesses := .write (fun s => { s with brkLen := len }) k

/-- `mmap_len += len`: a read and a write. -/
def addMmapLen (len : Word) (k : Accesses) : Accesses :=
  .read Umm.mmapLen fun mmapLen => .write (fun s => { s with mmapLen := mmapLen + len }) k

/-- A system call that the host accepts only if `can` is set. -/
def hostCall (can : Bool) (k : Bool → Accesses) : Accesses := .ask fun ok => k (ok && can)

/-- `mmap` or `shmat` at a fixed address, then `dune_vm_map_phys`. -/
def mapAt (addr len : Word) (k : Accesses) : Accesses :=
  hostCall (hostAccepts addr len) fun mapped =>
    if mapped then .ask fun vm => if vm then k else .ret (.error .vm)
    else .ret (.error .errno)

def brkProg (brk : Word) : Accesses :=
  if brk = 0#64 then .ret (.ok p.mmapBase)
  else if brk < p.mmapBase then .ret (.error .einval)
  else
    let len := pgRound (brk - p.mmapBase)
    readSpaceLeft len fun left =>
      if !left then .ret (.error .enomem)
      else .read Umm.brkLen fun brkLen =>
        if len = brkLen then .ret (.ok brk)
        else .read Umm.brkLen fun brkLen =>
          if len < brkLen then .read Umm.brkLen fun brkLen =>
            hostCall (hostAccepts (p.mmapBase + len) (brkLen - len)) fun unmapped =>
              -- `dune_vm_unmap` is given `brk_len - len` once more
              if unmapped then .read Umm.brkLen fun _ => setBrkLen len (.ret (.ok brk))
              else .ret (.error .errno)
          else .read Umm.brkLen fun start => .read Umm.brkLen fun brkLen =>
            mapAt (p.mmapBase + start) (len - brkLen) (setBrkLen len (.ret (.ok brk)))

/-- The rest of `umm_mmap` and `umm_shmat` once the address is known. -/
def mapThenAdjust (len : Word) (adjust : Bool) (addr : Word) : Accesses :=
  mapAt addr len (if adjust then addMmapLen (pgRound len) (.ret (.ok addr)) else .ret (.ok addr))

def place (addr len : Word) (k : Bool → Word → Accesses) : Accesses :=
  if addr = 0#64 then
    readSpaceLeft len fun left =>
      if !left then .ret (.error .enomem)
      else readMapPos p fun pos => k true (pos - pgRound len)
  else if !memRefIsSafe p addr len then .ret (.error .einval)
  else k false addr

def mmapProg (addr len flags : Word) (fd : Int) : Accesses :=
  place p addr len fun adjust addr =>
    if Word.has flags mapAnonymous || 0 < fd then mapThenAdjust len adjust addr
    else .ret (.error .einval)

/-- `shmctl` is asked for the size first. -/
def shmatProg (addr : Word) (segsz : Option Word) : Accesses :=
  .ask fun _ =>
    match segsz with
    | none => .ret (.error .errno)
    | some len => place p addr len fun adjust addr => mapThenAdjust len adjust addr

def munmapProg (addr len : Word) : Accesses :=
  if !memRefIsSafe p addr len then .ret (.error .eacces)
  else hostCall (hostAccepts addr len) fun unmapped =>
    if unmapped then .ret (.ok 0#64)
    else hostCall (hostAccepts addr (bigPgRound len)) fun unmapped =>
      .ret (if unmapped then .ok 0#64 else .error .errno)

def mprotectProg (addr len prot : Word) : Accesses :=
  if !memRefIsSafe p addr len then .ret (.error .eacces)
  else .ask fun ok =>
    .ret (if hostProtects ⟨ok, ok, ok⟩ addr len then
      if (protToPerm prot).r || !(protToPerm prot).w then .ok 0#64 else .error .abort
    else .error .errno)

/-- The rest of `umm_mremap` once the new address is known. -/
def mremapTo (old oldSize newSize flags : Word) (adjust : Bool) (new : Word) : Accesses :=
  if !Word.has flags mremapMaymove then .ret (.error .einval)
  else hostCall (hostAccepts new newSize && inUserSpace old oldSize) fun moved =>
    let mapNew : Accesses := .ask fun vm => .ret (if vm then .ok new else .error .abort)
    if moved then if adjust then addMmapLen (pgRound newSize) mapNew else mapNew
    else .ret (.error .errno)

def mremapProg (old oldSize newSize flags new : Word) : Accesses :=
  if !memRefIsSafe p old oldSize then .ret (.error .eacces)
  else if Word.has flags mremapFixed then
    if !memRefIsSafe p new newSize then .ret (.error .eacces)
    else mremapTo old oldSize newSize flags false new
  else readSpaceLeft newSize fun left =>
    if !left then .ret (.error .enomem)
    else readMapPos p fun pos =>
      mremapTo old oldSize newSize flags true (pos - pgRound newSize)

def allocStackProg : Accesses :=
  readMapPos p fun base => readSpaceLeft appStackSize fun left =>
    if !left then .ret (.error .enomem)
    else mapAt (pgAddr base - appStackSize + 0x1000#64) (appStackSize - 0x1000#64)
      (addMmapLen (appStackSize + pgOff base) (.ret (.ok (pgAddr base))))

def prog : Call → Accesses
  | .brk b => brkProg p b
  | .mmap addr len _ flags fd => mmapProg p addr len flags fd
  | .munmap addr len => munmapProg p addr len
  | .mprotect addr len prot => mprotectProg p addr len prot
  | .shmat addr segsz _ => shmatProg p addr segsz
  | .mremap old oldSize newSize flags new => mremapProg p old oldSize newSize flags new
  | .allocStack => allocStackProg p

end

/-- The calls around which `syscall_do` takes `_syscall_mtx`. -/
def needLock : Call → Bool
  | .mmap .. | .mprotect .. | .munmap .. => true
  | _ => false

/-- The calls of all threads; the regions are remembered when a call returns. -/
def syscalls (p : Process) : Spec Umm (Except Err Word) (List Region) Call where
  prog := prog p
  locked := needLock
  record := addRegion

/-! ## A call that runs alone -/

variable {p : Process}

/-- A call that starts with the lengths `s` can return `r` with the lengths `s'`. -/
def Runs (p : Process) (s : Umm) (c : Call) (r : Except Err Word) (s' : Umm) : Prop :=
  ∃ ans, (run p s ans c).ret = r ∧ (run p s ans c).umm = s'

/-- The lengths are those before the call or those after it. -/
def Within (p : Process) (s : Umm) (c : Call) (s' : Umm) : Prop := s' = s ∨ ∃ r, Runs p s c r s'

section

variable {Q : Umm → Prop} {P : Except Err Word → Umm → Prop} {s : Umm}

theorem keeps_spaceLeft {len : Word} {k : Bool → Accesses} {left : Bool} (hs : Q s)
    (hleft : ummSpaceLeft s len = left) (h : (k left).Keeps Q P s) :
    (readSpaceLeft len k).Keeps Q P s := by
  subst hleft
  exact Prog.keeps_read hs (Prog.keeps_read hs h)

theorem keeps_mapPos {k : Word → Accesses} (hs : Q s) (h : (k (ummGetMapPos p s)).Keeps Q P s) :
    (readMapPos p k).Keeps Q P s := Prog.keeps_read hs h

theorem keeps_addMmapLen {len : Word} {k : Accesses} (hs : Q s)
    (hs' : Q { s with mmapLen := s.mmapLen + len })
    (h : k.Keeps Q P { s with mmapLen := s.mmapLen + len }) : (addMmapLen len k).Keeps Q P s :=
  Prog.keeps_read hs (Prog.keeps_write hs' h)

/-- The answer to a call of the host is no, or it is yes and the host can do it. -/
theorem keeps_hostCall {can : Bool} {k : Bool → Accesses} (hs : Q s)
    (hno : (k false).Keeps Q P s) (hyes : can = true → (k true).Keeps Q P s) :
    (hostCall can k).Keeps Q P s := by
  refine Prog.keeps_ask hs fun ok => ?_
  cases ok with
  | false => exact hno
  | true =>
    cases can with
    | false => exact hno
    | true => exact hyes rfl

theorem keeps_mapAt {addr len : Word} {k : Accesses} (hs : Q s) (herr : P (.error .errno) s)
    (hvm : hostAccepts addr len = true → P (.error .vm) s)
    (hk : hostAccepts addr len = true → k.Keeps Q P s) : (mapAt addr len k).Keeps Q P s := by
  refine keeps_hostCall hs herr fun hacc => Prog.keeps_ask hs fun vm => ?_
  cases vm with
  | false => exact hvm hacc
  | true => exact hk hacc

theorem keeps_place {addr len : Word} {k : Bool → Word → Accesses} (hs : Q s)
    (herr : ∀ e, ummPlace p s addr len = .error e → P (.error e) s)
    (hk : ∀ a adjust, ummPlace p s addr len = .ok (a, adjust) → (k adjust a).Keeps Q P s) :
    (place p addr len k).Keeps Q P s := by
  unfold place
  unfold ummPlace at herr hk
  split
  next hzero =>
    rw [if_pos hzero] at herr hk
    refine keeps_spaceLeft hs rfl ?_
    split
    next hleft => exact herr _ (if_pos hleft)
    next hleft => exact keeps_mapPos hs (hk _ _ (if_neg hleft))
  next hzero =>
    rw [if_neg hzero] at herr hk
    split
    next hsafe => exact herr _ (if_pos hsafe)
    next hsafe => exact hk _ _ (if_neg hsafe)

end

section

variable {s : Umm} {c : Call}

theorem within_self : Within p s c s := .inl rfl

theorem Runs.within {r : Except Err Word} {s' : Umm} (h : Runs p s c r s') : Within p s c s' :=
  .inr ⟨r, h⟩

/-- A call that maps at `addr`, as `mapped` says. -/
theorem keeps_mapThenAdjust {addr len : Word} {adjust : Bool} (perm : Perm)
    (failed : List Change)
    (hrun : ∀ ans, run p s ans c =
      mapped s addr len adjust (mapHostAndGuest p ans addr len perm failed)) :
    (mapThenAdjust len adjust addr).Keeps (Within p s c) (Runs p s c) s := by
  have hok (hacc : hostAccepts addr len = true) : Runs p s c (.ok addr)
      (if adjust then { s with mmapLen := s.mmapLen + pgRound len } else s) := by
    refine ⟨⟨true, true, true⟩, ?_⟩
    rw [hrun, mapHostAndGuest, hacc]
    exact ⟨rfl, rfl⟩
  refine keeps_mapAt within_self ?_ (fun hacc => ?_) (fun hacc => ?_)
  · refine ⟨⟨false, false, false⟩, ?_⟩
    rw [hrun]
    exact ⟨rfl, rfl⟩
  · refine ⟨⟨true, true, false⟩, ?_⟩
    rw [hrun, mapHostAndGuest, hacc]
    exact ⟨rfl, rfl⟩
  · cases adjust with
    | false => exact hok hacc
    | true => exact keeps_addMmapLen within_self (hok hacc).within (hok hacc)

theorem mmap_runs (addr len prot flags : Word) (fd : Int) :
    (mmapProg p addr len flags fd).Keeps (Within p s (.mmap addr len prot flags fd))
      (Runs p s (.mmap addr len prot flags fd)) s := by
  refine keeps_place within_self (fun e he => ?_) (fun a adjust ha => ?_)
  · refine ⟨⟨false, false, false⟩, ?_⟩
    simp only [run, ummMmap, he, and_self]
  · have hrun (ans : Answers) : run p s ans (.mmap addr len prot flags fd) =
        if Word.has flags mapAnonymous then mapped s a len adjust (ummMmapAnom p ans a len prot)
        else if 0 < fd then mapped s a len adjust (ummMmapFile p ans a len prot)
        else ⟨.error .einval, s, []⟩ := by
      simp only [run, ummMmap, ha]
    split
    next hmap =>
      refine keeps_mapThenAdjust (protToPerm prot) (attempt a len) fun ans => ?_
      rw [hrun, ummMmapAnom, ummMmapFile]
      cases hanon : Word.has flags mapAnonymous with
      | true => rw [if_pos rfl]
      | false =>
        rw [hanon, Bool.false_or, decide_eq_true_eq] at hmap
        rw [if_neg Bool.false_ne_true, if_pos hmap]
    next hmap =>
      rw [Bool.or_eq_true, decide_eq_true_eq, not_or] at hmap
      refine ⟨⟨false, false, false⟩, ?_⟩
      rw [hrun, if_neg hmap.1, if_neg hmap.2]
      exact ⟨rfl, rfl⟩

theorem shmat_runs (addr : Word) (segsz : Option Word) (rdonly : Bool) :
    (shmatProg p addr segsz).Keeps (Within p s (.shmat addr segsz rdonly))
      (Runs p s (.shmat addr segsz rdonly)) s := by
  refine Prog.keeps_ask within_self fun _ => ?_
  match segsz with
  | none => exact ⟨⟨false, false, false⟩, rfl, rfl⟩
  | some len =>
    refine keeps_place within_self (fun e he => ?_) (fun a adjust ha => ?_)
    · refine ⟨⟨false, false, false⟩, ?_⟩
      simp only [run, ummShmat, he, and_self]
    · refine keeps_mapThenAdjust
        (protToPerm (if rdonly then protRead else protRead ||| protWrite))
        (attempt (pgAddr a) len) fun ans => ?_
      simp only [run, ummShmat, ha]

theorem munmap_runs (addr len : Word) : (munmapProg p addr len).Keeps
    (Within p s (.munmap addr len)) (Runs p s (.munmap addr len)) s := by
  unfold munmapProg
  split
  next hsafe =>
    refine ⟨⟨false, false, false⟩, ?_⟩
    rw [run, ummMunmap, if_pos hsafe]
    exact ⟨rfl, rfl⟩
  next hsafe =>
    have hrun (ans : Answers) : run p s ans (.munmap addr len) = _ := if_neg hsafe
    refine keeps_hostCall within_self ?_ fun hacc => ?_
    · rw [if_neg Bool.false_ne_true]
      refine keeps_hostCall within_self ?_ fun hacc => ?_
      · refine ⟨⟨false, false, false⟩, ?_⟩
        rw [hrun]
        exact ⟨rfl, rfl⟩
      · refine ⟨⟨false, true, false⟩, ?_⟩
        rw [hrun, hacc]
        exact ⟨rfl, rfl⟩
    · refine ⟨⟨true, true, true⟩, ?_⟩
      rw [hrun, hacc]
      exact ⟨rfl, rfl⟩

theorem mprotect_runs (addr len prot : Word) : (mprotectProg p addr len prot).Keeps
    (Within p s (.mprotect addr len prot)) (Runs p s (.mprotect addr len prot)) s := by
  unfold mprotectProg
  split
  next hsafe =>
    refine ⟨⟨false, false, false⟩, ?_⟩
    rw [run, ummMprotect, if_pos hsafe]
    exact ⟨rfl, rfl⟩
  next hsafe =>
    refine Prog.keeps_ask within_self fun ok => ⟨⟨ok, ok, ok⟩, ?_⟩
    simp only [run, ummMprotect, if_neg hsafe]
    split
    · cases (protToPerm prot).r <;> cases (protToPerm prot).w <;> exact ⟨rfl, rfl⟩
    · exact ⟨rfl, rfl⟩

theorem mremapTo_runs {old oldSize newSize flags new new' : Word} {adjust : Bool}
    (hsafe : ¬ (!memRefIsSafe p old oldSize) = true)
    (hplace : mremapPlace p s newSize flags new = .ok (new', adjust)) :
    (mremapTo old oldSize newSize flags adjust new').Keeps
      (Within p s (.mremap old oldSize newSize flags new))
      (Runs p s (.mremap old oldSize newSize flags new)) s := by
  unfold mremapTo
  split
  next hmove =>
    refine ⟨⟨false, false, false⟩, ?_⟩
    simp only [run, ummMremap, if_neg hsafe, hplace, if_pos hmove, and_self]
  next hmove =>
    refine keeps_hostCall within_self ?_ fun hcan => ?_
    · refine ⟨⟨false, false, false⟩, ?_⟩
      simp only [run, ummMremap, if_neg hsafe, hplace, if_neg hmove, Bool.false_and,
        if_neg Bool.false_ne_true, and_self]
    · have hdone (vm : Bool) : Runs p s (.mremap old oldSize newSize flags new)
          (if vm then .ok new' else .error .abort)
          (if adjust then { s with mmapLen := s.mmapLen + pgRound newSize } else s) := by
        refine ⟨⟨true, true, vm⟩, ?_⟩
        simp only [run, ummMremap, if_neg hsafe, hplace, if_neg hmove, Bool.true_and, if_pos hcan,
          and_self]
      cases adjust with
      | false => exact Prog.keeps_ask within_self hdone
      | true =>
        exact keeps_addMmapLen within_self (hdone true).within
          (Prog.keeps_ask (hdone true).within hdone)

theorem mremap_runs (old oldSize newSize flags new : Word) :
    (mremapProg p old oldSize newSize flags new).Keeps
      (Within p s (.mremap old oldSize newSize flags new))
      (Runs p s (.mremap old oldSize newSize flags new)) s := by
  have herr {e : Err} (hsafe : ¬ (!memRefIsSafe p old oldSize) = true)
      (hplace : mremapPlace p s newSize flags new = .error e) :
      Runs p s (.mremap old oldSize newSize flags new) (.error e) s := by
    refine ⟨⟨false, false, false⟩, ?_⟩
    rw [run, ummMremap, if_neg hsafe, hplace]
    exact ⟨rfl, rfl⟩
  unfold mremapProg
  split
  next hsafe =>
    refine ⟨⟨false, false, false⟩, ?_⟩
    rw [run, ummMremap, if_pos hsafe]
    exact ⟨rfl, rfl⟩
  next hsafe =>
    split
    next hfixed =>
      split
      next hnew => exact herr hsafe (by rw [mremapPlace, if_pos hfixed, if_pos hnew])
      next hnew => exact mremapTo_runs hsafe (by rw [mremapPlace, if_pos hfixed, if_neg hnew])
    next hfixed =>
      refine keeps_spaceLeft within_self rfl ?_
      split
      next hleft => exact herr hsafe (by rw [mremapPlace, if_neg hfixed, if_pos hleft])
      next hleft =>
        exact keeps_mapPos within_self
          (mremapTo_runs hsafe (by rw [mremapPlace, if_neg hfixed, if_neg hleft]))

theorem allocStack_runs :
    (allocStackProg p).Keeps (Within p s .allocStack) (Runs p s .allocStack) s := by
  have hrun (ans : Answers) : run p s ans .allocStack = ummAllocStack p s ans := rfl
  unfold allocStackProg
  apply keeps_mapPos within_self
  cases hleft : ummSpaceLeft s appStackSize with
  | false =>
    refine keeps_spaceLeft within_self hleft ?_
    refine ⟨⟨false, false, false⟩, ?_⟩
    simp only [hrun, ummAllocStack, hleft, Bool.not_false, if_true, and_self]
  | true =>
    simp only [ummAllocStack, hleft, Bool.not_true, if_neg Bool.false_ne_true, ummMmapAnom,
      mapHostAndGuest] at hrun
    refine keeps_spaceLeft within_self hleft ?_
    refine keeps_mapAt within_self ?_ (fun hacc => ?_) (fun hacc => ?_)
    · refine ⟨⟨false, false, false⟩, ?_⟩
      rw [hrun]
      exact ⟨rfl, rfl⟩
    · refine ⟨⟨true, true, false⟩, ?_⟩
      rw [hrun, hacc]
      exact ⟨rfl, rfl⟩
    · have hok : Runs p s .allocStack (.ok (pgAddr (ummGetMapPos p s)))
          { s with mmapLen := s.mmapLen + (appStackSize + pgOff (ummGetMapPos p s)) } := by
        refine ⟨⟨true, true, true⟩, ?_⟩
        rw [hrun, hacc]
        exact ⟨rfl, rfl⟩
      exact keeps_addMmapLen within_self hok.within hok

theorem brk_runs (b : Word) : (brkProg p b).Keeps (Within p s (.brk b)) (Runs p s (.brk b)) s := by
  unfold brkProg
  split
  next hzero =>
    refine ⟨⟨false, false, false⟩, ?_⟩
    simp only [run, ummBrk, if_pos hzero, and_self]
  next hzero =>
  split
  next hbelow =>
    refine ⟨⟨false, false, false⟩, ?_⟩
    simp only [run, ummBrk, if_neg hzero, if_pos hbelow, and_self]
  next hbelow =>
  dsimp only
  refine keeps_spaceLeft within_self rfl ?_
  split
  next hleft =>
    refine ⟨⟨false, false, false⟩, ?_⟩
    simp only [run, ummBrk, if_neg hzero, if_neg hbelow, if_pos hleft, and_self]
  next hleft =>
  refine Prog.keeps_read within_self ?_
  split
  next hsame =>
    refine ⟨⟨false, false, false⟩, ?_⟩
    simp only [run, ummBrk, if_neg hzero, if_neg hbelow, if_neg hleft, if_pos hsame, and_self]
  next hsame =>
  have hrun (ans : Answers) : run p s ans (.brk b) = ummBrk p s ans b := rfl
  simp only [ummBrk, if_neg hzero, if_neg hbelow, if_neg hleft, if_neg hsame] at hrun
  refine Prog.keeps_read within_self ?_
  split
  next hless =>
    simp only [if_pos hless] at hrun
    refine Prog.keeps_read within_self (keeps_hostCall within_self ?_ fun hacc => ?_)
    · refine ⟨⟨false, false, false⟩, ?_⟩
      rw [hrun]
      exact ⟨rfl, rfl⟩
    · have hok : Runs p s (.brk b) (.ok b) { s with brkLen := pgRound (b - p.mmapBase) } := by
        refine ⟨⟨true, true, true⟩, ?_⟩
        rw [hrun, hacc]
        exact ⟨rfl, rfl⟩
      exact Prog.keeps_read within_self (Prog.keeps_write hok.within hok)
  next hless =>
    simp only [if_neg hless, ummMmapAnom, mapHostAndGuest] at hrun
    refine Prog.keeps_read within_self (Prog.keeps_read within_self
      (keeps_mapAt within_self ?_ (fun hacc => ?_) (fun hacc => ?_)))
    · refine ⟨⟨false, false, false⟩, ?_⟩
      rw [hrun]
      exact ⟨rfl, rfl⟩
    · refine ⟨⟨true, true, false⟩, ?_⟩
      rw [hrun, hacc]
      exact ⟨rfl, rfl⟩
    · have hok : Runs p s (.brk b) (.ok b) { s with brkLen := pgRound (b - p.mmapBase) } := by
        refine ⟨⟨true, true, true⟩, ?_⟩
        rw [hrun, hacc]
        exact ⟨rfl, rfl⟩
      exact Prog.keeps_write hok.within hok

/-- A call that runs alone does what `run` says. -/
theorem prog_runs (p : Process) (s : Umm) (c : Call) :
    (prog p c).Keeps (Within p s c) (Runs p s c) s := by
  match c with
  | .brk b => exact brk_runs b
  | .mmap addr len prot flags fd => exact mmap_runs addr len prot flags fd
  | .munmap addr len => exact munmap_runs addr len
  | .mprotect addr len prot => exact mprotect_runs addr len prot
  | .shmat addr segsz rdonly => exact shmat_runs addr segsz rdonly
  | .mremap old oldSize newSize flags new => exact mremap_runs old oldSize newSize flags new
  | .allocStack => exact allocStack_runs

end

/-! ## Interleaved calls -/

/-- A call keeps the regions apart, also before it has returned its own. -/
theorem Mapped.Inv.call {s : Umm} {regions : List Region} (h : Mapped.Inv p ⟨s, regions⟩)
    (c : Call) : (prog p c).Keeps (fun s' => Mapped.Inv p ⟨s', regions⟩)
      (fun r s' => Mapped.Inv p ⟨s', addRegion c r regions⟩) s := by
  have hruns (r : Except Err Word) (s' : Umm) (hr : Runs p s c r s') :
      Mapped.Inv p ⟨s', addRegion c r regions⟩ := by
    obtain ⟨ans, rfl, rfl⟩ := hr
    exact h.step (l := (c, ans)) rfl
  refine (prog_runs p s c).mono ?_ hruns
  rintro s' (rfl | ⟨r, hr⟩)
  · exact h
  · have hlast := hruns r s' hr
    have hsub : ∀ r' ∈ regions, r' ∈ addRegion c r regions := by
      intro r' hr'
      unfold addRegion
      split
      · exact List.mem_append_right _ hr'
      · exact hr'
    exact ⟨hlast.ok, h.regions, fun r' hr' => hlast.inside r' (hsub r' hr')⟩

/-- **Concurrent calls keep regions apart**: in every interleaving in which no `brk`, `shmat`
    or `mremap` is in progress at the same time as another call, the heap and the regions
    returned are disjoint. -/
theorem concurrent_regions_apart (p : Process)
    (s : State Umm (Except Err Word) (List Region) Call)
    (h : ((syscalls p).system ⟨0#64, 0#64⟩ []).RunsTo (syscalls p).Exclusive s) :
    (s.shared.heap p :: s.history).Pairwise Region.Disjoint := by
  have hinv : Mapped.Inv p ⟨s.shared, s.history⟩ :=
    @Spec.invariant _ _ _ _ (syscalls p) (fun s regions => Mapped.Inv p ⟨s, regions⟩) _ _
      (.of_reachable (.init rfl)) (fun c _ _ hs => hs.call c) _ h
  exact hinv.apart

/-- `n` accesses of a thread, all of which succeed. -/
def accesses (t n : Nat) : List (Label Call) := List.replicate n (.access t true)

/-- A thread maps two pages. While it is at it, another one calls to map a page. -/
theorem concurrent_regions_apart_two :
    ∃ s, ((syscalls usual).system ⟨0#64, 0#64⟩ []).RunsTo (syscalls usual).Exclusive s ∧
      s.history = [⟨0x7f01ffffd000, 0x1000⟩, ⟨0x7f01ffffe000, 0x2000⟩] ∧
      (s.shared.heap usual :: s.history).Pairwise Region.Disjoint := by
  let page (len : Word) : Call := .mmap 0#64 len 1#64 mapAnonymous 0
  let first : State Umm (Except Err Word) (List Region) Call :=
    State.goto ⟨⟨0#64, 0#64⟩, [], none, fun _ => .idle⟩ 0 (.waiting (page 0x2000#64))
  have hfirst : ((syscalls usual).system ⟨0#64, 0#64⟩ []).RunsTo (syscalls usual).Exclusive
      first := by
    refine .step (l := .call 0 (page 0x2000#64)) (.init rfl) ?_ rfl
    intro u c hu
    cases hu
  have hsecond : ((syscalls usual).system ⟨0#64, 0#64⟩ []).RunsTo (syscalls usual).Exclusive
      (first.goto 1 (.waiting (page 1#64))) := by
    refine .step (l := .call 1 (page 1#64)) hfirst ?_ rfl
    -- The only call in progress is an `mmap` as well.
    intro u c hu
    by_cases hzero : u = 0
    · subst hzero
      cases hu
      exact ⟨rfl, rfl⟩
    · rw [show first.pc u = .idle from Function.update_of_ne hzero ..] at hu
      cases hu
  obtain ⟨s, hexec, hs⟩ := System.exists_exec ((syscalls usual).system ⟨0#64, 0#64⟩ [])
    (first.goto 1 (.waiting (page 1#64)))
    (.lock 0 :: accesses 0 7 ++ .leave 0 :: .lock 1 :: accesses 1 7 ++ [.leave 1])
    (fun s => s.history = [⟨0x7f01ffffd000, 0x1000⟩, ⟨0x7f01ffffe000, 0x2000⟩])
    (by decide +kernel)
  have hrun := hsecond.exec (fun l hl s => by
    simp [accesses] at hl
    rcases hl with rfl | rfl | rfl | rfl | rfl | rfl <;> trivial) hexec
  exact ⟨s, hrun, hs, concurrent_regions_apart usual s hrun⟩

/-- Two threads attach a segment of one page each. Both read `mmap_len` before either has
    changed it, and get the same address. -/
theorem same_address_twice :
    ∃ s, ((syscalls usual).system ⟨0#64, 0#64⟩ []).Reachable s ∧
      s.history = [⟨0x7f01fffff000, 0x1000⟩, ⟨0x7f01fffff000, 0x1000⟩] ∧
      ¬ (s.shared.heap usual :: s.history).Pairwise Region.Disjoint := by
  let attach : Call := .shmat 0#64 (some 0x1000#64) false
  obtain ⟨s, hexec, hhistory⟩ := System.exists_exec ((syscalls usual).system ⟨0#64, 0#64⟩ [])
    ⟨⟨0#64, 0#64⟩, [], none, fun _ => .idle⟩
    ([.call 0 attach, .call 1 attach] ++ accesses 0 6 ++ accesses 1 6 ++ accesses 0 2 ++
      [.leave 0] ++ accesses 1 2 ++ [.leave 1])
    (fun s => s.history = [⟨0x7f01fffff000, 0x1000⟩, ⟨0x7f01fffff000, 0x1000⟩])
    (by decide +kernel)
  refine ⟨s, .exec (.init rfl) hexec, hhistory, ?_⟩
  rw [hhistory]
  intro hpair
  have hdisjoint := (List.pairwise_cons.mp (List.pairwise_cons.mp hpair).2).1 _ List.mem_cons_self
  exact hdisjoint 0x7f01fffff000 ⟨by decide, by decide⟩ ⟨by decide, by decide⟩

end Sandbox
