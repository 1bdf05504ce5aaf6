import Libdbos.Libdune.Elf
import Libdbos.Sandbox.Confinement

/-! # Loading the Program

    `process_elf_ph` loads one segment of the executable into the lower window of
    the sandbox. It maps the segment in the guest page table, maps the file's bytes
    with `dune_elf_load_ph`, which fills the rest with zeros, and sets the final
    permissions. The bounds are checked once, on a sum of 64-bit fields.

    All pages that are touched are in the window and belong to the segment
    (`loader_in_window`), if and only if the segment is `Loadable`. It is not if

    * it ends with the last address, or is empty and begins at address 0 or
      inside a page;
    * the bytes behind the file's part begin inside a page: the anonymous mapping
      begins at the next page, but has the length of all these bytes, so it may
      lead out of the segment (`loader_escapes`).
-/

namespace Sandbox

open Dune

/-! ## Effects -/

/-- A change of the mappings, or of bytes by `memset`. -/
inductive Effect where
  | change (c : Change)
  | store (addr len : Word)
  deriving DecidableEq, Repr

def Effect.affects (level : Nat → Nat) (a : Nat) : Effect → Bool
  | .change c => c.affects level a
  | .store addr len => decide (addr.toNat ≤ a ∧ a < addr.toNat + len.toNat)

/-- A part of the loading, with its effects. -/
abbrev Loading := Except Err Unit × List Effect

def Loading.done : Loading := (.ok (), [])

def Loading.fail (e : Err) : Loading := (.error e, [])

def Loading.andThen (r next : Loading) : Loading :=
  match r.1 with
  | .ok _ => (next.1, r.2 ++ next.2)
  | .error e => (.error e, r.2)

/-- What the environment decides: whether `dune_vm_map_phys`, the two calls of
    `mmap`, the two of `mprotect` and `dune_vm_mprotect` succeed. -/
structure LoadAnswers where
  mapPhys : Bool
  file : Bool
  unlock : Bool
  lock : Bool
  anon : Bool
  mprotect : Bool

/-- A call of `mmap` or `mprotect`. -/
def loadCall (ok : Bool) (addr len : Word) : Loading :=
  if ok && hostAccepts addr len then (.ok (), [.change (.host addr len)])
  else (.error .enomem, (attempt addr len).map .change)

/-- A walk of the guest page table, which may fail on the way. -/
def guestCall (ok : Bool) (c : Change) : Loading :=
  (if ok then .ok () else .error .vm, [.change c])

/-! ## The loader -/

/-- The fields of a program header that are addresses and lengths. -/
structure Segment where
  vaddr : Word
  filesz : Word
  memsz : Word
  deriving DecidableEq, Repr

def Segment.ofPhdr (ph : Elf.Phdr) : Segment :=
  ⟨.ofNat 64 ph.vaddr, .ofNat 64 ph.filesz, .ofNat 64 ph.memsz⟩

def ptLoad : Nat := 1
def ptInterp : Nat := 3

/-- The bits `PF_X`, `PF_W` and `PF_R`. -/
def hasFlag (ph : Elf.Phdr) (bit : Nat) : Bool := ph.flags.testBit bit

/-- The part behind the file's bytes is zeroed up to the end of their last page, which is
    made writable for that if `modProt` is set, and mapped from there on. -/
def loadZeros (ans : LoadAnswers) (seg : Segment) (off : Word) (modProt : Bool) : Loading :=
  let start := seg.vaddr + seg.filesz + off
  let mapStart := pgRound start
  let protect (ok : Bool) : Loading :=
    if modProt then loadCall ok (mapStart - 0x1000#64) 0x1000#64 else .done
  let zero : Loading :=
    if start < mapStart then
      (protect ans.unlock).andThen <| Loading.andThen (.ok (), [.store start (mapStart - start)]) <|
        protect ans.lock
    else .done
  zero.andThen <| loadCall ans.anon mapStart (seg.memsz - seg.filesz)

/-- The function `dune_elf_load_ph`. -/
def elfLoadPh (ans : LoadAnswers) (ph : Elf.Phdr) (off : Word) : Loading :=
  let seg := Segment.ofPhdr ph
  if ph.type ≠ ptLoad then .fail .einval
  else if seg.memsz < seg.filesz then .fail .einval
  else
    (loadCall ans.file (pgAddr seg.vaddr + off) (seg.filesz + pgOff seg.vaddr)).andThen <|
      if seg.filesz < seg.memsz then loadZeros ans seg off (!hasFlag ph 1) else .done

/-- The function `dune_vm_mprotect`. -/
def vmMprotect (ok : Bool) (va len : Word) (perm : Perm) : Loading :=
  if !perm.r && perm.w then .fail .einval
  else guestCall ok (.mprotect va len (if perm.r then perm else ⟨false, false, false, false⟩))

def loaderVaddrOff : Word := 0x6f000000#64

/-- Where a segment is moved to: only `ET_DYN` executables are. -/
def loadOff (dyn : Bool) : Word := if dyn then loaderVaddrOff else 0#64

def processElfPh (dyn : Bool) (ans : LoadAnswers) (ph : Elf.Phdr) : Loading :=
  let seg := Segment.ofPhdr ph
  let off := loadOff dyn
  if ph.type = ptInterp then .fail .einval
  else if ph.type ≠ ptLoad then .done
  else if appMaxElfVaddr < seg.vaddr + off + seg.memsz ∨ appMaxElfVaddr < seg.memsz ∨
      seg.memsz < seg.filesz then .fail .einval
  else
    let va := seg.vaddr + off
    (guestCall ans.mapPhys (.mapPhys va seg.memsz va ⟨true, true, false, false⟩)).andThen <|
      (elfLoadPh ans ph off).andThen <|
        vmMprotect ans.mprotect va seg.memsz ⟨hasFlag ph 2, hasFlag ph 1, hasFlag ph 0, true⟩

/-! ## Pages of a segment -/

/-- An effect keeps to the pages of the window that have a byte of `[low, high)`. -/
def Effect.Inside (level : Nat → Nat) (low high : Nat) (e : Effect) : Prop :=
  ∀ a < 2 ^ 64, e.affects level a = true → (a / 4096 + 1) * 4096 ≤ 0x70000000 ∧
    ∃ b, b / 4096 = a / 4096 ∧ low ≤ b ∧ b < high

variable {level : Nat → Nat} {low high : Nat}

/-- All effects of a part are inside. -/
def Loading.Inside (level : Nat → Nat) (low high : Nat) (r : Loading) : Prop :=
  ∀ e ∈ r.2, e.Inside level low high

theorem Loading.Inside.done : Loading.done.Inside level low high := fun _ h => by cases h

theorem Loading.Inside.fail (e : Err) : (Loading.fail e).Inside level low high :=
  fun _ h => by cases h

/-- The next part counts only if the first has succeeded. -/
theorem Loading.Inside.andThen {r next : Loading} (hr : r.Inside level low high)
    (hnext : r.1 = .ok () → next.Inside level low high) :
    (r.andThen next).Inside level low high := by
  intro e he
  unfold Loading.andThen at he
  split at he
  next hok => exact (List.mem_append.mp he).elim (hr e) (hnext hok e)
  next => exact hr e he

theorem Loading.Inside.singleton {r : Except Err Unit} {e : Effect}
    (h : e.Inside level low high) : Loading.Inside level low high (r, [e]) := fun e' he' => by
  rw [List.mem_singleton.mp he']
  exact h

theorem loadCall_ok {ok : Bool} {addr len : Word} (h : (loadCall ok addr len).1 = .ok ()) :
    hostAccepts addr len = true := by
  unfold loadCall at h
  split at h
  next hok => exact (Bool.and_eq_true _ _ ▸ hok).2
  next => cases h

/-- A system call on pages of the segment. -/
theorem inside_loadCall (ok : Bool) {addr len : Word}
    (h : hostAccepts addr len = true → low < high ∧ low < addr.toNat + 4096 ∧
      addr.toNat + (len.toNat - 1) / 4096 * 4096 < high ∧ high ≤ 0x70000000) :
    (loadCall ok addr len).Inside level low high := by
  have hinside (hacc : hostAccepts addr len = true) :
      (Effect.change (.host addr len)).Inside level low high := by
    obtain ⟨⟨hpage, _⟩, hpos⟩ := hostAccepts_iff.mp hacc
    have hbounds := h hacc
    intro a _ ha
    simp only [Effect.affects, Change.affects, decide_eq_true_eq] at ha
    exact ⟨by omega, max low (a / 4096 * 4096), by omega⟩
  unfold loadCall
  split
  next hok => exact Loading.Inside.singleton (hinside (Bool.and_eq_true _ _ ▸ hok).2)
  next =>
    intro e he
    obtain ⟨c, hc, rfl⟩ := List.mem_map.mp he
    unfold attempt at hc
    split at hc
    next hacc =>
      rw [List.mem_singleton.mp hc]
      exact hinside hacc
    next => cases hc

/-! ## Segments that stay inside -/

/-- Where a segment begins. -/
def Segment.begin (seg : Segment) (off : Word) : Nat := (seg.vaddr + off).toNat

/-- The segment passes the check of `process_elf_ph`. -/
def Accepted (seg : Segment) (off : Word) : Prop :=
  ¬(appMaxElfVaddr < seg.vaddr + off + seg.memsz ∨ appMaxElfVaddr < seg.memsz ∨
    seg.memsz < seg.filesz)

/-- The segment does not end with the last address, and if it is empty, it begins with a page
    other than the first. If there are bytes behind the file's part, which is mapped, it ends
    with a page, or they need one page more than their number says. -/
structure Loadable (seg : Segment) (off : Word) : Prop where
  empty : seg.memsz.toNat = 0 → seg.begin off ≠ 0 ∧ seg.begin off % 4096 = 0
  sum : seg.begin off + seg.memsz.toNat ≠ 2 ^ 64
  zeros : seg.begin off + seg.memsz.toNat < 2 ^ 64 → seg.filesz.toNat < seg.memsz.toNat →
    0 < seg.filesz.toNat + seg.begin off % 4096 →
    (seg.begin off + seg.filesz.toNat) % 4096 = 0 ∨
    4096 ≤ (seg.begin off + seg.filesz.toNat) % 4096 +
      (seg.memsz.toNat - seg.filesz.toNat - 1) % 4096

/-- The addresses of an accepted segment, in numbers. -/
structure Checked (seg : Segment) (off : Word) : Prop where
  page : off.toNat % 4096 = 0
  file : seg.filesz.toNat ≤ seg.memsz.toNat
  size : seg.memsz.toNat ≤ 0x70000000
  high : (seg.begin off + seg.memsz.toNat) % 2 ^ 64 ≤ 0x70000000
  fileAddr : (pgAddr seg.vaddr + off).toNat = seg.begin off / 4096 * 4096
  fileLen : (seg.filesz + pgOff seg.vaddr).toNat = seg.filesz.toNat + seg.begin off % 4096

variable {seg : Segment} {off : Word}

theorem loadOff_mod (dyn : Bool) : (loadOff dyn).toNat % 4096 = 0 := by
  cases dyn <;> decide

theorem checked_of_accepted {dyn : Bool} (h : Accepted seg (loadOff dyn)) :
    Checked seg (loadOff dyn) := by
  have hmod := loadOff_mod dyn
  unfold Accepted at h
  rw [not_or, not_or, BitVec.not_lt, BitVec.not_lt, BitVec.not_lt] at h
  obtain ⟨hend, hsize, hfile⟩ := h
  have hend : (seg.vaddr + loadOff dyn + seg.memsz).toNat ≤ 0x70000000 := hend
  have hsize : seg.memsz.toNat ≤ 0x70000000 := hsize
  have hfile : seg.filesz.toNat ≤ seg.memsz.toNat := hfile
  have hbegin : seg.begin (loadOff dyn) = (seg.vaddr.toNat + (loadOff dyn).toNat) % 2 ^ 64 :=
    BitVec.toNat_add ..
  have hoff : (pgOff seg.vaddr).toNat = seg.vaddr.toNat % 4096 := toNat_pgOff _
  refine ⟨hmod, hfile, hsize, ?_, ?_, ?_⟩
  · rwa [BitVec.toNat_add] at hend
  · rw [BitVec.toNat_add, toNat_pgAddr, hbegin]
    have := seg.vaddr.isLt
    have := (loadOff dyn).isLt
    omega
  · rw [BitVec.toNat_add, hoff, hbegin]
    omega

theorem toNat_start (hfile : seg.filesz.toNat ≤ seg.memsz.toNat)
    (h : seg.begin off + seg.memsz.toNat < 2 ^ 64) :
    (seg.vaddr + seg.filesz + off).toNat = seg.begin off + seg.filesz.toNat := by
  unfold Segment.begin at h ⊢
  bv_omega

/-- A walk over the segment meets its pages only. -/
theorem inside_guest (h : Checked seg off) (hload : Loadable seg off) (hlevel : ∀ a, level a ≤ 1)
    (hlow : ∀ a < 0x70000000, level a = 0) {c : Change}
    (hc : ∀ a, c.affects level a = guestMeets level (seg.vaddr + off) seg.memsz a) :
    (Effect.change c).Inside level (seg.begin off) (seg.begin off + seg.memsz.toNat) := by
  intro a halt ha
  have hmeets : guestMeets level (seg.vaddr + off) seg.memsz a = true := by rwa [← hc]
  obtain ⟨hempty, hsum, _⟩ := hload
  obtain ⟨_, _, hsize, hhigh, _, _⟩ := h
  have hbegin : (seg.vaddr + off).toNat = seg.begin off := rfl
  have hlt : seg.begin off < 2 ^ 64 := (seg.vaddr + off).isLt
  rw [guestMeets, leafMeets, toNat_lastByte, hbegin, Bool.and_eq_true, decide_eq_true_eq,
    decide_eq_true_eq] at hmeets
  clear hc ha hbegin
  generalize seg.begin off = va at *
  generalize seg.memsz.toNat = len at *
  -- a walk that wraps around meets nothing
  have hend : va + len ≤ 0x70000000 := by
    by_contra hwrap
    have hcases : level a = 0 ∨ level a = 1 := by have := hlevel a; omega
    rcases hcases with hk | hk <;> rw [hk, unitOf, span] at hmeets <;> omega
  rw [show (va + len + (2 ^ 64 - 1)) % 2 ^ 64 = va + len - 1 by omega] at hmeets
  clear hsum hhigh hlt halt hsize
  have hpage : level a = 0 := by
    by_contra hne
    have hlarge : level a = 1 := by have := hlevel a; omega
    have hwindow : 0x70000000 ≤ a := Nat.le_of_not_lt fun hin => hne (hlow a hin)
    rw [hlarge, unitOf, span] at hmeets
    omega
  rw [hpage, unitOf, span] at hmeets
  exact ⟨by omega, max va (a / 4096 * 4096), by omega⟩

/-- The file's part: from the first page of the segment to the last byte of the file. -/
theorem inside_file (h : Checked seg off) (hload : Loadable seg off) (ok : Bool) :
    (loadCall ok (pgAddr seg.vaddr + off) (seg.filesz + pgOff seg.vaddr)).Inside level
      (seg.begin off) (seg.begin off + seg.memsz.toNat) := by
  obtain ⟨_, hfile, hsize, hhigh, haddr, hlen⟩ := h
  refine inside_loadCall ok fun hacc => ?_
  obtain ⟨⟨_, huser⟩, hpos⟩ := hostAccepts_iff.mp hacc
  have hempty := hload.empty
  rw [haddr] at huser ⊢
  rw [hlen] at huser hpos ⊢
  omega

/-- The zeros: the last page of the file's part, and whole pages behind it. -/
theorem inside_zeros (h : Checked seg off) (hhigh : seg.begin off + seg.memsz.toNat ≤ 0x70000000)
    (hrest : seg.filesz.toNat < seg.memsz.toNat)
    (hzeros : (seg.begin off + seg.filesz.toNat) % 4096 = 0 ∨
      4096 ≤ (seg.begin off + seg.filesz.toNat) % 4096 +
        (seg.memsz.toNat - seg.filesz.toNat - 1) % 4096) (ans : LoadAnswers) (modProt : Bool) :
    (loadZeros ans seg off modProt).Inside level
      (seg.begin off) (seg.begin off + seg.memsz.toNat) := by
  obtain ⟨start, hstartdef⟩ : ∃ start, start = seg.vaddr + seg.filesz + off := ⟨_, rfl⟩
  have hstart : start.toNat = seg.begin off + seg.filesz.toNat := by
    rw [hstartdef, toNat_start h.file (by omega)]
  have hmap : (pgRound start).toNat = (start.toNat + 4095) / 4096 * 4096 :=
    toNat_pgRound (by omega)
  have hlen : (seg.memsz - seg.filesz).toNat = seg.memsz.toNat - seg.filesz.toNat := by
    rw [BitVec.toNat_sub_of_le (BitVec.le_def.mpr h.file)]
  unfold loadZeros
  rw [← hstartdef]
  refine Loading.Inside.andThen ?_ fun _ => ?_
  · split
    next hlt =>
      have hlt : start.toNat < (pgRound start).toNat := hlt
      have hlast : (pgRound start - 0x1000#64).toNat = start.toNat / 4096 * 4096 := by bv_omega
      have hprotect (ok : Bool) : Loading.Inside level (seg.begin off)
          (seg.begin off + seg.memsz.toNat) (if modProt then
            loadCall ok (pgRound start - 0x1000#64) 0x1000#64 else .done) := by
        split
        · refine inside_loadCall ok (fun _ => ?_)
          rw [hlast, show (0x1000#64 : Word).toNat = 4096 from rfl]
          omega
        · exact .done
      refine (hprotect _).andThen fun _ => .andThen (.singleton fun a _ ha => ?_) fun _ =>
        hprotect _
      simp only [Effect.affects, decide_eq_true_eq] at ha
      rw [BitVec.toNat_sub_of_le (BitVec.le_def.mpr (by omega))] at ha
      exact ⟨by omega, a, by omega⟩
    next => exact .done
  · refine inside_loadCall _ (fun _ => ?_)
    rw [hlen, hmap]
    omega

section Header

variable {dyn : Bool} {ph : Elf.Phdr} (hseg : seg = .ofPhdr ph) (hoff : off = loadOff dyn)

include hseg hoff

theorem inside_of_loadable (hload : ph.type = ptLoad → Accepted seg off → Loadable seg off)
    (hlevel : ∀ a, level a ≤ 1) (hlow : ∀ a < 0x70000000, level a = 0) (ans : LoadAnswers) :
    (processElfPh dyn ans ph).Inside level (seg.begin off)
      (seg.begin off + seg.memsz.toNat) := by
  unfold processElfPh elfLoadPh
  rw [← hseg, ← hoff]
  dsimp only
  split
  · exact .fail _
  · split
    · exact .done
    next htype =>
      split
      · exact .fail _
      next haccepted =>
        have hchecked : Checked seg off := hoff ▸ checked_of_accepted (hoff ▸ haccepted)
        have hload := hload (not_not.mp htype) haccepted
        have hguest {c : Change} (hc : ∀ a, c.affects level a = guestMeets level _ _ a) :=
          inside_guest hchecked hload hlevel hlow hc
        refine .andThen (.singleton (hguest fun _ => rfl)) fun _ => .andThen ?_ fun _ => ?_
        · split
          · exact .fail _
          · refine .andThen (inside_file hchecked hload _) fun hok => ?_
            split
            next hrest =>
              have hrest : seg.filesz.toNat < seg.memsz.toNat := hrest
              obtain ⟨⟨_, huser⟩, hpos⟩ := hostAccepts_iff.mp (loadCall_ok hok)
              rw [hchecked.fileAddr] at huser
              rw [hchecked.fileLen] at huser hpos
              have hhigh := hchecked.high
              have hsize := hchecked.size
              exact inside_zeros hchecked (by omega) hrest
                (hload.zeros (by omega) hrest hpos) _ _
            next => exact .done
        · unfold vmMprotect
          split
          · exact .fail _
          · exact .singleton (hguest fun _ => rfl)

/-- Everything succeeds. -/
def allLoaded : LoadAnswers := ⟨true, true, true, true, true, true⟩

variable (htype : ph.type = ptLoad) (haccepted : Accepted seg off)

include htype haccepted

/-- The first effect: the guest pages of the segment. -/
theorem guest_mem : .change (.mapPhys (seg.vaddr + off) seg.memsz (seg.vaddr + off)
    ⟨true, true, false, false⟩) ∈ (processElfPh dyn allLoaded ph).2 := by
  unfold processElfPh
  rw [← hseg, ← hoff]
  dsimp only
  rw [if_neg (by rw [htype]; decide), if_neg (not_not.mpr htype), if_neg haccepted]
  simp [Loading.andThen, guestCall, allLoaded]

/-- The bytes behind the file's part are mapped. -/
theorem zeros_mem
    (hfile : hostAccepts (pgAddr seg.vaddr + off) (seg.filesz + pgOff seg.vaddr) = true)
    (hrest : seg.filesz < seg.memsz)
    (hlast : hostAccepts (pgRound (seg.vaddr + seg.filesz + off) - 0x1000#64) 0x1000#64 = true)
    (hanon : hostAccepts (pgRound (seg.vaddr + seg.filesz + off)) (seg.memsz - seg.filesz) =
      true) :
    .change (.host (pgRound (seg.vaddr + seg.filesz + off)) (seg.memsz - seg.filesz)) ∈
      (processElfPh dyn allLoaded ph).2 := by
  have hzeros (modProt : Bool) : ∃ effects, loadZeros allLoaded seg off modProt =
      (.ok (), effects) ∧ .change (.host (pgRound (seg.vaddr + seg.filesz + off))
        (seg.memsz - seg.filesz)) ∈ effects := by
    unfold loadZeros
    dsimp only
    split <;> cases modProt <;>
      simp [Loading.andThen, Loading.done, loadCall, allLoaded, hlast, hanon]
  obtain ⟨effects, heffects, hmem⟩ := hzeros (!hasFlag ph 1)
  unfold processElfPh elfLoadPh
  rw [← hseg, ← hoff]
  dsimp only
  rw [if_neg (by rw [htype]; decide), if_neg (not_not.mpr htype), if_neg haccepted,
    if_neg (not_not.mpr htype), if_neg fun h => haccepted (.inr (.inr h)), if_pos hrest, heffects]
  simp [Loading.andThen, guestCall, loadCall, allLoaded, hfile, hmem]

/-- What a segment needs whose effects are all inside. -/
theorem loadable_of_inside (hlow : ∀ a < 0x70000000, level a = 0)
    (h : (processElfPh dyn allLoaded ph).Inside level (seg.begin off)
      (seg.begin off + seg.memsz.toNat)) : Loadable seg off := by
  have hguest := h _ (guest_mem hseg hoff htype haccepted)
  obtain ⟨hpage, hfile, hsize, hhigh, haddr, hlen⟩ : Checked seg off :=
    hoff ▸ checked_of_accepted (hoff ▸ haccepted)
  have hbegin : (seg.vaddr + off).toNat = seg.begin off := rfl
  have hlt := (seg.vaddr + off).isLt
  refine ⟨fun hzero => ⟨fun hfirst => ?_, ?_⟩, fun hend => ?_, fun hin hrest hpos => ?_⟩
  · -- the empty segment at address 0
    have hva : seg.vaddr + off = 0#64 := BitVec.eq_of_toNat_eq hfirst
    have hsz : seg.memsz = 0#64 := BitVec.eq_of_toNat_eq hzero
    rw [hva, hsz] at hguest
    have hall := hguest 0x70000000 (by decide) (guestMeets_zero level (by decide))
    omega
  · -- an empty segment inside a page
    by_contra hunaligned
    rw [hzero, Nat.add_zero] at hhigh
    have hlast : (seg.vaddr + off + seg.memsz - 1#64).toNat = seg.begin off - 1 := by bv_omega
    obtain ⟨_, b, _, hb⟩ := hguest (seg.begin off) (by omega) (by
      show leafMeets _ _ _ _ = true
      rw [leafMeets, hlast, hbegin, hlow _ (by omega), unitOf, span, Bool.and_eq_true,
        decide_eq_true_eq, decide_eq_true_eq]
      omega)
    omega
  · -- the last page of all
    have hunit := unitOf_le (level (2 ^ 64 - 1)) ((2 ^ 64 - 1) / 4096)
    have hnext := lt_unitOf_add (level (2 ^ 64 - 1)) ((2 ^ 64 - 1) / 4096)
    have hlast : (seg.vaddr + off + seg.memsz - 1#64).toNat = 2 ^ 64 - 1 := by bv_omega
    have htop := hguest (2 ^ 64 - 1) (by decide) (by
      show leafMeets _ _ _ _ = true
      rw [leafMeets, hlast, hbegin, span, Bool.and_eq_true, decide_eq_true_eq, decide_eq_true_eq]
      omega)
    omega
  · -- the page behind the segment
    by_contra hzeros
    have hstart := toNat_start hfile hin
    have hround := @toNat_pgRound (seg.vaddr + seg.filesz + off) (by omega)
    rw [hstart] at hround
    have hsub : (seg.memsz - seg.filesz).toNat = seg.memsz.toNat - seg.filesz.toNat :=
      BitVec.toNat_sub_of_le (BitVec.le_def.mpr hfile)
    have hmem := zeros_mem hseg hoff htype haccepted
      (hostAccepts_iff.mpr (by rw [haddr, hlen]; omega)) hrest
      (hostAccepts_iff.mpr (by
        rw [BitVec.toNat_sub, hround, show (0x1000#64 : Word).toNat = 4096 from rfl]
        omega))
      (hostAccepts_iff.mpr (by rw [hround, hsub]; omega))
    obtain ⟨_, b, hb⟩ := h _ hmem ((pgRound (seg.vaddr + seg.filesz + off)).toNat +
      (seg.memsz.toNat - seg.filesz.toNat - 1) / 4096 * 4096) (by rw [hround]; omega) (by
        simp only [Effect.affects, Change.affects, decide_eq_true_eq, hsub]
        omega)
    rw [hround] at hb
    omega

end Header

/-- **The loader stays in the window**: whatever succeeds or fails, every page whose mappings,
    protection or contents the loader changes is below `APP_MAX_ELF_VADDR` and has a byte of the
    segment, if and only if the segment is loadable or not accepted, or is none. -/
theorem loader_in_window (dyn : Bool) (ph : Elf.Phdr) (level : Nat → Nat)
    (hlevel : ∀ a, level a ≤ 1) (hlow : ∀ a < 0x70000000, level a = 0) :
    (∀ ans, ∀ e ∈ (processElfPh dyn ans ph).2, e.Inside level
      ((Segment.ofPhdr ph).begin (loadOff dyn))
      ((Segment.ofPhdr ph).begin (loadOff dyn) + (Segment.ofPhdr ph).memsz.toNat)) ↔
    (ph.type = ptLoad → Accepted (.ofPhdr ph) (loadOff dyn) →
      Loadable (.ofPhdr ph) (loadOff dyn)) :=
  ⟨fun h htype haccepted => loadable_of_inside rfl rfl htype haccepted hlow (h allLoaded),
    fun hload ans => inside_of_loadable rfl rfl hload hlevel hlow ans⟩

/-- A page of code from the file and a page of zeros. -/
theorem loader_in_window_two_pages :
    (processElfPh false allLoaded ⟨1, 6, 0, 0x400000, 0x1000, 0x2000⟩).1 = .ok () ∧
    ∀ e ∈ (processElfPh false allLoaded ⟨1, 6, 0, 0x400000, 0x1000, 0x2000⟩).2,
      e.Inside (fun _ => 0) 0x400000 0x402000 :=
  ⟨by decide +kernel, (loader_in_window false ⟨1, 6, 0, 0x400000, 0x1000, 0x2000⟩ (fun _ => 0)
    (fun _ => Nat.zero_le 1) (fun _ _ => rfl)).mpr (fun _ _ => ⟨by decide, by decide,
      fun _ _ _ => .inl (by decide)⟩) allLoaded⟩

/-- The last page of the window, of which 16 bytes are in the file: the page behind the window
    is mapped as well. A page at the end of the address space passes the check, and the top
    page of the guest is mapped. -/
theorem loader_escapes :
    ((processElfPh false allLoaded ⟨1, 6, 0, 0x6ffff000, 0x10, 0x1000⟩).1 = .ok () ∧
      ∃ e ∈ (processElfPh false allLoaded ⟨1, 6, 0, 0x6ffff000, 0x10, 0x1000⟩).2,
        e.affects (fun _ => 0) 0x70000000 = true) ∧
    ∃ e ∈ (processElfPh false allLoaded ⟨1, 6, 0, 0xfffffffffffff000, 0x1000, 0x1000⟩).2,
      e.affects (fun _ => 0) 0xfffffffffffff000 = true := by
  decide +kernel

end Sandbox
