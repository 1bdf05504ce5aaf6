import Libdbos.Framework.Bytes
import Mathlib.Algebra.Group.Int.Defs

/-! # The ELF Reader

    `elf.c` opens an ELF image in memory or in a file and goes through its
    program and section headers. Both kinds of images are read through
    `elf_read`, except for the program headers, which are always read from the
    file descriptor.

    `Stop.fault` stands for an access outside the image, the section header table
    or the string table, and for the release of a pointer that is no block. The
    header has the offsets, counts and indices; they are cut to an `int` on the
    way to `elf_read`, and `e_shstrndx` may be equal to the number of sections.
    The reader stays in bounds exactly for the images for which this does no
    harm (`Sane`), and treats both kinds alike exactly where also no program
    header can be read (`Regular`). An image that is no ELF image is closed
    again, with pointers that nobody has initialised (`Freeable`).
-/

namespace Dune.Elf

open Bytes

variable {image : List Byte}

/-! ## Images -/

inductive Source where
  /-- `dune_elf_open_mem`: the descriptor is -1. -/
  | mem (image : List Byte)
  /-- `dune_elf_open`. -/
  | file (image : List Byte)

inductive Stop where
  /-- A negative result. -/
  | error (code : Int)
  | fault
  deriving DecidableEq

abbrev Result := Except Stop

def eio : Int := -5
def enomem : Int := -12
def einval : Int := -22

/-- The low 32 bits as an `int`. -/
def i32 (v : Nat) : Int := (BitVec.ofNat 32 v).toInt

/-- 64 bits as an `off_t`. -/
def i64 (v : Nat) : Int := (BitVec.ofNat 64 v).toInt

def slice (b : List Byte) (off len : Nat) : List Byte := (b.drop off).take len

/-- A number in a structure. -/
def field (b : List Byte) (off len : Nat) : Nat := ofLE (slice b off len)

/-- `pread` reads at most this many bytes. -/
def maxRw : Nat := 0x7ffff000

/-- `pread` on a regular file. -/
def pread (image : List Byte) (count off : Int) : Int × List Byte :=
  if off < 0 ∨ count < 0 then (-1, [])
  else
    let data := slice image off.toNat (min count.toNat maxRw)
    (data.length, data)

def elfRead (src : Source) (len off : Int) : Result (Int × List Byte) :=
  match src with
  | .file image => .ok (pread image len off)
  | .mem image =>
    let rd : Int := image.length - off
    -- the difference does not fit an `int`
    if 2 ^ 31 ≤ rd then .error .fault
    else if rd ≤ 0 then .ok (0, [])
    else
      let rd := if len < rd then len else rd
      if rd = 0 then .ok (0, [])
      else if rd < 0 ∨ off < 0 then .error .fault
      else .ok (rd, slice image off.toNat rd.toNat)

/-! ## Opening -/

/-- The fields of an `Elf64_Ehdr` that are used. -/
structure Ehdr where
  type : Nat
  phoff : Nat
  shoff : Nat
  phentsize : Nat
  phnum : Nat
  shentsize : Nat
  shnum : Nat
  shstrndx : Nat
  deriving DecidableEq

def Ehdr.ofBytes (b : List Byte) : Ehdr where
  type := field b 16 2
  phoff := field b 32 8
  shoff := field b 40 8
  phentsize := field b 54 2
  phnum := field b 56 2
  shentsize := field b 58 2
  shnum := field b 60 2
  shstrndx := field b 62 2

/-- `e_ident` and `e_version`: the magic number, 64 bits, little endian and version 1. -/
def isElf64 (b : List Byte) : Bool :=
  slice b 0 7 == [0x7f, 0x45, 0x4c, 0x46, 2, 1, 1] && field b 20 4 == 1

def emX8664 : Nat := 62

/-- What is in a `struct dune_elf` before it is opened, and the blocks that can be released. -/
structure Before where
  phdr : Nat
  shdr : Nat
  shdrstr : Nat
  live : Nat → Bool

/-- The test for `NULL`, and `free`. -/
def free (live : Nat → Bool) (p : Nat) : Result (Nat → Bool) :=
  if p = 0 then .ok live
  else if live p then .ok (Function.update live p false)
  else .error .fault

/-- The releases of `dune_elf_close`. -/
def elfClose (b : Before) : Result (Nat → Bool) :=
  (free b.live b.phdr).bind fun live => (free live b.shdr).bind fun live => free live b.shdrstr

/-- `do_elf_open`. -/
def elfOpen (src : Source) (b : Before) : Result Ehdr :=
  -- `out`: the pointers are only set to `NULL` behind the checks
  let out (code : Int) : Result Ehdr := (elfClose b).bind fun _ => .error (.error code)
  (elfRead src 64 0).bind fun (ret, hdr) =>
    if ret ≠ 64 then out eio
    else if !isElf64 hdr then out einval
    else if field hdr 18 2 ≠ emX8664 then out einval
    else .ok (.ofBytes hdr)

/-! ## Program headers -/

/-- The fields of an `Elf64_Phdr` that are used. -/
structure Phdr where
  type : Nat
  flags : Nat
  offset : Nat
  vaddr : Nat
  filesz : Nat
  memsz : Nat
  deriving DecidableEq

def phdrAt (table : List Byte) (i : Nat) : Phdr :=
  let b := slice table (i * 56) 56
  ⟨field b 0 4, field b 4 4, field b 8 8, field b 16 8, field b 32 8, field b 40 8⟩

/-- `pread` on `elf->fd`. -/
def Source.pread : Source → Int → Int → Int × List Byte
  | .mem _, _, _ => (-1, [])
  | .file image, count, off => Elf.pread image count off

/-- `alloc` says which calls of `malloc` succeed. -/
def openPhs (src : Source) (alloc : Nat → Bool) (h : Ehdr) : Result (List Byte) :=
  if h.phentsize ≠ 56 then .error (.error einval)
  else if h.phnum > 40 then .error (.error einval)
  else if !alloc (h.phnum * 56) then .error (.error enomem)
  else if (src.pread (h.phnum * 56 : Nat) (i64 h.phoff)).1 ≠ (h.phnum * 56 : Nat) then
    .error (.error eio)
  else .ok (src.pread (h.phnum * 56 : Nat) (i64 h.phoff)).2

/-- A loop over headers: those for which the callback was called, and the result. -/
def visitAll {α : Type} (cb : α → Int) : List α → List α × Int
  | [] => ([], 0)
  | v :: vs =>
    if cb v ≠ 0 then ([v], cb v) else ((v :: (visitAll cb vs).1), (visitAll cb vs).2)

/-- `dune_elf_iter_ph` right after opening. -/
def iterPh (src : Source) (alloc : Nat → Bool) (cb : Phdr → Int) (h : Ehdr) :
    Result (List Phdr × Int) :=
  match openPhs src alloc h with
  | .ok table => .ok (visitAll cb ((List.range h.phnum).map (phdrAt table)))
  | .error (.error code) => .ok ([], code)
  | .error .fault => .error .fault

/-! ## Section headers -/

/-- The fields of an `Elf64_Shdr` that are used. -/
structure Shdr where
  name : Nat
  type : Nat
  offset : Nat
  size : Nat
  deriving DecidableEq

def shdrAt (table : List Byte) (i : Nat) : Shdr :=
  let b := slice table (i * 64) 64
  ⟨field b 0 4, field b 4 4, field b 24 8, field b 32 8⟩

def shtStrtab : Nat := 3

/-- The string table; the `int` read is compared as a `size_t`. -/
def openStrtab (src : Source) (alloc : Nat → Bool) (str : Shdr) : Result (List Byte) :=
  if str.type ≠ shtStrtab then .error (.error einval)
  else if !alloc str.size then .error (.error enomem)
  else (elfRead src (i32 str.size) (i32 str.offset)).bind fun (ret, strtab) =>
    if (ret % 2 ^ 64).toNat ≠ str.size then .error (.error eio) else .ok strtab

/-- The section header table and the string table. -/
def openShs (src : Source) (alloc : Nat → Bool) (h : Ehdr) : Result (List Byte × List Byte) :=
  if h.shentsize ≠ 64 then .error (.error einval)
  else if h.shnum > 100 then .error (.error einval)
  else if !alloc (h.shnum * 64) then .error (.error enomem)
  else (elfRead src (h.shnum * 64 : Nat) (i32 h.shoff)).bind fun (ret, shdr) =>
    if ret ≠ (h.shnum * 64 : Nat) then .error (.error eio)
    else if h.shstrndx > h.shnum then .error (.error einval)
    -- `shdr[e_shstrndx]` is behind the table
    else if h.shstrndx = h.shnum then .error .fault
    else (openStrtab src alloc (shdrAt shdr h.shstrndx)).map fun strtab => (shdr, strtab)

def maxSname : Nat := 40

/-- The bytes that `strnlen` goes through before the NUL, at most `n` of them. -/
def strn (tab : List Byte) : Nat → Nat → Result (List Byte)
  | 0, _ => .ok []
  | n + 1, off =>
    match tab[off]? with
    | none => .error .fault
    | some b => if b = 0 then .ok [] else (strn tab n (off + 1)).map (b :: ·)

/-- What the callback is called with. -/
structure Section where
  name : List Byte
  num : Nat
  shdr : Shdr
  deriving DecidableEq

/-- The loop of `dune_elf_iter_sh` over the sections `is`. -/
def iterShLoop (cb : Section → Int) (shdr strtab : List Byte) :
    List Nat → Result (List Section × Int)
  | [] => .ok ([], 0)
  | i :: is =>
    (strn strtab maxSname (shdrAt shdr i).name).bind fun name =>
      if name.length = maxSname then .ok ([], einval)
      else
        let v : Section := ⟨name, i, shdrAt shdr i⟩
        if cb v ≠ 0 then .ok ([v], cb v)
        else (iterShLoop cb shdr strtab is).map fun r => (v :: r.1, r.2)

/-- `dune_elf_iter_sh` right after opening. -/
def iterSh (src : Source) (alloc : Nat → Bool) (cb : Section → Int) (h : Ehdr) :
    Result (List Section × Int) :=
  match openShs src alloc h with
  | .ok (shdr, strtab) => iterShLoop cb shdr strtab (List.range h.shnum)
  | .error (.error code) => .ok ([], code)
  | .error .fault => .error .fault

/-! ## Reads -/

@[simp] theorem length_slice (b : List Byte) (off len : Nat) :
    (slice b off len).length = min len (b.length - off) := by
  rw [slice, List.length_take, List.length_drop]

/-- A read from memory that stays inside the image. -/
def InBounds (image : List Byte) (len off : Int) : Prop :=
  image.length - off < 2 ^ 31 ∧ (image.length ≤ off ∨ len = 0 ∨ 0 ≤ off ∧ 0 < len)

instance (image : List Byte) (len off : Int) : Decidable (InBounds image len off) :=
  inferInstanceAs (Decidable (_ ∧ _))

/-- A read that stays inside the image gives what there is of the range. -/
theorem elfRead_mem (image : List Byte) (len off : Int) :
    elfRead (.mem image) len off = if InBounds image len off then
      .ok ((slice image off.toNat len.toNat).length, slice image off.toNat len.toNat)
      else .error .fault := by
  have hlen := length_slice image off.toNat len.toNat
  have hrd : (if len < image.length - off then len else image.length - off) =
      min len (image.length - off) := by
    split <;> omega
  unfold elfRead
  dsimp only
  rw [hrd]
  by_cases hin : InBounds image len off
  · obtain ⟨hbig, hcase⟩ := id hin
    rw [if_pos hin, if_neg (by omega)]
    have hempty (h : image.length ≤ off ∨ len = 0) :
        slice image off.toNat len.toNat = [] := by
      rw [← List.length_eq_zero_iff]
      omega
    split
    next hend => rw [hempty (by omega)]; rfl
    next hend =>
      split
      next hzero => rw [hempty (by omega)]; rfl
      next hzero =>
        have hall : slice image off.toNat (min len (image.length - off)).toNat =
            slice image off.toNat len.toNat := by
          rw [slice, slice, List.take_eq_take_iff, List.length_drop]
          omega
        rw [if_neg (by omega), hall, hlen,
          show ((min len.toNat (image.length - off.toNat) : Nat) : Int) =
            min len (image.length - off) by omega]
  · have hout : ¬(image.length - off < 2 ^ 31 ∧
        (image.length ≤ off ∨ len = 0 ∨ 0 ≤ off ∧ 0 < len)) := hin
    rw [if_neg hin]
    split
    · rfl
    · rw [if_neg (by omega), if_neg (by omega), if_pos (by omega)]

theorem elfRead_file {len off : Nat} (hmax : len ≤ maxRw) :
    elfRead (.file image) len off =
      .ok ((slice image off len).length, slice image off len) := by
  unfold elfRead pread
  dsimp only
  rw [if_neg (by omega), Int.toNat_natCast, Int.toNat_natCast, Nat.min_eq_left hmax]

/-! ## What an image contains -/

def ehdr (image : List Byte) : Ehdr := .ofBytes (slice image 0 64)

def shTable (image : List Byte) : List Byte :=
  slice image (i32 (ehdr image).shoff).toNat ((ehdr image).shnum * 64)

def strHdr (image : List Byte) : Shdr := shdrAt (shTable image) (ehdr image).shstrndx

def strTab (image : List Byte) : List Byte :=
  slice image (i32 (strHdr image).offset).toNat (i32 (strHdr image).size).toNat

/-- The string at an offset of the string table. -/
def nameAt (tab : List Byte) (off : Nat) : List Byte := (tab.drop off).takeWhile (· != 0)

/-- The name of a section. -/
def nameOf (shdr strtab : List Byte) (i : Nat) : List Byte := nameAt strtab (shdrAt shdr i).name

/-- All sections with their names. -/
def sections (image : List Byte) : List Section :=
  (List.range (ehdr image).shnum).map fun i =>
    ⟨nameOf (shTable image) (strTab image) i, i, shdrAt (shTable image) i⟩

/-! ## Which images are safe -/

/-- The first 64 bytes are the header of an image for this machine. -/
def headerOk (image : List Byte) : Bool :=
  decide (64 ≤ image.length) && isElf64 (slice image 0 64) &&
    field (slice image 0 64) 18 2 == emX8664

/-- The three pointers are `NULL` or blocks, and no block is there twice. -/
structure Freeable (b : Before) : Prop where
  phdr : b.phdr ≠ 0 → b.live b.phdr = true
  shdr : b.shdr ≠ 0 → b.live b.shdr = true ∧ b.shdr ≠ b.phdr
  shdrstr : b.shdrstr ≠ 0 → b.live b.shdrstr = true ∧ b.shdrstr ≠ b.phdr ∧ b.shdrstr ≠ b.shdr

/-- Every name has its end or 40 bytes in the string table. Behind a name of 40 bytes nothing is
    read any more. -/
def NamesFit (shdr strtab : List Byte) : List Nat → Prop
  | [] => True
  | i :: is =>
    (maxSname ≤ (nameOf shdr strtab i).length ∨
      (shdrAt shdr i).name + (nameOf shdr strtab i).length < strtab.length) ∧
    ((nameOf shdr strtab i).length < maxSname → NamesFit shdr strtab is)

/-- The section header table is read. -/
def ShsChecked (image : List Byte) : Prop :=
  (ehdr image).shentsize = 64 ∧ (ehdr image).shnum ≤ 100

/-- The section header table is complete, and the index of the string table passes. -/
def StrndxChecked (image : List Byte) : Prop :=
  ShsChecked image ∧ (shTable image).length = (ehdr image).shnum * 64 ∧
    (ehdr image).shstrndx ≤ (ehdr image).shnum

/-- The string table is read. -/
def StrChecked (image : List Byte) : Prop :=
  StrndxChecked image ∧ (strHdr image).type = shtStrtab

/-- An image for which the reader stays in bounds. -/
structure Sane (image : List Byte) : Prop where
  shs : ShsChecked image → InBounds image ((ehdr image).shnum * 64 : Nat) (i32 (ehdr image).shoff)
  strndx : StrndxChecked image → (ehdr image).shstrndx ≠ (ehdr image).shnum
  str : StrChecked image → InBounds image (i32 (strHdr image).size) (i32 (strHdr image).offset)
  names : StrChecked image → (strTab image).length = (strHdr image).size →
    NamesFit (shTable image) (strTab image) (List.range (ehdr image).shnum)

theorem free_ok {live : Nat → Bool} {p : Nat} (h : p ≠ 0 → live p = true) :
    ∃ live', free live p = .ok live' ∧ ∀ q, q ≠ 0 → (live' q = true ↔ live q = true ∧ q ≠ p) := by
  unfold free
  split
  next hp => exact ⟨live, rfl, fun q hq => ⟨fun hlive => ⟨hlive, hp ▸ hq⟩, And.left⟩⟩
  next hp =>
    rw [if_pos (h hp)]
    refine ⟨_, rfl, fun q _ => ?_⟩
    by_cases hq : q = p <;> simp [hq]

theorem free_fault {live : Nat → Bool} {p : Nat} (h : ¬(p ≠ 0 → live p = true)) :
    free live p = .error .fault := by
  rw [Classical.not_imp] at h
  rw [free, if_neg h.1, if_neg h.2]

/-- The pointers are released one after the other. -/
theorem elfClose_cases (b : Before) :
    (Freeable b ∧ ∃ live, elfClose b = .ok live) ∨ (¬Freeable b ∧ elfClose b = .error .fault) := by
  unfold elfClose
  by_cases hphdr : b.phdr ≠ 0 → b.live b.phdr = true
  · obtain ⟨live, hfree, hlive⟩ := free_ok hphdr
    rw [hfree]
    simp only [Except.bind]
    by_cases hshdr : b.shdr ≠ 0 → live b.shdr = true
    · obtain ⟨live', hfree', hlive'⟩ := free_ok hshdr
      rw [hfree']
      simp only
      by_cases hstr : b.shdrstr ≠ 0 → live' b.shdrstr = true
      · obtain ⟨live'', hfree'', _⟩ := free_ok hstr
        refine .inl ⟨⟨hphdr, fun h => (hlive _ h).mp (hshdr h), fun h => ?_⟩, live'', hfree''⟩
        have hlast := (hlive' _ h).mp (hstr h)
        have hfirst := (hlive _ h).mp hlast.1
        exact ⟨hfirst.1, hfirst.2, hlast.2⟩
      · refine .inr ⟨fun h => hstr fun hne => ?_, free_fault hstr⟩
        obtain ⟨hl, hp, hs⟩ := h.shdrstr hne
        exact (hlive' _ hne).mpr ⟨(hlive _ hne).mpr ⟨hl, hp⟩, hs⟩
    · rw [free_fault hshdr]
      exact .inr ⟨fun h => hshdr fun hne => (hlive _ hne).mpr (h.shdr hne), rfl⟩
  · rw [free_fault hphdr]
    exact .inr ⟨fun h => hphdr h.phdr, rfl⟩

theorem elfOpen_cases (himage : image.length < 2 ^ 31) (b : Before) :
    (headerOk image = true ∧ elfOpen (.mem image) b = .ok (ehdr image)) ∨
    (headerOk image = false ∧ ∃ code,
      elfOpen (.mem image) b = (elfClose b).bind fun _ => .error (.error code)) := by
  unfold elfOpen headerOk
  rw [elfRead_mem, if_pos ⟨by omega, .inr (.inr (by decide))⟩]
  simp only [Except.bind, length_slice, Int.toNat_zero, show (64 : Int).toNat = 64 from rfl]
  split
  next hlen => exact .inr ⟨by simp; omega, eio, rfl⟩
  next hlen =>
    rw [decide_eq_true (by omega)]
    split
    next hident => exact .inr ⟨by simp_all, einval, rfl⟩
    next hident =>
      split
      next hmachine => exact .inr ⟨by simp_all, einval, rfl⟩
      next hmachine => exact .inl ⟨by simp_all, rfl⟩

/-- A name is read up to its end, or up to byte `n`. -/
theorem strn_eq (tab : List Byte) (n off : Nat) :
    strn tab n off =
      if n ≤ (nameAt tab off).length ∨ off + (nameAt tab off).length < tab.length then
        .ok ((nameAt tab off).take n)
      else .error .fault := by
  induction n generalizing off with
  | zero => rw [strn, if_pos (.inl (Nat.zero_le _)), List.take_zero]
  | succ n ih =>
    rw [strn]
    by_cases hlt : off < tab.length
    · have hname : nameAt tab off = if tab[off] != 0 then tab[off] :: nameAt tab (off + 1)
          else [] := by
        rw [nameAt, List.drop_eq_getElem_cons hlt, List.takeWhile_cons]
        rfl
      rw [List.getElem?_eq_getElem hlt]
      dsimp only
      split
      next hzero =>
        rw [hname, hzero]
        exact (if_pos (.inr hlt)).symm
      next hzero =>
        rw [hname, if_pos (bne_iff_ne.mpr hzero), ih, List.length_cons, List.take_succ_cons]
        split
        next hfits => rw [if_pos (by omega)]; rfl
        next hfits => rw [if_neg (by omega)]; rfl
    · have hnone : nameAt tab off = [] := by
        rw [nameAt, List.drop_eq_nil_of_le (by omega), List.takeWhile_nil]
      rw [List.getElem?_eq_none (by omega), hnone, if_neg (by simp; omega)]

section Loop

variable {shdr strtab : List Byte} {is : List Nat}

theorem strn_nameOf (i : Nat) : strn strtab maxSname (shdrAt shdr i).name =
    if maxSname ≤ (nameOf shdr strtab i).length ∨
        (shdrAt shdr i).name + (nameOf shdr strtab i).length < strtab.length then
      .ok ((nameOf shdr strtab i).take maxSname)
    else .error .fault :=
  strn_eq ..

/-- The loop visits all sections, or ends with an error. -/
theorem iterShLoop_cases {cb : Section → Int} (hnames : NamesFit shdr strtab is) :
    ∃ visits ret, iterShLoop cb shdr strtab is = .ok (visits, ret) ∧ (ret ≠ 0 ∨ visits =
      is.map fun i => ⟨nameOf shdr strtab i, i, shdrAt shdr i⟩) := by
  induction is with
  | nil => exact ⟨[], 0, rfl, .inr rfl⟩
  | cons i is ih =>
    obtain ⟨hfits, hrest⟩ := hnames
    rw [iterShLoop, strn_nameOf, if_pos hfits]
    simp only [Except.bind, List.length_take]
    split
    next => exact ⟨_, _, rfl, .inl (by decide)⟩
    next hshort =>
      have hlt : (nameOf shdr strtab i).length < maxSname := by omega
      obtain ⟨visits, ret, hloop, hall⟩ := ih (hrest hlt)
      rw [List.take_of_length_le (Nat.le_of_lt hlt), hloop]
      split
      next hcb => exact ⟨_, _, rfl, .inl hcb⟩
      next => exact ⟨_, _, rfl, hall.imp id fun hvisits => by rw [hvisits, List.map_cons]⟩

/-- With a callback that accepts everything, the loop reads every name that it comes to. -/
theorem namesFit_of_iterShLoop {visits : List Section} {ret : Int}
    (h : iterShLoop (fun _ => 0) shdr strtab is = .ok (visits, ret)) :
    NamesFit shdr strtab is ∧ ret ≠ eio := by
  induction is generalizing visits ret with
  | nil =>
    cases h
    exact ⟨trivial, by decide⟩
  | cons i is ih =>
    rw [iterShLoop, strn_nameOf] at h
    split at h
    next hfits =>
      simp only [Except.bind, List.length_take] at h
      split at h
      next hlong =>
        cases h
        exact ⟨⟨hfits, fun hlt => by omega⟩, by decide⟩
      next hshort =>
        rw [if_neg (by decide)] at h
        cases hloop : iterShLoop (fun _ => 0) shdr strtab is with
        | error e => rw [hloop] at h; cases h
        | ok r =>
          rw [hloop] at h
          cases h
          exact ⟨⟨hfits, fun _ => (ih hloop).1⟩, (ih hloop).2⟩
    next hfits => cases h

theorem NamesFit.length_pos {n : Nat} (h : NamesFit shdr strtab (List.range n)) (hn : 0 < n) :
    0 < strtab.length := by
  obtain ⟨m, rfl⟩ := Nat.exists_eq_succ_of_ne_zero (Nat.ne_of_gt hn)
  rw [List.range_succ_eq_map] at h
  have hname : (nameOf shdr strtab 0).length ≤ strtab.length - (shdrAt shdr 0).name := by
    rw [← List.length_drop]
    exact (List.takeWhile_sublist _).length_le
  have hfirst := h.1
  unfold maxSname at hfirst
  omega

end Loop

/-! ## The tables -/

section Tables

variable {src : Source} {alloc : Nat → Bool}

theorem openStrtab_of_read {str : Shdr} {tab : List Byte} (htab : tab.length < 2 ^ 31)
    (hread : elfRead src (i32 str.size) (i32 str.offset) = .ok (tab.length, tab)) :
    openStrtab src alloc str =
      if str.type ≠ shtStrtab then .error (.error einval)
      else if !alloc str.size then .error (.error enomem)
      else if tab.length ≠ str.size then .error (.error eio)
      else .ok tab := by
  have hret : ((tab.length : Int) % 2 ^ 64).toNat = tab.length := by omega
  rw [openStrtab, hread]
  simp only [Except.bind, hret]

theorem openShs_rejected (h : ¬ShsChecked image) :
    openShs src alloc (ehdr image) = .error (.error einval) := by
  unfold ShsChecked at h
  unfold openShs
  split
  · rfl
  · rw [if_pos (by omega)]

theorem openShs_of_read (h : ShsChecked image) (hread : elfRead src ((ehdr image).shnum * 64 : Nat)
      (i32 (ehdr image).shoff) = .ok ((shTable image).length, shTable image)) :
    openShs src alloc (ehdr image) =
      if !alloc ((ehdr image).shnum * 64) then .error (.error enomem)
      else if (shTable image).length ≠ (ehdr image).shnum * 64 then .error (.error eio)
      else if (ehdr image).shstrndx > (ehdr image).shnum then .error (.error einval)
      else if (ehdr image).shstrndx = (ehdr image).shnum then .error .fault
      else (openStrtab src alloc (strHdr image)).map fun strtab => (shTable image, strtab) := by
  rw [openShs, hread, if_neg (not_not.mpr h.1), if_neg (Nat.not_lt.mpr h.2)]
  simp only [Except.bind, ne_eq, Int.natCast_inj]
  rfl

theorem length_strTab (himage : image.length < 2 ^ 31) : (strTab image).length < 2 ^ 31 := by
  rw [strTab, length_slice]
  omega

/-- Both tables are read and the names fit, or there is an error. -/
theorem openShs_of_sane (himage : image.length < 2 ^ 31) (h : Sane image) (alloc : Nat → Bool) :
    (openShs (.mem image) alloc (ehdr image) = .ok (shTable image, strTab image) ∧
      NamesFit (shTable image) (strTab image) (List.range (ehdr image).shnum)) ∨
    ∃ code ≠ 0, openShs (.mem image) alloc (ehdr image) = .error (.error code) := by
  by_cases hshs : ShsChecked image
  · rw [openShs_of_read hshs ((elfRead_mem ..).trans (if_pos (h.shs hshs)))]
    split
    · exact .inr ⟨enomem, by decide, rfl⟩
    · split
      · exact .inr ⟨eio, by decide, rfl⟩
      next hlen =>
        split
        · exact .inr ⟨einval, by decide, rfl⟩
        next hle =>
          have hstrndx : StrndxChecked image := ⟨hshs, not_not.mp hlen, Nat.not_lt.mp hle⟩
          rw [if_neg (h.strndx hstrndx)]
          by_cases htype : (strHdr image).type = shtStrtab
          · have hstr : StrChecked image := ⟨hstrndx, htype⟩
            rw [openStrtab_of_read (length_strTab himage)
              ((elfRead_mem ..).trans (if_pos (h.str hstr))), if_neg (not_not.mpr htype)]
            split
            · exact .inr ⟨enomem, by decide, rfl⟩
            · split
              · exact .inr ⟨eio, by decide, rfl⟩
              next hwhole => exact .inl ⟨rfl, h.names hstr (not_not.mp hwhole)⟩
          · rw [openStrtab, if_pos htype]
            exact .inr ⟨einval, by decide, rfl⟩
  · exact .inr ⟨einval, by decide, openShs_rejected hshs⟩

theorem iterSh_of_sane (himage : image.length < 2 ^ 31) (h : Sane image) (alloc : Nat → Bool)
    (cb : Section → Int) : ∃ visits ret, iterSh (.mem image) alloc cb (ehdr image) =
      .ok (visits, ret) ∧ (ret ≠ 0 ∨ visits = sections image) := by
  unfold iterSh
  obtain ⟨hok, hnames⟩ | ⟨code, hcode, herr⟩ := openShs_of_sane himage h alloc
  · rw [hok]
    exact iterShLoop_cases hnames
  · rw [herr]
    exact ⟨[], code, rfl, .inl hcode⟩

/-- If `malloc` and the callback never fail, only the image can end the reader. -/
theorem sane_of_iterSh (himage : image.length < 2 ^ 31) {r : List Section × Int}
    (h : iterSh (.mem image) (fun _ => true) (fun _ => 0) (ehdr image) = .ok r) : Sane image := by
  rw [iterSh] at h
  have hshs (hc : ShsChecked image) :
      InBounds image ((ehdr image).shnum * 64 : Nat) (i32 (ehdr image).shoff) := by
    by_contra hout
    rw [openShs, if_neg (not_not.mpr hc.1), if_neg (Nat.not_lt.mpr hc.2), if_neg (by simp),
      elfRead_mem, if_neg hout] at h
    cases h
  have hread (hc : StrndxChecked image) : openShs (.mem image) (fun _ => true) (ehdr image) =
      if (ehdr image).shstrndx = (ehdr image).shnum then .error .fault
      else (openStrtab (.mem image) (fun _ => true) (strHdr image)).map fun strtab =>
        (shTable image, strtab) := by
    rw [openShs_of_read hc.1 ((elfRead_mem ..).trans (if_pos (hshs hc.1))), if_neg (by simp),
      if_neg (not_not.mpr hc.2.1), if_neg (Nat.not_lt.mpr hc.2.2)]
  have hstrndx (hc : StrndxChecked image) : (ehdr image).shstrndx ≠ (ehdr image).shnum := by
    intro heq
    rw [hread hc, if_pos heq] at h
    cases h
  have hstr (hc : StrChecked image) :
      InBounds image (i32 (strHdr image).size) (i32 (strHdr image).offset) := by
    by_contra hout
    rw [hread hc.1, if_neg (hstrndx hc.1), openStrtab, if_neg (not_not.mpr hc.2),
      if_neg (by simp), elfRead_mem, if_neg hout] at h
    cases h
  refine ⟨hshs, hstrndx, hstr, fun hc hwhole => ?_⟩
  have hopen : openStrtab (.mem image) (fun _ => true) (strHdr image) = .ok (strTab image) := by
    rw [openStrtab_of_read (length_strTab himage) ((elfRead_mem ..).trans (if_pos (hstr hc))),
      if_neg (not_not.mpr hc.2), if_neg (by simp), if_neg (not_not.mpr hwhole)]
  rw [hread hc.1, if_neg (hstrndx hc.1), hopen] at h
  exact (namesFit_of_iterShLoop h).1

end Tables

/-- Opening an image and going through its sections makes no access out of bounds, and visits
    every section with its name or ends with an error. -/
def StaysInBounds (image : List Byte) (b : Before) : Prop :=
  elfOpen (.mem image) b ≠ .error .fault ∧ ∀ h, elfOpen (.mem image) b = .ok h →
    ∀ alloc cb, ∃ visits ret, iterSh (.mem image) alloc cb h = .ok (visits, ret) ∧
      (ret ≠ 0 ∨ visits = sections image)

/-- What an image that is rejected needs. -/
theorem elfOpen_ne_fault_iff (himage : image.length < 2 ^ 31) (b : Before) :
    elfOpen (.mem image) b ≠ .error .fault ↔ (headerOk image = false → Freeable b) := by
  obtain ⟨hok, hopen⟩ | ⟨hbad, code, hopen⟩ := elfOpen_cases himage b
  · simp [hok, hopen]
  · obtain ⟨hfree, live, hclose⟩ | ⟨hfree, hclose⟩ := elfClose_cases b
    · simp [hopen, hclose, hfree, Except.bind]
    · simp [hopen, hclose, hfree, hbad, Except.bind]

/-- **The reader stays in bounds**, whatever `malloc` and the callback do, if and only if the
    image is sane or is rejected at once, and then the pointers can be released. -/
theorem reader_in_bounds (image : List Byte) (himage : image.length < 2 ^ 31) (b : Before) :
    StaysInBounds image b ↔
      (headerOk image = true → Sane image) ∧ (headerOk image = false → Freeable b) := by
  unfold StaysInBounds
  rw [elfOpen_ne_fault_iff himage, and_comm]
  refine and_congr_left fun _ => ?_
  obtain ⟨hok, hopen⟩ | ⟨hbad, code, hopen⟩ := elfOpen_cases himage b
  · constructor
    · intro h _
      obtain ⟨visits, ret, hiter, _⟩ := h _ hopen (fun _ => true) (fun _ => 0)
      exact sane_of_iterSh himage hiter
    · intro hsane h hh alloc cb
      obtain rfl := Except.ok.inj (hopen.symm.trans hh)
      exact iterSh_of_sane himage (hsane hok) alloc cb
  · constructor
    · intro _ hok
      rw [hbad] at hok
      cases hok
    · intro _ h hh
      rw [hopen] at hh
      cases hclose : elfClose b <;> rw [hclose] at hh <;> cases hh

/-- A header with these program and section headers. -/
def header (phoff phnum shoff shnum shstrndx : Nat) : List Byte :=
  [0x7f, 0x45, 0x4c, 0x46, 2, 1, 1] ++ List.replicate 9 0 ++ toLE 2 2 ++ toLE 2 62 ++ toLE 4 1 ++
    toLE 8 0 ++ toLE 8 phoff ++ toLE 8 shoff ++ toLE 4 0 ++ toLE 2 64 ++ toLE 2 56 ++
    toLE 2 phnum ++ toLE 2 64 ++ toLE 2 shnum ++ toLE 2 shstrndx

/-- An image with one section, the string table, of one byte, and with too many program
    headers. -/
def oneSection : List Byte :=
  header 0 41 64 1 0 ++ toLE 4 0 ++ toLE 4 3 ++ toLE 8 0 ++ toLE 8 0 ++ toLE 8 128 ++ toLE 8 1 ++
    List.replicate 24 0 ++ [0]

/-- The caller has set all pointers to `NULL`. -/
def cleared : Before := ⟨0, 0, 0, fun _ => false⟩

theorem sane_oneSection : Sane oneSection where
  shs _ := by decide +kernel
  strndx _ := by decide +kernel
  str _ := by decide +kernel
  names _ _ := by
    rw [show (ehdr oneSection).shnum = 1 by decide +kernel]
    exact ⟨.inr (by decide +kernel), fun _ => trivial⟩

theorem reader_in_bounds_one : elfOpen (.mem oneSection) cleared = .ok (ehdr oneSection) ∧
    ∀ alloc cb, ∃ visits ret, iterSh (.mem oneSection) alloc cb (ehdr oneSection) =
      .ok (visits, ret) ∧ (ret ≠ 0 ∨ visits = sections oneSection) := by
  have hopen : elfOpen (.mem oneSection) cleared = .ok (ehdr oneSection) := by decide +kernel
  exact ⟨hopen, ((reader_in_bounds oneSection (by decide +kernel) cleared).mpr
    ⟨fun _ => sane_oneSection, fun hbad => absurd hbad (by decide +kernel)⟩).2 _ hopen⟩

/-- A header without sections whose string table is section 0, and an empty image in a structure
    that nobody has initialised. -/
theorem string_table_behind :
    elfOpen (.mem (header 0 0 64 0 0)) cleared = .ok (ehdr (header 0 0 64 0 0)) ∧
    iterSh (.mem (header 0 0 64 0 0)) (fun _ => true) (fun _ => 0) (ehdr (header 0 0 64 0 0)) =
      .error .fault ∧
    elfOpen (.mem []) ⟨0x41, 0, 0, fun _ => false⟩ = .error .fault := by
  decide +kernel

/-! ## Images in memory and in files -/

/-- An image that is read alike from memory and from a file. -/
structure Regular (image : List Byte) : Prop extends Sane image where
  /-- There is no program header table of the right form in the file. -/
  phs : (ehdr image).phentsize ≠ 56 ∨ (ehdr image).phnum > 40 ∨
    (pread image ((ehdr image).phnum * 56 : Nat) (i64 (ehdr image).phoff)).1 ≠
      ((ehdr image).phnum * 56 : Nat)
  shoff : ShsChecked image → 0 ≤ i32 (ehdr image).shoff
  /-- The failure of `pread` is not taken for the size. -/
  size : StrChecked image → (strHdr image).size ≠ 2 ^ 64 - 1
  /-- The string table is read at once. -/
  once : StrChecked image → (strTab image).length = (strHdr image).size →
    (strHdr image).size ≤ maxRw

theorem toNat_i32_le {v : Nat} : (i32 v).toNat ≤ v := by
  rw [i32, BitVec.toInt_eq_toNat_cond, BitVec.toNat_ofNat]
  split <;> omega

theorem elfOpen_file (himage : image.length < 2 ^ 31) (b : Before) :
    elfOpen (.file image) b = elfOpen (.mem image) b := by
  have hread : elfRead (.file image) 64 0 = elfRead (.mem image) 64 0 := by
    rw [elfRead_mem, if_pos ⟨by omega, .inr (.inr (by decide))⟩]
    exact @elfRead_file _ 64 0 (by decide)
  rw [elfOpen, elfOpen, hread]

theorem elfRead_shTable (h : ShsChecked image) (hoff : 0 ≤ i32 (ehdr image).shoff) :
    elfRead (.file image) ((ehdr image).shnum * 64 : Nat) (i32 (ehdr image).shoff) =
      .ok ((shTable image).length, shTable image) := by
  have hnum := h.2
  rw [← Int.toNat_of_nonneg hoff]
  exact elfRead_file (by unfold maxRw; omega)

/-- The string table of a file. -/
theorem openStrtab_file (himage : image.length < 2 ^ 31) (alloc : Nat → Bool)
    (hsize : (strHdr image).size ≠ 2 ^ 64 - 1)
    (hin : InBounds image (i32 (strHdr image).size) (i32 (strHdr image).offset))
    (hwhole : (strTab image).length = (strHdr image).size →
      0 < (strHdr image).size ∧ (strHdr image).size ≤ maxRw) :
    openStrtab (.file image) alloc (strHdr image) =
      openStrtab (.mem image) alloc (strHdr image) := by
  have hle := @toNat_i32_le (strHdr image).size
  have hlen : (strTab image).length = _ := length_slice ..
  obtain ⟨_, hcase⟩ := id hin
  rw [openStrtab_of_read (length_strTab himage) ((elfRead_mem ..).trans (if_pos hin))]
  by_cases hneg : i32 (strHdr image).offset < 0 ∨ i32 (strHdr image).size < 0
  · -- `pread` fails, and there is nothing to read in memory
    have hshort : (strTab image).length ≠ (strHdr image).size := fun heq => by
      have := (hwhole heq).1
      omega
    have hret : ((-1 : Int) % 2 ^ 64).toNat ≠ (strHdr image).size := hsize.symm
    rw [if_pos hshort, openStrtab, elfRead, pread, if_pos hneg]
    simp only [Except.bind, if_pos hret]
  · have hread : elfRead (.file image) (i32 (strHdr image).size) (i32 (strHdr image).offset) =
        .ok (_, _) := congrArg Except.ok (if_neg hneg)
    have hdata := length_slice image (i32 (strHdr image).offset).toNat
      (min (i32 (strHdr image).size).toNat maxRw)
    rw [openStrtab_of_read (by omega) hread]
    by_cases hmax : (i32 (strHdr image).size).toNat ≤ maxRw
    · rw [Nat.min_eq_left hmax]
      rfl
    · have hshort : (strTab image).length ≠ (strHdr image).size := fun heq => by
        have := (hwhole heq).2
        omega
      rw [if_pos hshort, if_pos (c := _ ≠ (strHdr image).size) (by omega)]

/-- The section headers are read alike whatever the program headers are. -/
theorem openShs_eq (himage : image.length < 2 ^ 31) (h : Regular image) (alloc : Nat → Bool) :
    openShs (.file image) alloc (ehdr image) = openShs (.mem image) alloc (ehdr image) := by
  by_cases hshs : ShsChecked image
  · rw [openShs_of_read hshs ((elfRead_mem ..).trans (if_pos (h.shs hshs))),
      openShs_of_read hshs (elfRead_shTable hshs (h.shoff hshs))]
    have hopen (hc : StrndxChecked image) : openStrtab (.file image) alloc (strHdr image) =
        openStrtab (.mem image) alloc (strHdr image) := by
      have hne := h.strndx hc
      have hle := hc.2.2
      by_cases htype : (strHdr image).type = shtStrtab
      · apply openStrtab_file himage alloc (h.size ⟨hc, htype⟩) (h.str ⟨hc, htype⟩)
        intro hwhole
        have := (h.names ⟨hc, htype⟩ hwhole).length_pos (by omega)
        exact ⟨by omega, h.once ⟨hc, htype⟩ hwhole⟩
      · rw [openStrtab, openStrtab, if_pos htype, if_pos htype]
    split
    · rfl
    · split
      · rfl
      next hlen =>
        split
        · rfl
        next hle => rw [hopen ⟨hshs, not_not.mp hlen, Nat.not_lt.mp hle⟩]
  · rw [openShs_rejected hshs, openShs_rejected hshs]

/-- An image in memory has no descriptor. -/
theorem pread_mem_ne (n : Nat) (off : Int) : ((Source.mem image).pread n off).1 ≠ n := by
  show (-1 : Int) ≠ _
  omega

theorem openPhs_eq (h : Regular image) (alloc : Nat → Bool) :
    openPhs (.mem image) alloc (ehdr image) = openPhs (.file image) alloc (ehdr image) := by
  unfold openPhs
  split
  · rfl
  next hsize =>
    split
    · rfl
    next hnum =>
      split
      · rfl
      · have hshort := (h.phs.resolve_left hsize).resolve_left hnum
        rw [if_pos (pread_mem_ne _ _ : _ ≠ _)]
        exact (if_pos hshort).symm

/-- Both ways to open return the same, and going through the headers visits the same headers and
    returns the same. -/
def Alike (image : List Byte) (b : Before) : Prop :=
  elfOpen (.mem image) b ≠ .error .fault ∧ elfOpen (.mem image) b = elfOpen (.file image) b ∧
  ∀ hdr, elfOpen (.mem image) b = .ok hdr → ∀ alloc phcb shcb,
    iterPh (.mem image) alloc phcb hdr = iterPh (.file image) alloc phcb hdr ∧
    ∃ r, iterSh (.mem image) alloc shcb hdr = .ok r ∧ iterSh (.file image) alloc shcb hdr = .ok r

/-- What both kinds of images have in common, if `malloc` and the callbacks never fail. -/
theorem regular_of_iter (himage : image.length < 2 ^ 31) {r : List Section × Int}
    (hph : iterPh (.mem image) (fun _ => true) (fun _ => 0) (ehdr image) =
      iterPh (.file image) (fun _ => true) (fun _ => 0) (ehdr image))
    (hmem : iterSh (.mem image) (fun _ => true) (fun _ => 0) (ehdr image) = .ok r)
    (hfile : iterSh (.file image) (fun _ => true) (fun _ => 0) (ehdr image) = .ok r) :
    Regular image := by
  have hsane := sane_of_iterSh himage hmem
  have hoff (hc : ShsChecked image) : 0 ≤ i32 (ehdr image).shoff := by
    -- a negative offset is an error of `pread`, and none of a read of no bytes
    by_contra hneg
    have hzero : (ehdr image).shnum = 0 := by
      obtain ⟨_, hcase⟩ := hsane.shs hc
      omega
    have hlen : (shTable image).length = (ehdr image).shnum * 64 := by
      rw [shTable, length_slice]
      omega
    have hgt : (ehdr image).shstrndx > (ehdr image).shnum := by
      by_contra hle
      exact hsane.strndx ⟨hc, hlen, by omega⟩ (by omega)
    rw [iterSh, openShs_of_read hc ((elfRead_mem ..).trans (if_pos (hsane.shs hc))),
      if_neg (by simp), if_neg (not_not.mpr hlen), if_pos hgt] at hmem
    rw [iterSh, openShs, if_neg (not_not.mpr hc.1), if_neg (Nat.not_lt.mpr hc.2),
      if_neg (by simp), elfRead, pread, if_pos (.inl (by omega))] at hfile
    simp only [Except.bind] at hfile
    rw [if_pos (by omega)] at hfile
    have := (Except.ok.inj hmem).trans (Except.ok.inj hfile).symm
    exact absurd (congrArg Prod.snd this) (by decide)
  have hopen {src : Source} (hc : StrChecked image)
      (hread : elfRead src ((ehdr image).shnum * 64 : Nat) (i32 (ehdr image).shoff) =
        .ok ((shTable image).length, shTable image)) :
      openShs src (fun _ => true) (ehdr image) =
        (openStrtab src (fun _ => true) (strHdr image)).map fun strtab =>
          (shTable image, strtab) := by
    rw [openShs_of_read hc.1.1 hread, if_neg (by simp), if_neg (not_not.mpr hc.1.2.1),
      if_neg (Nat.not_lt.mpr hc.1.2.2), if_neg (hsane.strndx hc.1)]
  refine ⟨hsane, ?_, hoff, fun hc hlast => ?_, fun hc hwhole => ?_⟩
  · -- program headers that can be read are read from the file only
    by_contra hphs
    simp only [not_or, not_not] at hphs
    obtain ⟨hsize, hnum, hread⟩ := hphs
    have hret : ∀ l : List Phdr, (visitAll (fun _ => 0) l).2 = 0 := by
      intro l
      induction l with
      | nil => rfl
      | cons v vs ih => exact ih
    have hmem : openPhs (.mem image) (fun _ => true) (ehdr image) = .error (.error eio) := by
      rw [openPhs, if_neg (not_not.mpr hsize), if_neg hnum, if_neg (by simp)]
      exact if_pos (pread_mem_ne _ _ : _ ≠ _)
    have hfile : ∃ table, openPhs (.file image) (fun _ => true) (ehdr image) = .ok table := by
      rw [openPhs, if_neg (not_not.mpr hsize), if_neg hnum, if_neg (by simp)]
      exact ⟨_, if_neg (not_not.mpr hread)⟩
    obtain ⟨table, hfile⟩ := hfile
    rw [iterPh, iterPh, hmem, hfile] at hph
    have := (congrArg Prod.snd (Except.ok.inj hph)).trans (hret _)
    exact absurd this (by decide)
  · -- the failure of `pread` is taken for the size, and the empty table has no names
    have hneg : i32 (strHdr image).offset < 0 ∨ i32 (strHdr image).size < 0 := by
      rw [hlast]
      exact .inr (by decide)
    rw [iterSh, hopen hc (elfRead_shTable hc.1.1 (hoff hc.1.1)), openStrtab,
      if_neg (not_not.mpr hc.2), if_neg (by simp), elfRead, pread, if_pos hneg, hlast] at hfile
    have hne := hsane.strndx hc.1
    have hle := hc.1.2.2
    exact absurd ((namesFit_of_iterShLoop hfile).1.length_pos (by omega)) (by simp)
  · -- a table that `pread` does not read at once is an error for a file only
    by_contra hmax
    have hbig := length_strTab himage
    have hlen : (strTab image).length = _ := length_slice ..
    have hi32 : i32 (strHdr image).size = (strHdr image).size := by
      rw [i32, BitVec.toInt_eq_toNat_cond, BitVec.toNat_ofNat]
      omega
    obtain ⟨_, hcase⟩ := hsane.str hc
    have hneg : ¬(i32 (strHdr image).offset < 0 ∨ i32 (strHdr image).size < 0) := by omega
    have hread : elfRead (.file image) (i32 (strHdr image).size) (i32 (strHdr image).offset) =
        .ok (_, _) := congrArg Except.ok (if_neg hneg)
    have hdata := length_slice image (i32 (strHdr image).offset).toNat
      (min (i32 (strHdr image).size).toNat maxRw)
    have hstr : openStrtab (.mem image) (fun _ => true) (strHdr image) = .ok (strTab image) := by
      rw [openStrtab_of_read hbig ((elfRead_mem ..).trans (if_pos (hsane.str hc))),
        if_neg (not_not.mpr hc.2), if_neg (by simp), if_neg (not_not.mpr hwhole)]
    have hshort : openStrtab (.file image) (fun _ => true) (strHdr image) =
        .error (.error eio) := by
      rw [openStrtab_of_read (by omega) hread, if_neg (not_not.mpr hc.2), if_neg (by simp),
        if_pos (by omega)]
    rw [iterSh, hopen hc ((elfRead_mem ..).trans (if_pos (hsane.shs hc.1.1))), hstr] at hmem
    rw [iterSh, hopen hc (elfRead_shTable hc.1.1 (hoff hc.1.1)), hshort] at hfile
    obtain rfl := Except.ok.inj hfile
    exact (namesFit_of_iterShLoop hmem).2 rfl

/-- An image with one program header, which is not read from memory. -/
def oneSegment : List Byte := header 64 1 0 0 0 ++ List.replicate 56 0

end Dune.Elf
