import Mathlib.Algebra.Group.Nat.Defs
import Mathlib.Data.List.Nodup
import Mathlib.Logic.Function.Basic
import Libdbos.Tabby.PageWord

/-! # Where Pages Are on Disk

    `LibaioInterface` of `apps/tabby/tabby.cpp` spreads the pages over a number of
    files. `writePages` finds the file and the offset of a page from the address in
    its state word, with `u64` throughout. `pread` finds them from the page number,
    and keeps the number of the page within its file in an `int`.

    The two agree while the address does not go beyond the end of the address space,
    that is for the first 2^35 pages, and while the number within the file is below
    2^31; beyond, only the last 2^31 pages of a single file are read where they are
    written. Page numbers that are 2^32 times the number of files apart are read at
    the same place (`reads_where_written`, `reads_elsewhere`).
-/

namespace Tabby.BlockFiles

open PageWord

def pageSize : U64 := 4096#64

/-- The constant `kTabbyAddressSpaceStart`, where `virtMem` is. -/
def addressSpaceStart : U64 := 0xffff800000000000#64

/-- The address of a page, `virtMem + pid`. -/
def toPtr (pid : U64) : U64 := addressSpaceStart + pid * pageSize

/-- The state word of the page with number `pid`: it has the address of the page, any
    version and any state. -/
def Carries (word pid : U64) : Prop := word >>> 28 = compressNormalVMAddress (toPtr pid)

instance (word pid : U64) : Decidable (Carries word pid) :=
  inferInstanceAs (Decidable (_ = _))

/-- An index into `blockfds` and an offset. -/
structure Place where
  file : U64
  offset : U64
  deriving DecidableEq, Repr

variable (files : U64)

/-- Where `writePages` puts a page with the given state word. -/
def writePlace (word : U64) : Place :=
  let offset := getVMAddress word - addressSpaceStart
  let pid := offset / pageSize
  let page_id_in_file := pid / files
  ⟨pid % files, page_id_in_file * pageSize⟩

/-- Where `pread` looks for a page. -/
def readPlace (pid : U64) : Place :=
  let page_id_in_file : BitVec 32 := (pid / files).setWidth 32
  ⟨pid % files, pageSize * page_id_in_file.signExtend 64⟩

/-! ## Addresses -/

theorem decompress_toNat {a : U64} (ha : a.toNat < 2 ^ 36) :
    (decompressVMAddress a).toNat = 2 ^ 48 * 0xffff + a.toNat * 2 ^ 12 := by
  have hshift : (a <<< 12).toNat = a.toNat * 2 ^ 12 := by
    rw [BitVec.toNat_shiftLeft, Nat.shiftLeft_eq]
    omega
  have hlow : a.toNat * 2 ^ 12 < 2 ^ 48 := by omega
  unfold decompressVMAddress
  rw [BitVec.or_comm, BitVec.toNat_or, hshift]
  exact (Nat.two_pow_add_eq_or_of_lt hlow 0xffff).symm

theorem compress_toNat (a : U64) :
    (compressNormalVMAddress a).toNat = a.toNat % 2 ^ 48 / 2 ^ 12 := by
  unfold compressNormalVMAddress
  rw [BitVec.toNat_ushiftRight, Nat.shiftRight_eq_div_pow, BitVec.and_comm, BitVec.toNat_and]
  exact congrArg (· / 2 ^ 12) (Nat.and_two_pow_sub_one_eq_mod a.toNat 48)

/-- The page number that `writePages` finds in the state word. From page 2^35 on the address
    has gone round, and comes back in the wrong half of the addresses. -/
theorem pid_of_carries {word pid : U64} (hword : Carries word pid) (hpid : pid.toNat < 2 ^ 36) :
    ((getVMAddress word - addressSpaceStart) / pageSize).toNat =
      if pid.toNat < 2 ^ 35 then pid.toNat else pid.toNat + (2 ^ 52 - 2 ^ 36) := by
  have hstart : addressSpaceStart.toNat = 2 ^ 64 - 2 ^ 47 := rfl
  have hptr : (toPtr pid).toNat = (2 ^ 64 - 2 ^ 47 + pid.toNat * 2 ^ 12) % 2 ^ 64 := by
    unfold toPtr
    rw [BitVec.toNat_add, BitVec.toNat_mul, hstart]
    show (_ + pid.toNat * 4096 % 2 ^ 64) % 2 ^ 64 = _
    omega
  have hcompress : (word >>> 28).toNat = (2 ^ 35 + pid.toNat) % 2 ^ 36 := by
    rw [hword, compress_toNat, hptr]
    omega
  rw [BitVec.toNat_udiv, show pageSize.toNat = 4096 from rfl, getVMAddress, BitVec.toNat_sub,
    decompress_toNat (by omega), hcompress, hstart]
  split <;> omega

/-- The words that are stored for a page carry its address. -/
theorem carries_sameVersion (pid : U64) {version state : U64} (hv : version.toNat < 2 ^ 20)
    (hs : state.toNat < 2 ^ 8) : Carries (sameVersion (toPtr pid) version state) pid := by
  have hc : (compressNormalVMAddress (toPtr pid)).toNat < 2 ^ 36 := by
    rw [compress_toNat]
    omega
  apply BitVec.eq_of_toNat_eq
  rw [BitVec.toNat_ushiftRight, Nat.shiftRight_eq_div_pow]
  unfold sameVersion
  rw [toNat_pack hc hv hs]
  omega

/-! ## Reader and writer -/

variable {files}

/-- The offset that `pread` computes, with the number within the file as an `int`. -/
theorem readPlace_offset (pid : U64) : (readPlace files pid).offset.toNat =
    4096 * (pid.toNat / files.toNat % 2 ^ 32 +
      if 2 ^ 31 ≤ pid.toNat / files.toNat % 2 ^ 32 then 2 ^ 64 - 2 ^ 32 else 0) % 2 ^ 64 := by
  have hwidth : ((pid / files).setWidth 32).toNat = pid.toNat / files.toNat % 2 ^ 32 := by
    rw [BitVec.toNat_setWidth, BitVec.toNat_udiv]
  show (pageSize * ((pid / files).setWidth 32).signExtend 64).toNat = _
  rw [BitVec.toNat_mul, BitVec.toNat_signExtend, BitVec.toNat_setWidth, hwidth,
    BitVec.msb_eq_decide, hwidth, show pageSize.toNat = 4096 from rfl]
  simp only [decide_eq_true_eq]
  split <;> omega

/-- The places of two pages are the same if the numbers within the file agree as `int`s. -/
theorem readPlace_eq_iff (pid pid' : U64) : readPlace files pid = readPlace files pid' ↔
    pid.toNat % files.toNat = pid'.toNat % files.toNat ∧
      pid.toNat / files.toNat % 2 ^ 32 = pid'.toNat / files.toNat % 2 ^ 32 := by
  have hoffset := @readPlace_offset files pid
  have hoffset' := @readPlace_offset files pid'
  rw [← BitVec.toNat_umod, ← BitVec.toNat_umod, BitVec.toNat_inj]
  constructor
  · intro h
    rw [h, hoffset'] at hoffset
    refine ⟨congrArg Place.file h, ?_⟩
    split at hoffset <;> split at hoffset <;> omega
  · rintro ⟨hfile, hquot⟩
    rw [hquot, ← hoffset'] at hoffset
    unfold readPlace at hoffset ⊢
    rw [Place.mk.injEq]
    exact ⟨hfile, BitVec.eq_of_toNat_eq hoffset⟩

/-- No other page number is read at the place of `pid`. -/
theorem readPlace_apart_iff {pid : U64} (hfiles : 0 < files.toNat) (hpid : pid.toNat < 2 ^ 36) :
    (∀ pid' : U64, pid'.toNat < 2 ^ 36 → pid ≠ pid' →
      readPlace files pid ≠ readPlace files pid') ↔
    pid.toNat < files.toNat * 2 ^ 32 ∧ 2 ^ 36 ≤ pid.toNat + files.toNat * 2 ^ 32 := by
  -- 2^32 pages of one file apart
  have hshift (n : Nat) : (n + files.toNat * 2 ^ 32) % files.toNat = n % files.toNat ∧
      (n + files.toNat * 2 ^ 32) / files.toNat % 2 ^ 32 = n / files.toNat % 2 ^ 32 := by
    rw [Nat.add_mul_mod_self_left, Nat.add_mul_div_left _ _ hfiles, Nat.add_mod_right]
    exact ⟨rfl, rfl⟩
  constructor
  · intro hapart
    have hnot (n : Nat) (hlt : n < 2 ^ 36) (hne : n ≠ pid.toNat) :
        ¬(pid.toNat % files.toNat = n % files.toNat ∧
          pid.toNat / files.toNat % 2 ^ 32 = n / files.toNat % 2 ^ 32) := by
      have hn : (BitVec.ofNat 64 n).toNat = n := by
        rw [BitVec.toNat_ofNat]
        omega
      have h := hapart (BitVec.ofNat 64 n) (by rw [hn]; exact hlt)
        (by rintro rfl; exact hne hn.symm)
      rwa [ne_eq, readPlace_eq_iff, hn] at h
    have hpos : 0 < files.toNat * 2 ^ 32 := by omega
    constructor
    · by_contra hge
      have hback := hshift (pid.toNat - files.toNat * 2 ^ 32)
      rw [Nat.sub_add_cancel (by omega)] at hback
      exact hnot _ (by omega) (by omega) hback
    · by_contra hlt
      obtain ⟨hmod, hdiv⟩ := hshift pid.toNat
      exact hnot _ (by omega) (by omega) ⟨hmod.symm, hdiv.symm⟩
  · rintro ⟨hbelow, hbehind⟩ pid' hpid' hne hsame
    obtain ⟨hfile, hquot⟩ := (readPlace_eq_iff pid pid').mp hsame
    have hsum := Nat.div_add_mod pid.toNat files.toNat
    have hsum' := Nat.div_add_mod pid'.toNat files.toNat
    rcases Nat.lt_trichotomy (pid.toNat / files.toNat) (pid'.toNat / files.toNat) with h | h | h
    · have := Nat.mul_le_mul_left files.toNat
        (show pid.toNat / files.toNat + 2 ^ 32 ≤ pid'.toNat / files.toNat by omega)
      rw [Nat.mul_add] at this
      omega
    · exact hne (BitVec.eq_of_toNat_eq (by rw [← hsum, ← hsum', h, hfile]))
    · have := Nat.mul_le_mul_left files.toNat
        (show pid'.toNat / files.toNat + 2 ^ 32 ≤ pid.toNat / files.toNat by omega)
      rw [Nat.mul_add] at this
      omega

/-- The pages that are read where they are written. -/
theorem readPlace_eq_writePlace_iff {pid word : U64} (hfiles : 0 < files.toNat)
    (hpid : pid.toNat < 2 ^ 36) (hword : Carries word pid) :
    readPlace files pid = writePlace files word ↔
      (pid.toNat < 2 ^ 35 ∧ pid.toNat / files.toNat < 2 ^ 31) ∨
        (files.toNat = 1 ∧ 2 ^ 36 - 2 ^ 31 ≤ pid.toNat) := by
  have hwritten := pid_of_carries hword hpid
  have hoffset := @readPlace_offset files pid
  have hquot : pid.toNat / files.toNat ≤ pid.toNat := Nat.div_le_self ..
  unfold writePlace
  simp only
  generalize (getVMAddress word - addressSpaceStart) / pageSize = written at hwritten ⊢
  have hplaces : readPlace files pid = ⟨written % files, written / files * pageSize⟩ ↔
      pid.toNat % files.toNat = written.toNat % files.toNat ∧
        (readPlace files pid).offset.toNat = written.toNat / files.toNat * 4096 % 2 ^ 64 := by
    rw [← BitVec.toNat_umod, ← BitVec.toNat_umod, BitVec.toNat_inj, ← BitVec.toNat_udiv,
      show 4096 = pageSize.toNat from rfl, ← BitVec.toNat_mul, BitVec.toNat_inj]
    exact Iff.of_eq (Place.mk.injEq ..)
  rw [hplaces, hoffset, hwritten]
  by_cases hlow : pid.toNat < 2 ^ 35
  · rw [if_pos hlow]
    split <;> omega
  rw [if_neg hlow]
  constructor
  · rintro ⟨hfile, hsame⟩
    -- the number of files divides the distance of the two page numbers
    obtain ⟨e, he⟩ : files.toNat ∣ 2 ^ 52 - 2 ^ 36 := by
      have := Nat.sub_mod_eq_zero_of_mod_eq hfile.symm
      rw [Nat.add_sub_cancel_left] at this
      exact Nat.dvd_of_mod_eq_zero this
    rw [he, Nat.add_mul_div_left _ _ hfiles] at hsame
    clear hplaces hoffset hwritten hfile
    rcases Nat.lt_or_ge 1 files.toNat with hmany | hone
    · have hpos : 0 < e := Nat.pos_of_ne_zero (by rintro rfl; omega)
      have hdouble : 2 * e ≤ files.toNat * e := Nat.mul_le_mul_right e hmany
      rw [← he] at hdouble
      have hhalf := @Nat.div_le_div_left 2 files.toNat pid.toNat hmany (by decide)
      generalize pid.toNat / files.toNat = x at hsame hhalf
      split at hsame <;> omega
    · obtain h1 : files.toNat = 1 := by omega
      rw [h1, Nat.one_mul] at he
      rw [h1, Nat.div_one] at hsame
      split at hsame <;> omega
  · rintro (h | ⟨hone, hge⟩)
    · omega
    · rw [hone, Nat.mod_one, Nat.mod_one, Nat.div_one, Nat.div_one]
      split <;> omega

/-- **Read where written**: `pread` uses the file and the offset that `writePages` uses for the
    page whose state word carries its address, and no other page is read there, if and only if
    the address of the page is in the upper half of the address space, its number within the
    file fits an `int`, and there are no 2^32 more pages in the file. -/
theorem reads_where_written (files pid : U64) (hfiles : 0 < files.toNat)
    (hpid : pid.toNat < 2 ^ 36) :
    ((∀ word, Carries word pid → readPlace files pid = writePlace files word) ∧
      ∀ pid' : U64, pid'.toNat < 2 ^ 36 → pid ≠ pid' →
        readPlace files pid ≠ readPlace files pid') ↔
    pid.toNat < 2 ^ 35 ∧ pid.toNat / files.toNat < 2 ^ 31 ∧
      2 ^ 36 ≤ pid.toNat + files.toNat * 2 ^ 32 := by
  have hword := @carries_sameVersion pid 0 0 (by decide) (by decide)
  rw [readPlace_apart_iff hfiles hpid]
  constructor
  · rintro ⟨hplace, hbelow, hbehind⟩
    rcases (readPlace_eq_writePlace_iff hfiles hpid hword).mp (hplace _ hword) with h | h
    · exact ⟨h.1, h.2, hbehind⟩
    · omega
  · rintro ⟨hlow, hint, hbehind⟩
    refine ⟨fun word hword => ?_, ?_, hbehind⟩
    · exact (readPlace_eq_writePlace_iff hfiles hpid hword).mpr (.inl ⟨hlow, hint⟩)
    · rw [Nat.div_lt_iff_lt_mul hfiles] at hint
      omega

/-- The last page but one with an address, which is that of no free frame, with 16 files. -/
theorem reads_where_written_last :
    readPlace 16 0x7fffffffe#64 = ⟨14, 0x7fffffff000#64⟩ ∧
      ∀ word, Carries word 0x7fffffffe#64 → readPlace 16 0x7fffffffe#64 = writePlace 16 word :=
  ⟨by decide, ((reads_where_written 16 0x7fffffffe#64 (by decide) (by decide)).mpr
    ⟨by decide, by decide, by decide⟩).1⟩

/-- With one file, page 2^31 is written at 8 TB and read at a negative offset, and
    pages 0 and 2^32 are read at the same place. With more files the address of page
    2^35 is beyond the end of the address space. -/
theorem reads_elsewhere :
    (∃ word, Carries word 0x80000000#64 ∧ writePlace 1 word = ⟨0, 0x80000000000#64⟩ ∧
      readPlace 1 0x80000000#64 = ⟨0, 0xfffff80000000000#64⟩) ∧
    readPlace 1 0#64 = readPlace 1 0x100000000#64 ∧
    ∃ word, Carries word 0x800000000#64 ∧ writePlace 32 word = ⟨0, 0x7fffc0000000000#64⟩ ∧
      readPlace 32 0x800000000#64 = ⟨0, 0x40000000000#64⟩ := by
  refine ⟨⟨sameVersion (toPtr 0x80000000#64) 0 unlocked, ?_⟩, ?_,
    sameVersion (toPtr 0x800000000#64) 0 unlocked, ?_⟩ <;> decide

/-! ## The files as a store of pages -/

section disk

variable {Image : Type}

/-- The page numbers for which reader and writer agree, whatever the number of files. -/
def InReach (files pid : U64) : Prop := pid.toNat < 2 ^ 35 ∧ pid.toNat / files.toNat < 2 ^ 31

theorem readPlace_inj {pid pid' : U64} (hreach : InReach files pid)
    (hreach' : InReach files pid') (h : readPlace files pid = readPlace files pid') :
    pid = pid' := by
  obtain ⟨hfile, hquot⟩ := (readPlace_eq_iff pid pid').mp h
  rw [Nat.mod_eq_of_lt (Nat.lt_trans hreach.2 (by decide)),
    Nat.mod_eq_of_lt (Nat.lt_trans hreach'.2 (by decide))] at hquot
  apply BitVec.eq_of_toNat_eq
  rw [← Nat.div_add_mod pid.toNat files.toNat, hquot, hfile, Nat.div_add_mod]

/-- The size of the arrays for the requests of a batch. -/
def maxIOs : Nat := 256

/-- What the files hold. -/
abbrev Disk (Image : Type) := Place → Option Image

/-- One page of `writePages`: its state word and the whole page. -/
def writePage (files : U64) (disk : Disk Image) (page : U64 × Image) : Disk Image :=
  Function.update disk (writePlace files page.1) (some page.2)

/-- `writePages`, when the requests complete in the given order. More requests than `maxIOs`
    are written past the end of the arrays. -/
def writePages (files : U64) (disk : Disk Image) (pages order : List (U64 × Image)) :
    Option (Disk Image) :=
  if pages.length ≤ maxIOs then some (order.foldl (writePage files) disk) else none

/-- The files hold a map from page numbers to pages, at least for the pages in reach. -/
def Holds (files : U64) (disk : Disk Image) (map : U64 → Option Image) : Prop :=
  ∀ pid, InReach files pid → disk (readPlace files pid) = map pid

/-- A page that is written replaces that page and no other. -/
theorem Holds.write {disk : Disk Image} {map : U64 → Option Image} (hfiles : 0 < files.toNat)
    (h : Holds files disk map) {word pid : U64} (hword : Carries word pid)
    (hreach : InReach files pid) (image : Image) :
    Holds files (writePage files disk (word, image)) (Function.update map pid (some image)) := by
  intro pid' hreach'
  unfold writePage
  rw [← (readPlace_eq_writePlace_iff hfiles (Nat.lt_trans hreach.1 (by decide)) hword).mpr
    (.inl hreach)]
  by_cases hpid : pid' = pid
  · rw [hpid, Function.update_self, Function.update_self]
  · have hne : readPlace files pid' ≠ readPlace files pid :=
      fun heq => hpid (readPlace_inj hreach' hreach heq)
    rw [Function.update_of_ne hne, Function.update_of_ne hpid]
    exact h pid' hreach'

/-- The map after a batch: page numbers with state words and images. -/
def updated (map : U64 → Option Image) (pages : List (U64 × U64 × Image)) : U64 → Option Image :=
  pages.foldl (fun map p => Function.update map p.1 (some p.2.2)) map

theorem Holds.writes {disk : Disk Image} {map : U64 → Option Image} (hfiles : 0 < files.toNat)
    (h : Holds files disk map) (order : List (U64 × U64 × Image))
    (horder : ∀ p ∈ order, Carries p.2.1 p.1 ∧ InReach files p.1) :
    Holds files ((order.map Prod.snd).foldl (writePage files) disk) (updated map order) := by
  induction order generalizing disk map with
  | nil => exact h
  | cons p rest ih =>
    obtain ⟨hword, hreach⟩ := horder p List.mem_cons_self
    exact ih (h.write hfiles hword hreach p.2.2) fun q hq => horder q (List.mem_cons_of_mem _ hq)

/-- Different pages may be written in any order. -/
theorem updated_perm {map : U64 → Option Image} {pages order : List (U64 × U64 × Image)}
    (hdistinct : (pages.map Prod.fst).Nodup) (horder : pages.Perm order) :
    updated map pages = updated map order := by
  refine horder.foldl_eq' (fun p hp q hq map => ?_) map
  by_cases hpq : p.1 = q.1
  · rw [List.inj_on_of_nodup_map hdistinct hp hq hpq]
  · exact Function.update_comm hpq ..

/-- **What is read was written**: after a batch of fewer than `maxIOs` different pages, whose
    requests complete in any order, `pread` of a page in reach finds what was last written for
    it. -/
theorem Holds.writePages {disk : Disk Image} {map : U64 → Option Image} (hfiles : 0 < files.toNat)
    (h : Holds files disk map) (pages order : List (U64 × U64 × Image))
    (hlength : pages.length < maxIOs) (hdistinct : (pages.map Prod.fst).Nodup)
    (hpages : ∀ p ∈ pages, Carries p.2.1 p.1 ∧ InReach files p.1) (horder : pages.Perm order) :
    ∃ disk', BlockFiles.writePages files disk (pages.map Prod.snd) (order.map Prod.snd) =
      some disk' ∧ Holds files disk' (updated map pages) := by
  refine ⟨_, if_pos (by rw [List.length_map]; exact Nat.le_of_lt hlength), ?_⟩
  rw [updated_perm hdistinct horder]
  exact h.writes hfiles order fun p hp => hpages p (horder.mem_iff.mpr hp)

/-- Two pages, the second of which is written first. -/
theorem writePages_two : ∃ disk, BlockFiles.writePages 16 (fun _ => none)
      [(sameVersion (toPtr 5) 0 unlocked, 1), (sameVersion (toPtr 6) 3 unlocked, 2)]
      [(sameVersion (toPtr 6) 3 unlocked, 2), (sameVersion (toPtr 5) 0 unlocked, 1)] = some disk ∧
    Holds 16 disk (Function.update (Function.update (fun _ => none) 5 (some 1)) 6 (some 2)) :=
  Holds.writePages (by decide) (fun _ _ => rfl) [(5, _, 1), (6, _, 2)] [(6, _, 2), (5, _, 1)]
    (by decide) (by decide) (by unfold Carries InReach; decide) (List.Perm.swap ..)

end disk

end Tabby.BlockFiles
