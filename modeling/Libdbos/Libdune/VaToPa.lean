import Libdbos.Kern.AddressMap

/-! # Guest-Physical Addresses in the Library

    `dune_va_to_pa` of `libdune/dune.h` computes in the guest what
    `hva_to_gpa` computes in the kernel. The library knows the layout that
    the kernel has reported to it, has no bounds, and looks for special pages
    first. On processes with the usual layout, whose windows are in the upper
    half of the user addresses, the two agree (`vaToPa_eq_hvaToGpa`).
-/

namespace Dune

open Ept

/-- The structure `dune_layout`. -/
structure DuneLayout where
  physLimit : Word
  baseMap : Word
  baseStack : Word

/-- What the kernel answers to `DUNE_GET_LAYOUT`. -/
def getLayout (mm : Mm) : DuneLayout where
  physLimit := 1#64 <<< mm.physBits
  baseMap := lgAlign mm.mmapBase - gpaMapSize
  baseStack := lgAlign mm.startStack - gpaStackSize

/-! ## Translation -/

/-- The macro `PGADDR`. -/
def pgAddr (la : Word) : Word := la &&& pageMask

def apicBase : Word := 0xfffffffffffff000#64

section

variable (layout : DuneLayout) (ptr : Word)

def mmapAddrToPa : Word :=
  ptr - layout.baseMap + (layout.physLimit - gpaStackSize - gpaMapSize)

def stackAddrToPa : Word := ptr - layout.baseStack + layout.physLimit - gpaStackSize

def vaToPa : Word :=
  if pgAddr ptr = apicBase then gpaApicPage
  else if inPages gpaPostedIntrDescs 256 ptr then
    gpaPostedIntrDescs + (pgAddr ptr - gpaPostedIntrDescs)
  else if inPages gpaPvInfoPages 256 ptr then gpaPvInfoPages + (pgAddr ptr - gpaPvInfoPages)
  else if layout.baseStack ≤ ptr then stackAddrToPa layout ptr
  else if layout.baseMap ≤ ptr then mmapAddrToPa layout ptr
  else ptr

end

/-! ## Agreement with the kernel -/

theorem pgAddr_eq {ptr : Word} (h : ptr.toNat % 4096 = 0) : pgAddr ptr = ptr := by
  have hbit : ∀ i, i < 12 → ptr.toNat.testBit i = false := by
    intro i hi
    have hmod := Nat.testBit_mod_two_pow ptr.toNat 12 i
    rw [show 2 ^ 12 = 4096 from rfl, h, Nat.zero_testBit, decide_eq_true hi] at hmod
    exact hmod.symm
  apply BitVec.eq_of_getLsbD_eq
  intro i hi
  rw [pgAddr, BitVec.getLsbD_and]
  by_cases hlow : i < 12
  · have hzero : ptr.getLsbD i = false := hbit i hlow
    rw [hzero, Bool.false_and]
  · have hmask : pageMask.getLsbD i = true := by
      have hval : pageSize - 1#64 = 4095#64 := by decide
      have hnat : (4095#64).getLsbD i = false := by
        show Nat.testBit (2 ^ 12 - 1) i = false
        rw [Nat.testBit_two_pow_sub_one, decide_eq_false hlow]
      rw [pageMask, hval, BitVec.getLsbD_not, hnat, decide_eq_true hi]
      rfl
    rw [hmask, Bool.and_true]

/-- An address below both windows stays what it is. -/
theorem hvaToGpa_low (l : Layout) {h : Word} (hok : hvaToGpa l.toMm h ≠ addrInval)
    (hlow : h.toNat < l.mmapStart.toNat) : hvaToGpa l.toMm h = h := by
  obtain ⟨habove, _, _, _, _⟩ := l.windows
  apply BitVec.eq_of_toNat_eq
  cases hvaToGpa_relocates l hok with
  | low _ _ heq => exact heq
  | mmap hle _ _ => omega
  | stack hle _ _ => omega

/-- The special pages are below the windows. -/
theorem lt_of_inPages {base h : Word} (hbase : base.toNat + 2 ^ 20 ≤ 2 ^ 46)
    (halign : h.toNat % 4096 = 0) (hin : inPages base 256 h = true) : h.toNat < 2 ^ 46 := by
  have hpg : h &&& pageMask = h := pgAddr_eq halign
  rw [inPages, hpg, Bool.and_eq_true, decide_eq_true_eq, decide_eq_true_eq] at hin
  have hsize : pageSize * BitVec.ofNat 64 256 = 0x100000#64 := by decide
  rw [hsize] at hin
  bv_omega

/-- What the library takes for a special page is the address itself. -/
theorem special_eq (base h : Word) : base + (h - base) = h := by
  bv_omega

/-- **The library and the kernel agree** on the addresses that the kernel
    accepts, if the windows are above 2^46. -/
theorem vaToPa_eq_hvaToGpa (l : Layout) (hupper : 2 ^ 46 ≤ l.mmapStart.toNat) {h : Word}
    (halign : h.toNat % 4096 = 0) (hok : hvaToGpa l.toMm h ≠ addrInval) :
    vaToPa (getLayout l.toMm) h = hvaToGpa l.toMm h := by
  have hlt := lt_of_accepts l hok
  have hpg := pgAddr_eq halign
  unfold vaToPa
  rw [hpg]
  split
  · rename_i hapic
    rw [hapic] at hlt
    exact absurd hlt (by decide)
  · split
    · rename_i hposted
      have hlow := lt_of_inPages (by decide) halign hposted
      rw [special_eq, hvaToGpa_low l hok (by omega)]
    · split
      · rename_i hpv
        have hlow := lt_of_inPages (by decide) halign hpv
        rw [special_eq, hvaToGpa_low l hok (by omega)]
      · -- The windows are told apart in the same order.
        unfold hvaToGpa at hok ⊢
        change (if l.stackStart ≤ h then h - l.stackStart + l.physEnd - gpaStackSize
          else if l.mmapStart ≤ h then
            h - l.mmapStart + (l.physEnd - gpaStackSize - gpaMapSize) else h) = _
        split
        · rename_i hstack
          rw [if_pos hstack] at hok
          split
          · rename_i hbig
            rw [if_pos hbig] at hok
            exact absurd rfl hok
          · rfl
        · rename_i hstack
          rw [if_neg hstack] at hok
          split
          · rename_i hmmap
            rw [if_pos hmmap] at hok
            split
            · rename_i hbig
              rw [if_pos hbig] at hok
              exact absurd rfl hok
            · bv_omega
          · rename_i hmmap
            rw [if_neg hmmap] at hok
            split
            · rename_i hbig
              rw [if_pos hbig] at hok
              exact absurd rfl hok
            · rfl

/-- A posted-interrupt descriptor, a mapping and the stack. -/
theorem vaToPa_eq_hvaToGpa_windows :
    vaToPa (getLayout layout46.toMm) (1#64 <<< 45) = 1#64 <<< 45 ∧
    vaToPa (getLayout layout46.toMm) 0x7f1000000000#64 =
      hvaToGpa layout46.toMm 0x7f1000000000#64 ∧
    vaToPa (getLayout layout46.toMm) 0x7ffd12345000#64 =
      hvaToGpa layout46.toMm 0x7ffd12345000#64 := by
  have hupper : 2 ^ 46 ≤ layout46.mmapStart.toNat := by decide
  refine ⟨?_, vaToPa_eq_hvaToGpa layout46 hupper (by decide) (by decide),
    vaToPa_eq_hvaToGpa layout46 hupper (by decide) (by decide)⟩
  rw [vaToPa_eq_hvaToGpa layout46 hupper (by decide) (by decide)]
  decide

end Dune
