import Mathlib.Algebra.Group.Nat.Defs
import Libdbos.Framework.Word

/-! # Host and Guest-Physical Addresses

    `hva_to_gpa` and `gpa_to_hva` of `kern/ept.c`. The guest-physical address
    space of a process ends at the physical width of the processor. Its last
    gigabyte is the window of the stack, the 63 gigabytes below are that of
    mappings, and what lies below these is mapped one to one.

    The addresses of some pages that the host serves itself (the APIC, the
    posted-interrupt descriptors, the paravirtual flag words) are fixed,
    wherever the windows are. `gpa_to_hva` takes them for host address 0.
-/

namespace Ept

/-! ## Constants -/

def gpaStackSize : Word := 1#64 <<< 30

def gpaMapSize : Word := (1#64 <<< 36) - gpaStackSize

def lgAlign (addr : Word) : Word := (addr + (1#64 <<< 30) - 1#64) &&& ~~~((1#64 <<< 30) - 1#64)

def pageSize : Word := 4096#64

def pageMask : Word := ~~~(pageSize - 1#64)

def gpaApicPage : Word := (1#64 <<< 46) - 4096#64

def gpaPostedIntrDescs : Word := 1#64 <<< 45

def gpaPvInfoPages : Word := (1#64 <<< 46) - 4096#64 * 1024#64

/-- The macro `ADDR_INVAL`. -/
def addrInval : Word := -1#64

/-! ## Translation -/

/-- The `mm_struct` of the process, and the physical width of the processor. -/
structure Mm where
  physBits : Nat
  mmapBase : Word
  startStack : Word

section

variable (mm : Mm)

def Mm.physEnd : Word := 1#64 <<< mm.physBits

def Mm.mmapStart : Word := lgAlign mm.mmapBase - gpaMapSize

def Mm.stackStart : Word := lgAlign mm.startStack - gpaStackSize

def hvaToGpa (hva : Word) : Word :=
  if mm.stackStart ≤ hva then
    if gpaStackSize ≤ hva - mm.stackStart then addrInval
    else hva - mm.stackStart + mm.physEnd - gpaStackSize
  else if mm.mmapStart ≤ hva then
    if gpaMapSize ≤ hva - mm.mmapStart then addrInval
    else hva - mm.mmapStart + mm.physEnd - gpaStackSize - gpaMapSize
  else if mm.physEnd - gpaStackSize - gpaMapSize ≤ hva then addrInval
  else hva

/-- The page of `gpa` is one of the `n` pages from `base` on. -/
def inPages (base : Word) (n : Nat) (gpa : Word) : Bool :=
  decide (base ≤ gpa &&& pageMask) &&
    decide (gpa &&& pageMask < base + pageSize * BitVec.ofNat 64 n)

/-- The pages for which `gpa_to_hva` fakes success. -/
def isSpecial (gpa : Word) : Bool :=
  decide (gpa &&& pageMask = gpaApicPage) || inPages gpaPostedIntrDescs 256 gpa ||
    inPages gpaPvInfoPages 256 gpa

def gpaToHva (gpa : Word) : Word :=
  if isSpecial gpa then 0#64
  else if gpa < mm.physEnd - gpaStackSize - gpaMapSize then gpa
  else if gpa < mm.physEnd - gpaStackSize then
    gpa - (mm.physEnd - gpaStackSize - gpaMapSize) + lgAlign mm.mmapBase - gpaMapSize
  else if gpa < mm.physEnd then
    gpa - (mm.physEnd - gpaStackSize) + lgAlign mm.startStack - gpaStackSize
  else addrInval

end

/-! ## Layouts -/

/-- The address space of a user process: the window of the stack lies above
    that of mappings, and both below 2^47. -/
structure Layout extends Mm where
  width : 39 ≤ physBits ∧ physBits ≤ 52
  above : toMm.mmapStart.toNat + gpaMapSize.toNat ≤ toMm.stackStart.toNat
  below : toMm.stackStart.toNat + gpaStackSize.toNat ≤ 2 ^ 47

theorem lgAlign_mod (addr : Word) : (lgAlign addr).toNat % 2 ^ 30 = 0 := by
  have hmask : (~~~((1#64 <<< 30) - 1#64)).toNat % 2 ^ 30 = 0 := by decide
  rw [lgAlign, BitVec.toNat_and, Nat.and_mod_two_pow, hmask, Nat.and_zero]

theorem toNat_gpaStackSize : gpaStackSize.toNat = 2 ^ 30 := by decide

theorem toNat_gpaMapSize : gpaMapSize.toNat = 63 * 2 ^ 30 := by decide

/-- Windows begin at whole gigabytes. -/
theorem toNat_sub_mod {a b : Word} (ha : a.toNat % 2 ^ 30 = 0) (hb : b.toNat % 2 ^ 30 = 0) :
    (a - b).toNat % 2 ^ 30 = 0 := by
  rw [BitVec.toNat_sub]
  omega

theorem Mm.mmapStart_mod (mm : Mm) : mm.mmapStart.toNat % 2 ^ 30 = 0 :=
  toNat_sub_mod (lgAlign_mod _) (by decide)

theorem Mm.stackStart_mod (mm : Mm) : mm.stackStart.toNat % 2 ^ 30 = 0 :=
  toNat_sub_mod (lgAlign_mod _) (by decide)

section

variable (l : Layout)

theorem Layout.toNat_physEnd : l.physEnd.toNat = 2 ^ l.physBits := by
  have hlt : 2 ^ l.physBits < 2 ^ 64 := Nat.pow_lt_pow_right (by decide) (by have := l.width; omega)
  rw [Mm.physEnd, BitVec.toNat_shiftLeft, show (1#64).toNat = 1 from rfl, Nat.shiftLeft_eq,
    Nat.one_mul, Nat.mod_eq_of_lt hlt]

theorem Layout.physEnd_bounds : 2 ^ 39 ≤ l.physEnd.toNat ∧ l.physEnd.toNat ≤ 2 ^ 52 ∧
    l.physEnd.toNat % 2 ^ 30 = 0 ∧ (l.physEnd.toNat ≤ 2 ^ 48 ∨ l.physEnd.toNat % 2 ^ 48 = 0) := by
  obtain ⟨hmin, hmax⟩ := l.width
  rw [l.toNat_physEnd]
  refine ⟨Nat.pow_le_pow_right (by decide) hmin, Nat.pow_le_pow_right (by decide) hmax,
    Nat.mod_eq_zero_of_dvd (Nat.pow_dvd_pow 2 (by omega)), ?_⟩
  by_cases h : l.physBits ≤ 48
  · exact .inl (Nat.pow_le_pow_right (by decide) h)
  · exact .inr (Nat.mod_eq_zero_of_dvd (Nat.pow_dvd_pow 2 (by omega)))

/-- The windows and where they go, as numbers. -/
structure Layout.Windows (mmap stack fin : Nat) : Prop where
  above : mmap + 63 * 2 ^ 30 ≤ stack
  below : stack + 2 ^ 30 ≤ 2 ^ 47
  width : 2 ^ 39 ≤ fin ∧ fin ≤ 2 ^ 52
  aligned : mmap % 2 ^ 30 = 0 ∧ stack % 2 ^ 30 = 0 ∧ fin % 2 ^ 30 = 0
  /-- The EPT has 48 bits; beyond these, nothing but windows is at the end. -/
  wraps : fin ≤ 2 ^ 48 ∨ fin % 2 ^ 48 = 0

theorem Layout.windows :
    Layout.Windows l.mmapStart.toNat l.stackStart.toNat l.physEnd.toNat := by
  have habove := l.above
  have hbelow := l.below
  obtain ⟨hmin, hmax, hfin, hwraps⟩ := l.physEnd_bounds
  rw [toNat_gpaMapSize] at habove
  rw [toNat_gpaStackSize] at hbelow
  exact ⟨habove, hbelow, ⟨hmin, hmax⟩, ⟨l.mmapStart_mod, l.stackStart_mod, hfin⟩, hwraps⟩

end

/-- What `hva_to_gpa` makes of `hva`, as numbers. -/
inductive Relocates (mmap stack fin hva gpa : Nat) : Prop where
  | low (hlow : hva < mmap) (hlt : hva < fin - 2 ^ 36) (heq : gpa = hva)
  | mmap (hle : mmap ≤ hva) (hlt : hva < mmap + 63 * 2 ^ 30)
      (heq : gpa = hva - mmap + (fin - 2 ^ 36))
  | stack (hle : stack ≤ hva) (hlt : hva < stack + 2 ^ 30)
      (heq : gpa = hva - stack + (fin - 2 ^ 30))

section

variable (l : Layout)

theorem hvaToGpa_relocates {hva : Word} (hok : hvaToGpa l.toMm hva ≠ addrInval) :
    Relocates l.mmapStart.toNat l.stackStart.toNat l.physEnd.toNat hva.toNat
      (hvaToGpa l.toMm hva).toNat := by
  obtain ⟨habove, hbelow, ⟨hmin, hmax⟩, _⟩ := l.windows
  have hs := toNat_gpaStackSize
  have hm := toNat_gpaMapSize
  unfold hvaToGpa at hok ⊢
  split
  · rename_i hstack
    rw [if_pos hstack] at hok
    split
    · rename_i hbig
      rw [if_pos hbig] at hok
      exact absurd rfl hok
    · rename_i hsmall
      refine .stack ?_ ?_ ?_ <;> bv_omega
  · rename_i hstack
    rw [if_neg hstack] at hok
    split
    · rename_i hmmap
      rw [if_pos hmmap] at hok
      split
      · rename_i hbig
        rw [if_pos hbig] at hok
        exact absurd rfl hok
      · rename_i hsmall
        refine .mmap ?_ ?_ ?_ <;> bv_omega
    · rename_i hmmap
      rw [if_neg hmmap] at hok
      split
      · rename_i hbig
        rw [if_pos hbig] at hok
        exact absurd rfl hok
      · rename_i hsmall
        refine .low ?_ ?_ rfl <;> bv_omega

/-- Every accepted address is the one that its guest-physical address is
    taken for, unless that is the address of a special page. -/
theorem gpaToHva_hvaToGpa {hva : Word} (hok : hvaToGpa l.toMm hva ≠ addrInval)
    (hspecial : isSpecial (hvaToGpa l.toMm hva) = false) :
    gpaToHva l.toMm (hvaToGpa l.toMm hva) = hva := by
  obtain ⟨habove, hbelow, ⟨hmin, hmax⟩, _⟩ := l.windows
  have hs := toNat_gpaStackSize
  have hm := toNat_gpaMapSize
  have hrel := hvaToGpa_relocates l hok
  generalize hvaToGpa l.toMm hva = gpa at hrel hspecial ⊢
  have hmmap : lgAlign l.mmapBase = l.mmapStart + gpaMapSize := by
    unfold Mm.mmapStart
    bv_omega
  have hstack : lgAlign l.startStack = l.stackStart + gpaStackSize := by
    unfold Mm.stackStart
    bv_omega
  unfold gpaToHva
  rw [hspecial, hmmap, hstack]
  -- The three windows do not overlap, so one comparison decides each case.
  cases hrel with
  | low hlow hlt heq =>
    have h1 : gpa < l.physEnd - gpaStackSize - gpaMapSize := by bv_omega
    simp only [Bool.false_eq_true, if_false, h1, if_true]
    bv_omega
  | mmap hle hlt heq =>
    have h1 : ¬ gpa < l.physEnd - gpaStackSize - gpaMapSize := by bv_omega
    have h2 : gpa < l.physEnd - gpaStackSize := by bv_omega
    simp only [Bool.false_eq_true, if_false, h1, h2, if_true]
    bv_omega
  | stack hle hlt heq =>
    have h1 : ¬ gpa < l.physEnd - gpaStackSize - gpaMapSize := by bv_omega
    have h2 : ¬ gpa < l.physEnd - gpaStackSize := by bv_omega
    have h3 : gpa < l.physEnd := by bv_omega
    simp only [Bool.false_eq_true, if_false, h1, h2, h3, if_true]
    bv_omega

/-- The invalid address is that of no page. -/
theorem gpaToHva_inval : gpaToHva l.toMm addrInval = addrInval := by
  obtain ⟨_, _, ⟨hmin, hmax⟩, _⟩ := l.windows
  have hspecial : isSpecial addrInval = false := by decide
  have hs := toNat_gpaStackSize
  have hm := toNat_gpaMapSize
  have hinval : addrInval.toNat = 2 ^ 64 - 1 := by decide
  have h1 : ¬ addrInval < l.physEnd - gpaStackSize - gpaMapSize := by bv_omega
  have h2 : ¬ addrInval < l.physEnd - gpaStackSize := by bv_omega
  have h3 : ¬ addrInval < l.physEnd := by bv_omega
  rw [gpaToHva, hspecial, if_neg h1, if_neg h2, if_neg h3]
  rfl

/-- Two accepted addresses go to two guest-physical addresses. -/
theorem hvaToGpa_injective {h h' : Word} (hok : hvaToGpa l.toMm h ≠ addrInval)
    (hok' : hvaToGpa l.toMm h' ≠ addrInval) (heq : hvaToGpa l.toMm h' = hvaToGpa l.toMm h) :
    h' = h := by
  obtain ⟨habove, hbelow, ⟨hmin, hmax⟩, _⟩ := l.windows
  have hrel := hvaToGpa_relocates l hok
  have hrel' := hvaToGpa_relocates l hok'
  rw [heq] at hrel'
  apply BitVec.eq_of_toNat_eq
  cases hrel <;> cases hrel' <;> omega

/-- Relocation is by whole gigabytes. -/
theorem hvaToGpa_mod {hva : Word} (hok : hvaToGpa l.toMm hva ≠ addrInval) :
    (hvaToGpa l.toMm hva).toNat % 2 ^ 30 = hva.toNat % 2 ^ 30 := by
  obtain ⟨habove, hbelow, ⟨hmin, hmax⟩, ⟨hmmap, hstack, hfin⟩, _⟩ := l.windows
  cases hvaToGpa_relocates l hok <;> omega

/-- Acceptance goes by whole gigabytes. -/
theorem hvaToGpa_accepts {h h' : Word} (hok : hvaToGpa l.toMm h ≠ addrInval)
    (hsame : h'.toNat / 2 ^ 30 = h.toNat / 2 ^ 30) : hvaToGpa l.toMm h' ≠ addrInval := by
  obtain ⟨habove, hbelow, ⟨hmin, hmax⟩, ⟨hmmap, hstack, hfin⟩, _⟩ := l.windows
  have hs := toNat_gpaStackSize
  have hm := toNat_gpaMapSize
  have hinval : addrInval.toNat = 2 ^ 64 - 1 := by decide
  intro hbad
  unfold hvaToGpa at hbad
  cases hvaToGpa_relocates l hok with
  | low hlow hlt heq =>
    have h1 : ¬ l.stackStart ≤ h' := by bv_omega
    have h2 : ¬ l.mmapStart ≤ h' := by bv_omega
    have h3 : ¬ l.physEnd - gpaStackSize - gpaMapSize ≤ h' := by bv_omega
    rw [if_neg h1, if_neg h2, if_neg h3] at hbad
    bv_omega
  | mmap hle hlt heq =>
    have h1 : ¬ l.stackStart ≤ h' := by bv_omega
    have h2 : l.mmapStart ≤ h' := by bv_omega
    have h3 : ¬ gpaMapSize ≤ h' - l.mmapStart := by bv_omega
    rw [if_neg h1, if_pos h2, if_neg h3] at hbad
    bv_omega
  | stack hle hlt heq =>
    have h1 : l.stackStart ≤ h' := by bv_omega
    have h2 : ¬ gpaStackSize ≤ h' - l.stackStart := by bv_omega
    rw [if_pos h1, if_neg h2] at hbad
    bv_omega

theorem lt_of_accepts {h : Word} (hok : hvaToGpa l.toMm h ≠ addrInval) : h.toNat < 2 ^ 47 := by
  obtain ⟨habove, hbelow, _, _, _⟩ := l.windows
  cases hvaToGpa_relocates l hok <;> omega

/-- The addresses that a leaf of level `k` takes. -/
def blockSize (k : Nat) : Nat := 2 ^ (12 + 9 * k)

/-- In a gigabyte, distances are kept. -/
theorem hvaToGpa_shift {h h' : Word} (hok : hvaToGpa l.toMm h ≠ addrInval)
    (hok' : hvaToGpa l.toMm h' ≠ addrInval) (hsame : h'.toNat / 2 ^ 30 = h.toNat / 2 ^ 30) :
    (hvaToGpa l.toMm h').toNat + h.toNat = (hvaToGpa l.toMm h).toNat + h'.toNat := by
  obtain ⟨habove, hbelow, ⟨hmin, hmax⟩, ⟨hmmap, hstack, hfin⟩, _⟩ := l.windows
  have hrel := hvaToGpa_relocates l hok
  have hrel' := hvaToGpa_relocates l hok'
  cases hrel <;> cases hrel' <;> omega

/-- The EPT, which reads 48 bits, tells the gigabytes of accepted addresses
    apart. -/
theorem hvaToGpa_giga {h h' : Word} (hok : hvaToGpa l.toMm h ≠ addrInval)
    (hok' : hvaToGpa l.toMm h' ≠ addrInval)
    (hsame : (hvaToGpa l.toMm h').toNat / 2 ^ 30 % 2 ^ 18 =
      (hvaToGpa l.toMm h).toNat / 2 ^ 30 % 2 ^ 18) :
    h'.toNat / 2 ^ 30 = h.toNat / 2 ^ 30 := by
  obtain ⟨habove, hbelow, ⟨hmin, hmax⟩, ⟨hmmap, hstack, hfin⟩, hwraps⟩ := l.windows
  have hrel := hvaToGpa_relocates l hok
  have hrel' := hvaToGpa_relocates l hok'
  cases hrel <;> cases hrel' <;> omega

/-- Blocks of up to a gigabyte stay together. -/
theorem hvaToGpa_block {h h' : Word} (hok : hvaToGpa l.toMm h ≠ addrInval)
    (hok' : hvaToGpa l.toMm h' ≠ addrInval) {k : Nat} (hk : k ≤ 2)
    (hsame : h'.toNat / blockSize k = h.toNat / blockSize k) :
    (hvaToGpa l.toMm h').toNat / blockSize k = (hvaToGpa l.toMm h).toNat / blockSize k := by
  unfold blockSize at hsame ⊢
  have hmod := hvaToGpa_mod l hok
  have hk : k = 0 ∨ k = 1 ∨ k = 2 := by omega
  rcases hk with rfl | rfl | rfl
  · have := hvaToGpa_shift l hok hok' (by omega)
    omega
  · have := hvaToGpa_shift l hok hok' (by omega)
    omega
  · have := hvaToGpa_shift l hok hok' hsame
    omega

/-- And what goes to one block, as far as the EPT reads addresses, is one. -/
theorem hvaToGpa_block_conv {h h' : Word} (hok : hvaToGpa l.toMm h ≠ addrInval)
    (hok' : hvaToGpa l.toMm h' ≠ addrInval) {k : Nat} (hk : k ≤ 2)
    (hsame : (hvaToGpa l.toMm h').toNat % 2 ^ 48 / blockSize k =
      (hvaToGpa l.toMm h).toNat % 2 ^ 48 / blockSize k) :
    h'.toNat / blockSize k = h.toNat / blockSize k := by
  unfold blockSize at hsame ⊢
  have hmod := hvaToGpa_mod l hok
  have hk : k = 0 ∨ k = 1 ∨ k = 2 := by omega
  have hgiga : h'.toNat / 2 ^ 30 = h.toNat / 2 ^ 30 := by
    refine hvaToGpa_giga l hok hok' ?_
    rcases hk with rfl | rfl | rfl <;> omega
  have := hvaToGpa_shift l hok hok' hgiga
  rcases hk with rfl | rfl | rfl <;> omega

/-- The guest-physical addresses of special pages, as numbers. -/
def SpecialAddr (n : Nat) : Prop :=
  2 ^ 45 ≤ n ∧ n < 2 ^ 45 + 2 ^ 20 ∨ 2 ^ 46 - 2 ^ 22 ≤ n ∧ n < 2 ^ 46 - 2 ^ 22 + 2 ^ 20 ∨
    2 ^ 46 - 2 ^ 12 ≤ n ∧ n < 2 ^ 46

theorem isSpecial_iff (gpa : Word) : isSpecial gpa = true ↔ SpecialAddr gpa.toNat := by
  have hpage : (gpa &&& pageMask).toNat = gpa.toNat / 2 ^ 12 * 2 ^ 12 :=
    Word.toNat_clear_low gpa 12
  have hdescs : gpaPostedIntrDescs.toNat = 2 ^ 45 := rfl
  have hpages : gpaPvInfoPages.toNat = 2 ^ 46 - 2 ^ 22 := rfl
  have hapic : gpaApicPage.toNat = 2 ^ 46 - 2 ^ 12 := rfl
  have hsize : (pageSize * BitVec.ofNat 64 256).toNat = 2 ^ 20 := rfl
  simp only [isSpecial, inPages, Bool.or_eq_true, Bool.and_eq_true, decide_eq_true_eq,
    BitVec.le_def, BitVec.lt_def, ← BitVec.toNat_inj, BitVec.toNat_add, hpage, hdescs, hpages,
    hapic, hsize, SpecialAddr]
  omega

/-- The host addresses that special pages hide: below the window of mappings those of these
    pages themselves, and with 46 physical bits some in the window of the stack. -/
def Layout.Shadowed (h : Nat) : Prop :=
  h < l.mmapStart.toNat ∧ SpecialAddr h ∨
    l.physBits = 46 ∧ l.stackStart.toNat ≤ h ∧
      SpecialAddr (h - l.stackStart.toNat + (2 ^ 46 - 2 ^ 30))

theorem isSpecial_hvaToGpa {hva : Word} (hok : hvaToGpa l.toMm hva ≠ addrInval) :
    isSpecial (hvaToGpa l.toMm hva) = true ↔ l.Shadowed hva.toNat := by
  obtain ⟨habove, hbelow, ⟨hmin, hmax⟩, _⟩ := l.windows
  have hfin := l.toNat_physEnd
  have hbits : l.physBits = 46 ∧ l.physEnd.toNat = 2 ^ 46 ∨
      l.physBits ≠ 46 ∧ (l.physEnd.toNat ≤ 2 ^ 45 ∨ 2 ^ 47 ≤ l.physEnd.toNat) := by
    rw [hfin]
    rcases Nat.lt_trichotomy l.physBits 46 with h | h | h
    · exact .inr ⟨by omega, .inl (Nat.pow_le_pow_right (by decide) (by omega))⟩
    · exact .inl ⟨h, by rw [h]⟩
    · exact .inr ⟨by omega, .inr (Nat.pow_le_pow_right (by decide) h)⟩
  rw [isSpecial_iff, Layout.Shadowed]
  unfold SpecialAddr
  have hrel := hvaToGpa_relocates l hok
  cases hrel <;> omega

/-- **One-to-one correspondence**: an accepted host address has a guest-physical address of its
    own, with the same offset in its gigabyte, and is what this is taken back to, if and only if
    it is not hidden by a special page. -/
theorem hva_gpa_correspondence (hva : Word) (hok : hvaToGpa l.toMm hva ≠ addrInval) :
    (gpaToHva l.toMm (hvaToGpa l.toMm hva) = hva ∧
      (∀ h, hvaToGpa l.toMm h ≠ addrInval → hvaToGpa l.toMm h = hvaToGpa l.toMm hva → h = hva) ∧
      (hvaToGpa l.toMm hva).toNat % 2 ^ 30 = hva.toNat % 2 ^ 30) ↔ ¬ l.Shadowed hva.toNat := by
  rw [← isSpecial_hvaToGpa l hok, Bool.not_eq_true]
  constructor
  · rintro ⟨hback, -⟩
    by_contra hspecial
    rw [Bool.not_eq_false] at hspecial
    rw [gpaToHva, if_pos hspecial] at hback
    -- Address 0 is not hidden.
    rw [isSpecial_hvaToGpa l hok, ← hback] at hspecial
    obtain ⟨habove, -⟩ := l.windows
    unfold Layout.Shadowed SpecialAddr at hspecial
    have : (0#64).toNat = 0 := rfl
    omega
  · intro hspecial
    exact ⟨gpaToHva_hvaToGpa l hok hspecial, fun _ hok' heq => hvaToGpa_injective l hok hok' heq,
      hvaToGpa_mod l hok⟩

end

/-- The layout of a process on a processor with 46 physical bits. -/
def layout46 : Layout where
  physBits := 46
  mmapBase := 0x7f1234567000#64
  startStack := 0x7ffd12345000#64
  width := by decide
  above := by decide
  below := by decide

/-- An address in the window of mappings. -/
theorem hva_gpa_correspondence_mmap :
    hvaToGpa layout46.toMm 0x7f1000000000#64 ≠ addrInval ∧
    gpaToHva layout46.toMm (hvaToGpa layout46.toMm 0x7f1000000000#64) = 0x7f1000000000#64 :=
  have hok : hvaToGpa layout46.toMm 0x7f1000000000#64 ≠ addrInval := by decide
  ⟨hok, ((hva_gpa_correspondence layout46 _ hok).mpr (by
    unfold Layout.Shadowed SpecialAddr
    decide)).1⟩

/-- **Special pages lie in the windows**: host address 2^45, and the last page
    of the stack window, are accepted but taken for host address 0. -/
theorem special_page_shadows :
    (hvaToGpa layout46.toMm (1#64 <<< 45) ≠ addrInval ∧
      gpaToHva layout46.toMm (hvaToGpa layout46.toMm (1#64 <<< 45)) = 0#64) ∧
    (hvaToGpa layout46.toMm 0x7ffd3ffff000#64 ≠ addrInval ∧
      gpaToHva layout46.toMm (hvaToGpa layout46.toMm 0x7ffd3ffff000#64) = 0#64) := by
  decide

end Ept
