import Libdbos.Framework.Word

/-! # The Paravirtual Flag Word

    `struct dune_pv_info` of `kern/dune.h`: one 64-bit word per physical
    core that the host loop of the core and posting cores share. Bit 0
    says that the vCPU is in the host, bit 1 asks for a full TLB flush at
    the next entry, bit 2 asks for a new guest CR3, whose page address
    fills the rest of the word.

    The word is read with `Word.has` and changed by three operations:
    `postFlush` and `postCr3` of the posting cores and `setInHost` of the
    exit path. This file gives each of them its bits.
-/

namespace Pv

open Word

/-! ## Constants -/

/-- Bit `DUNE_PV_TLB_IN_HOST`. -/
def tlbInHost : Word := 0x1#64

/-- Bit `DUNE_PV_TLB_FLUSH_ON_REENTRY`. -/
def tlbFlushOnReentry : Word := 0x2#64

/-- Bit `DUNE_PV_CHANGE_GUEST_CR3`. -/
def changeGuestCr3 : Word := 0x4#64

/-- Mask `DUNE_PV_FEATURE_MASK` of the three bits. -/
def featureMask : Word := 0x7#64

/-- Mask `DUNE_PV_CHANGE_GUEST_CR3_MASK` of the requested root. -/
def changeGuestCr3Mask : Word := 0xFFFFFFFFFFFFFFF8#64

/-! ## Operations on the word -/

/-- The value a flush request swaps in for `v`. -/
def postFlush (v : Word) : Word := v ||| tlbFlushOnReentry

/-- The value a CR3 request swaps in for `v`: the three feature bits of
    `v` stay, the address bits of an earlier request go. -/
def postCr3 (v root : Word) : Word := (v &&& featureMask) ||| changeGuestCr3 ||| root

/-- The value the exit path swaps in for `v`. -/
def setInHost (v : Word) : Word := v ||| tlbInHost

/-- The root that the entry path takes out of the word. -/
def newCr3 (v : Word) : Word := v &&& changeGuestCr3Mask

/-- Page-table roots are page addresses. -/
def PageAligned (root : Word) : Prop := root &&& 0xfff#64 = 0#64

instance (root : Word) : Decidable (PageAligned root) :=
  inferInstanceAs (Decidable (_ = _))

/-! ## Reading the word -/

/-- Condition `v & DUNE_PV_TLB_IN_HOST`. -/
def inHost (v : Word) : Bool := has v tlbInHost

/-- Condition `v & DUNE_PV_TLB_FLUSH_ON_REENTRY`. -/
def flushOnReentry (v : Word) : Bool := has v tlbFlushOnReentry

/-- Condition `v & DUNE_PV_CHANGE_GUEST_CR3`. -/
def changesCr3 (v : Word) : Bool := has v changeGuestCr3

theorem inHost_eq (v : Word) : inHost v = v.getLsbD 0 := has_bit v 0 (by decide)

theorem flushOnReentry_eq (v : Word) : flushOnReentry v = v.getLsbD 1 := has_bit v 1 (by decide)

theorem changesCr3_eq (v : Word) : changesCr3 v = v.getLsbD 2 := has_bit v 2 (by decide)

theorem PageAligned.getLsbD {root : Word} (h : PageAligned root) {i : Nat} (hi : i < 12) :
    root.getLsbD i = false := by
  apply getLsbD_of_and_eq_zero h
  revert i
  decide

/-! ## What the operations do to the flags -/

@[simp] theorem inHost_zero : inHost 0#64 = false := by decide

@[simp] theorem flushOnReentry_zero : flushOnReentry 0#64 = false := by decide

@[simp] theorem changesCr3_zero : changesCr3 0#64 = false := by decide

@[simp] theorem inHost_postFlush (v : Word) : inHost (postFlush v) = inHost v := by
  simp [inHost_eq, postFlush, tlbFlushOnReentry]

@[simp] theorem flushOnReentry_postFlush (v : Word) : flushOnReentry (postFlush v) = true := by
  simp [flushOnReentry_eq, postFlush, tlbFlushOnReentry]

@[simp] theorem changesCr3_postFlush (v : Word) : changesCr3 (postFlush v) = changesCr3 v := by
  simp [changesCr3_eq, postFlush, tlbFlushOnReentry]

@[simp] theorem inHost_setInHost (v : Word) : inHost (setInHost v) = true := by
  simp [inHost_eq, setInHost, tlbInHost]

@[simp] theorem flushOnReentry_setInHost (v : Word) :
    flushOnReentry (setInHost v) = flushOnReentry v := by
  simp [flushOnReentry_eq, setInHost, tlbInHost]

@[simp] theorem changesCr3_setInHost (v : Word) : changesCr3 (setInHost v) = changesCr3 v := by
  simp [changesCr3_eq, setInHost, tlbInHost]

/-- A CR3 request keeps the mode bit. -/
theorem inHost_postCr3 (v : Word) {root : Word} (h : PageAligned root) :
    inHost (postCr3 v root) = inHost v := by
  have h0 := h.getLsbD (i := 0) (by decide)
  simp only [inHost_eq, postCr3, BitVec.getLsbD_or, BitVec.getLsbD_and, h0]
  simp [featureMask, changeGuestCr3]

/-- A CR3 request keeps a pending flush. -/
theorem flushOnReentry_postCr3 (v : Word) {root : Word} (h : PageAligned root) :
    flushOnReentry (postCr3 v root) = flushOnReentry v := by
  have h1 := h.getLsbD (i := 1) (by decide)
  simp only [flushOnReentry_eq, postCr3, BitVec.getLsbD_or, BitVec.getLsbD_and, h1]
  simp [featureMask, changeGuestCr3]

@[simp] theorem changesCr3_postCr3 (v root : Word) : changesCr3 (postCr3 v root) = true := by
  simp [changesCr3_eq, postCr3, changeGuestCr3]

/-! ## What the operations do to the requested root -/

@[simp] theorem newCr3_postFlush (v : Word) : newCr3 (postFlush v) = newCr3 v :=
  field_or_left (by decide) v

@[simp] theorem newCr3_setInHost (v : Word) : newCr3 (setInHost v) = newCr3 v :=
  field_or_left (by decide) v

theorem newCr3_of_pageAligned {root : Word} (h : PageAligned root) : newCr3 root = root := by
  apply BitVec.eq_of_getLsbD_eq
  intro i hi
  have hmask : changeGuestCr3Mask.getLsbD i = decide (3 ≤ i) := by
    revert i
    decide
  rw [newCr3, BitVec.getLsbD_and, hmask]
  by_cases h3 : 3 ≤ i
  · simp [h3]
  · simp [h3, h.getLsbD (show i < 12 by omega)]

/-- A CR3 request names its root bit for bit, whatever the word held before. -/
theorem newCr3_postCr3 (v : Word) {root : Word} (h : PageAligned root) :
    newCr3 (postCr3 v root) = root := by
  have hfeature : (v &&& featureMask) &&& changeGuestCr3Mask = 0#64 :=
    field_disjoint (by decide) v
  calc newCr3 (postCr3 v root)
      = (((v &&& featureMask) ||| changeGuestCr3) &&& changeGuestCr3Mask)
          ||| newCr3 root := by
        simp only [newCr3, postCr3, BitVec.and_or_distrib_right]
    _ = newCr3 root := by
        rw [field_or_left (by decide), hfeature, BitVec.zero_or]
    _ = root := newCr3_of_pageAligned h

end Pv
