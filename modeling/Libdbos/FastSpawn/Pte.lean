import Libdbos.Framework.Word

/-! # Page-Table Entries under Copy-on-Write

    The leaf entries of `libdune/mmu-x86.h` and the words that the fault
    handler (`dbos_fast_spawn_pgflt_handler`) and the shadow copier
    (`pgtable_cow_copy`) compute from them. An entry packs a frame address
    with hardware bits (present, writable, accessed, dirty) and software
    bits (copy-on-write, stack, lock, no-copy-on-write).

    Every word below is an address part joined with a permission part.
    The lemma that goes with a word gives its frame and its flags, so that
    the protocol proofs never look at single bits.
-/

namespace Pte

open Word

/-! ## Constants -/

def pteP : Word := 0x1#64

def pteW : Word := 0x2#64

def pteU : Word := 0x4#64

def pteA : Word := 0x20#64

def pteD : Word := 0x40#64

/-- Software bit `PTE_COW`; an entry that has it must be read-only. -/
def pteCow : Word := 0x200#64

def pteStack : Word := 0x400#64

def pteLock : Word := 0x800#64

/-- Software bit `PTE_NOCOW`, the third user bit. -/
def pteNocow : Word := 0x1000000000000000#64

def addrMask : Word := 0xffffffffff000#64

def flagsMask : Word := 0xfff0000000000fff#64

/-- Address part `PTE_ADDR` of an entry. -/
def pteAddr (w : Word) : Word := w &&& addrMask

/-- Permission part `PTE_FLAGS` of an entry. -/
def pteFlags (w : Word) : Word := w &&& flagsMask

/-! ## Reading the flags -/

def isP (w : Word) : Bool := has w pteP

def isW (w : Word) : Bool := has w pteW

def isA (w : Word) : Bool := has w pteA

def isCow (w : Word) : Bool := has w pteCow

def isStack (w : Word) : Bool := has w pteStack

def isLock (w : Word) : Bool := has w pteLock

def isNocow (w : Word) : Bool := has w pteNocow

theorem isP_eq (w : Word) : isP w = w.getLsbD 0 := has_bit w 0 (by decide)

theorem isW_eq (w : Word) : isW w = w.getLsbD 1 := has_bit w 1 (by decide)

theorem isA_eq (w : Word) : isA w = w.getLsbD 5 := has_bit w 5 (by decide)

theorem isCow_eq (w : Word) : isCow w = w.getLsbD 9 := has_bit w 9 (by decide)

theorem isStack_eq (w : Word) : isStack w = w.getLsbD 10 := has_bit w 10 (by decide)

theorem isLock_eq (w : Word) : isLock w = w.getLsbD 11 := has_bit w 11 (by decide)

theorem isNocow_eq (w : Word) : isNocow w = w.getLsbD 60 := has_bit w 60 (by decide)

@[simp] theorem isP_zero : isP 0#64 = false := by decide

@[simp] theorem isW_zero : isW 0#64 = false := by decide

@[simp] theorem isCow_zero : isCow 0#64 = false := by decide

/-- What never changes in an entry while the mapping stays: its frame and
    the bits that decide whether copy-on-write applies to it. -/
structure SameMapping (v w : Word) : Prop where
  addr : pteAddr v = pteAddr w
  p : isP v = isP w
  stack : isStack v = isStack w
  nocow : isNocow v = isNocow w

theorem SameMapping.refl (w : Word) : SameMapping w w := ⟨rfl, rfl, rfl, rfl⟩

theorem SameMapping.trans {u v w : Word} (h : SameMapping u v) (h' : SameMapping v w) :
    SameMapping u w :=
  ⟨h.addr.trans h'.addr, h.p.trans h'.p, h.stack.trans h'.stack, h.nocow.trans h'.nocow⟩

/-! ## Words of the fault handler -/

/-- The locked entry that the handler swaps in. -/
def locked (w : Word) : Word := w ||| pteLock

/-- The permissions `perm` the handler computes from the entry it locked. -/
def unlockPerm (old : Word) : Word :=
  (((pteFlags old &&& ~~~pteCow) ||| pteW) ||| (pteU ||| pteA ||| pteD)) &&& ~~~pteLock

/-- The write-enabled entry on the old frame. -/
def unlocked (old : Word) : Word := pteAddr old ||| unlockPerm old

/-- The write-protected entry that a retry puts back. -/
def restored (old : Word) : Word :=
  pteAddr old ||| (((unlockPerm old ||| pteCow) &&& ~~~pteW) &&& ~~~pteLock)

/-- The entry that moves the snapshot core to its copy `page`. -/
def privateCopy (page old : Word) : Word := pteAddr page ||| unlockPerm old

/-- The permissions `snapshot_pte_perm` a main core computes from the
    snapshot entry it locked. -/
def snapshotPerm (new : Word) : Word := (pteFlags new ||| (pteD ||| pteA)) &&& ~~~pteLock

/-- The snapshot entry released unchanged after it had diverged. -/
def diverged (new : Word) : Word := pteAddr new ||| snapshotPerm new

/-- The snapshot entry moved to the copy `page` by a main core. -/
def installed (page new : Word) : Word :=
  pteAddr page ||| ((snapshotPerm new ||| pteW) &&& ~~~pteCow)

/-- The permissions computed again from the snapshot entry when the
    compare-exchange of `installed` has failed. -/
def reloadPerm (w : Word) : Word :=
  (((pteFlags w ||| pteW) ||| (pteD ||| pteA)) &&& ~~~pteCow) &&& ~~~pteLock

/-- The snapshot entry stored without a comparison. -/
def overwritten (page w : Word) : Word := pteAddr page ||| reloadPerm w

/-! ## Words of the shadow copier -/

/-- Entry of the first shadow table for a page that becomes copy-on-write. -/
def cowCopy1 (w : Word) : Word := ((w &&& ~~~pteW) ||| pteCow) &&& ~~~pteLock

/-- Entry of the second shadow table for a page that becomes copy-on-write. -/
def cowCopy2 (w : Word) : Word := (((w &&& ~~~pteW) ||| pteCow) &&& ~~~pteA) &&& ~~~pteLock

/-- Entry of the first shadow table for any other page. -/
def plainCopy1 (w : Word) : Word := w &&& ~~~pteLock

/-- Entry of the second shadow table for any other page. -/
def plainCopy2 (w : Word) : Word := (w &&& ~~~pteA) &&& ~~~pteLock

/-! ## Words of the hardware -/

/-- The entry after a page walk that reads. -/
def accessed (w : Word) : Word := w ||| pteA

/-- The entry after a page walk that writes. -/
def dirtied (w : Word) : Word := w ||| (pteA ||| pteD)

/-! ## The address part

    Joining an address part with permissions, and changing flags, leaves
    the frame alone: the masks involved are disjoint from `addrMask`. -/

theorem pteAddr_pteAddr (w : Word) : pteAddr (pteAddr w) = pteAddr w := field_field addrMask w

theorem pteAddr_pteFlags (w : Word) : pteAddr (pteFlags w) = 0#64 := field_disjoint (by decide) w

theorem pteAddr_or (a b : Word) : pteAddr (a ||| b) = pteAddr a ||| pteAddr b :=
  BitVec.and_or_distrib_right

theorem pteAddr_or_flag {m : Word} (h : m &&& addrMask = 0#64) (w : Word) :
    pteAddr (w ||| m) = pteAddr w :=
  field_or_left h w

theorem pteAddr_clear {m : Word} (h : ~~~m &&& addrMask = addrMask) (w : Word) :
    pteAddr (w &&& ~~~m) = pteAddr w :=
  field_clear h w

/-- An address part joined with permissions has the address of the former. -/
theorem pteAddr_join {a f : Word} (h : pteAddr f = 0#64) :
    pteAddr (pteAddr a ||| f) = pteAddr a := by
  rw [pteAddr_or, pteAddr_pteAddr, h, BitVec.or_zero]

theorem pteAddr_unlockPerm (w : Word) : pteAddr (unlockPerm w) = 0#64 := by
  unfold unlockPerm
  rw [pteAddr_clear (by decide), pteAddr_or_flag (by decide), pteAddr_or_flag (by decide),
    pteAddr_clear (by decide), pteAddr_pteFlags]

theorem pteAddr_snapshotPerm (w : Word) : pteAddr (snapshotPerm w) = 0#64 := by
  unfold snapshotPerm
  rw [pteAddr_clear (by decide), pteAddr_or_flag (by decide), pteAddr_pteFlags]

theorem pteAddr_reloadPerm (w : Word) : pteAddr (reloadPerm w) = 0#64 := by
  unfold reloadPerm
  rw [pteAddr_clear (by decide), pteAddr_clear (by decide), pteAddr_or_flag (by decide),
    pteAddr_or_flag (by decide), pteAddr_pteFlags]

@[simp] theorem pteAddr_locked (w : Word) : pteAddr (locked w) = pteAddr w :=
  pteAddr_or_flag (by decide) w

@[simp] theorem pteAddr_unlocked (w : Word) : pteAddr (unlocked w) = pteAddr w :=
  pteAddr_join (pteAddr_unlockPerm w)

@[simp] theorem pteAddr_restored (w : Word) : pteAddr (restored w) = pteAddr w := by
  apply pteAddr_join
  rw [pteAddr_clear (by decide), pteAddr_clear (by decide), pteAddr_or_flag (by decide),
    pteAddr_unlockPerm]

@[simp] theorem pteAddr_privateCopy (page w : Word) : pteAddr (privateCopy page w) = pteAddr page :=
  pteAddr_join (pteAddr_unlockPerm w)

@[simp] theorem pteAddr_diverged (w : Word) : pteAddr (diverged w) = pteAddr w :=
  pteAddr_join (pteAddr_snapshotPerm w)

@[simp] theorem pteAddr_installed (page w : Word) : pteAddr (installed page w) = pteAddr page := by
  apply pteAddr_join
  rw [pteAddr_clear (by decide), pteAddr_or_flag (by decide), pteAddr_snapshotPerm]

@[simp] theorem pteAddr_overwritten (page w : Word) : pteAddr (overwritten page w) = pteAddr page :=
  pteAddr_join (pteAddr_reloadPerm w)

@[simp] theorem pteAddr_accessed (w : Word) : pteAddr (accessed w) = pteAddr w :=
  pteAddr_or_flag (by decide) w

@[simp] theorem pteAddr_dirtied (w : Word) : pteAddr (dirtied w) = pteAddr w :=
  pteAddr_or_flag (by decide) w

section Bits

attribute [local simp] unlockPerm snapshotPerm reloadPerm pteAddr pteFlags addrMask flagsMask
  pteLock pteCow pteW pteU pteA pteD isLock_eq isCow_eq isW_eq isA_eq isP_eq isStack_eq isNocow_eq

/-! ## The flags of each word -/

@[simp] theorem locked_flags (w : Word) :
    isLock (locked w) = true ∧ isCow (locked w) = isCow w ∧ isW (locked w) = isW w ∧
    isA (locked w) = isA w ∧ isP (locked w) = isP w := by
  simp [locked]

@[simp] theorem unlocked_flags (w : Word) :
    isLock (unlocked w) = false ∧ isCow (unlocked w) = false ∧ isW (unlocked w) = true := by
  simp [unlocked]

@[simp] theorem restored_flags (w : Word) :
    isLock (restored w) = false ∧ isCow (restored w) = true ∧ isW (restored w) = false := by
  simp [restored]

@[simp] theorem privateCopy_flags (page w : Word) :
    isLock (privateCopy page w) = false ∧ isCow (privateCopy page w) = false ∧
    isW (privateCopy page w) = true ∧ isA (privateCopy page w) = true ∧
    isP (privateCopy page w) = isP w := by
  simp [privateCopy]

@[simp] theorem diverged_flags (w : Word) :
    isLock (diverged w) = false ∧ isCow (diverged w) = isCow w ∧ isW (diverged w) = isW w ∧
    isA (diverged w) = true ∧ isP (diverged w) = isP w := by
  simp [diverged]

@[simp] theorem installed_flags (page w : Word) :
    isLock (installed page w) = false ∧ isCow (installed page w) = false ∧
    isW (installed page w) = true ∧ isA (installed page w) = true ∧
    isP (installed page w) = isP w := by
  simp [installed]

@[simp] theorem overwritten_flags (page w : Word) :
    isLock (overwritten page w) = false ∧ isCow (overwritten page w) = false ∧
    isW (overwritten page w) = true ∧ isA (overwritten page w) = true ∧
    isP (overwritten page w) = isP w := by
  simp [overwritten]

@[simp] theorem accessed_flags (w : Word) :
    isLock (accessed w) = isLock w ∧ isCow (accessed w) = isCow w ∧ isW (accessed w) = isW w ∧
    isA (accessed w) = true ∧ isP (accessed w) = isP w := by
  simp [accessed]

@[simp] theorem dirtied_flags (w : Word) :
    isLock (dirtied w) = isLock w ∧ isCow (dirtied w) = isCow w ∧ isW (dirtied w) = isW w ∧
    isA (dirtied w) = true ∧ isP (dirtied w) = isP w := by
  simp [dirtied]

@[simp] theorem cowCopy1_flags (w : Word) :
    isLock (cowCopy1 w) = false ∧ isCow (cowCopy1 w) = true ∧ isW (cowCopy1 w) = false := by
  simp [cowCopy1]

@[simp] theorem cowCopy2_flags (w : Word) :
    isLock (cowCopy2 w) = false ∧ isCow (cowCopy2 w) = true ∧ isW (cowCopy2 w) = false ∧
    isA (cowCopy2 w) = false := by
  simp [cowCopy2]

@[simp] theorem plainCopy1_flags (w : Word) :
    isLock (plainCopy1 w) = false ∧ isCow (plainCopy1 w) = isCow w ∧
    isW (plainCopy1 w) = isW w := by
  simp [plainCopy1]

@[simp] theorem plainCopy2_flags (w : Word) :
    isLock (plainCopy2 w) = false ∧ isCow (plainCopy2 w) = isCow w ∧
    isW (plainCopy2 w) = isW w ∧ isA (plainCopy2 w) = false := by
  simp [plainCopy2]

/-! ## Words that keep the mapping -/

theorem sameMapping_locked (w : Word) : SameMapping (locked w) w := by
  refine ⟨pteAddr_locked w, ?_, ?_, ?_⟩ <;>
    simp [locked]

theorem sameMapping_unlocked (w : Word) : SameMapping (unlocked w) w := by
  refine ⟨pteAddr_unlocked w, ?_, ?_, ?_⟩ <;>
    simp [unlocked]

theorem sameMapping_restored (w : Word) : SameMapping (restored w) w := by
  refine ⟨pteAddr_restored w, ?_, ?_, ?_⟩ <;>
    simp [restored]

theorem sameMapping_dirtied (w : Word) : SameMapping (dirtied w) w := by
  refine ⟨pteAddr_dirtied w, ?_, ?_, ?_⟩ <;>
    simp [dirtied]

theorem sameMapping_accessed (w : Word) : SameMapping (accessed w) w := by
  refine ⟨pteAddr_accessed w, ?_, ?_, ?_⟩ <;>
    simp [accessed]

end Bits

theorem pteAddr_cowCopy1 (w : Word) : pteAddr (cowCopy1 w) = pteAddr w := by
  unfold cowCopy1
  rw [pteAddr_clear (by decide), pteAddr_or_flag (by decide), pteAddr_clear (by decide)]

theorem pteAddr_cowCopy2 (w : Word) : pteAddr (cowCopy2 w) = pteAddr w := by
  unfold cowCopy2
  rw [pteAddr_clear (by decide), pteAddr_clear (by decide), pteAddr_or_flag (by decide),
    pteAddr_clear (by decide)]

theorem pteAddr_plainCopy1 (w : Word) : pteAddr (plainCopy1 w) = pteAddr w :=
  pteAddr_clear (by decide) w

theorem pteAddr_plainCopy2 (w : Word) : pteAddr (plainCopy2 w) = pteAddr w := by
  unfold plainCopy2
  rw [pteAddr_clear (by decide), pteAddr_clear (by decide)]

theorem sameMapping_cowCopy1 (w : Word) : SameMapping (cowCopy1 w) w := by
  refine ⟨pteAddr_cowCopy1 w, ?_, ?_, ?_⟩ <;>
    simp [cowCopy1, pteLock, pteCow, pteW, isP_eq, isStack_eq, isNocow_eq]

theorem sameMapping_plainCopy1 (w : Word) : SameMapping (plainCopy1 w) w := by
  refine ⟨pteAddr_plainCopy1 w, ?_, ?_, ?_⟩ <;>
    simp [plainCopy1, pteLock, isP_eq, isStack_eq, isNocow_eq]

/-! ## Pages under copy-on-write -/

/-- The leaf is under copy-on-write. -/
def tracked (w : Word) : Bool := isP w && !isStack w && !isNocow w && (isW w || isCow w)

/-- The shadow entry `sh` of a page under copy-on-write with leaf `w`. -/
structure Protected (w sh : Word) : Prop where
  addr : pteAddr sh = pteAddr w
  cow : isCow sh = true
  readonly : isW sh = false
  unlocked : isLock sh = false

theorem protected_cowCopy1 (w : Word) : Protected w (cowCopy1 w) :=
  ⟨pteAddr_cowCopy1 w, by simp, by simp, by simp⟩

theorem protected_cowCopy2 (w : Word) : Protected w (cowCopy2 w) :=
  ⟨pteAddr_cowCopy2 w, by simp, by simp, by simp⟩

theorem protected_plainCopy1 {w : Word} (hcow : isCow w = true) (hro : isW w = false) :
    Protected w (plainCopy1 w) :=
  ⟨pteAddr_plainCopy1 w, by simp [hcow], by simp [hro], by simp⟩

theorem protected_plainCopy2 {w : Word} (hcow : isCow w = true) (hro : isW w = false) :
    Protected w (plainCopy2 w) :=
  ⟨pteAddr_plainCopy2 w, by simp [hcow], by simp [hro], by simp⟩

end Pte
