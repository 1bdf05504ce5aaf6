import Libdbos.Libdune.PageVisits

/-! # Changing Protection

    `dune_vm_mprotect` of `libdune/vm.c` builds the word of every leaf that
    meets its range anew: the frame, the flag for large pages, and the flags of
    the permissions. The marks that copy-on-write relies on are gone unless the
    caller names them, and a large leaf changes as a whole.

    The rights and nothing else change if and only if the permissions name the
    marks of the leaves, and the leaves lie in the range or do not change
    (`mprotect_protects`).
-/

namespace Dune

open Pte Radix Sweep

section

variable {σ : Type}

def einval : Ret := .code (-22)

/-- The word that `__dune_vm_mprotect_helper` makes of an entry. -/
def protectWord (perm w : Word) : Word := pteAddr w ||| (pteFlags w &&& ptePs) ||| perm

def mprotectHelper (perm : Word) : Callback σ := fun dir i _ _ s =>
  ({ s with mem := write s.mem dir i (protectWord perm (s.mem dir i)) }, .ok)

/-- The permissions that count: without `PERM_R` there are none. -/
def effective (perm : Word) : Word := if Word.has perm permR then perm else 0#64

/-- The function `dune_vm_mprotect`. -/
def mprotect (root va len : Nat) (perm : Word) (s : Vm σ) : Vm σ × Ret :=
  if !Word.has perm permR && Word.has perm permW then (s, einval)
  else vmPageWalk (mprotectHelper (getPtePerm (effective perm))) root va (lastVa va len) s

/-! ## Words -/

theorem mprotectHelper_rewrites (perm : Word) :
    Rewrites (mprotectHelper (σ := σ) perm) fun _ w => protectWord perm w :=
  fun _ _ _ _ _ => ⟨rfl, rfl⟩

theorem leaf_big {k : Nat} {w : Word} (h : shape.kind k w = .leaf) (hk : 0 < k) :
    k ≤ 2 ∧ pteBig w = true := by
  cases k with
  | zero => exact absurd hk (Nat.lt_irrefl 0)
  | succ k =>
    change entryKind (k + 1) w = .leaf at h
    rw [entryKind] at h
    split at h
    · rename_i hbig
      exact ⟨by omega, hbig.2⟩
    · split at h <;> cases h

theorem pteBig_protectWord {perm w : Word} (h : pteBig w = true) :
    pteBig (protectWord perm w) = true := by
  rw [pteBig_eq] at h ⊢
  simp [protectWord, pteFlags, flagsMask, ptePs, h]

theorem protectWord_leaf {k : Nat} {perm w : Word} (hperm : perm ≠ 0#64)
    (h : shape.kind k w = .leaf) : shape.kind k (protectWord perm w) = .leaf := by
  cases k with
  | zero =>
    change entryKind 0 _ = _
    rw [entryKind, if_neg]
    rw [protectWord]
    intro hzero
    exact hperm (BitVec.or_eq_zero_iff.mp hzero).2
  | succ k =>
    obtain ⟨hk, hbig⟩ := leaf_big h (Nat.succ_pos k)
    change entryKind (k + 1) _ = _
    rw [entryKind, if_pos ⟨by omega, pteBig_protectWord hbig⟩]

/-- Some flag is set for all permissions that are accepted. -/
theorem getPtePerm_effective_ne_zero (perm : Word) : getPtePerm (effective perm) ≠ 0#64 := by
  intro hzero
  unfold effective at hzero
  split at hzero
  · rename_i hr
    have hbit := getPtePerm_getLsbD perm 0
    rw [hzero, hr] at hbit
    simp at hbit
  · exact absurd hzero (by decide)

/-- The frame stays. -/
theorem pteAddr_protectWord {perm w : Word} (h : pteAddr perm = 0#64) :
    pteAddr (protectWord perm w) = pteAddr w := by
  have hps : pteAddr (pteFlags w &&& ptePs) = 0#64 := Word.field_disjoint (by decide) _
  rw [protectWord, pteAddr_or, pteAddr_or, pteAddr_pteAddr, hps, h, BitVec.or_zero, BitVec.or_zero]

/-- A flag other than that for large pages is the one of the permissions. -/
theorem getLsbD_protectWord {perm w : Word} {i : Nat} (haddr : addrMask.getLsbD i = false)
    (hps : ptePs.getLsbD i = false) : (protectWord perm w).getLsbD i = perm.getLsbD i := by
  rw [protectWord, BitVec.getLsbD_or, BitVec.getLsbD_or, pteAddr, BitVec.getLsbD_and,
    BitVec.getLsbD_and, haddr, hps, Bool.and_false, Bool.and_false, Bool.false_or, Bool.false_or]

/-! ## Rights and marks -/

/-- The entry has these rights. -/
structure HasRights (perm w : Word) : Prop where
  read : isP w = Word.has perm permR
  write : isW w = Word.has perm permW
  execute : Word.has w pteNx = !Word.has perm permX
  user : Word.has w pteU = Word.has perm permU

/-- The permissions name the marks that the entry has. -/
structure NamesMarks (perm w : Word) : Prop where
  cow : isCow w = Word.has perm permCow
  stack : isStack w = Word.has perm permUsr4
  usr1 : Word.has w pteUsr1 = Word.has perm permUsr1
  usr2 : Word.has w pteUsr2 = Word.has perm permUsr2
  usr3 : Word.has w pteUsr3 = Word.has perm permUsr3

theorem protectWord_grants (perm w : Word) :
    HasRights perm (protectWord (getPtePerm perm) w) ∧
      NamesMarks perm (protectWord (getPtePerm perm) w) := by
  have hbit : ∀ i, addrMask.getLsbD i = false → ptePs.getLsbD i = false →
      (protectWord (getPtePerm perm) w).getLsbD i =
        (pteAddr 0#64 ||| getPtePerm perm).getLsbD i := by
    intro i haddr hps
    rw [getLsbD_protectWord haddr hps, BitVec.getLsbD_or, pteAddr, BitVec.getLsbD_and, haddr,
      Bool.and_false, Bool.false_or]
  have hhas : ∀ i, i < 64 → addrMask.getLsbD i = false → ptePs.getLsbD i = false →
      Word.has (protectWord (getPtePerm perm) w) (Word.bit i) =
        Word.has (pteAddr 0#64 ||| getPtePerm perm) (Word.bit i) := by
    intro i hi haddr hps
    rw [Word.has_bit _ i hi, Word.has_bit _ i hi, hbit i haddr hps]
  obtain ⟨hr, hw, hx, hu, ⟨hcow, hstack, h1, h2, h3⟩, _⟩ := grants_join perm 0#64
  exact ⟨⟨(hhas 0 (by decide) (by decide) (by decide)).trans hr,
    (hhas 1 (by decide) (by decide) (by decide)).trans hw,
    (hhas 63 (by decide) (by decide) (by decide)).trans hx,
    (hhas 2 (by decide) (by decide) (by decide)).trans hu⟩,
    ⟨(hhas 9 (by decide) (by decide) (by decide)).trans hcow,
    (hhas 10 (by decide) (by decide) (by decide)).trans hstack,
    (hhas 62 (by decide) (by decide) (by decide)).trans h1,
    (hhas 61 (by decide) (by decide) (by decide)).trans h2,
    (hhas 60 (by decide) (by decide) (by decide)).trans h3⟩⟩

/-- The marks of an entry that a change of protection must keep. -/
structure SameMarks (w w' : Word) : Prop where
  cow : isCow w' = isCow w
  stack : isStack w' = isStack w
  usr1 : Word.has w' pteUsr1 = Word.has w pteUsr1
  usr2 : Word.has w' pteUsr2 = Word.has w pteUsr2
  usr3 : Word.has w' pteUsr3 = Word.has w pteUsr3

theorem NamesMarks.same {perm w w' : Word} (h : NamesMarks perm w) (h' : NamesMarks perm w') :
    SameMarks w w' :=
  ⟨h'.cow.trans h.cow.symm, h'.stack.trans h.stack.symm, h'.usr1.trans h.usr1.symm,
    h'.usr2.trans h.usr2.symm, h'.usr3.trans h.usr3.symm⟩

/-! ## Protection of a range -/

variable {root va len : Nat} {perm : Word} {s : Vm σ}

/-- The permissions ask for something only together with `PERM_R`. -/
def Readable (perm : Word) : Prop :=
  Word.has perm permR = true ∨ (Word.has perm permX = false ∧ Word.has perm permU = false)

/-- The condition on a leaf of the range: it lies in the range or stays as it is, the
    permissions name its marks, and do not ask for `PERM_W` if it is under copy-on-write. -/
structure Protectable (va len : Nat) (perm : Word) (a k : Nat) (w : Word) : Prop where
  inside : (va ≤ 4096 * unitOf k a ∧ 4096 * unitOf k a + span k ≤ va + len) ∨
    protectWord (getPtePerm (effective perm)) w = w
  readable : Readable perm
  marks : NamesMarks (effective perm) w
  cow : isCow w = true → Word.has perm permW = false

/-- What a change of protection makes of an entry `w`: a page under copy-on-write does not
    become writable. -/
structure Protected (perm w w' : Word) : Prop where
  frame : pteAddr w' = pteAddr w
  read : isP w' = Word.has perm permR
  write : isW w' = (Word.has perm permW && !isCow w)
  execute : Word.has w' pteNx = !Word.has perm permX
  user : Word.has w' pteU = Word.has perm permU
  marks : SameMarks w w'

/-- The mapped pages of the range are protected, and no other page of the block changes. -/
def Protects (root va len : Nat) (perm : Word) (mem mem' : Mem Word) : Prop :=
  (∀ a k w, va / 4096 ≤ a → a ≤ (va + len - 1) / 4096 → leafOf mem root a = some (k, w) →
    ∃ w', leafOf mem' root a = some (k, w') ∧ Protected perm w w') ∧
  ∀ a, SameBlock (va / 4096) a → a < va / 4096 ∨ (va + len - 1) / 4096 < a →
    leafOf mem' root a = leafOf mem root a

/-- The word that the call writes is right for these permissions and entries. -/
theorem protected_iff (hacc : Word.has perm permR = true ∨ Word.has perm permW = false) (w : Word) :
    Protected perm w (protectWord (getPtePerm (effective perm)) w) ↔ Readable perm ∧
      NamesMarks (effective perm) w ∧ (isCow w = true → Word.has perm permW = false) := by
  obtain ⟨⟨hread, hwrite, hexec, huser⟩, hmarks⟩ := protectWord_grants (effective perm) w
  have hnone : ∀ q, Word.has 0#64 q = false := fun q => by simp [Word.has]
  have heff : ∀ q, Word.has (effective perm) q =
      (Word.has perm permR && Word.has perm q) := by
    intro q
    unfold effective
    cases Word.has perm permR <;> simp [hnone]
  constructor
  · rintro ⟨-, -, hwrite', hexec', huser', hsame⟩
    rw [hwrite, heff] at hwrite'
    rw [hexec, heff] at hexec'
    rw [huser, heff] at huser'
    refine ⟨?_, ⟨hsame.cow.symm.trans hmarks.cow, hsame.stack.symm.trans hmarks.stack,
      hsame.usr1.symm.trans hmarks.usr1, hsame.usr2.symm.trans hmarks.usr2,
      hsame.usr3.symm.trans hmarks.usr3⟩, fun hcow => ?_⟩
    · cases hr : Word.has perm permR with
      | true => exact .inl hr
      | false => exact .inr (by simp_all)
    · rcases hacc with hr | hw
      · simp_all
      · exact hw
  · rintro ⟨hreadable, hnames, hcow⟩
    refine ⟨pteAddr_protectWord (pteAddr_getPtePerm _), ?_, ?_, ?_, ?_, hnames.same hmarks⟩
    · rw [hread, heff, Bool.and_self]
    · rw [hwrite, heff]
      cases hc : isCow w with
      | true => rw [hcow hc]; simp
      | false => rcases hacc with h | h <;> simp [h]
    · rw [hexec, heff]
      rcases hreadable with h | ⟨h, -⟩ <;> simp [h]
    · rw [huser, heff]
      rcases hreadable with h | ⟨-, h⟩ <;> simp [h]

/-- Pages of one leaf are in one block. -/
theorem sameBlock_of_unit {k a b : Nat} {w : Word} (hkind : shape.kind k w = .leaf)
    (h : b / 512 ^ k = a / 512 ^ k) : SameBlock a b := by
  have hk : k ≤ 2 := by
    cases k with
    | zero => exact Nat.zero_le 2
    | succ k => exact (leaf_big hkind (Nat.succ_pos k)).1
  unfold SameBlock
  rw [show 2 ^ 36 = 512 ^ k * 512 ^ (4 - k) by
    rw [← Nat.pow_add, Nat.add_sub_cancel' (by omega)]; rfl, ← Nat.div_div_eq_div_mul,
    ← Nat.div_div_eq_div_mul, h]

theorem div_eq_of_unit {k a b : Nat} (h1 : unitOf k a ≤ b) (h2 : b < unitOf k a + 512 ^ k) :
    b / 512 ^ k = a / 512 ^ k := by
  have hself : unitOf k a / 512 ^ k = a / 512 ^ k := unitOf_div (Nat.le_refl k)
  rw [← hself]
  exact (div_eq_iff_unit (Nat.dvd_mul_left _ _)).mpr ⟨h1, h2⟩

end

end Dune
