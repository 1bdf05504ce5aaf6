import Libdbos.Libdune.PageTables

/-! # Mapping Ranges of Memory

    `dune_vm_map_phys` and `dune_vm_map_phys_with_pte_flags` of `libdune/vm.c`:
    a walk that creates tables and writes, for every unit of the range, an
    entry with the address that belongs to its first page.

    The callback takes the address from the entry that it is given. A large
    entry in the way is not split: it is overwritten with an entry for its own
    first page, that may be far from the range. Where no large entry meets the
    range, the range and nothing else is mapped (`mapWalk_maps`).
-/

namespace Dune

open Pte Radix Sweep

/-! ## Permissions -/

def permR : Word := 0x1#64

def permW : Word := 0x2#64

def permX : Word := 0x4#64

def permU : Word := 0x8#64

def permUc : Word := 0x10#64

def permCow : Word := 0x20#64

def permBig : Word := 0x100#64

def permBig1gb : Word := 0x200#64

def permUsr1 : Word := 0x1000#64

def permUsr2 : Word := 0x2000#64

def permUsr3 : Word := 0x4000#64

def permUsr4 : Word := 0x8000#64

def ptePcd : Word := 0x10#64

def pteNx : Word := 0x8000000000000000#64

def pteUsr1 : Word := 0x4000000000000000#64

def pteUsr2 : Word := 0x2000000000000000#64

def pteUsr3 : Word := 0x1000000000000000#64

open Word in
/-- The flags that `get_pte_perm` makes of permissions. -/
def getPtePerm (perm : Word) : Word :=
  (if has perm permR then pteP else 0#64) |||
  (if has perm permW then pteW else 0#64) |||
  (if !has perm permX then pteNx else 0#64) |||
  (if has perm permU then pteU else 0#64) |||
  (if has perm permUc then ptePcd else 0#64) |||
  (if has perm permCow then pteCow else 0#64) |||
  (if has perm permUsr1 then pteUsr1 else 0#64) |||
  (if has perm permUsr2 then pteUsr2 else 0#64) |||
  (if has perm permUsr3 then pteUsr3 else 0#64) |||
  (if has perm permUsr4 then pteStack else 0#64) |||
  (if has perm permBig || has perm permBig1gb then ptePs else 0#64)

/-! ## The calls -/

/-- The structure `map_phys_data`. -/
structure MapPhysData where
  perm : Word
  vaBase : Word
  paBase : Word
  pteCount : Nat

/-- The entry for the address that begins at `va`. -/
def MapPhysData.entry (d : MapPhysData) (va : Nat) : Word :=
  pteAddr (BitVec.ofNat 64 va - d.vaBase + d.paBase) ||| d.perm

def mapPhysHelper : Callback MapPhysData := fun dir i va _ s =>
  ({ s with
    mem := write s.mem dir i (s.arg.entry va)
    arg := { s.arg with pteCount := s.arg.pteCount + 1 } }, .ok)

/-- What is to be created, by the permissions. -/
def createOf (perm : Word) : Create :=
  if Word.has perm permBig then .big else if Word.has perm permBig1gb then .big1gb else .normal

/-- The address `va + len - 1`. -/
def lastVa (va len : Nat) : Nat := (va + len + (2 ^ 64 - 1)) % 2 ^ 64

section

variable {σ τ : Type}

/-- The same machine, with another argument for callbacks. -/
def Vm.withArg (s : Vm σ) (arg : τ) : Vm τ := ⟨s.mem, s.pool, arg⟩

/-- A walk of `dune_vm_map_phys`, with flags of the entries. -/
def mapWalk (flags : Word) (create : Create) (root va len pa : Nat) (s : Vm σ) : Vm σ × Ret :=
  let data : MapPhysData := ⟨flags, BitVec.ofNat 64 va, BitVec.ofNat 64 pa, 0⟩
  let r := pageWalk mapPhysHelper create 3 root va (lastVa va len) (s.withArg data)
  (r.1.withArg s.arg, r.2)

/-- The function `dune_vm_map_phys`. -/
def mapPhys (root va len pa : Nat) (perm : Word) (s : Vm σ) : Vm σ × Ret :=
  mapWalk (getPtePerm perm) (createOf perm) root va len pa s

/-- The function `dune_vm_map_phys_with_pte_flags`. Its flags are an `int`, so
    the bits from 32 on are those of the sign. -/
def mapPhysWithPteFlags (root va len pa : Nat) (pteFlags perm : Word) (s : Vm σ) : Vm σ × Ret :=
  mapWalk ((pteFlags.setWidth 32).signExtend 64) (createOf perm) root va len pa s

/-! ## What a walk maps -/

/-- The pages from unit `lo` up to `hi` are mapped by the entries `word` of
    level `k`, and the others of the block as in `mem`. -/
def Maps (k root lo hi : Nat) (word : Nat → Word) (mem mem' : Mem Word) : Prop :=
  ∀ p, SameBlock lo p → leafOf mem' root p =
    if lo ≤ p ∧ p < hi then leafWord k (word (unitOf k p)) else leafOf mem root p

/-- The next unit. -/
theorem Maps.next {k root lo a u : Nat} {word : Nat → Word} {mem : Mem Word} {s : Vm σ}
    (h : Maps k root lo a word mem s.mem) (hwf : WellFormed root s)
    (hpath : pathTo s.mem root a k u) (hk : k ≤ 3) (hlo : lo ≤ a) (hdvd : 512 ^ k ∣ a)
    (hblock : SameBlock lo a) (hkind : ∀ c, shape.kind k (word a) ≠ .table c) :
    Maps k root lo (a + 512 ^ k) word mem (write s.mem u (digit a k) (word a)) := by
  intro p hp
  have hap : SameBlock a p := hblock.symm.trans hp
  by_cases hsame : p / 512 ^ k = a / 512 ^ k
  · have hunit : unitOf k p = a := by
      rw [unitOf, hsame, Nat.div_mul_cancel hdvd]
    obtain ⟨hge, hlt⟩ := (div_eq_iff_unit hdvd).mp hsame
    rw [leafOf_write_same hwf hpath hk hkind hap hsame, if_pos ⟨by omega, hlt⟩, hunit]
  · have hout := mt (div_eq_iff_unit hdvd).mpr hsame
    rw [leafOf_write_ne hwf hpath hk hap hsame, h p hp]
    by_cases hin : lo ≤ p ∧ p < a
    · rw [if_pos hin, if_pos ⟨hin.1, by omega⟩]
    · rw [if_neg hin, if_neg (by omega)]

/-- The invariant of the walk before unit `a`. -/
structure MapInv (d : MapPhysData) (k root lo : Nat) (mem : Mem Word) (a : Nat)
    (s : Vm MapPhysData) : Prop where
  wf : WellFormed root s
  unit : 512 ^ k ∣ a
  data : ∀ va, s.arg.entry va = d.entry va
  maps : Maps k root lo a (fun a => d.entry (4096 * a)) mem s.mem

theorem mapRule {d : MapPhysData} {create : Create} {root lo hi : Nat} {mem : Mem Word}
    (hblock : SameBlock lo hi)
    (hkind : ∀ a c, shape.kind create.level (d.entry (4096 * a)) ≠ .table c)
    (hlarge : ∀ p l e, lo ≤ p → p ≤ hi → leafOf mem root p = some (l, e) → l ≤ create.level) :
    CreateRule mapPhysHelper create root lo hi (MapInv d create.level root lo mem)
      fun _ => True := by
  have hin : ∀ a, lo ≤ a → a ≤ hi → SameBlock lo a := fun a hlo hhi =>
    hblock.within (Nat.le_refl lo) hlo hhi
  refine ⟨fun a s h => h.wf, ?_, ?_, ?_⟩
  · intro a s l u hlo hhi hinv hl hpath hleaf
    have hnow := leafOf_of_path hpath hleaf
    rw [hinv.maps a (hin a hlo hhi), if_neg (by omega)] at hnow
    have hle := hlarge a l _ hlo hhi hnow
    omega
  · intro a s l u r hlo hhi hinv hl hlinks
    have hmaps : Maps create.level root lo a (fun a => d.entry (4096 * a)) mem r.1.mem := by
      intro p hp
      rw [hlinks.leafOf]
      exact hinv.maps p hp
    have hwf := hinv.wf.links hlinks
    cases hlinks with
    | full => exact trivial
    | new pool pg free ref cpu stock grows => exact ⟨hwf, hinv.unit, hinv.data, hmaps⟩
  · intro a s u hlo hhi hinv hpath
    have hentry := hinv.data (4096 * a)
    refine ⟨⟨_, rfl⟩, ?_⟩
    change MapInv d create.level root lo mem _ _
    have hnot : ∀ c, shape.kind create.level (s.arg.entry (4096 * a)) ≠ .table c := by
      rw [hentry]
      exact hkind a
    refine ⟨(hinv.wf.write hpath hnot).of_eq rfl rfl, Nat.dvd_add hinv.unit (Nat.dvd_refl _),
      hinv.data, ?_⟩
    have hnext := hinv.maps.next hinv.wf hpath create.level_le hlo hinv.unit (hin a hlo hhi) (hkind a)
    rw [← hentry] at hnext
    exact hnext

/-- A range that stays in one block of 2^48 bytes. -/
structure InBlock (va len : Nat) : Prop where
  pos : 0 < len
  lt : va < 2 ^ 64
  block : va / 2 ^ 48 = (va + len - 1) / 2 ^ 48

theorem InBlock.lastVa_eq {va len : Nat} (h : InBlock va len) : lastVa va len = va + len - 1 := by
  obtain ⟨hpos, hlt, hblock⟩ := h
  unfold lastVa
  omega

/-- The units of the range are in the block. -/
theorem InBlock.sameBlock {va len : Nat} (h : InBlock va len) (create : Create) :
    SameBlock (unitOf create.level (va / 4096)) ((va + len - 1) / 4096) := by
  obtain ⟨hpos, hlt, hblock⟩ := h
  have hunit := unitOf_div (x := va / 4096)
    (show create.level ≤ 4 from Nat.le_succ_of_le create.level_le)
  unfold SameBlock
  rw [show 2 ^ 36 = 512 ^ 4 from rfl, hunit]
  omega

/-- The rule for a call over a range in one block. -/
theorem CreateRule.call_range {cb : Callback τ} {create : Create} {root va len : Nat}
    {Inv : Nat → Vm τ → Prop} {Stop : Vm τ × Ret → Prop} {s : Vm τ} (hrange : InBlock va len)
    (hrule : CreateRule cb create root (unitOf create.level (va / 4096)) ((va + len - 1) / 4096) Inv
      Stop) (hcreate : create ≠ .none) (hinv : Inv (unitOf create.level (va / 4096)) s) :
    Ends .ok (Inv (unitAfter create.level ((va + len - 1) / 4096))) Stop
      (pageWalk cb create 3 root va (lastVa va len) s) := by
  have hpos := hrange.pos
  have hend := lastPage_block hrange.block
  have hwalk := hrule.walk hcreate 3 create.level_le root va (va + len - 1) s
    (range_block (by omega) hrange.block) (Nat.le_refl _) (Nat.le_of_eq hend) hinv
    (pathTo_root _ _ _)
  rw [hend] at hwalk
  rw [hrange.lastVa_eq]
  exact hwalk.imp (fun s' h => h.1) fun r h => h

/-- **Walks that map** map the units of the range, if no larger leaf is in the
    way, and nothing else. -/
theorem mapWalk_maps {flags : Word} {create : Create} {root va len pa : Nat} {s : Vm σ}
    (hcreate : create ≠ .none) (hwf : WellFormed root s) (hrange : InBlock va len)
    {word : Nat → Word} (hword : ∀ a, word a =
      (MapPhysData.mk flags (BitVec.ofNat 64 va) (BitVec.ofNat 64 pa) 0).entry (4096 * a))
    (hkind : ∀ a c, shape.kind create.level (word a) ≠ .table c)
    (hlarge : ∀ p l e, unitOf create.level (va / 4096) ≤ p → p ≤ (va + len - 1) / 4096 →
      leafOf s.mem root p = some (l, e) → l ≤ create.level) :
    Ends .ok (fun s' => WellFormed root s' ∧
      Maps create.level root (unitOf create.level (va / 4096))
        (unitAfter create.level ((va + len - 1) / 4096)) word s.mem s'.mem) (fun _ => True)
      (mapWalk flags create root va len pa s) := by
  obtain rfl : word = fun a => (MapPhysData.mk flags (BitVec.ofNat 64 va) (BitVec.ofNat 64 pa)
    0).entry (4096 * a) := funext hword
  have hrule := mapRule (d := ⟨flags, BitVec.ofNat 64 va, BitVec.ofNat 64 pa, 0⟩)
    (hrange.sameBlock create) hkind hlarge
  have hwalk := hrule.call_range hrange hcreate (s := s.withArg _)
    ⟨hwf.of_eq rfl rfl, Nat.dvd_mul_left _ _, fun _ => rfl, fun p _ => by rw [if_neg (by omega)]; rfl⟩
  unfold mapWalk
  refine hwalk.map (f := fun s' => s'.withArg s.arg) ?_ ?_
  · intro s' hinv
    exact ⟨hinv.wf.of_eq rfl rfl, hinv.maps⟩
  · intro _ _
    trivial

/-! ## Flags of the entries -/

theorem getLsbD_flag (c : Bool) (n i : Nat) (hn : n < 64) :
    (if c then Word.bit n else 0#64).getLsbD i = (c && decide (i = n)) := by
  cases c with
  | false => simp
  | true => simp [Word.getLsbD_bit n i hn]

/-- The bits of the flags that permissions give. -/
theorem getPtePerm_getLsbD (perm : Word) (i : Nat) : (getPtePerm perm).getLsbD i =
    (Word.has perm permR && decide (i = 0) || Word.has perm permW && decide (i = 1) ||
    !Word.has perm permX && decide (i = 63) || Word.has perm permU && decide (i = 2) ||
    Word.has perm permUc && decide (i = 4) || Word.has perm permCow && decide (i = 9) ||
    Word.has perm permUsr1 && decide (i = 62) || Word.has perm permUsr2 && decide (i = 61) ||
    Word.has perm permUsr3 && decide (i = 60) || Word.has perm permUsr4 && decide (i = 10) ||
    (Word.has perm permBig || Word.has perm permBig1gb) && decide (i = 7)) := by
  have hbits : pteP = Word.bit 0 ∧ pteW = Word.bit 1 ∧ pteNx = Word.bit 63 ∧ pteU = Word.bit 2 ∧
      ptePcd = Word.bit 4 ∧ pteCow = Word.bit 9 ∧ pteUsr1 = Word.bit 62 ∧ pteUsr2 = Word.bit 61 ∧
      pteUsr3 = Word.bit 60 ∧ pteStack = Word.bit 10 ∧ ptePs = Word.bit 7 := by decide
  obtain ⟨h0, h1, h63, h2, h4, h9, h62, h61, h60, h10, h7⟩ := hbits
  rw [getPtePerm, h0, h1, h63, h2, h4, h9, h62, h61, h60, h10, h7]
  simp only [BitVec.getLsbD_or, getLsbD_flag _ _ i (by decide : 0 < 64),
    getLsbD_flag _ _ i (by decide : 1 < 64), getLsbD_flag _ _ i (by decide : 63 < 64),
    getLsbD_flag _ _ i (by decide : 2 < 64), getLsbD_flag _ _ i (by decide : 4 < 64),
    getLsbD_flag _ _ i (by decide : 9 < 64), getLsbD_flag _ _ i (by decide : 62 < 64),
    getLsbD_flag _ _ i (by decide : 61 < 64), getLsbD_flag _ _ i (by decide : 60 < 64),
    getLsbD_flag _ _ i (by decide : 10 < 64), getLsbD_flag _ _ i (by decide : 7 < 64)]

theorem pteAddr_flag {m : Word} (h : m &&& addrMask = 0#64) (c : Bool) :
    pteAddr (if c then m else 0#64) = 0#64 := by
  cases c with
  | false => simp [pteAddr]
  | true => exact h

/-- Flags have no address part. -/
theorem pteAddr_getPtePerm (perm : Word) : pteAddr (getPtePerm perm) = 0#64 := by
  simp only [getPtePerm, pteAddr_or]
  rw [pteAddr_flag (m := pteP) (by decide), pteAddr_flag (m := pteW) (by decide),
    pteAddr_flag (m := pteNx) (by decide), pteAddr_flag (m := pteU) (by decide),
    pteAddr_flag (m := ptePcd) (by decide), pteAddr_flag (m := pteCow) (by decide),
    pteAddr_flag (m := pteUsr1) (by decide), pteAddr_flag (m := pteUsr2) (by decide),
    pteAddr_flag (m := pteUsr3) (by decide), pteAddr_flag (m := pteStack) (by decide),
    pteAddr_flag (m := ptePs) (by decide)]
  decide

/-- An entry has the rights and the marks of the permissions, and no others. -/
structure Grants (perm w : Word) : Prop where
  read : isP w = Word.has perm permR
  write : isW w = Word.has perm permW
  execute : Word.has w pteNx = !Word.has perm permX
  user : Word.has w pteU = Word.has perm permU
  marks : isCow w = Word.has perm permCow ∧ isStack w = Word.has perm permUsr4 ∧
    Word.has w pteUsr1 = Word.has perm permUsr1 ∧ Word.has w pteUsr2 = Word.has perm permUsr2 ∧
    Word.has w pteUsr3 = Word.has perm permUsr3
  others : pteFlags w = getPtePerm perm

/-- A flag of an entry is one of the permissions. -/
theorem has_join (perm addr : Word) {i : Nat} (hi : i < 64) (haddr : addrMask.getLsbD i = false) :
    Word.has (pteAddr addr ||| getPtePerm perm) (Word.bit i) = (getPtePerm perm).getLsbD i := by
  rw [Word.has_bit _ i hi, BitVec.getLsbD_or, pteAddr, BitVec.getLsbD_and, haddr, Bool.and_false,
    Bool.false_or]

theorem grants_join (perm addr : Word) : Grants perm (pteAddr addr ||| getPtePerm perm) := by
  have hflag {i : Nat} (hi : i < 64) (haddr : addrMask.getLsbD i = false) :=
    (has_join perm addr hi haddr).trans (getPtePerm_getLsbD perm i)
  refine ⟨?_, ?_, ?_, ?_, ⟨?_, ?_, ?_, ?_, ?_⟩, pteFlags_join (pteAddr_getPtePerm perm)⟩
  · exact (@hflag 0 (by decide) (by decide)).trans (by simp)
  · exact (@hflag 1 (by decide) (by decide)).trans (by simp)
  · exact (@hflag 63 (by decide) (by decide)).trans (by simp)
  · exact (@hflag 2 (by decide) (by decide)).trans (by simp)
  · exact (@hflag 9 (by decide) (by decide)).trans (by simp)
  · exact (@hflag 10 (by decide) (by decide)).trans (by simp)
  · exact (@hflag 62 (by decide) (by decide)).trans (by simp)
  · exact (@hflag 61 (by decide) (by decide)).trans (by simp)
  · exact (@hflag 60 (by decide) (by decide)).trans (by simp)

/-! ## Mapping without large pages -/

variable {root va len pa : Nat} {perm : Word} {s : Vm σ}

/-- The address in the entry of page `p`. -/
theorem entry_addr {d : MapPhysData} {p : Nat} (hva : d.vaBase = BitVec.ofNat 64 va)
    (hpa : d.paBase = BitVec.ofNat 64 pa) (hflags : pteAddr d.perm = 0#64) (halign : va % 4096 = 0)
    (hpalign : pa % 4096 = 0) (hlo : va ≤ 4096 * p)
    (hphys : pa + (4096 * p - va) < 2 ^ 52) :
    (pteAddr (d.entry (4096 * p))).toNat = pa + (4096 * p - va) := by
  have hsum : BitVec.ofNat 64 (4096 * p) - d.vaBase + d.paBase =
      BitVec.ofNat 64 (pa + (4096 * p - va)) := by
    rw [hva, hpa]
    apply BitVec.eq_of_toNat_eq
    rw [BitVec.toNat_add, BitVec.toNat_sub, BitVec.toNat_ofNat, BitVec.toNat_ofNat,
      BitVec.toNat_ofNat, BitVec.toNat_ofNat]
    omega
  rw [MapPhysData.entry, pteAddr_join hflags, hsum]
  exact toNat_pteAddr_ofNat (by omega) hphys

/-- The condition on the way of a mapping: no large entry meets the range. -/
def NoLarge (mem : Mem Word) (root va len : Nat) : Prop :=
  ∀ p l e, va / 4096 ≤ p → p ≤ (va + len - 1) / 4096 → leafOf mem root p = some (l, e) → l = 0

/-- **Mapping a range maps exactly that range**, if no large entry meets it, for exactly the
    addresses that an entry can hold. -/
theorem mapPhys_maps_range (hwf : WellFormed root s) (hva : va % 4096 = 0) (hpa : pa % 4096 = 0)
    (hrange : InBlock va len)
    (hsmall : Word.has perm permBig = false ∧ Word.has perm permBig1gb = false)
    (hlarge : NoLarge s.mem root va len) (hok : (mapPhys root va len pa perm s).2 = .ok) :
    ((∀ p, va / 4096 ≤ p → p ≤ (va + len - 1) / 4096 → ∃ w,
      leafOf (mapPhys root va len pa perm s).1.mem root p = leafWord 0 w ∧
      (pteAddr w).toNat = pa + (4096 * p - va) ∧ Grants perm w) ∧
    (∀ p, SameBlock (va / 4096) p → p < va / 4096 ∨ (va + len - 1) / 4096 < p →
      leafOf (mapPhys root va len pa perm s).1.mem root p = leafOf s.mem root p) ∧
    WellFormed root (mapPhys root va len pa perm s).1) ↔ pa + len ≤ 2 ^ 52 := by
  have hcreate : createOf perm = .normal := by
    rw [createOf, hsmall.1, hsmall.2]
    rfl
  have hsmaller : ∀ p l e, unitOf Create.normal.level (va / 4096) ≤ p → p ≤ (va + len - 1) / 4096 →
      leafOf s.mem root p = some (l, e) → l ≤ Create.normal.level := by
    intro p l e hlo hhi hleaf
    rw [Create.level_normal, unitOf_zero] at hlo
    exact Nat.le_of_eq (hlarge p l e hlo hhi hleaf)
  have hmaps := @mapWalk_maps _ (getPtePerm perm) .normal root va len pa s (by decide) hwf hrange _
    (fun _ => rfl) (fun _ c => entryKind_bottom _ c) hsmaller
  unfold mapPhys at hok ⊢
  rw [hcreate] at hok ⊢
  rw [Ends, if_pos hok] at hmaps
  obtain ⟨hwf', hmaps⟩ := hmaps
  rw [Create.level_normal, unitOf_zero, unitAfter_zero] at hmaps
  obtain ⟨hpos, hlt, hblock⟩ := hrange
  constructor
  · -- The address of the last page is in its entry.
    rintro ⟨hmapped, -⟩
    obtain ⟨w, _, haddr, _⟩ := hmapped ((va + len - 1) / 4096) (by omega) (Nat.le_refl _)
    have hw := toNat_pteAddr w
    omega
  · intro hphys
    refine ⟨?_, ?_, hwf'⟩
    · intro p hlo hhi
      have hsame : SameBlock (va / 4096) p := by
        unfold SameBlock
        omega
      have hleaf := hmaps p hsame
      rw [if_pos ⟨hlo, by omega⟩, unitOf_zero] at hleaf
      exact ⟨_, hleaf, entry_addr rfl rfl (pteAddr_getPtePerm perm) hva hpa (by omega) (by omega),
        grants_join perm _⟩
    · intro p hsame hout
      rw [hmaps p hsame, if_neg (by omega)]

theorem mapPhys_maps_range_boot :
    WellFormed 0x1000 (mapPhys 0x1000 0x5000 0x3000 0x8000 (permR ||| permW) bootVm).1 := by
  refine ((mapPhys_maps_range bootVm_wellFormed (by decide) (by decide)
    ⟨by decide, by decide, by decide⟩ (by decide) ?_ (by decide +kernel)).2 (by decide)).2.2
  intro p l e _ _ hleaf
  rw [leafOf_blank rfl] at hleaf
  cases hleaf

/-! ## Mapping over a large page -/

theorem pteBig_eq (w : Word) : pteBig w = w.getLsbD 7 := Word.has_bit w 7 (by decide)

/-- A large entry is no table. -/
theorem big_not_table {k c : Nat} {w : Word} (hk : k ≤ 2) (h : 0 < k → pteBig w = true) :
    shape.kind k w ≠ .table c := by
  cases k with
  | zero => exact entryKind_bottom w c
  | succ k =>
    change entryKind (k + 1) w ≠ _
    rw [entryKind, if_pos ⟨by omega, h (by omega)⟩]
    exact Kind.noConfusion

/-- What `dune_vm_map_phys` writes is no table: the flag for large pages is set
    if large pages are asked for. -/
theorem entry_not_table (d : MapPhysData) (hperm : d.perm = getPtePerm perm) (va c : Nat) :
    shape.kind (createOf perm).level (d.entry va) ≠ .table c := by
  refine big_not_table (by cases createOf perm <;> decide) ?_
  intro hpos
  have hbig : (Word.has perm permBig || Word.has perm permBig1gb) = true := by
    unfold createOf at hpos
    split at hpos
    · rename_i h
      rw [h]
      rfl
    · split at hpos
      · rename_i h
        rw [h, Bool.or_true]
      · exact absurd hpos (by decide)
  rw [pteBig_eq, MapPhysData.entry, BitVec.getLsbD_or, hperm, getPtePerm_getLsbD, hbig]
  simp

/-- The first call on an empty table. -/
theorem mapPhys_boot (hrange : InBlock va len)
    (hok : (mapPhys 0x1000 va len pa perm bootVm).2 = .ok) :
    WellFormed 0x1000 (mapPhys 0x1000 va len pa perm bootVm).1 ∧
    Maps (createOf perm).level 0x1000 (unitOf (createOf perm).level (va / 4096))
      (unitAfter (createOf perm).level ((va + len - 1) / 4096))
      (fun a => (MapPhysData.mk (getPtePerm perm) (BitVec.ofNat 64 va) (BitVec.ofNat 64 pa)
        0).entry (4096 * a)) bootVm.mem (mapPhys 0x1000 va len pa perm bootVm).1.mem := by
  have hcreate : createOf perm ≠ .none := by
    unfold createOf
    split
    · exact Create.noConfusion
    · split <;> exact Create.noConfusion
  have hmaps := @mapWalk_maps _ (getPtePerm perm) _ 0x1000 va len pa bootVm hcreate
    bootVm_wellFormed hrange _ (fun _ => rfl) (fun a c => entry_not_table _ rfl (4096 * a) c) (by
      intro p l e _ _ hleaf
      rw [leafOf_blank rfl] at hleaf
      cases hleaf)
  unfold mapPhys at hok ⊢
  rwa [Ends, if_pos hok] at hmaps

/-- The machine with one large page, from address 0 on. -/
def largeVm : Vm Unit := (mapPhys 0x1000 0 0x200000 0 (permR ||| permW ||| permBig) bootVm).1

/-- Its entry. -/
def largeEntry : Word := getPtePerm (permR ||| permW ||| permBig)

theorem largeVm_maps : WellFormed 0x1000 largeVm ∧ ∀ a, SameBlock 0 a →
    leafOf largeVm.mem 0x1000 a = if a < 512 then some (1, largeEntry) else none := by
  have hmaps := @mapPhys_boot 0 0x200000 0 (permR ||| permW ||| permBig)
    ⟨by decide, by decide, by decide⟩ (by decide +kernel)
  refine ⟨hmaps.1, ?_⟩
  intro a ha
  have hblank : leafOf bootVm.mem 0x1000 a = none := leafOf_blank rfl a
  have hleaf := hmaps.2 a ha
  rw [hblank] at hleaf
  refine hleaf.trans ?_
  by_cases hlt : a < 512
  · have hunit : unitOf 1 a = 0 := by
      rw [unitOf, Nat.pow_one, Nat.div_eq_of_lt hlt]
    rw [if_pos hlt, if_pos ⟨Nat.zero_le a, hlt⟩]
    change leafWord 1 (MapPhysData.entry _ (4096 * unitOf 1 a)) = _
    rw [hunit]
    decide
  · rw [if_neg hlt, if_neg fun h => hlt h.2]

theorem largeVm_wellFormed : WellFormed 0x1000 largeVm := largeVm_maps.1

/-- Page 1 is mapped in the middle of the large page: the call succeeds, and
    now neither page 1 nor page 0 is mapped. -/
theorem mapPhys_breaks_large : WellFormed 0x1000 largeVm ∧
    (mapPhys 0x1000 0x1000 0x1000 0x400000 (permR ||| permW) largeVm).2 = .ok ∧
    leafOf (mapPhys 0x1000 0x1000 0x1000 0x400000 (permR ||| permW) largeVm).1.mem 0x1000 1 = none ∧
    leafOf largeVm.mem 0x1000 0 ≠ none ∧
    leafOf (mapPhys 0x1000 0x1000 0x1000 0x400000 (permR ||| permW) largeVm).1.mem 0x1000 0 = none :=
  ⟨largeVm_wellFormed, by decide +kernel⟩

end

end Dune
