import Libdbos.FastSpawn.Pte
import Libdbos.Framework.RadixLeaves
import Libdbos.Framework.Sweep
import Libdbos.Libdune.PagePool

/-! # The Page Walk

    `__dune_vm_page_walk` of `libdune/vm.c`: a recursive walk over a range of
    a page table, with a callback for the entries at the end of the way, and
    with the creation of missing tables if the caller wants it.

    Page tables are radix tables over 64-bit words (`shape`). A large entry is
    a leaf at levels 1 and 2; at level 0 every non-zero entry is one.

    A walk without creation is a loop over the leaves that meet the range
    (`pageWalk_none`), as long as callbacks leave the other entries of the
    table alone.
-/

namespace Dune

open Pte Radix Sweep

/-! ## Entries -/

def ptePs : Word := 0x80#64

def pteDefFlags : Word := pteP ||| pteW ||| pteU

def pteBig (w : Word) : Bool := Word.has w ptePs

/-- The table that an entry refers to. -/
def tableOf (w : Word) : Nat := (pteAddr w).toNat

/-- What the walk takes an entry for. -/
def entryKind : Nat → Word → Kind
  | 0, w => if w = 0#64 then .empty else .leaf
  | l + 1, w =>
      if (l + 1 = 1 ∨ l + 1 = 2) ∧ pteBig w then .leaf
      else if isP w then .table (tableOf w) else .empty

theorem entryKind_bottom (w : Word) (c : Nat) : entryKind 0 w ≠ .table c := by
  rw [entryKind]
  split <;> simp

/-- Page tables of the processor. -/
def shape : Shape Word where
  fan := 512
  kind := entryKind
  bottom := entryKind_bottom

@[simp] theorem shape_fan : shape.fan = 512 := rfl

/-! ## Addresses -/

def pdShift (n : Nat) : Nat := 12 + 9 * n

/-- The macro `PDADDR`. -/
def pdAddr (n i : Nat) : Nat := i <<< pdShift n

/-- The macro `PDX`. -/
def pdx (n la : Nat) : Nat := (la >>> pdShift n) &&& 511

/-- The first address of the table of level `level` that has `va`. -/
def baseVa (level va : Nat) : Nat := (va >>> pdShift (level + 1)) <<< pdShift (level + 1)

/-! ## The walk -/

/-- What a function of the library returns; `abort` is a failed assertion or
    a null pointer that is dereferenced. -/
inductive Ret where
  | code (c : Int)
  | abort
  deriving DecidableEq, Repr

abbrev Ret.ok : Ret := .code 0

def enomem : Ret := .code (-12)

inductive Create where
  | none
  | normal
  | big
  | big1gb
  deriving DecidableEq, Repr

/-- Memory, the pool, and what the argument of a callback refers to. -/
structure Vm (σ : Type) where
  mem : Mem Word
  pool : Pool
  arg : σ

/-- A callback gets entry `i` of table `dir`, with its address and level. -/
abbrev Callback (σ : Type) := (dir i va level : Nat) → Vm σ → Vm σ × Ret

section

variable {σ : Type}

/-- The function `alloc_page` with the `memset` that follows it. -/
def allocZeroed (s : Vm σ) : Vm σ × Option Nat :=
  match pageAlloc s.pool with
  | (pool, none) => ({ s with pool := pool }, none)
  | (pool, some pg) =>
      ({ s with pool := pool, mem := Function.update s.mem (page2pa pg) fun _ => 0#64 },
        some (page2pa pg))

/-- A new table for entry `i` of table `dir`. -/
def linkTable (dir i : Nat) (s : Vm σ) : Vm σ × Ret :=
  match allocZeroed s with
  | (s, none) => (s, enomem)
  | (s, some new) =>
      ({ s with mem := write s.mem dir i (pteAddr (BitVec.ofNat 64 new) ||| pteDefFlags) }, .ok)

variable (cb : Callback σ) (create : Create)

/-- The walk calls back for an entry of a level above 0 and does not go
    further down. -/
def callsAt (level : Nat) (w : Word) : Bool :=
  (level == 1 && (create == .big || pteBig w)) || (level == 2 && (create == .big1gb || pteBig w))

/-- The indices that the loop of the walk goes through. -/
def indices (level start last : Nat) : List Nat :=
  List.range' (pdx level start) (pdx level last + 1 - pdx level start)

/-- One round of the loop at level 0. -/
def visitBottom (dir start i : Nat) (s : Vm σ) : Vm σ × Ret :=
  if create = .normal ∨ s.mem dir i ≠ 0#64 then cb dir i (baseVa 0 start + pdAddr 0 i) 0 s
  else (s, .ok)

/-- One round of the loop at another level; `below` walks over a table. -/
def visitEntry (below : Nat → Nat → Nat → Vm σ → Vm σ × Ret) (level dir start last i : Nat)
    (s : Vm σ) : Vm σ × Ret :=
  let cur := baseVa level start + pdAddr level i
  if callsAt create level (s.mem dir i) then cb dir i cur level s
  else
    let nStart := if i = pdx level start then start else cur
    let nLast := if i = pdx level last then last else cur + pdAddr level 1 - 1
    if isP (s.mem dir i) then below (tableOf (s.mem dir i)) nStart nLast s
    else if create = .none then (s, .ok)
    else
      let r := linkTable dir i s
      if r.2 = .ok then below (tableOf (r.1.mem dir i)) nStart nLast r.1 else r

/-- The function `__dune_vm_page_walk`. -/
def pageWalk : Nat → Nat → Nat → Nat → Vm σ → Vm σ × Ret
  | 0, dir, start, last => sweep .ok (visitBottom cb create dir start) (indices 0 start last)
  | level + 1, dir, start, last =>
      sweep .ok (visitEntry cb create (pageWalk level) (level + 1) dir start last)
        (indices (level + 1) start last)

/-- The function `dune_vm_page_walk`. -/
def vmPageWalk (root start last : Nat) (s : Vm σ) : Vm σ × Ret :=
  pageWalk cb .none 3 root start last s

end

/-! ## Arithmetic of addresses -/

/-- The bytes that an entry of level `n` takes. -/
def span (n : Nat) : Nat := 4096 * 512 ^ n

theorem two_pow_pdShift (n : Nat) : 2 ^ pdShift n = span n := by
  rw [pdShift, span, Nat.pow_add, Nat.pow_mul]

theorem span_succ (n : Nat) : span (n + 1) = span n * 512 := by
  rw [span, span, Nat.pow_succ, Nat.mul_assoc]

theorem span_pos (n : Nat) : 0 < span n :=
  Nat.mul_pos (by decide) (Nat.pow_pos (by decide))

theorem pdAddr_eq (n i : Nat) : pdAddr n i = i * span n := by
  rw [pdAddr, Nat.shiftLeft_eq, two_pow_pdShift]

theorem pdx_eq (n la : Nat) : pdx n la = la / span n % 512 := by
  rw [pdx, Nat.shiftRight_eq_div_pow, two_pow_pdShift]
  exact Nat.and_two_pow_sub_one_eq_mod _ 9

theorem baseVa_eq (level va : Nat) :
    baseVa level va = va / span (level + 1) * span (level + 1) := by
  rw [baseVa, Nat.shiftLeft_eq, Nat.shiftRight_eq_div_pow, two_pow_pdShift]

theorem pdx_lt (n la : Nat) : pdx n la < 512 := by
  rw [pdx_eq]
  exact Nat.mod_lt _ (by decide)

/-- The offset in a table is that of the entry and that in the entry. -/
theorem mod_span_succ (n la : Nat) : la % span (n + 1) = pdx n la * span n + la % span n := by
  rw [span_succ, Nat.mod_mul, pdx_eq, Nat.mul_comm (span n), Nat.add_comm]

theorem pdx_le_pdx {n la lb : Nat} (h : la % span (n + 1) ≤ lb % span (n + 1)) :
    pdx n la ≤ pdx n lb := by
  rw [mod_span_succ, mod_span_succ] at h
  have hpos := span_pos n
  have hlt := Nat.mod_lt lb hpos
  by_contra hgt
  have hstep : (pdx n lb + 1) * span n ≤ pdx n la * span n := Nat.mul_le_mul_right _ (by omega)
  rw [Nat.add_mul, Nat.one_mul] at hstep
  omega

/-- The first page of the table of level `n` that has address `la`. -/
def firstPage (n la : Nat) : Nat := la / span (n + 1) * 512 ^ (n + 1)

theorem baseVa_firstPage (n la : Nat) : baseVa n la = 4096 * firstPage n la := by
  rw [baseVa_eq, firstPage, span, Nat.mul_left_comm]

theorem cur_eq (n la i : Nat) :
    baseVa n la + pdAddr n i = 4096 * (firstPage n la + i * 512 ^ n) := by
  rw [baseVa_firstPage, pdAddr_eq, span, Nat.mul_add, Nat.mul_left_comm i]

/-- The page of an address, by its entry in a table. -/
theorem page_eq (n la : Nat) :
    la / 4096 = firstPage n la + pdx n la * 512 ^ n + la % span n / 4096 := by
  have hdiv : la = 4096 * (firstPage n la + pdx n la * 512 ^ n) + la % span n := by
    have h := Nat.div_add_mod' la (span (n + 1))
    have hcur := cur_eq n la (pdx n la)
    rw [baseVa_eq, pdAddr_eq] at hcur
    rw [mod_span_succ] at h
    omega
  omega

theorem offset_lt (n la : Nat) : la % span n / 4096 < 512 ^ n := by
  have hlt := Nat.mod_lt la (span_pos n)
  rw [span] at hlt
  rw [span]
  omega

/-! ## Walks without creation -/

section

variable {σ : Type} {cb : Callback σ}

/-- The callback for a leaf. -/
def visit (cb : Callback σ) (p : Place) (s : Vm σ) : Vm σ × Ret :=
  cb p.table p.index (4096 * p.base) p.level s

/-- The entry takes one of the pages from `lo` to `hi`. -/
def meets (lo hi : Nat) (p : Place) : Bool := p.base ≤ hi && lo < p.base + 512 ^ p.level

/-- For the entries `Q` the callback keeps `Inv`, an invariant over the first
    page that is not yet done, and of the tables `P` it changes nothing but the
    entry it is given, as long as it wants to go on. -/
structure Local (cb : Callback σ) (Inv : Nat → Vm σ → Prop) (P : Nat → Prop) (Q : Place → Prop) :
    Prop where
  keeps : ∀ p s n, Q p → n ≤ p.base → Inv n s → (visit cb p s).2 = .ok →
    Inv (p.base + 512 ^ p.level) (visit cb p s).1
  frame : ∀ p s n t j, Q p → n ≤ p.base → Inv n s → (visit cb p s).2 = .ok → P t →
    (t ≠ p.table ∨ j ≠ p.index) → (visit cb p s).1.mem t j = s.mem t j

/-- The entries `rest` of table `t` and what is below them are as in `mem`. -/
structure Untouched (mem : Mem Word) (l t : Nat) (rest : List Nat) (s : Vm σ) : Prop where
  entry : ∀ i ∈ rest, s.mem t i = mem t i
  below : ∀ i ∈ rest, ∀ k c x, l = k + 1 → shape.kind l (mem t i) = .table c →
    0 < count shape mem x k c → s.mem x = mem x

variable {Inv : Nat → Vm σ → Prop} {P : Nat → Prop} {Q : Place → Prop} {mem : Mem Word}
  {l t b i : Nat} {rest : List Nat} {s : Vm σ}

/-- A callback for a leaf of one entry leaves the other entries untouched. -/
theorem Untouched.one (hcb : Local cb Inv P Q) (htree : Tree shape mem l t)
    (hP : ∀ x, 0 < count shape mem x l t → P x) (hi : i < 512) (hrest : ∀ j ∈ rest, j < 512 ∧ j ≠ i)
    {p : Place} (hp : p ∈ entryLeaves shape mem l t b i) (hq : Q p) {n : Nat} (hn : n ≤ p.base)
    (hinv : Inv n s) (hok : (visit cb p s).2 = .ok) (h : Untouched mem l t rest s) :
    Untouched mem l t rest (visit cb p s).1 := by
  obtain ⟨hentry, hbelow⟩ := h
  constructor
  · intro j hj
    obtain ⟨hj512, hne⟩ := hrest j hj
    obtain ⟨hapart, _⟩ := entryLeaves_apart htree hi hj512 hne hp
    rw [hcb.frame p s n t j hq hn hinv hok (hP t (count_self l t)) hapart]
    exact hentry j hj
  · rintro j hj k c x rfl hk hx
    obtain ⟨hj512, hne⟩ := hrest j hj
    obtain ⟨_, hapart⟩ := entryLeaves_apart htree hi hj512 hne hp
    have hle := count_child (p := x) hj512 hk
    funext m
    rw [hcb.frame p s n x m hq hn hinv hok (hP x (by omega)) (.inl (hapart k c x rfl hk hx))]
    rw [hbelow j hj k c x rfl hk hx]

/-- So does the loop over the leaves of the entry, which takes the invariant to
    the end of the entry. -/
theorem Untouched.all (hcb : Local cb Inv P Q) (htree : Tree shape mem l t)
    (hP : ∀ x, 0 < count shape mem x l t → P x) (hi : i < 512) (hrest : ∀ j ∈ rest, j < 512 ∧ j ≠ i)
    {ps : List Place} (hps : ∀ p ∈ ps, p ∈ entryLeaves shape mem l t b i ∧ Q p)
    (hsorted : ps.Pairwise fun p q => p.base + 512 ^ p.level ≤ q.base) {n : Nat}
    (hn : n ≤ b + i * 512 ^ l) (hinv : Inv n s) (h : Untouched mem l t rest s)
    (hok : (sweep .ok (visit cb) ps s).2 = .ok) :
    (∃ n, n ≤ b + i * 512 ^ l + 512 ^ l ∧ Inv n (sweep .ok (visit cb) ps s).1) ∧
      Untouched mem l t rest (sweep .ok (visit cb) ps s).1 := by
  have hloop := @sweep_progress _ _ _ _ Ret.ok (visit cb)
    (fun rest' s => (∃ n, n ≤ b + i * 512 ^ l + 512 ^ l ∧ (∀ p ∈ rest', n ≤ p.base) ∧
      Inv n s) ∧ Untouched mem l t rest s ∧ (∀ p ∈ rest', p ∈ entryLeaves shape mem l t b i ∧ Q p) ∧
      rest'.Pairwise fun p q => p.base + 512 ^ p.level ≤ q.base) (fun _ => True) ?_ ps s
    ⟨⟨n, Nat.le_add_right_of_le hn, fun p hp => ?_, hinv⟩, h, hps, hsorted⟩
  · obtain ⟨⟨n, hn, _, hinv⟩, h, _⟩ := hloop.good hok
    exact ⟨⟨n, hn, hinv⟩, h⟩
  · rintro p rest' s ⟨⟨n, hn, hlow, hinv⟩, h, hps, hsorted⟩
    obtain ⟨hp, hq⟩ := hps p List.mem_cons_self
    have hpn := hlow p List.mem_cons_self
    obtain ⟨hfirst, hsorted'⟩ := List.pairwise_cons.mp hsorted
    obtain ⟨_, hhigh⟩ := entryLeaves_bounds hp
    rw [shape_fan] at hhigh
    unfold Ends
    split
    · rename_i hok
      exact ⟨⟨_, hhigh, hfirst, hcb.keeps p s n hq hpn hinv hok⟩,
        h.one hcb htree hP hi hrest hp hq hpn hinv hok,
        fun q hq => hps q (List.mem_cons_of_mem p hq), hsorted'⟩
    · trivial
  · obtain ⟨hlow, _⟩ := entryLeaves_bounds (hps p hp).1
    rw [shape_fan] at hlow
    exact Nat.le_trans hn hlow

/-! ### The leaves that a range meets -/

theorem mul_step {i j n : Nat} (h : i < j) : i * n + n ≤ j * n := by
  have hle : (i + 1) * n ≤ j * n := Nat.mul_le_mul_right n h
  rwa [Nat.add_mul, Nat.one_mul] at hle

theorem flatMap_range_part {α : Type} {f : Nat → List α} {n a m : Nat} (hm : a + m ≤ n)
    (hout : ∀ i < n, i < a ∨ a + m ≤ i → f i = []) :
    (List.range n).flatMap f = (List.range' a m).flatMap f := by
  have hsplit : List.range n = List.range' 0 a ++
    (List.range' a m ++ List.range' (a + m) (n - (a + m))) := by
    have hjoin := @List.range'_append_1 0 a (m + (n - (a + m)))
    rw [Nat.zero_add] at hjoin
    rw [List.range_eq_range', List.range'_append_1, hjoin]
    congr 1
    omega
  have hleft : (List.range' 0 a).flatMap f = [] := by
    rw [List.flatMap_eq_nil_iff]
    intro i hi
    rw [List.mem_range'_1] at hi
    exact hout i (by omega) (.inl (by omega))
  have hright : (List.range' (a + m) (n - (a + m))).flatMap f = [] := by
    rw [List.flatMap_eq_nil_iff]
    intro i hi
    rw [List.mem_range'_1] at hi
    exact hout i (by omega) (.inr (by omega))
  rw [hsplit, List.flatMap_append, List.flatMap_append, hleft, hright, List.nil_append,
    List.append_nil]

/-- The last page of a range in the table of level `n` with `start`. -/
def lastPage (n start last : Nat) : Nat := firstPage n start + last % span (n + 1) / 4096

theorem lastPage_eq (n start last : Nat) : lastPage n start last =
    firstPage n start + pdx n last * 512 ^ n + last % span n / 4096 := by
  have hmul : pdx n last * span n = 4096 * (pdx n last * 512 ^ n) := by
    rw [span, Nat.mul_left_comm]
  rw [lastPage, mod_span_succ, hmul]
  omega

/-- The leaves that meet a range are those of the entries of the loop. -/
theorem filter_leaves (mem : Mem Word) (l t start last : Nat)
    (hle : start % span (l + 1) ≤ last % span (l + 1)) :
    (leaves shape mem l t (firstPage l start)).filter
      (meets (start / 4096) (lastPage l start last)) =
      (indices l start last).flatMap fun i =>
        (entryLeaves shape mem l t (firstPage l start) i).filter
        (meets (start / 4096) (lastPage l start last)) := by
  have hidx := pdx_le_pdx hle
  have hlast := pdx_lt l last
  rw [leaves_eq, List.filter_flatMap, indices, shape_fan]
  refine flatMap_range_part (by omega) ?_
  intro i hi hout
  rw [List.filter_eq_nil_iff]
  intro p hp
  obtain ⟨hlow, hhigh⟩ := entryLeaves_bounds hp
  have hpage := page_eq l start
  have hend := lastPage_eq l start last
  have hoff := offset_lt l last
  rw [shape_fan] at hlow hhigh
  rw [meets, Bool.and_eq_true, decide_eq_true_eq, decide_eq_true_eq]
  rintro ⟨hp1, hp2⟩
  rcases hout with hbefore | hafter
  · have hstep := mul_step (n := 512 ^ l) hbefore
    omega
  · have hstep := mul_step (n := 512 ^ l) (show pdx l last < i by omega)
    omega

/-! ### One round of the loop -/

theorem callsAt_none (level : Nat) (w : Word) :
    callsAt .none level w = ((level == 1 || level == 2) && pteBig w) := by
  cases hbig : pteBig w <;> simp [callsAt, hbig]

theorem callsAt_none_of_leaf {w : Word} (h : shape.kind (l + 1) w = .leaf) :
    callsAt .none (l + 1) w = true := by
  change entryKind (l + 1) w = .leaf at h
  rw [entryKind] at h
  split at h
  · rename_i hbig
    rcases hbig with ⟨h1 | h2, hbig⟩ <;> simp [callsAt, *]
  · split at h <;> cases h

theorem table_of_kind {w : Word} {c : Nat} (h : shape.kind (l + 1) w = .table c) :
    callsAt .none (l + 1) w = false ∧ isP w = true ∧ tableOf w = c := by
  change entryKind (l + 1) w = .table c at h
  rw [entryKind] at h
  split at h
  · cases h
  · rename_i hbig
    split at h
    · rename_i hp
      cases h
      exact ⟨by simpa [callsAt_none] using hbig, hp, rfl⟩
    · cases h

theorem empty_of_kind {w : Word} (h : shape.kind (l + 1) w = .empty) :
    callsAt .none (l + 1) w = false ∧ isP w = false := by
  change entryKind (l + 1) w = .empty at h
  rw [entryKind] at h
  split at h
  · cases h
  · rename_i hbig
    split at h
    · cases h
    · rename_i hp
      exact ⟨by simpa [callsAt_none] using hbig, by simpa using hp⟩

variable {start last : Nat}

/-- An index of the loop. -/
theorem mem_indices (hle : start % span (l + 1) ≤ last % span (l + 1)) :
    i ∈ indices l start last ↔ pdx l start ≤ i ∧ i ≤ pdx l last := by
  have hidx := pdx_le_pdx hle
  rw [indices, List.mem_range'_1]
  omega

/-- The entries of the loop all meet the range. -/
theorem meets_entry (hlo : pdx l start ≤ i) (hhi : i ≤ pdx l last) (level : Nat)
    (hlevel : level = l) :
    meets (start / 4096) (lastPage l start last) ⟨level, t, i, firstPage l start + i * 512 ^ l⟩ =
      true := by
  have hpage := page_eq l start
  have hend := lastPage_eq l start last
  have hoff := offset_lt l start
  have h1 : pdx l start * 512 ^ l ≤ i * 512 ^ l := Nat.mul_le_mul_right _ hlo
  have h2 : i * 512 ^ l ≤ pdx l last * 512 ^ l := Nat.mul_le_mul_right _ hhi
  simp only [meets, Bool.and_eq_true, decide_eq_true_eq, hlevel]
  omega

theorem visitBottom_eq (hlo : pdx 0 start ≤ i) (hhi : i ≤ pdx 0 last)
    (hentry : s.mem t i = mem t i) :
    visitBottom cb .none t start i s = sweep .ok (visit cb)
      ((entryLeaves shape mem 0 t (firstPage 0 start) i).filter
        (meets (start / 4096) (lastPage 0 start last))) s := by
  rw [visitBottom, hentry]
  by_cases hz : mem t i = 0#64
  · have hk : shape.kind 0 (mem t i) = .empty := by
      change entryKind 0 (mem t i) = .empty
      rw [entryKind, if_pos hz]
    rw [entryLeaves_empty hk, if_neg (by simp [hz])]
    rfl
  · have hk : shape.kind 0 (mem t i) = .leaf := by
      change entryKind 0 (mem t i) = .leaf
      rw [entryKind, if_neg hz]
    have hmeets := meets_entry (l := 0) (t := t) hlo hhi 0 rfl
    rw [entryLeaves_leaf hk, shape_fan, List.filter_cons_of_pos hmeets, List.filter_nil,
      sweep_singleton, if_pos (.inr hz), cur_eq]
    rfl

/-- The leaves below an entry that meet the range are those that meet the part
    of the range in this entry. -/
theorem filter_below (hlo : pdx l start ≤ i) (hhi : i ≤ pdx l last) {ps : List Place} {lo hi : Nat}
    (hps : ∀ p ∈ ps, firstPage l start + i * 512 ^ l ≤ p.base ∧
      p.base + 512 ^ p.level ≤ firstPage l start + i * 512 ^ l + 512 ^ l)
    (hlower : if i = pdx l start then lo = start / 4096
      else lo = firstPage l start + i * 512 ^ l)
    (hupper : if i = pdx l last then hi = lastPage l start last
      else hi = firstPage l start + i * 512 ^ l + 512 ^ l - 1) :
    ps.filter (meets (start / 4096) (lastPage l start last)) = ps.filter (meets lo hi) := by
  apply List.filter_congr
  intro p hp
  obtain ⟨hlow, hhigh⟩ := hps p hp
  have hpos : 0 < 512 ^ p.level := Nat.pow_pos (by decide)
  have hleft : start / 4096 < p.base + 512 ^ p.level ↔ lo < p.base + 512 ^ p.level := by
    split at hlower
    · rw [hlower]
    · have hpage := page_eq l start
      have hoff := offset_lt l start
      have hstep := mul_step (n := 512 ^ l) (show pdx l start < i by omega)
      omega
  have hright : p.base ≤ lastPage l start last ↔ p.base ≤ hi := by
    split at hupper
    · rw [hupper]
    · have hend := lastPage_eq l start last
      have hstep := mul_step (n := 512 ^ l) (show i < pdx l last by omega)
      omega
  simp only [meets, hleft, hright]

theorem div_span (n la : Nat) : la / span n = la / span (n + 1) * 512 + pdx n la := by
  rw [pdx_eq, span_succ, ← Nat.div_div_eq_div_mul]
  omega

/-- The table below an entry begins where the entry begins. -/
theorem firstPage_of_div {n la i va : Nat} (h : va / span (n + 1) = la / span (n + 2) * 512 + i) :
    firstPage n va = firstPage (n + 1) la + i * 512 ^ (n + 1) := by
  rw [firstPage, firstPage, h, Nat.add_mul, Nat.mul_assoc, ← Nat.pow_succ']

/-- The first address of an entry. -/
theorem cur_mul (n la i : Nat) : 4096 * (firstPage (n + 1) la + i * 512 ^ (n + 1)) =
    (la / span (n + 2) * 512 + i) * span (n + 1) := by
  rw [firstPage, span, Nat.pow_succ 512 (n + 1), ← Nat.mul_assoc, ← Nat.mul_assoc,
    Nat.mul_right_comm _ (512 ^ (n + 1)) 512, ← Nat.add_mul, Nat.mul_left_comm]
  rfl

/-- The last address of an entry that ends a part. -/
theorem mod_span_last {n m va : Nat} (h : va = m * span n + span n - 1) :
    va % span n = span n - 1 := by
  have hpos := span_pos n
  rw [h, Nat.add_sub_assoc hpos, Nat.mul_add_mod_self_right]
  exact Nat.mod_eq_of_lt (by omega)

/-- The part of a range in entry `i` of a table of level `l + 1`, as the walk
    passes it on. -/
def partStart (l start i : Nat) : Nat :=
  if i = pdx (l + 1) start then start else 4096 * (firstPage (l + 1) start + i * 512 ^ (l + 1))

def partLast (l start last i : Nat) : Nat :=
  if i = pdx (l + 1) last then last
  else 4096 * (firstPage (l + 1) start + i * 512 ^ (l + 1)) + span (l + 1) - 1

structure Part (l start last i nStart nLast : Nat) : Prop where
  first : firstPage l nStart = firstPage (l + 1) start + i * 512 ^ (l + 1)
  range : nStart % span (l + 1) ≤ nLast % span (l + 1)
  lower : if i = pdx (l + 1) start then nStart / 4096 = start / 4096
    else nStart / 4096 = firstPage (l + 1) start + i * 512 ^ (l + 1)
  upper : if i = pdx (l + 1) last then lastPage l nStart nLast = lastPage (l + 1) start last
    else lastPage l nStart nLast = firstPage (l + 1) start + i * 512 ^ (l + 1) + 512 ^ (l + 1) - 1

theorem part_spec (hle : start % span (l + 2) ≤ last % span (l + 2)) (i : Nat) :
    Part l start last i (partStart l start i) (partLast l start last i) := by
  have hpos := span_pos (l + 1)
  have hfirst : firstPage l (partStart l start i) =
      firstPage (l + 1) start + i * 512 ^ (l + 1) := by
    apply firstPage_of_div
    rw [partStart, cur_mul]
    split
    · rename_i heq
      rw [heq]
      exact div_span (l + 1) start
    · exact Nat.mul_div_cancel _ hpos
  refine ⟨hfirst, ?_, ?_, ?_⟩
  · unfold partStart partLast
    rw [cur_mul]
    split
    · rename_i heq
      split
      · rename_i heq'
        rw [mod_span_succ (l + 1), mod_span_succ (l + 1), ← heq, ← heq'] at hle
        omega
      · rw [mod_span_last rfl]
        have hlt := Nat.mod_lt start hpos
        omega
    · rw [Nat.mul_mod_left]
      exact Nat.zero_le _
  · unfold partStart
    split
    · rfl
    · omega
  · rw [lastPage, hfirst]
    unfold partLast
    split
    · rename_i heq
      rw [lastPage_eq, heq]
    · have hpow : 0 < 512 ^ (l + 1) := Nat.pow_pos (by decide)
      rw [cur_mul, mod_span_last rfl, span]
      omega

/-- One round of the loop above level 0 is the loop over the leaves of the
    entry that meet the range. -/
theorem visitEntry_eq (hbelow : ∀ c nStart nLast, shape.kind (l + 1) (mem t i) = .table c →
      firstPage l nStart = firstPage (l + 1) start + i * 512 ^ (l + 1) →
      nStart % span (l + 1) ≤ nLast % span (l + 1) →
      pageWalk cb .none l c nStart nLast s = sweep .ok (visit cb)
        ((leaves shape mem l c (firstPage l nStart)).filter
          (meets (nStart / 4096) (lastPage l nStart nLast))) s)
    (hle : start % span (l + 2) ≤ last % span (l + 2)) (hlo : pdx (l + 1) start ≤ i)
    (hhi : i ≤ pdx (l + 1) last) (hentry : s.mem t i = mem t i) :
    visitEntry cb .none (pageWalk cb .none l) (l + 1) t start last i s = sweep .ok (visit cb)
      ((entryLeaves shape mem (l + 1) t (firstPage (l + 1) start) i).filter
        (meets (start / 4096) (lastPage (l + 1) start last))) s := by
  rw [visitEntry, hentry]
  cases hk : shape.kind (l + 1) (mem t i) with
  | empty =>
    obtain ⟨hcalls, hp⟩ := empty_of_kind hk
    rw [entryLeaves_empty hk, hcalls, hp]
    rfl
  | leaf =>
    have hmeets := meets_entry (l := l + 1) (t := t) hlo hhi (l + 1) rfl
    rw [entryLeaves_leaf hk, shape_fan, List.filter_cons_of_pos hmeets, List.filter_nil,
      sweep_singleton, if_pos (callsAt_none_of_leaf hk), cur_eq]
    rfl
  | table c =>
    obtain ⟨hcalls, hp, hc⟩ := table_of_kind hk
    have hpart := part_spec hle i
    rw [if_neg (by simp [hcalls]), if_pos hp, hc, cur_eq, pdAddr_eq, Nat.one_mul]
    have hwalk := hbelow c _ _ hk hpart.first hpart.range
    rw [← filter_below hlo hhi ?_ hpart.lower hpart.upper, hpart.first] at hwalk
    · rw [entryLeaves_table hk, shape_fan]
      exact hwalk
    rw [hpart.first]
    intro p hp
    exact entryLeaves_bounds (by rw [entryLeaves_table hk]; exact hp)

/-- The loop of the walk, when each round runs over the leaves of its entry. -/
theorem loop_none (hcb : Local cb Inv P Q) {body : Nat → Vm σ → Vm σ × Ret}
    (htree : Tree shape s.mem l t) (hP : ∀ x, 0 < count shape s.mem x l t → P x)
    (hQ : ∀ p, LeafBelow shape s.mem l t (firstPage l start) p → Q p) {n : Nat}
    (hn : n ≤ firstPage l start) (hinv : Inv n s)
    (hle : start % span (l + 1) ≤ last % span (l + 1))
    (hbody : ∀ i rest s' n, pdx l start ≤ i → i ≤ pdx l last →
      n ≤ firstPage l start + i * 512 ^ l → Inv n s' → Untouched s.mem l t (i :: rest) s' →
      body i s' = sweep .ok (visit cb) ((entryLeaves shape s.mem l t (firstPage l start) i).filter
        (meets (start / 4096) (lastPage l start last))) s') :
    sweep .ok body (indices l start last) s = sweep .ok (visit cb)
      ((leaves shape s.mem l t (firstPage l start)).filter
        (meets (start / 4096) (lastPage l start last))) s := by
  rw [filter_leaves _ _ _ _ _ hle]
  -- The invariant: what is left of the loop has increasing indices of the table,
  -- whose entries the callbacks have not reached.
  refine @sweep_flatMap _ _ _ _ _ _ _ _ _ (fun rest s' =>
    (∃ n, (∀ i ∈ rest, n ≤ firstPage l start + i * 512 ^ l) ∧ Inv n s') ∧ Untouched s.mem l t rest s' ∧ rest.Pairwise (· < ·) ∧
    ∀ i ∈ rest, pdx l start ≤ i ∧ i ≤ pdx l last) ?_ _ s
    ⟨⟨n, fun i _ => by omega, hinv⟩, ⟨?_, ?_⟩, ?_, ?_⟩
  · rintro i rest s' ⟨⟨n, hn, hinv⟩, huntouched, hinc, hrange⟩
    obtain ⟨hlo, hhi⟩ := hrange i List.mem_cons_self
    obtain ⟨hfirst, hinc'⟩ := List.pairwise_cons.mp hinc
    have heq := hbody i rest s' n hlo hhi (hn i List.mem_cons_self) hinv huntouched
    refine ⟨heq, ?_⟩
    intro hok
    have hlast := pdx_lt l last
    have hi : i < 512 := by omega
    have hrest : ∀ j ∈ rest, j < 512 ∧ j ≠ i := by
      intro j hj
      obtain ⟨_, hjhi⟩ := hrange j (List.mem_cons_of_mem i hj)
      exact ⟨by omega, Nat.ne_of_gt (hfirst j hj)⟩
    have hrest' : Untouched s.mem l t rest s' :=
      ⟨fun j hj => huntouched.entry j (List.mem_cons_of_mem i hj),
        fun j hj => huntouched.below j (List.mem_cons_of_mem i hj)⟩
    have hsorted := @entryLeaves_sorted _ shape s.mem l t (firstPage l start) i
    rw [shape_fan] at hsorted
    rw [heq] at hok ⊢
    have hleaves : ∀ p ∈ (entryLeaves shape s.mem l t (firstPage l start) i).filter
        (meets (start / 4096) (lastPage l start last)),
        p ∈ entryLeaves shape s.mem l t (firstPage l start) i ∧ Q p := by
      intro p hp
      obtain ⟨hentry, _⟩ := List.mem_filter.mp hp
      exact ⟨hentry, hQ p ((mem_leaves l t _).mp (entryLeaves_mem hi hentry))⟩
    obtain ⟨⟨m, hm, hinv'⟩, hun⟩ := Untouched.all hcb htree hP hi hrest hleaves
      (hsorted.filter _) (hn i List.mem_cons_self) hinv hrest' hok
    refine ⟨⟨m, ?_, hinv'⟩, hun, hinc', fun j hj => hrange j (List.mem_cons_of_mem i hj)⟩
    intro j hj
    have hstep := mul_step (n := 512 ^ l) (hfirst j hj)
    omega
  · intro i _
    rfl
  · intro i _ k c x _ _ _
    rfl
  · exact List.pairwise_lt_range'
  · intro i hi
    exact (mem_indices hle).mp hi

/-- **The walk without creation** runs its callback over the leaves that meet
    the range, from left to right, and stops at the first result that is not 0. -/
theorem pageWalk_none (hcb : Local cb Inv P Q) (l : Nat) : ∀ t start last s n,
    Tree shape s.mem l t → (∀ x, 0 < count shape s.mem x l t → P x) →
    (∀ p, LeafBelow shape s.mem l t (firstPage l start) p → Q p) → n ≤ firstPage l start →
    Inv n s → start % span (l + 1) ≤ last % span (l + 1) →
    pageWalk cb .none l t start last s = sweep .ok (visit cb)
      ((leaves shape s.mem l t (firstPage l start)).filter
        (meets (start / 4096) (lastPage l start last))) s := by
  induction l with
  | zero =>
    intro t start last s n htree hP hQ hn hinv hle
    rw [pageWalk]
    refine loop_none hcb htree hP hQ hn hinv hle ?_
    intro i rest s' m hlo hhi _ _ huntouched
    exact visitBottom_eq hlo hhi (huntouched.entry i List.mem_cons_self)
  | succ l ih =>
    intro t start last s n htree hP hQ hn hinv hle
    rw [pageWalk]
    refine loop_none hcb htree hP hQ hn hinv hle ?_
    intro i rest s' m hlo hhi hm hinv' huntouched
    refine visitEntry_eq ?_ hle hlo hhi (huntouched.entry i List.mem_cons_self)
    intro c nStart nLast hk hfirst hpart
    have hi : i < 512 := Nat.lt_of_le_of_lt hhi (pdx_lt _ _)
    -- The subtree is still as it was when the walk began.
    have hsame : ∀ x, 0 < count shape s.mem x l c → s'.mem x = s.mem x :=
      fun x hx => huntouched.below i List.mem_cons_self l c x rfl hk hx
    have hcount : ∀ x, count shape s'.mem x l c = count shape s.mem x l c :=
      fun x => weight_frame _ _ l c hsame
    have hleaves := leaves_frame l c (firstPage l nStart) hsame
    rw [ih c nStart nLast s' m ?_ ?_ ?_ ?_ hinv' hpart, hleaves]
    · intro x
      rw [hcount]
      exact htree.child hi hk x
    · intro x hx
      rw [hcount] at hx
      have hle := count_child (p := x) hi hk
      exact hP x (by omega)
    · intro p hp
      rw [← mem_leaves, hleaves, mem_leaves, hfirst] at hp
      exact hQ p (.down hi hk hp)
    · rw [hfirst]
      exact hm

end

end Dune
