import Libdbos.Framework.RadixGrow
import Libdbos.Libdune.PageWalk

/-! # Page Tables that are Well Formed

    A table of the library is well formed if no page of it is shared and none
    is on the free lists. New tables keep it so and change no translation
    (`linkTable_links`).

    The rule `CreateRule.walk` is the induction rule for walks that create
    tables: such a walk goes over units of the size that the caller wants, from
    left to right. It hangs in the tables on the way to a unit that are missing,
    and then calls back for the entry of the unit. An invariant over the next
    unit that both keep holds at the end of the walk.
-/

namespace Dune

open Pte Radix Sweep

/-! ## Translations -/

/-- The index of page `a` at level `n`. -/
def digit (a n : Nat) : Nat := a / 512 ^ n % 512

theorem digit_lt (a n : Nat) : digit a n < shape.fan := Nat.mod_lt _ (by decide)

/-- The leaf that maps page `a`. -/
def leafOf (mem : Mem Word) (root a : Nat) : Option (Nat × Word) :=
  leafAt shape mem (digit a) 3 root

/-- The tables on the way to page `a`, down to level `k`, end with `u`. -/
def pathTo (mem : Mem Word) (root a k u : Nat) : Prop :=
  descend shape mem (digit a) k 3 root = (k, u)

/-! ## Address parts -/

theorem toNat_pteAddr (w : Word) : (pteAddr w).toNat = w.toNat % 2 ^ 52 / 4096 * 4096 := by
  have hsplit : pteAddr w = (w &&& BitVec.ofNat 64 (2 ^ 52 - 1)) &&& ~~~BitVec.ofNat 64
    (2 ^ 12 - 1) := by
    rw [pteAddr, BitVec.and_assoc]
    congr 1
  rw [hsplit, Word.toNat_clear_low, BitVec.toNat_and, BitVec.toNat_ofNat]
  have hmask : (2 ^ 52 - 1) % 2 ^ 64 = 2 ^ 52 - 1 := by decide
  rw [hmask, Nat.and_two_pow_sub_one_eq_mod]
  rfl

/-- A word is its address part and its flags. -/
theorem addr_or_flags (w : Word) : pteAddr w ||| pteFlags w = w := by
  have hmask : addrMask ||| flagsMask = BitVec.allOnes 64 := by decide
  rw [pteAddr, pteFlags, ← BitVec.and_or_distrib_left, hmask, BitVec.and_allOnes]

/-- An address part joined with flags has these flags. -/
theorem pteFlags_join {a f : Word} (h : pteAddr f = 0#64) : pteFlags (pteAddr a ||| f) = f := by
  have hf := addr_or_flags f
  rw [h, BitVec.zero_or] at hf
  have hdist : pteFlags (pteAddr a ||| f) = pteFlags (pteAddr a) ||| pteFlags f :=
    BitVec.and_or_distrib_right
  have hzero : pteFlags (pteAddr a) = 0#64 := Word.field_disjoint (by decide) a
  rw [hdist, hzero, BitVec.zero_or, hf]

/-- An aligned address is its own address part. -/
theorem toNat_pteAddr_ofNat {x : Nat} (halign : x % 4096 = 0) (hlt : x < 2 ^ 52) :
    (pteAddr (BitVec.ofNat 64 x)).toNat = x := by
  rw [toNat_pteAddr, BitVec.toNat_ofNat, Nat.mod_mod_of_dvd _ (by decide), Nat.mod_eq_of_lt hlt]
  omega

/-- The entry of a new table. -/
def tableEntry (new : Nat) : Word := pteAddr (BitVec.ofNat 64 new) ||| pteDefFlags

theorem tableOf_tableEntry {pg : Nat} (h : pg < maxPages) :
    tableOf (tableEntry (page2pa pg)) = page2pa pg := by
  rw [tableOf, tableEntry, pteAddr_join (by decide)]
  unfold page2pa pageBase
  unfold maxPages at h
  exact toNat_pteAddr_ofNat (by omega) (by omega)

theorem tableEntry_kind {pg : Nat} (h : pg < maxPages) (k : Nat) :
    shape.kind (k + 1) (tableEntry (page2pa pg)) = .table (page2pa pg) := by
  have hbig : pteBig (tableEntry (page2pa pg)) = false := by
    have hbit : ∀ w, pteBig w = w.getLsbD 7 := fun w => Word.has_bit w 7 (by decide)
    simp [hbit, tableEntry, pteAddr, addrMask, pteDefFlags, pteP, pteW, pteU]
  have hp : isP (tableEntry (page2pa pg)) = true := by
    simp [isP_eq, tableEntry, pteDefFlags, pteP, pteW, pteU]
  change entryKind (k + 1) _ = _
  rw [entryKind, if_neg (by simp [hbig]), if_pos hp, tableOf_tableEntry h]

theorem zero_kind (k : Nat) : shape.kind k 0#64 = .empty := by
  cases k with
  | zero => rfl
  | succ k =>
    change entryKind (k + 1) 0#64 = .empty
    rw [entryKind, if_neg (by intro h; exact absurd h.2 (by decide)), if_neg (by decide)]

/-! ## Well-formed tables -/

section

variable {σ : Type} {s s' : Vm σ} {root a k u : Nat}

/-- No page of the table occurs twice in it or is free, and the free lists
    have every page once. -/
structure WellFormed (root : Nat) (s : Vm σ) : Prop where
  tree : Tree shape s.mem 3 root
  apart : ∀ pg ∈ s.pool.freeList, count shape s.mem (page2pa pg) 3 root = 0
  nodup : s.pool.freeList.Nodup
  inPool : ∀ pg ∈ s.pool.freeList, pg < maxPages

theorem WellFormed.of_eq {τ : Type} {s' : Vm τ} (h : WellFormed root s) (hmem : s'.mem = s.mem)
    (hpool : s'.pool = s.pool) : WellFormed root s' := by
  refine ⟨?_, ?_, ?_, ?_⟩
  · rw [hmem]
    exact h.tree
  · rw [hmem, hpool]
    exact h.apart
  · rw [hpool]
    exact h.nodup
  · rw [hpool]
    exact h.inPool

/-- What `linkTable` does: the pool is empty, or a page of it becomes a table. -/
inductive Links (root a k u : Nat) (s : Vm σ) : Vm σ × Ret → Prop where
  | full (pool : Pool) (free : s.pool.freeList.Perm pool.freeList) (ref : pool.ref = s.pool.ref)
      (cpu : pool.cpu = s.pool.cpu) (stock : s.pool.stock = 0)
      (path : pathTo s.mem root a (k + 1) u)
      (empty : shape.kind (k + 1) (s.mem u (digit a (k + 1))) = .empty) :
      Links root a k u s ({ s with pool := pool }, enomem)
  | new (pool : Pool) (pg : Nat) (free : s.pool.freeList.Perm (pg :: pool.freeList))
      (ref : pool.ref = Function.update s.pool.ref pg (s.pool.ref pg + 1#64))
      (cpu : pool.cpu = s.pool.cpu) (stock : s.pool.stock ≤ pool.stock + 1)
      (grows : Grows shape s.mem (digit a) 3 root k u (page2pa pg) (fun _ => 0#64)
        (tableEntry (page2pa pg))) :
      Links root a k u s ({ s with
        pool := pool
        mem := grow s.mem u (digit a (k + 1)) (page2pa pg) (fun _ => 0#64)
          (tableEntry (page2pa pg)) }, .ok)

theorem linkTable_links (hwf : WellFormed root s) (hpath : pathTo s.mem root a (k + 1) u)
    (hempty : shape.kind (k + 1) (s.mem u (digit a (k + 1))) = .empty) :
    Links root a k u s (linkTable u (digit a (k + 1)) s) := by
  obtain ⟨hcpu, hsome, hnone, hstock⟩ := pageAlloc_spec s.pool
  have hown := @pageAlloc_none s.pool
  unfold linkTable allocZeroed
  cases hr : pageAlloc s.pool with
  | mk pool got =>
    rw [hr] at hcpu hsome hnone hstock hown
    cases got with
    | none =>
      obtain ⟨hfree, href⟩ := hnone rfl
      exact .full pool hfree href hcpu (hown rfl) hpath hempty
    | some pg =>
      obtain ⟨hfree, href⟩ := hsome pg rfl
      have hmem : pg ∈ s.pool.freeList := hfree.mem_iff.mpr List.mem_cons_self
      exact .new pool pg hfree href hcpu hstock
        ⟨digit_lt a, hwf.tree, hpath, hempty, hwf.apart pg hmem,
        fun _ => zero_kind k, tableEntry_kind (hwf.inPool pg hmem) k⟩

/-- A new table keeps the table well formed. -/
theorem WellFormed.links {r : Vm σ × Ret} (hwf : WellFormed root s) (h : Links root a k u s r) :
    WellFormed root r.1 := by
  cases h with
  | full pool free ref cpu stock path empty =>
    exact ⟨hwf.tree, fun pg hpg => hwf.apart pg (free.mem_iff.mpr hpg), free.nodup_iff.mp hwf.nodup,
      fun pg hpg => hwf.inPool pg (free.mem_iff.mpr hpg)⟩
  | new pool pg free ref cpu stock grows =>
    obtain ⟨hnot, hnodup⟩ := List.nodup_cons.mp (free.nodup_iff.mp hwf.nodup)
    have hold : ∀ x ∈ pool.freeList, x ∈ s.pool.freeList :=
      fun x hx => free.mem_iff.mpr (List.mem_cons_of_mem pg hx)
    refine ⟨grows.grown_tree, ?_, hnodup, fun x hx => hwf.inPool x (hold x hx)⟩
    intro x hx
    rw [grows.count_eq, hwf.apart x (hold x hx), if_neg]
    intro heq
    exact hnot (page2pa_inj heq ▸ hx)

/-- Translations and the paths to this level or above stay. -/
theorem Links.leafOf {r : Vm σ × Ret} (h : Links root a k u s r) (a' : Nat) :
    leafOf r.1.mem root a' = Dune.leafOf s.mem root a' := by
  cases h with
  | full => rfl
  | new pool pg free ref cpu stock grows => exact grows.leafAt (digit_lt a')

/-- The paths down to level `n` or a level above it are the same. -/
def SamePaths (root n : Nat) (mem mem' : Mem Word) : Prop :=
  ∀ a stop, n ≤ stop →
    descend shape mem' (digit a) stop 3 root = descend shape mem (digit a) stop 3 root

theorem SamePaths.refl (root n : Nat) (mem : Mem Word) : SamePaths root n mem mem :=
  fun _ _ _ => rfl

theorem SamePaths.trans {n : Nat} {mem mem' mem'' : Mem Word} (h : SamePaths root n mem mem')
    (h' : SamePaths root n mem' mem'') : SamePaths root n mem mem'' :=
  fun a stop hstop => (h' a stop hstop).trans (h a stop hstop)

theorem SamePaths.mono {n n' : Nat} {mem mem' : Mem Word} (hn : n ≤ n')
    (h : SamePaths root n mem mem') : SamePaths root n' mem mem' :=
  fun a stop hstop => h a stop (Nat.le_trans hn hstop)

theorem SamePaths.write (htree : Tree shape s.mem 3 root) (hpath : pathTo s.mem root a k u)
    (i : Nat) (w : Word) : SamePaths root k s.mem (write s.mem u i w) :=
  fun a' _ hstop =>
    descend_write_low (digit_lt a) (digit_lt a') hstop 3 root hpath htree

end

/-! ## Units of a range -/

/-- Pages of one entry of level `n` have the same indices from there on. -/
theorem digit_congr {a b n j : Nat} (h : a / 512 ^ n = b / 512 ^ n) (hj : n ≤ j) :
    digit a j = digit b j := by
  have hpow : 512 ^ j = 512 ^ n * 512 ^ (j - n) := by
    rw [← Nat.pow_add, Nat.add_sub_cancel' hj]
  rw [digit, digit, hpow, ← Nat.div_div_eq_div_mul, ← Nat.div_div_eq_div_mul, h]

theorem pathTo_congr {mem : Mem Word} {root a b k u : Nat}
    (h : a / 512 ^ (k + 1) = b / 512 ^ (k + 1)) :
    pathTo mem root a k u ↔ pathTo mem root b k u := by
  unfold pathTo
  rw [descend_agree 3 root fun j hj _ => digit_congr h hj]

/-- A page of entry `i` of a table that begins with page `f`. -/
theorem div_entry {f i n off : Nat} (hf : 512 ^ n ∣ f) (hoff : off < 512 ^ n) :
    (f + i * 512 ^ n + off) / 512 ^ n = f / 512 ^ n + i := by
  obtain ⟨m, rfl⟩ := hf
  have hpos : 0 < 512 ^ n := Nat.pow_pos (by decide)
  rw [Nat.mul_comm, ← Nat.add_mul, Nat.mul_comm, Nat.mul_add_div hpos, Nat.div_eq_of_lt hoff,
    Nat.mul_div_cancel _ hpos, Nat.add_zero]

theorem firstPage_dvd (n la : Nat) : 512 ^ (n + 1) ∣ firstPage n la := Nat.dvd_mul_left _ _

theorem firstPage_dvd_of_le {k n : Nat} (h : k ≤ n) (la : Nat) : 512 ^ k ∣ firstPage n la :=
  Nat.dvd_trans (Nat.pow_dvd_pow 512 (by omega)) (firstPage_dvd n la)

/-- The first page of the unit with page `x`. -/
def unitOf (k x : Nat) : Nat := x / 512 ^ k * 512 ^ k

/-- The first page after the unit with page `x`. -/
def unitAfter (k x : Nat) : Nat := (x / 512 ^ k + 1) * 512 ^ k

theorem unitOf_of_dvd {k x : Nat} (h : 512 ^ k ∣ x) : unitOf k x = x := Nat.div_mul_cancel h

theorem unitAfter_pred {k m : Nat} (h : 512 ^ k ∣ m) (hm : 0 < m) : unitAfter k (m - 1) = m := by
  obtain ⟨c, rfl⟩ := h
  have hpos : 0 < 512 ^ k := Nat.pow_pos (by decide)
  have hc : 0 < c := Nat.pos_of_mul_pos_left hm
  obtain ⟨d, rfl⟩ : ∃ d, c = d + 1 := ⟨c - 1, by omega⟩
  have hsplit : 512 ^ k * (d + 1) - 1 = 512 ^ k * d + (512 ^ k - 1) := by
    rw [Nat.mul_add, Nat.mul_one, Nat.add_sub_assoc hpos]
  rw [unitAfter, hsplit, Nat.mul_add_div hpos, Nat.div_eq_of_lt (by omega), Nat.add_zero,
    Nat.mul_comm]

theorem unitOf_div {k n x : Nat} (h : k ≤ n) : unitOf k x / 512 ^ n = x / 512 ^ n := by
  have hpow : 512 ^ n = 512 ^ k * 512 ^ (n - k) := by
    rw [← Nat.pow_add, Nat.add_sub_cancel' h]
  rw [unitOf, hpow, ← Nat.div_div_eq_div_mul, ← Nat.div_div_eq_div_mul,
    Nat.mul_div_cancel _ (Nat.pow_pos (by decide))]

theorem unitOf_congr {k x y : Nat} (h : y / 512 ^ k = x / 512 ^ k) : unitOf k y = unitOf k x := by
  rw [unitOf, unitOf, h]

theorem lt_unitOf_add (k x : Nat) : x < unitOf k x + 512 ^ k :=
  Nat.lt_div_mul_add (Nat.pow_pos (by decide))

theorem unitOf_le (k x : Nat) : unitOf k x ≤ x := Nat.div_mul_le_self _ _

theorem unitAfter_zero (x : Nat) : unitAfter 0 x = x + 1 := by
  rw [unitAfter, Nat.pow_zero, Nat.div_one, Nat.mul_one]

theorem unitOf_zero (x : Nat) : unitOf 0 x = x := by
  rw [unitOf, Nat.pow_zero, Nat.div_one, Nat.mul_one]

/-- The pages of a unit. -/
theorem div_eq_iff_unit {k a p : Nat} (h : 512 ^ k ∣ a) :
    p / 512 ^ k = a / 512 ^ k ↔ a ≤ p ∧ p < a + 512 ^ k := by
  obtain ⟨c, rfl⟩ := h
  have hpos : 0 < 512 ^ k := Nat.pow_pos (by decide)
  rw [Nat.mul_div_cancel_left _ hpos, Nat.div_eq_iff hpos, Nat.mul_comm c]
  omega

/-! ## Empty tables -/

/-- A table without entries is well formed if its page is not free. -/
theorem wellFormed_blank {σ : Type} {s : Vm σ} {root : Nat} (hmem : s.mem root = fun _ => 0#64)
    (hnodup : s.pool.freeList.Nodup) (hpool : ∀ pg ∈ s.pool.freeList, pg < maxPages)
    (hroot : ∀ pg ∈ s.pool.freeList, page2pa pg ≠ root) : WellFormed root s := by
  have hcount : ∀ x, count shape s.mem x 3 root = if root = x then 1 else 0 :=
    fun x => weight_row _ _ hmem fun _ => zero_kind 3
  refine ⟨?_, ?_, hnodup, hpool⟩
  · intro x
    rw [hcount]
    split <;> omega
  · intro pg hpg
    rw [hcount, if_neg (hroot pg hpg).symm]

/-- Nothing is mapped there. -/
theorem leafOf_blank {mem : Mem Word} {root : Nat} (hmem : mem root = fun _ => 0#64) (a : Nat) :
    leafOf mem root a = none :=
  leafAt_row hmem fun _ => zero_kind 3

/-- A machine after start-up: eight free pages for core 0, and no entry in any
    table. -/
def bootVm : Vm Unit where
  mem := fun _ _ => 0#64
  pool := {
    ref := fun _ => 0#64
    localLists := fun i => if i = 0 then [0, 1, 2, 3, 4, 5, 6, 7] else []
    cpu := ⟨0, 32, by decide, by decide, by decide, by decide⟩
    seed := 5323#32
    lastStealed := none
    stealed_ok := by simp }
  arg := ()

theorem bootVm_freeList : bootVm.pool.freeList = [0, 1, 2, 3, 4, 5, 6, 7] := by decide +kernel

theorem bootVm_wellFormed : WellFormed 0x1000 bootVm := by
  refine wellFormed_blank rfl ?_ ?_ ?_
  · rw [bootVm_freeList]
    decide
  · rw [bootVm_freeList]
    decide
  · rw [bootVm_freeList]
    decide

/-! ## The rule for walks that create tables -/

/-- The level of the entries that a walk is to create. -/
def Create.level : Create → Nat
  | .none => 0
  | .normal => 0
  | .big => 1
  | .big1gb => 2

theorem Create.level_normal : Create.normal.level = 0 := rfl

theorem Create.level_le (create : Create) : create.level ≤ 3 := by
  cases create <;> decide

theorem callsAt_unit {create : Create} {l : Nat} (h : create.level = l + 1) (w : Word) :
    callsAt create (l + 1) w = true := by
  cases create <;> simp_all [Create.level, callsAt]

theorem callsAt_above {create : Create} {l : Nat} (h : create.level < l) (w : Word) :
    callsAt create l w = callsAt .none l w := by
  cases create with
  | none => rfl
  | normal => rfl
  | big =>
    have hl : (l == 1) = false := beq_false_of_ne (Nat.ne_of_gt h)
    unfold callsAt
    rw [hl]
    rfl
  | big1gb =>
    have hl : (l == 1) = false := beq_false_of_ne (Nat.ne_of_gt (Nat.lt_trans (by decide) h))
    have hl' : (l == 2) = false := beq_false_of_ne (Nat.ne_of_gt h)
    unfold callsAt
    rw [hl, hl']
    rfl

section

variable {σ : Type}

/-- What the rule asks of an invariant over the next unit, in the pages from
    `lo` to `hi`; `Stop` is what holds when the walk stops early. -/
structure CreateRule (cb : Callback σ) (create : Create) (root lo hi : Nat)
    (Inv : Nat → Vm σ → Prop) (Stop : Vm σ × Ret → Prop) : Prop where
  wf : ∀ a s, Inv a s → WellFormed root s
  noLarge : ∀ a s l u, lo ≤ a → a ≤ hi → Inv a s → create.level < l → pathTo s.mem root a l u →
    shape.kind l (s.mem u (digit a l)) ≠ .leaf
  link : ∀ a s l u r, lo ≤ a → a ≤ hi → Inv a s → create.level ≤ l →
    Links root a l u s r → Ends .ok (Inv a) Stop r
  call : ∀ a s u, lo ≤ a → a ≤ hi → Inv a s → pathTo s.mem root a create.level u →
    (∃ w, (cb u (digit a create.level) (4096 * a) create.level s).1.mem =
      write s.mem u (digit a create.level) w) ∧
    Ends .ok (Inv (a + 512 ^ create.level)) Stop
      (cb u (digit a create.level) (4096 * a) create.level s)

variable {cb : Callback σ} {create : Create} {root lo hi : Nat} {Inv : Nat → Vm σ → Prop}
  {Stop : Vm σ × Ret → Prop} {s : Vm σ} {l t start last : Nat}

/-- The unit before which the loop is when it comes to index `i`. -/
def bound (k l start last i : Nat) : Nat :=
  if i ≤ pdx l start then unitOf k (start / 4096)
  else if i ≤ pdx l last then firstPage l start + i * 512 ^ l
  else unitAfter k (lastPage l start last)

/-- The loop of the walk, by its rounds. -/
theorem loop_create {body : Nat → Vm σ → Vm σ × Ret}
    (hle : start % span (l + 1) ≤ last % span (l + 1))
    (hinv : Inv (unitOf create.level (start / 4096)) s)
    (hbody : ∀ i s', pdx l start ≤ i → i ≤ pdx l last →
      Inv (bound create.level l start last i) s' → SamePaths root l s.mem s'.mem →
      Ends .ok (fun s'' => Inv (bound create.level l start last (i + 1)) s'' ∧
        SamePaths root l s'.mem s''.mem) Stop (body i s')) :
    Ends .ok (fun s' => Inv (unitAfter create.level (lastPage l start last)) s' ∧
      SamePaths root l s.mem s'.mem) Stop (sweep .ok body (indices l start last) s) := by
  have hidx := pdx_le_pdx hle
  have hrule := @sweep_range _ _ _ Ret.ok body
    (fun i s' => pdx l start ≤ i ∧ Inv (bound create.level l start last i) s' ∧
      SamePaths root l s.mem s'.mem) Stop (pdx l last + 1) ?_ (pdx l last + 1 - pdx l start)
        (pdx l start) s (by omega)
    ⟨Nat.le_refl _, by rw [bound, if_pos (Nat.le_refl _)]; exact hinv, SamePaths.refl _ _ _⟩
  · refine hrule.imp ?_ fun r h => h
    rintro s' ⟨_, hend, hpaths⟩
    rw [bound, if_neg (by omega), if_neg (by omega)] at hend
    exact ⟨hend, hpaths⟩
  · rintro i s' hi ⟨hlo, hinv', hpaths⟩
    refine (hbody i s' hlo (by omega) hinv' hpaths).imp ?_ fun r h => h
    rintro s'' ⟨hnext, hpaths'⟩
    exact ⟨by omega, hnext, hpaths.trans hpaths'⟩

/-- Where the loop is when it comes to index `i`. -/
theorem bound_spec {k i : Nat} (hk : k ≤ l) (hlo : pdx l start ≤ i) (hhi : i ≤ pdx l last)
    (hlow : lo ≤ unitOf k (start / 4096)) (hhigh : lastPage l start last ≤ hi)
    (hle : start % span (l + 1) ≤ last % span (l + 1)) :
    lo ≤ bound k l start last i ∧ bound k l start last i ≤ hi ∧
      bound k l start last i / 512 ^ l = firstPage l start / 512 ^ l + i := by
  have hdvd := firstPage_dvd_of_le (Nat.le_refl l) start
  have hpos : 0 < 512 ^ l := Nat.pow_pos (by decide)
  have hpage := page_eq l start
  have hend := lastPage_eq l start last
  have hle1 : i * 512 ^ l ≤ pdx l last * 512 ^ l := Nat.mul_le_mul_right _ hhi
  rw [bound, if_pos hhi]
  split
  · rename_i hfirst
    have hi : i = pdx l start := by omega
    have hunit := unitOf_le k (start / 4096)
    refine ⟨hlow, ?_, ?_⟩
    · rw [mod_span_succ, mod_span_succ, ← hi] at hle
      by_cases hlt : i = pdx l last
      · rw [← hlt] at hle hend
        rw [← hi] at hpage
        omega
      · have hstep := mul_step (n := 512 ^ l) (show i < pdx l last by omega)
        have hoff := offset_lt l start
        rw [← hi] at hpage
        omega
    · rw [unitOf_div hk, hpage, div_entry hdvd (offset_lt l start), hi]
  · rename_i hfirst
    have hunit := unitOf_le k (start / 4096)
    have hstep := mul_step (n := 512 ^ l) (show pdx l start < i by omega)
    have hoff := offset_lt l start
    refine ⟨by omega, by omega, ?_⟩
    exact @div_entry _ _ _ 0 hdvd hpos

/-- The pages of one table, by their entry. -/
theorem block_of_entry {a i : Nat} (hi : i < 512)
    (h : a / 512 ^ l = firstPage l start / 512 ^ l + i) :
    a / 512 ^ (l + 1) = start / 4096 / 512 ^ (l + 1) ∧ digit a l = i := by
  have hpos : 0 < 512 ^ l := Nat.pow_pos (by decide)
  have hfirst : firstPage l start / 512 ^ l = start / span (l + 1) * 512 := by
    rw [firstPage, Nat.pow_succ, Nat.mul_comm (512 ^ l), ← Nat.mul_assoc, Nat.mul_div_cancel _ hpos]
  rw [hfirst] at h
  constructor
  · rw [Nat.pow_succ, ← Nat.div_div_eq_div_mul, h, Nat.div_div_eq_div_mul, ← Nat.pow_succ]
    change _ = start / span (l + 1)
    omega
  · rw [digit, h]
    omega

/-- The loop goes from one unit to the next at the level of the units. -/
theorem bound_unit {k i : Nat} (hlo : pdx k start ≤ i) (hhi : i ≤ pdx k last) :
    bound k k start last i = firstPage k start + i * 512 ^ k ∧
      bound k k start last (i + 1) = firstPage k start + i * 512 ^ k + 512 ^ k := by
  have hdvd := firstPage_dvd_of_le (Nat.le_refl k) start
  have hcancel : firstPage k start / 512 ^ k * 512 ^ k = firstPage k start := Nat.div_mul_cancel hdvd
  constructor
  · unfold bound
    split
    · rename_i hfirst
      have hi : i = pdx k start := by omega
      rw [unitOf, page_eq k start, div_entry hdvd (offset_lt k start), Nat.add_mul, hcancel, hi]
    · rfl
  · rw [bound, if_neg (by omega)]
    split
    · rw [Nat.add_mul, Nat.one_mul, Nat.add_assoc]
    · rename_i hlast
      have hi : i = pdx k last := by omega
      rw [unitAfter, lastPage_eq, div_entry hdvd (offset_lt k last), Nat.add_mul, Nat.add_mul,
        hcancel, hi, Nat.one_mul]

/-- The walk over the table of entry `i` goes from one bound to the next. -/
theorem bound_below {k i nStart nLast : Nat} (hk : k ≤ l + 1) (hlo : pdx (l + 1) start ≤ i)
    (hhi : i ≤ pdx (l + 1) last) (hpart : Part l start last i nStart nLast) :
    unitOf k (nStart / 4096) = bound k (l + 1) start last i ∧
      unitAfter k (lastPage l nStart nLast) = bound k (l + 1) start last (i + 1) := by
  have hdvd := firstPage_dvd_of_le hk start
  have hstep : 512 ^ k ∣ 512 ^ (l + 1) := Nat.pow_dvd_pow 512 hk
  have hentry : 512 ^ k ∣ firstPage (l + 1) start + i * 512 ^ (l + 1) :=
    Nat.dvd_add hdvd (Nat.dvd_trans hstep (Nat.dvd_mul_left _ _))
  have hlower := hpart.lower
  have hupper := hpart.upper
  constructor
  · unfold bound
    split at hlower
    · rw [if_pos (by omega), hlower]
    · rw [if_neg (by omega), if_pos hhi, hlower, unitOf_of_dvd hentry]
  · rw [bound, if_neg (by omega)]
    split at hupper
    · rw [if_neg (by omega), hupper]
    · have hpos : 0 < 512 ^ (l + 1) := Nat.pow_pos (by decide)
      rw [if_pos (by omega), hupper, unitAfter_pred (Nat.dvd_add hentry hstep) (by omega),
        Nat.add_mul, Nat.one_mul, Nat.add_assoc]

/-! ### Rounds -/

variable (cb create root lo hi Inv Stop l) in
/-- What a walk of level `l` does: it takes the invariant from the first unit of
    its range to the one after the last. -/
def WalksUnits : Prop := ∀ t start last s, start % span (l + 1) ≤ last % span (l + 1) →
  lo ≤ unitOf create.level (start / 4096) → lastPage l start last ≤ hi →
  Inv (unitOf create.level (start / 4096)) s → pathTo s.mem root (start / 4096) l t →
  Ends .ok (fun s' => Inv (unitAfter create.level (lastPage l start last)) s' ∧
    SamePaths root l s.mem s'.mem) Stop (pageWalk cb create l t start last s)

variable (hrule : CreateRule cb create root lo hi Inv Stop)

include hrule

/-- A round at the level of the units calls back. -/
theorem CreateRule.call_round {s' : Vm σ} {i : Nat} (hk : create.level = l)
    (hle : start % span (l + 1) ≤ last % span (l + 1))
    (hlow : lo ≤ unitOf create.level (start / 4096)) (hhigh : lastPage l start last ≤ hi)
    (hlo : pdx l start ≤ i) (hhi : i ≤ pdx l last) (hpath : pathTo s.mem root (start / 4096) l t)
    (hinv : Inv (bound create.level l start last i) s') (hpaths : SamePaths root l s.mem s'.mem) :
    Ends .ok (fun s'' => Inv (bound create.level l start last (i + 1)) s'' ∧
      SamePaths root l s'.mem s''.mem) Stop (cb t i (baseVa l start + pdAddr l i) l s') := by
  subst hk
  obtain ⟨hblo, hbhi, hdiv⟩ := bound_spec (Nat.le_refl _) hlo hhi hlow hhigh hle
  obtain ⟨hblock, hdigit⟩ := block_of_entry (Nat.lt_of_le_of_lt hhi (pdx_lt _ _)) hdiv
  obtain ⟨hcur, hnext⟩ := bound_unit hlo hhi
  have hpath' : pathTo s'.mem root (bound create.level create.level start last i) create.level t := by
    rw [pathTo_congr hblock]
    exact (hpaths _ _ (Nat.le_refl _)).trans hpath
  obtain ⟨⟨w, hw⟩, hcall⟩ := hrule.call _ s' t hblo hbhi hinv hpath'
  rw [hdigit] at hw hcall
  rw [cur_eq, ← hcur]
  rw [hnext, ← hcur]
  have hsame : SamePaths root create.level s'.mem
      (cb t i (4096 * bound create.level create.level start last i) create.level s').1.mem := by
    rw [hw]
    exact SamePaths.write (hrule.wf _ _ hinv).tree hpath' _ _
  exact hcall.and_left hsame

omit hrule in
/-- A round that finds a table goes down to it. -/
theorem visitEntry_table {below : Nat → Nat → Nat → Vm σ → Vm σ × Ret} {i c : Nat}
    (hk : create.level < l + 1) (h : shape.kind (l + 1) (s.mem t i) = .table c) :
    visitEntry cb create below (l + 1) t start last i s =
      below c (partStart l start i) (partLast l start last i) s := by
  obtain ⟨hno, hp, hc⟩ := table_of_kind h
  rw [visitEntry, callsAt_above hk, cur_eq, pdAddr_eq, Nat.one_mul, hno, hp, hc]
  rfl

omit hrule in
/-- A round that finds nothing creates a table and goes down to it. -/
theorem visitEntry_empty {below : Nat → Nat → Nat → Vm σ → Vm σ × Ret} {i : Nat}
    (hcreate : create ≠ .none) (hk : create.level < l + 1)
    (h : shape.kind (l + 1) (s.mem t i) = .empty) :
    visitEntry cb create below (l + 1) t start last i s =
      if (linkTable t i s).2 = .ok then
        below (tableOf ((linkTable t i s).1.mem t i)) (partStart l start i)
          (partLast l start last i)
          (linkTable t i s).1
      else linkTable t i s := by
  obtain ⟨hno, hp⟩ := empty_of_kind h
  rw [visitEntry, callsAt_above hk, cur_eq, pdAddr_eq, Nat.one_mul, hno, hp]
  simp [hcreate, partStart, partLast]

omit hrule in
/-- The walk over the table of an entry takes the loop to the next index. -/
theorem below_round {s' : Vm σ} {i c nStart nLast : Nat} (hk : create.level ≤ l)
    (hle : start % span (l + 2) ≤ last % span (l + 2))
    (hlow : lo ≤ unitOf create.level (start / 4096)) (hhigh : lastPage (l + 1) start last ≤ hi)
    (hlo : pdx (l + 1) start ≤ i) (hhi : i ≤ pdx (l + 1) last)
    (hpart : Part l start last i nStart nLast)
    (hinv : Inv (bound create.level (l + 1) start last i) s')
    (hpath : pathTo s'.mem root (bound create.level (l + 1) start last i) l c)
    (hbelow : WalksUnits cb create root lo hi Inv Stop l) :
    Ends .ok (fun s'' => Inv (bound create.level (l + 1) start last (i + 1)) s'' ∧
      SamePaths root (l + 1) s'.mem s''.mem) Stop (pageWalk cb create l c nStart nLast s') := by
  have hk' : create.level ≤ l + 1 := by omega
  obtain ⟨hbegin, hafter⟩ := bound_below hk' hlo hhi hpart
  obtain ⟨hblo, hbhi, hdiv⟩ := bound_spec hk' hlo hhi hlow hhigh hle
  have hend : lastPage l nStart nLast ≤ lastPage (l + 1) start last := by
    have hpos : 0 < 512 ^ (l + 1) := Nat.pow_pos (by decide)
    have hlast := lastPage_eq (l + 1) start last
    have hupper := hpart.upper
    split at hupper
    · omega
    · have hstep := mul_step (n := 512 ^ (l + 1)) (show i < pdx (l + 1) last by omega)
      omega
  have hblock : bound create.level (l + 1) start last i / 512 ^ (l + 1) =
      nStart / 4096 / 512 ^ (l + 1) := by
    rw [← hbegin, unitOf_div hk']
  have hwalk := hbelow c nStart nLast s' hpart.range (by rw [hbegin]; exact hblo)
    (Nat.le_trans hend hhigh)
    (by rw [hbegin]; exact hinv) ((pathTo_congr hblock).mp hpath)
  refine hwalk.imp ?_ fun r h => h
  rintro s'' ⟨hend, hpaths⟩
  rw [hafter] at hend
  exact ⟨hend, hpaths.mono (Nat.le_succ l)⟩

/-- A round above that level: the table below is there, or is created. -/
theorem CreateRule.table_round {s' : Vm σ} {i : Nat} (hcreate : create ≠ .none)
    (hk : create.level ≤ l)
    (hle : start % span (l + 2) ≤ last % span (l + 2))
    (hlow : lo ≤ unitOf create.level (start / 4096)) (hhigh : lastPage (l + 1) start last ≤ hi)
    (hlo : pdx (l + 1) start ≤ i) (hhi : i ≤ pdx (l + 1) last)
    (hpath : pathTo s.mem root (start / 4096) (l + 1) t)
    (hinv : Inv (bound create.level (l + 1) start last i) s')
    (hpaths : SamePaths root (l + 1) s.mem s'.mem)
    (hbelow : WalksUnits cb create root lo hi Inv Stop l) :
    Ends .ok (fun s'' => Inv (bound create.level (l + 1) start last (i + 1)) s'' ∧
      SamePaths root (l + 1) s'.mem s''.mem) Stop
      (visitEntry cb create (pageWalk cb create l) (l + 1) t start last i s') := by
  have hk' : create.level < l + 1 := by omega
  obtain ⟨hblo, hbhi, hdiv⟩ := bound_spec (Nat.le_of_lt hk') hlo hhi hlow hhigh hle
  obtain ⟨hblock, hdigit⟩ := block_of_entry (Nat.lt_of_le_of_lt hhi (pdx_lt _ _)) hdiv
  have hpath' : pathTo s'.mem root (bound create.level (l + 1) start last i) (l + 1) t := by
    rw [pathTo_congr hblock]
    exact (hpaths _ _ (Nat.le_refl _)).trans hpath
  have hnot := hrule.noLarge _ s' (l + 1) t hblo hbhi hinv hk' hpath'
  rw [hdigit] at hnot
  cases hkind : shape.kind (l + 1) (s'.mem t i) with
  | leaf => exact absurd hkind hnot
  | table c =>
    rw [visitEntry_table hk' hkind]
    refine below_round hk hle hlow hhigh hlo hhi (part_spec hle i) hinv ?_ hbelow
    exact descend_succ (by rw [hdigit]; exact hkind) 3 root hpath'
  | empty =>
    have hlinks := linkTable_links (hrule.wf _ _ hinv) hpath' (by rw [hdigit]; exact hkind)
    have hinv' := hrule.link _ s' l t _ hblo hbhi hinv hk hlinks
    rw [visitEntry_empty hcreate hk' hkind]
    have hwf' := (hrule.wf _ _ hinv).inPool
    rw [hdigit] at hlinks hinv'
    generalize linkTable t i s' = r at *
    cases hlinks with
    | full pool free ref cpu stock path empty => exact hinv'
    | new pool pg free ref cpu stock grows =>
      have hpg := hwf' pg (free.mem_iff.mpr List.mem_cons_self)
      have hentry : tableOf (grow s'.mem t (digit (bound create.level (l + 1) start last i) (l + 1))
          (page2pa pg) (fun _ => 0#64) (tableEntry (page2pa pg)) t i) = page2pa pg := by
        rw [hdigit, grow, write_same, tableOf_tableEntry hpg]
      rw [if_pos rfl, hentry]
      have hround := below_round hk hle hlow hhigh hlo hhi (part_spec hle i) hinv'
        grows.descend_new hbelow
      refine hround.imp ?_ fun r h => h
      rintro s'' ⟨hend, hpaths'⟩
      refine ⟨hend, SamePaths.trans ?_ hpaths'⟩
      exact fun a' stop hstop => grows.descend_low (digit_lt a') hstop

/-- **Rule for walks that create tables.** The walk takes the invariant from
    the first unit of the range to the one after the last. -/
theorem CreateRule.walk (hcreate : create ≠ .none) (l : Nat) (hk : create.level ≤ l) :
    WalksUnits cb create root lo hi Inv Stop l := by
  induction l with
  | zero =>
    intro t start last s hle hlow hhigh hinv hpath
    have hk0 : create.level = 0 := by omega
    rw [pageWalk]
    refine loop_create hle hinv ?_
    intro i s' hlo hhi hinv' hpaths
    have hnormal : create = .normal := by
      cases create <;> simp_all [Create.level]
    rw [visitBottom, if_pos (.inl hnormal)]
    exact hrule.call_round hk0 hle hlow hhigh hlo hhi hpath hinv' hpaths
  | succ l ih =>
    intro t start last s hle hlow hhigh hinv hpath
    rw [pageWalk]
    refine loop_create hle hinv ?_
    intro i s' hlo hhi hinv' hpaths
    by_cases hkl : create.level = l + 1
    · rw [visitEntry, if_pos (callsAt_unit hkl _)]
      exact hrule.call_round hkl hle hlow hhigh hlo hhi hpath hinv' hpaths
    · have hk' : create.level ≤ l := by omega
      exact hrule.table_round hcreate hk' hle hlow hhigh hlo hhi hpath hinv' hpaths (ih hk')

end

/-! ## Ranges in one block -/

theorem span_four : span 4 = 2 ^ 48 := by decide

theorem lastPage_block {start last : Nat} (h : start / 2 ^ 48 = last / 2 ^ 48) :
    lastPage 3 start last = last / 4096 := by
  rw [lastPage, firstPage, span_four, h]
  omega

theorem range_block {start last : Nat} (hle : start ≤ last) (h : start / 2 ^ 48 = last / 2 ^ 48) :
    start % span 4 ≤ last % span 4 := by
  rw [span_four]
  omega

theorem pathTo_root (mem : Mem Word) (root a : Nat) : pathTo mem root a 3 root :=
  descend_here (digit a) 3 root

/-! ## Writes to entries -/

section

variable {σ : Type} {s : Vm σ} {root a b k u : Nat} {w : Word}

theorem div_digit (a n : Nat) : a / 512 ^ n = a / 512 ^ (n + 1) * 512 + digit a n := by
  rw [digit, Nat.pow_succ, ← Nat.div_div_eq_div_mul]
  omega

/-- Two pages are in one block of 2^48 bytes. -/
def SameBlock (a b : Nat) : Prop := a / 2 ^ 36 = b / 2 ^ 36

theorem SameBlock.within {lo hi : Nat} (h : SameBlock lo hi) (hlo : lo ≤ a) (hab : a ≤ b)
    (hhi : b ≤ hi) : SameBlock a b := by
  unfold SameBlock at h ⊢
  have h1 := Nat.div_le_div_right (c := 2 ^ 36) hlo
  have h2 := Nat.div_le_div_right (c := 2 ^ 36) hab
  have h3 := Nat.div_le_div_right (c := 2 ^ 36) hhi
  omega

/-- Pages of one block with the same indices down to level `k` are in one entry. -/
theorem agree_iff (hblock : SameBlock a b) (hk : k ≤ 4) :
    Agree k 3 (digit a) (digit b) ↔ b / 512 ^ k = a / 512 ^ k := by
  constructor
  · intro h
    -- From the block down, one index after another.
    have hdown : ∀ n, n ≤ 4 - k → b / 512 ^ (4 - n) = a / 512 ^ (4 - n) := by
      intro n
      induction n with
      | zero =>
        intro _
        exact hblock.symm
      | succ n ih =>
        intro hn
        have hnext : 4 - n = 4 - (n + 1) + 1 := by omega
        have hup := ih (by omega)
        rw [hnext] at hup
        rw [div_digit b, div_digit a, hup, h (4 - (n + 1)) (by omega) (by omega)]
    have hlast := hdown (4 - k) (Nat.le_refl _)
    rwa [show 4 - (4 - k) = k by omega] at hlast
  · intro h j hj _
    exact digit_congr h hj

/-- A leaf, or nothing, in the place of an entry keeps the table well formed. -/
theorem WellFormed.write (hwf : WellFormed root s) (hpath : pathTo s.mem root a k u)
    (hkind : ∀ c, shape.kind k w ≠ .table c) :
    WellFormed root { s with mem := Radix.write s.mem u (digit a k) w } := by
  have hcount : ∀ x, count shape (Radix.write s.mem u (digit a k) w) x 3 root ≤
      count shape s.mem x 3 root := by
    intro x
    have hw := weight_write (fun t => if t = x then 1 else 0) (fun _ => 0) (digit_lt a) w 3 root
      hpath hwf.tree
    have hzero : entryWeight shape (Radix.write s.mem u (digit a k) w)
        (fun t => if t = x then 1 else 0) (fun _ => 0) k w = 0 := by
      cases hw : shape.kind k w with
      | empty => exact entryWeight_empty hw
      | leaf => exact entryWeight_leaf hw
      | table c => exact absurd hw (hkind c)
    rw [hzero] at hw
    unfold count
    omega
  refine ⟨fun x => Nat.le_trans (hcount x) (hwf.tree x), ?_, hwf.nodup, hwf.inPool⟩
  intro pg hpg
  have hle := hcount (page2pa pg)
  rw [hwf.apart pg hpg] at hle
  exact Nat.le_zero.mp hle

/-- What an entry that is no table maps: a zero entry maps nothing. -/
def leafWord (k : Nat) (w : Word) : Option (Nat × Word) :=
  if shape.kind k w = .leaf then some (k, w) else none

theorem entryLeaf_eq_leafWord {mem : Mem Word} {idx : Nat → Nat}
    (hkind : ∀ c, shape.kind k w ≠ .table c) : entryLeaf shape mem idx k w = leafWord k w := by
  unfold leafWord
  cases hw : shape.kind k w with
  | empty => exact entryLeaf_empty hw
  | leaf => exact entryLeaf_leaf hw
  | table c => exact absurd hw (hkind c)

/-- Pages of the entry are mapped by the new word. -/
theorem leafOf_write_same (hwf : WellFormed root s) (hpath : pathTo s.mem root a k u) (hk : k ≤ 3)
    (hkind : ∀ c, shape.kind k w ≠ .table c) (hblock : SameBlock a b)
    (h : b / 512 ^ k = a / 512 ^ k) :
    leafOf (write s.mem u (digit a k) w) root b = leafWord k w := by
  have hagree := (agree_iff hblock (Nat.le_succ_of_le hk)).mpr h
  exact (leafAt_write_agree (digit_lt a) w 3 root hpath hwf.tree hagree).trans
    (entryLeaf_eq_leafWord hkind)

/-- Other pages are mapped as before. -/
theorem leafOf_write_ne (hwf : WellFormed root s) (hpath : pathTo s.mem root a k u) (hk : k ≤ 3)
    (hblock : SameBlock a b) (h : b / 512 ^ k ≠ a / 512 ^ k) :
    leafOf (write s.mem u (digit a k) w) root b = leafOf s.mem root b := by
  have hagree := mt (agree_iff hblock (Nat.le_succ_of_le hk)).mp h
  exact leafAt_write_ne (digit_lt a) (digit_lt b) w 3 root hpath hwf.tree hagree

/-- A leaf on the way to a page is the leaf of the page. -/
theorem leafOf_of_path (hpath : pathTo s.mem root a k u)
    (hkind : shape.kind k (s.mem u (digit a k)) = .leaf) :
    leafOf s.mem root a = some (k, s.mem u (digit a k)) :=
  (leafAt_descend 3 root hpath).trans (entryLeaf_leaf hkind)

/-- All pages of a unit have the same leaf. -/
theorem leafOf_unit {mem : Mem Word} (h : leafOf mem root a = some (k, w))
    (hab : b / 512 ^ k = a / 512 ^ k) : leafOf mem root b = some (k, w) :=
  leafAt_agree 3 root h fun _ hj _ => digit_congr hab hj

end

end Dune
