import Libdbos.Kern.EptFault

/-! # Invalidation of a Range

    `ept_mmu_notifier_invalidate_range_start` clears the entries of a range
    of host addresses. It goes on by a page at a time, and by 2 MB after a
    large leaf, from wherever in the leaf it was.

    What one round can do is `Visits`. The rounds of a scan keep `Scanned`:
    translations are only lost, and through leaves that the scan has visited.
    A step from the middle of a large leaf leads over its end (`Oversteps`); as
    long as it leads into the next large leaf, so do the steps from there
    (`Jumps`). The range is cleared exactly if the leaf to which each of them
    leads is the only one that has been stepped over (`CatchesUp`).
-/

namespace Ept

open Radix

variable {vm : Vm} {s s' : State} {gpa gpa' start fin h h' : Word} {k l dir : Nat} {e : Epte}

/-! ## The addresses of an entry -/

theorem SameEntry.symm (hsame : SameEntry k gpa gpa') : SameEntry k gpa' gpa :=
  fun j hj hj' => (hsame j hj hj').symm

theorem sameEntry_zero (hsame : SameEntry 0 gpa gpa') (k : Nat) : SameEntry k gpa gpa' :=
  fun j _ hj => hsame j (Nat.zero_le j) hj

/-- The addresses of a block lead to the same entry. -/
theorem sameEntry_of_div (hdiv : gpa'.toNat / blockSize k = gpa.toNat / blockSize k) :
    SameEntry k gpa gpa' := by
  intro j hj _
  have hsplit : 2 ^ (12 + 9 * j) = blockSize k * 2 ^ (9 * (j - k)) := by
    rw [blockSize, ← Nat.pow_add]
    congr 1
    omega
  rw [addrToIdx_eq, addrToIdx_eq, hsplit, ← Nat.div_div_eq_div_mul, ← Nat.div_div_eq_div_mul, hdiv]

/-- Of an address, the EPT reads the lower 48 bits. -/
theorem div_of_sameEntry (hsame : SameEntry k gpa gpa') (hk : k ≤ 2) :
    gpa'.toNat % 2 ^ 48 / blockSize k = gpa.toNat % 2 ^ 48 / blockSize k := by
  have h3 := hsame 3 (by omega) (by omega)
  have h2 := hsame 2 (by omega) (by omega)
  rw [addrToIdx_eq, addrToIdx_eq] at h3 h2
  have hcases : k = 0 ∨ k = 1 ∨ k = 2 := by omega
  unfold blockSize
  rcases hcases with rfl | rfl | rfl
  · have h1 := hsame 1 (by omega) (by omega)
    have h0 := hsame 0 (by omega) (by omega)
    rw [addrToIdx_eq, addrToIdx_eq] at h1 h0
    omega
  · have h1 := hsame 1 (by omega) (by omega)
    rw [addrToIdx_eq, addrToIdx_eq] at h1
    omega
  · omega

/-- Accepted host addresses lead to the same entry if they are in one block. -/
theorem sameEntry_iff (hok : hvaToGpa vm.mm h ≠ addrInval) (hok' : hvaToGpa vm.mm h' ≠ addrInval)
    (hk : k ≤ 2) : SameEntry k (hvaToGpa vm.mm h) (hvaToGpa vm.mm h') ↔
      h'.toNat / blockSize k = h.toNat / blockSize k := by
  constructor
  · intro hsame
    exact hvaToGpa_block_conv vm.layout hok hok' hk (div_of_sameEntry hsame hk)
  · intro hdiv
    exact sameEntry_of_div (hvaToGpa_block vm.layout hok hok' hk hdiv)

theorem blockSize_zero : blockSize 0 = 4096 := rfl

/-- The end of the block in which an address is. -/
def blockEnd (k : Nat) (h : Word) : Nat := (h.toNat / blockSize k + 1) * blockSize k

theorem blockSize_pos (k : Nat) : 0 < blockSize k := Nat.two_pow_pos _

theorem div_eq_of_lt_blockEnd (hle : h.toNat ≤ h'.toNat) (hlt : h'.toNat < blockEnd k h) :
    h'.toNat / blockSize k = h.toNat / blockSize k := by
  have hge := Nat.div_le_div_right (c := blockSize k) hle
  have hlt' := (Nat.div_lt_iff_lt_mul (blockSize_pos k)).2 hlt
  omega

theorem lt_blockEnd (k : Nat) (h : Word) : h.toNat < blockEnd k h := by
  have hmod := Nat.mod_lt h.toNat (blockSize_pos k)
  have hsplit := Nat.div_add_mod h.toNat (blockSize k)
  rw [blockEnd, Nat.add_mul, Nat.one_mul, Nat.mul_comm]
  omega

/-- Blocks of large leaves are made of 2 MB blocks. -/
theorem blockSize_large (hk : k ≠ 0) : ∃ n, 0 < n ∧ blockSize k = 2 ^ 21 * n := by
  refine ⟨2 ^ (9 * (k - 1)), Nat.two_pow_pos _, ?_⟩
  rw [blockSize, ← Nat.pow_add]
  congr 1
  omega

theorem div_large (hk : k ≠ 0) (hdiv : h'.toNat / 2 ^ 21 = h.toNat / 2 ^ 21) :
    h'.toNat / blockSize k = h.toNat / blockSize k := by
  obtain ⟨n, _, hsize⟩ := blockSize_large hk
  rw [hsize, ← Nat.div_div_eq_div_mul, ← Nat.div_div_eq_div_mul, hdiv]

/-- From the beginning of a 2 MB block, 2 MB do not lead out of a large leaf. -/
theorem le_blockEnd (hk : k ≠ 0) (hmod : h.toNat % 2 ^ 21 = 0) :
    h.toNat + 2 ^ 21 ≤ blockEnd k h := by
  obtain ⟨n, hn, hsize⟩ := blockSize_large hk
  have hlt := lt_blockEnd k h
  have hend : blockEnd k h = 2 ^ 21 * (n * (h.toNat / blockSize k + 1)) := by
    rw [blockEnd, Nat.mul_comm, hsize, Nat.mul_assoc]
  rw [hend] at hlt ⊢
  generalize n * (h.toNat / blockSize k + 1) = m at hlt ⊢
  omega

theorem blockEnd_mod (hk : k ≠ 0) (h : Word) : blockEnd k h % 2 ^ 21 = 0 := by
  obtain ⟨n, _, hsize⟩ := blockSize_large hk
  rw [blockEnd, hsize, Nat.mul_comm, Nat.mul_assoc]
  exact Nat.mul_mod_right _ _

/-- A step of 2 MB that does not lead over `b` ends before it, or there. -/
theorem jump_cases {pos next fin b : Nat} (hmin : min (pos + 2 ^ 21) fin ≤ b)
    (hnext : next = pos + 2 ^ 21) : next < b ∨ fin ≤ next ∨ next = b := by
  omega

/-! ## Leaves -/

theorem leaf_kind (hleaf : s.leaf gpa = some (k, e)) : k ≤ 2 ∧ eptKind k e = .leaf := by
  have hkind : eptKind k e = .leaf := leafAt_kind 3 s.root hleaf
  have hle := leafAt_level 3 s.root hleaf
  refine ⟨?_, hkind⟩
  by_contra hk
  obtain rfl : k = 3 := by omega
  unfold eptKind at hkind
  split at hkind
  · cases hkind
  · simp at hkind

theorem leaf_agree (hleaf : s.leaf gpa = some (k, e)) (hsame : SameEntry k gpa gpa') :
    s.leaf gpa' = some (k, e) :=
  leafAt_agree 3 s.root hleaf hsame

/-- The addresses of a page have the same leaf. -/
theorem leaf_page (hsame : SameEntry 0 gpa gpa') : s.leaf gpa' = s.leaf gpa := by
  cases hleaf : s.leaf gpa with
  | some x => exact leaf_agree hleaf (sameEntry_zero hsame x.1)
  | none =>
    cases hleaf' : s.leaf gpa' with
    | none => rfl
    | some x =>
      rw [leaf_agree hleaf' (sameEntry_zero hsame.symm x.1)] at hleaf
      cases hleaf

theorem present_of_leaf (hkind : eptKind k e = .leaf) : eptePresent e = true := by
  unfold eptKind at hkind
  cases hp : eptePresent e with
  | true => rfl
  | false =>
    rw [hp] at hkind
    cases hkind

/-- Large leaves are those that say so. -/
theorem WellFormed.big_iff (hwf : WellFormed s) (hleaf : s.leaf gpa = some (k, e)) :
    epteBig e = true ↔ k ≠ 0 := by
  constructor
  · rintro hbig rfl
    rw [hwf.small gpa e hleaf] at hbig
    cases hbig
  · intro hk
    have hkind := (leaf_kind hleaf).2
    have hpresent := present_of_leaf hkind
    unfold eptKind at hkind
    rw [hpresent] at hkind
    simp only [Bool.not_true, Bool.false_eq_true, if_false] at hkind
    split at hkind
    · rename_i hor
      rcases hor with hzero | ⟨_, hbig⟩
      · exact absurd hzero hk
      · exact hbig
    · cases hkind

/-! ## One round -/

/-- What a round of the scan can do. -/
inductive Visits (vm : Vm) (c c' : Scan) : Prop where
  | leaf (k : Nat) (e : Epte) (loc : Loc) (hok : hvaToGpa vm.mm c.pos ≠ addrInval)
      (hleaf : c.state.leaf (hvaToGpa vm.mm c.pos) = some (k, e))
      (hclear : Clears c.state c'.state (hvaToGpa vm.mm c.pos) k loc)
      (hpos : c'.pos = c.pos + if k = 0 then pageSize else hugePageSize)
  | nothing (hnone : hvaToGpa vm.mm c.pos ≠ addrInval →
        c.state.leaf (hvaToGpa vm.mm c.pos) = none)
      (hstate : c'.state = c.state) (hpos : c'.pos = c.pos + pageSize)

theorem scanFound_error (vm : Vm) (c : Scan) (err : Errno) : scanFound vm c (.error err) =
    { c with pos := c.pos + pageSize, count := c.count + 1 } :=
  rfl

theorem scanFound_ok (vm : Vm) (c : Scan) (loc : Loc) : scanFound vm c (.ok loc) =
    { state := (eptClearEpte c.state loc).2
      pos := c.pos + (if epteBig (c.state.entry loc) then hugePageSize else pageSize)
      gpa := hvaToGpa vm.mm c.pos
      syncNeeded := if c.state.entry loc = epteNone then false else true
      count := c.count + 1 } :=
  rfl

theorem scanStep_visits {c : Scan} (hwf : WellFormed c.state) : Visits vm c (scanStep vm c) := by
  unfold scanStep
  cases hlookup : eptLookup vm c.state c.pos 0 with
  | error err =>
    rw [scanFound_error]
    refine .nothing ?_ rfl rfl
    intro hok
    simp only [eptLookup, if_neg hok] at hlookup
    exact ((lookup_false hwf _ 0).2 err hlookup).2
  | ok loc =>
    rw [scanFound_ok]
    have hok : hvaToGpa vm.mm c.pos ≠ addrInval := by
      intro hbad
      simp only [eptLookup, if_pos hbad] at hlookup
      cases hlookup
    simp only [eptLookup, if_neg hok] at hlookup
    obtain ⟨k, hfound⟩ := (lookup_ok hwf _ (Nat.zero_le 3) false (fresh_nil _)).2 loc hlookup
    rw [(lookup_false hwf _ 0).1] at hfound
    rcases hfound.leaf with ⟨hpresent, hleaf, hkind⟩ | ⟨hpresent, hleaf, rfl⟩
    · have hne := ne_none_of_present hpresent
      refine .leaf k _ loc hok hleaf (clearEpte_clears hwf hfound.place hfound.idx hkind hne) ?_
      show c.pos + _ = c.pos + _
      by_cases hk : k = 0
      · rw [if_pos hk, if_neg (fun hbig => (hwf.big_iff hleaf).1 hbig hk)]
      · rw [if_neg hk, if_pos ((hwf.big_iff hleaf).2 hk)]
    · have hnone : c.state.entry loc = epteNone :=
        hwf.vacant _ _ hfound.place.occurs.1 hpresent
      rw [hnone]
      refine .nothing (fun _ => hleaf) ?_ rfl
      simp only [eptClearEpte, if_pos hnone]

/-- Rounds keep what each of them keeps, until the end is reached. -/
theorem scanLoop_rule {P : Scan → Prop}
    (hstep : ∀ c, P c → c.pos < fin →
      P (scanStep vm c) ∧ c.pos.toNat + 4096 ≤ (scanStep vm c).pos.toNat) :
    ∀ n c, P c → fin.toNat ≤ c.pos.toNat + 4096 * n →
      P (scanLoop vm fin n c) ∧ fin.toNat ≤ (scanLoop vm fin n c).pos.toNat := by
  intro n
  induction n with
  | zero =>
    intro c hc hfuel
    exact ⟨hc, hfuel⟩
  | succ n ih =>
    intro c hc hfuel
    unfold scanLoop
    split
    · rename_i hlt
      obtain ⟨hc', hpos⟩ := hstep c hc hlt
      exact ih _ hc' (by omega)
    · rename_i hlt
      exact ⟨hc, by simpa [BitVec.lt_def] using hlt⟩

theorem scanLoop_done {c : Scan} (h : ¬ c.pos < fin) (n : Nat) : scanLoop vm fin n c = c := by
  cases n with
  | zero => rfl
  | succ n => exact if_neg h

/-! ## Scans -/

/-- What has been lost in a scan from `start` on that is at `c`. -/
structure Scanned (vm : Vm) (s : State) (start : Word) (c : Scan) : Prop where
  wf : WellFormed c.state
  le : start.toNat ≤ c.pos.toNat
  grid : (c.pos.toNat - start.toNat) % 4096 = 0
  lost : ∀ g, c.state.leaf g = s.leaf g ∨ (c.state.leaf g = none ∧
    ∃ h k e, start.toNat ≤ h.toNat ∧ h.toNat < c.pos.toNat ∧ hvaToGpa vm.mm h ≠ addrInval ∧
      s.leaf (hvaToGpa vm.mm h) = some (k, e) ∧ SameEntry k (hvaToGpa vm.mm h) g)

theorem toNat_add_pageSize {pos : Word} (h : pos.toNat < 2 ^ 64 - 4096) :
    (pos + pageSize).toNat = pos.toNat + 4096 := by
  unfold pageSize
  bv_omega

theorem toNat_add_hugePageSize {pos : Word} (h : pos.toNat < 2 ^ 47) :
    (pos + hugePageSize).toNat = pos.toNat + 2 ^ 21 := by
  unfold hugePageSize
  bv_omega

/-- Where a round of the scan goes to. -/
theorem Visits.pos {c c' : Scan} (hv : Visits vm c c') (hlt : c.pos < fin)
    (hfin : fin.toNat ≤ 2 ^ 64 - 4096) :
    c'.pos.toNat = c.pos.toNat + 4096 ∨
      (c'.pos.toNat = c.pos.toNat + 2 ^ 21 ∧ hvaToGpa vm.mm c.pos ≠ addrInval ∧
        ∃ k e, c.state.leaf (hvaToGpa vm.mm c.pos) = some (k, e) ∧ k ≠ 0) := by
  have hlt' : c.pos.toNat < 2 ^ 64 - 4096 := by
    have : c.pos.toNat < fin.toNat := hlt
    omega
  cases hv with
  | leaf k e loc hok hleaf hclear hpos =>
    rw [hpos]
    by_cases hk : k = 0
    · rw [if_pos hk]
      exact .inl (toNat_add_pageSize hlt')
    · rw [if_neg hk]
      exact .inr ⟨toNat_add_hugePageSize (lt_of_accepts vm.layout hok), hok, k, e, hleaf, hk⟩
  | nothing hnone hstate hpos =>
    rw [hpos]
    exact .inl (toNat_add_pageSize hlt')

/-- Translations are only lost. -/
theorem Scanned.leaf {c : Scan} (hc : Scanned vm s start c)
    (hleaf : c.state.leaf gpa = some (k, e)) : s.leaf gpa = some (k, e) := by
  rcases hc.lost gpa with hsame | ⟨hnone, _⟩
  · rw [← hsame]
    exact hleaf
  · rw [hnone] at hleaf
    cases hleaf

/-- A round that changes no state. -/
theorem Scanned.skip {c c' : Scan} (hc : Scanned vm s start c) (hstate : c'.state = c.state)
    (hpos : c'.pos.toNat = c.pos.toNat + 4096) : Scanned vm s start c' := by
  have hle := hc.le
  have hgrid := hc.grid
  refine ⟨?_, by omega, by omega, ?_⟩
  · rw [hstate]
    exact hc.wf
  · intro g
    rw [hstate]
    rcases hc.lost g with hsame | ⟨hnone, h, k, e, hle, hlt, hrest⟩
    · exact .inl hsame
    · exact .inr ⟨hnone, h, k, e, hle, by omega, hrest⟩

theorem Scanned.step {c c' : Scan} (hc : Scanned vm s start c) (hv : Visits vm c c')
    (hlt : c.pos < fin) (hfin : fin.toNat ≤ 2 ^ 64 - 4096) :
    Scanned vm s start c' ∧ c.pos.toNat + 4096 ≤ c'.pos.toNat := by
  have hle := hc.le
  have hgrid := hc.grid
  have hpos' : c.pos.toNat + 4096 ≤ c'.pos.toNat ∧
      (c'.pos.toNat - start.toNat) % 4096 = 0 := by
    rcases hv.pos hlt hfin with hnext | ⟨hnext, _⟩
    · omega
    · omega
  refine ⟨?_, hpos'.1⟩
  have hlt' : c.pos.toNat < 2 ^ 64 - 4096 := by
    have : c.pos.toNat < fin.toNat := hlt
    omega
  cases hv with
  | leaf k e loc hok hleaf hclear hpos =>
    refine ⟨hclear.wf, by omega, hpos'.2, ?_⟩
    intro g
    by_cases hsame : SameEntry k (hvaToGpa vm.mm c.pos) g
    · exact .inr ⟨hclear.same g hsame, c.pos, k, e, hle, by omega, hok, hc.leaf hleaf, hsame⟩
    · rw [hclear.other g hsame]
      rcases hc.lost g with hg | ⟨hnone, h, k, e, hge, hlt, hrest⟩
      · exact .inl hg
      · exact .inr ⟨hnone, h, k, e, hge, by omega, hrest⟩
  | nothing hnone hstate hpos =>
    refine hc.skip hstate ?_
    rw [hpos]
    exact toNat_add_pageSize hlt'

theorem scanned_start (hwf : WellFormed s) : Scanned vm s start ⟨s, start, 0#64, false, 0⟩ :=
  ⟨hwf, Nat.le_refl _, by simp, fun _ => .inl rfl⟩

/-- The rounds that a scan has are enough. -/
theorem scanRange_rule {P : Scan → Prop} (hwf : WellFormed s) (hfin : fin.toNat ≤ 2 ^ 64 - 4096)
    (hstart : P ⟨s, start, 0#64, false, 0⟩)
    (hstep : ∀ c, Scanned vm s start c → P c → c.pos < fin → P (scanStep vm c)) :
    Scanned vm s start (scanRange vm s start fin) ∧ P (scanRange vm s start fin) ∧
      fin.toNat ≤ (scanRange vm s start fin).pos.toNat := by
  have hrun := @scanLoop_rule vm fin (fun c => Scanned vm s start c ∧ P c) ?_
    ((fin.toNat - start.toNat + 4095) / 4096) ⟨s, start, 0#64, false, 0⟩
    ⟨scanned_start hwf, hstart⟩ ?_
  · exact ⟨hrun.1.1, hrun.1.2, hrun.2⟩
  · rintro c ⟨hc, hp⟩ hlt
    obtain ⟨hc', hpos⟩ := hc.step (scanStep_visits hc.wf) hlt hfin
    exact ⟨⟨hc', hstep c hc hp hlt⟩, hpos⟩
  · simp only
    omega

/-! ## Clearing the range -/

/-- The step that the scan takes from `pos` does not lead over the end of a
    large leaf into the rest of the range. -/
def stepsInside (vm : Vm) (s : State) (pos fin : Word) : Bool :=
  match s.leaf (hvaToGpa vm.mm pos) with
  | some (k, _) => decide (hvaToGpa vm.mm pos ≠ addrInval → k ≠ 0 →
      min (pos.toNat + 2 ^ 21) fin.toNat ≤ blockEnd k pos)
  | none => true

theorem stepsInside_iff {pos : Word} : stepsInside vm s pos fin = true ↔
    ∀ k e, s.leaf (hvaToGpa vm.mm pos) = some (k, e) → hvaToGpa vm.mm pos ≠ addrInval → k ≠ 0 →
      min (pos.toNat + 2 ^ 21) fin.toNat ≤ blockEnd k pos := by
  unfold stepsInside
  cases hleaf : s.leaf (hvaToGpa vm.mm pos) with
  | none => simp
  | some x =>
    rw [decide_eq_true_iff]
    constructor
    · rintro hin k e heq hok hk
      cases heq
      exact hin hok hk
    · intro hin
      exact hin x.1 x.2 rfl

/-- From `pos`, in a large leaf of level `k`, the scan steps over the end of the leaf into the
    rest of the range. -/
def Oversteps (vm : Vm) (s : State) (fin pos : Word) (k : Nat) : Prop :=
  hvaToGpa vm.mm pos ≠ addrInval ∧ (∃ e, s.leaf (hvaToGpa vm.mm pos) = some (k, e)) ∧ k ≠ 0 ∧
    blockEnd k pos < min (pos.toNat + 2 ^ 21) fin.toNat

/-- The addresses to which steps of that kind alone lead. -/
inductive Jumps (vm : Vm) (s : State) (start fin : Word) : Word → Prop where
  | start : Jumps vm s start fin start
  | step {pos : Word} {k : Nat} : Jumps vm s start fin pos → Oversteps vm s fin pos k →
      Jumps vm s start fin (pos + hugePageSize)

/-- A leaf that has been stepped over is the one at which the scan goes on. -/
def CatchesUp (vm : Vm) (s : State) (start fin : Word) : Prop :=
  ∀ pos k h, Jumps vm s start fin pos → Oversteps vm s fin pos k → blockEnd k pos ≤ h.toNat →
    h.toNat < pos.toNat + 2 ^ 21 → h.toNat < fin.toNat → hvaToGpa vm.mm h ≠ addrInval →
    ∀ l e, s.leaf (hvaToGpa vm.mm h) = some (l, e) →
      (pos + hugePageSize).toNat < fin.toNat ∧ hvaToGpa vm.mm (pos + hugePageSize) ≠ addrInval ∧
        SameEntry l (hvaToGpa vm.mm (pos + hugePageSize)) (hvaToGpa vm.mm h)

theorem catchesUp_of_inside (hinside : stepsInside vm s start fin = true) :
    CatchesUp vm s start fin := by
  have hnot {k : Nat} : ¬ Oversteps vm s fin start k := by
    rintro ⟨hok, ⟨e, hleaf⟩, hk, hend⟩
    exact absurd (stepsInside_iff.1 hinside k e hleaf hok hk) (Nat.not_le.2 hend)
  have hstart {pos : Word} (hjumps : Jumps vm s start fin pos) : pos = start := by
    induction hjumps with
    | start => rfl
    | step _ hover ih => exact absurd (ih ▸ hover) hnot
  intro pos k h hjumps hover
  rw [hstart hjumps] at hover
  exact absurd hover hnot

/-- Up to `c.pos` the range is clear, but for the leaf that is there. -/
structure Swept (vm : Vm) (s : State) (start fin : Word) (c : Scan) : Prop where
  clear : ∀ h, start.toNat ≤ h.toNat → h.toNat < c.pos.toNat → h.toNat < fin.toNat →
    hvaToGpa vm.mm h ≠ addrInval → ∀ l e, c.state.leaf (hvaToGpa vm.mm h) = some (l, e) →
      c.pos.toNat < fin.toNat ∧ hvaToGpa vm.mm c.pos ≠ addrInval ∧
        SameEntry l (hvaToGpa vm.mm c.pos) (hvaToGpa vm.mm h)
  inside : stepsInside vm c.state c.pos fin = true ∨ Jumps vm s start fin c.pos

theorem accepts_of_div (hok : hvaToGpa vm.mm h ≠ addrInval)
    (hdiv : h'.toNat / 2 ^ 21 = h.toNat / 2 ^ 21) : hvaToGpa vm.mm h' ≠ addrInval := by
  refine hvaToGpa_accepts vm.layout hok ?_
  omega

/-- After a page that is not mapped, no large leaf is entered but at its
    beginning. -/
theorem stepsInside_next {pos : Word} (hpos : h.toNat = pos.toNat + 4096)
    (haligned : pos.toNat % 4096 = 0)
    (hnone : hvaToGpa vm.mm pos ≠ addrInval → s.leaf (hvaToGpa vm.mm pos) = none) :
    stepsInside vm s h fin = true := by
  refine stepsInside_iff.2 ?_
  intro k e hleaf hok hk
  by_cases hmod : h.toNat % 2 ^ 21 = 0
  · have := le_blockEnd hk hmod
    omega
  · have hdiv : pos.toNat / 2 ^ 21 = h.toNat / 2 ^ 21 := by omega
    have hok' := accepts_of_div hok hdiv
    have hsame := (sameEntry_iff hok hok' (leaf_kind hleaf).1).2 (div_large hk hdiv)
    have hold := hnone hok'
    rw [leaf_agree hleaf hsame] at hold
    cases hold

/-- A round that finds nothing leaves nothing behind. -/
theorem Swept.skip {c c' : Scan} (hc : Swept vm s start fin c) (haligned : c.pos.toNat % 4096 = 0)
    (hnone : hvaToGpa vm.mm c.pos ≠ addrInval → c.state.leaf (hvaToGpa vm.mm c.pos) = none)
    (hstate : c'.state = c.state) (hpos : c'.pos.toNat = c.pos.toNat + 4096) :
    Swept vm s start fin c' := by
  rw [← hstate] at hnone
  refine ⟨fun h hge hlt hfin hok l e hleaf => ?_, .inl (stepsInside_next hpos haligned hnone)⟩
  rw [hstate] at hnone hleaf
  by_cases hold : h.toNat < c.pos.toNat
  · obtain ⟨_, hokpos, hsame⟩ := hc.clear h hge hold hfin hok l e hleaf
    rw [leaf_agree hleaf hsame.symm] at hnone
    cases hnone hokpos
  · have hokpos := @accepts_of_div vm _ c.pos hok (by omega)
    have hsame := (sameEntry_iff hokpos hok (Nat.zero_le 2)).2 (by rw [blockSize_zero]; omega)
    rw [leaf_page hsame, hnone hokpos] at hleaf
    cases hleaf

theorem Swept.step {c c' : Scan} (hs : Scanned vm s start c) (hc : Swept vm s start fin c)
    (hv : Visits vm c c') (hcatch : CatchesUp vm s start fin) (hstart : start.toNat % 4096 = 0)
    (hlt : c.pos < fin) (hfin : fin.toNat ≤ 2 ^ 64 - 4096) : Swept vm s start fin c' := by
  have haligned : c.pos.toNat % 4096 = 0 := by
    have := hs.grid
    have := hs.le
    omega
  have hlt' : c.pos.toNat < 2 ^ 64 - 4096 := by
    have : c.pos.toNat < fin.toNat := hlt
    omega
  cases hv with
  | nothing hnone hstate hpos =>
    refine hc.skip haligned hnone hstate ?_
    rw [hpos]
    exact toNat_add_pageSize hlt'
  | leaf k e loc hok hleaf hclear hpos =>
    have hk2 := (leaf_kind hleaf).1
    -- What is still mapped was mapped before, through another leaf than this one.
    have hother {g : Word} {l : Nat} {e' : Epte} (hg : c'.state.leaf g = some (l, e')) :
        ¬ SameEntry k (hvaToGpa vm.mm c.pos) g ∧ c.state.leaf g = some (l, e') := by
      have hnot : ¬ SameEntry k (hvaToGpa vm.mm c.pos) g := by
        intro hsame
        rw [hclear.same g hsame] at hg
        cases hg
      exact ⟨hnot, (hclear.other g hnot).symm.trans hg⟩
    have hbefore {h : Word} {l : Nat} {e' : Epte} (hge : start.toNat ≤ h.toNat)
        (hfin : h.toNat < fin.toNat) (hokh : hvaToGpa vm.mm h ≠ addrInval)
        (hh : c'.state.leaf (hvaToGpa vm.mm h) = some (l, e')) : blockEnd k c.pos ≤ h.toNat := by
      obtain ⟨hnot, hh⟩ := hother hh
      by_cases hold : h.toNat < c.pos.toNat
      · obtain ⟨_, _, hsame⟩ := hc.clear h hge hold hfin hokh l e' hh
        rw [leaf_agree hh hsame.symm] at hleaf
        obtain ⟨rfl, rfl⟩ := Prod.mk.inj (Option.some.inj hleaf)
        exact absurd hsame hnot
      · by_contra hend
        exact hnot ((sameEntry_iff hok hokh hk2).2
          (div_eq_of_lt_blockEnd (Nat.not_lt.1 hold) (Nat.not_le.1 hend)))
    by_cases hk : k = 0
    · subst hk
      have hnext : c'.pos.toNat = c.pos.toNat + 4096 := by
        rw [hpos, if_pos rfl]
        exact toNat_add_pageSize hlt'
      refine ⟨fun h hge hlt hfin hokh l e' hh => ?_, .inl (stepsInside_next hnext haligned ?_)⟩
      · have hend := hbefore hge hfin hokh hh
        rw [blockEnd, blockSize_zero] at hend
        omega
      · exact fun _ => hclear.same _ (sameEntry_refl 0 _)
    · rw [if_neg hk] at hpos
      have hnext : c'.pos.toNat = c.pos.toNat + 2 ^ 21 := by
        rw [hpos]
        exact toNat_add_hugePageSize (lt_of_accepts vm.layout hok)
      by_cases hend : blockEnd k c.pos < min (c.pos.toNat + 2 ^ 21) fin.toNat
      · -- The step leads over the end of the leaf.
        have hjumps : Jumps vm s start fin c.pos := hc.inside.resolve_left fun hinside =>
          absurd (stepsInside_iff.1 hinside k e hleaf hok hk) (Nat.not_le.2 hend)
        have hover : Oversteps vm s fin c.pos k := ⟨hok, ⟨e, hs.leaf hleaf⟩, hk, hend⟩
        refine ⟨fun h hge hlt hfin hokh l e' hh => ?_, .inr ?_⟩
        · rw [hpos]
          exact hcatch c.pos k h hjumps hover (hbefore hge hfin hokh hh) (by omega) hfin hokh l e'
            (hs.leaf (hother hh).2)
        · rw [hpos]
          exact hjumps.step hover
      · rw [Nat.not_lt] at hend
        refine ⟨fun h hge hlt hfin hokh l e' hh => ?_, .inl (stepsInside_iff.2 ?_)⟩
        · have := hbefore hge hfin hokh hh
          omega
        · intro k' e' hleaf' hok' hk'
          rcases jump_cases hend hnext with hin | hdone | hout
          · have hdiv := div_eq_of_lt_blockEnd (k := k) (h := c.pos) (by omega) hin
            have hsame := (sameEntry_iff hok hok' hk2).2 hdiv
            rw [hclear.same _ hsame] at hleaf'
            cases hleaf'
          · exact Nat.le_trans (Nat.min_le_right _ _)
              (Nat.le_trans hdone (lt_blockEnd k' c'.pos).le)
          · have hmod := blockEnd_mod hk c.pos
            rw [← hout] at hmod
            exact Nat.le_trans (Nat.min_le_left _ _) (le_blockEnd hk' hmod)

theorem invalidate_fst :
    (invalidateRangeStart vm s start fin).1 = (scanRange vm s start fin).state :=
  rfl

/-- A range is invalidated, where it can be translated. Nothing else changes than that
    translations are lost. -/
theorem invalidate_ok (hwf : WellFormed s) (hfin : fin.toNat ≤ 2 ^ 64 - 4096)
    (hstart : start.toNat % 4096 = 0) (hcatch : CatchesUp vm s start fin) :
    Scanned vm s start (scanRange vm s start fin) ∧
    ∀ h, start.toNat ≤ h.toNat → h.toNat < fin.toNat → hvaToGpa vm.mm h ≠ addrInval →
      (invalidateRangeStart vm s start fin).1.leaf (hvaToGpa vm.mm h) = none := by
  obtain ⟨hscan, hswept, hend⟩ := scanRange_rule (P := Swept vm s start fin) hwf hfin
    ⟨fun h hge hlt => by simp only at hlt; omega, .inr .start⟩
    fun c hs hc hlt => hc.step hs (scanStep_visits hs.wf) hcatch hstart hlt hfin
  refine ⟨hscan, ?_⟩
  intro h hge hlt hok
  rw [invalidate_fst, Option.eq_none_iff_forall_ne_some]
  rintro ⟨l, e⟩ hleaf
  have := (hswept.clear h hge (Nat.lt_of_lt_of_le hlt hend) hlt hok l e hleaf).1
  omega

/-! ## What stays mapped -/

/-- A step over the end of a leaf changes nothing behind that end. -/
theorem Oversteps.scanStep {c : Scan} (hover : Oversteps vm s fin c.pos k)
    (hwf : WellFormed c.state)
    (hsame : ∀ h : Word, c.pos.toNat ≤ h.toNat → hvaToGpa vm.mm h ≠ addrInval →
      c.state.leaf (hvaToGpa vm.mm h) = s.leaf (hvaToGpa vm.mm h)) :
    (Ept.scanStep vm c).pos = c.pos + hugePageSize ∧
    ∀ h : Word, blockEnd k c.pos ≤ h.toNat → hvaToGpa vm.mm h ≠ addrInval →
      (Ept.scanStep vm c).state.leaf (hvaToGpa vm.mm h) = s.leaf (hvaToGpa vm.mm h) := by
  obtain ⟨hok, ⟨e, hleaf⟩, hk, _⟩ := hover
  rw [← hsame _ (Nat.le_refl _) hok] at hleaf
  have hlt := lt_blockEnd k c.pos
  cases @scanStep_visits vm c hwf with
  | nothing hnone _ _ =>
    rw [hnone hok] at hleaf
    cases hleaf
  | leaf k' e' loc _ hleaf' hclear hpos =>
    rw [hleaf] at hleaf'
    obtain ⟨rfl, rfl⟩ := Prod.mk.inj (Option.some.inj hleaf')
    rw [if_neg hk] at hpos
    refine ⟨hpos, fun h hge hokh => ?_⟩
    rw [hclear.other, hsame h (by omega) hokh]
    intro hentry
    have hdiv := (sameEntry_iff hok hokh (leaf_kind hleaf).1).1 hentry
    have hend := lt_blockEnd k h
    rw [blockEnd, hdiv] at hend
    exact absurd hge (Nat.not_le.2 hend)

/-- The scan comes to where steps of that kind lead, and all from there on is as it was. -/
theorem Jumps.run {pos : Word} (hjumps : Jumps vm s start fin pos) (hwf : WellFormed s)
    (hfin : fin.toNat ≤ 2 ^ 64 - 4096) :
    ∃ n c, scanRange vm s start fin = scanLoop vm fin n c ∧ c.pos = pos ∧
      Scanned vm s start c ∧ fin.toNat ≤ pos.toNat + 4096 * n ∧
      ∀ h : Word, pos.toNat ≤ h.toNat → hvaToGpa vm.mm h ≠ addrInval →
        c.state.leaf (hvaToGpa vm.mm h) = s.leaf (hvaToGpa vm.mm h) := by
  induction hjumps with
  | start => exact ⟨_, _, rfl, rfl, scanned_start hwf, by omega, fun _ _ _ => rfl⟩
  | @step pos k _ hover ih =>
    obtain ⟨n, c, hrun, rfl, hs, hfuel, hsame⟩ := ih
    obtain ⟨hpos, hkept⟩ := hover.scanStep hs.wf hsame
    obtain ⟨hok, _, _, hend⟩ := hover
    have hin := lt_blockEnd k c.pos
    have hnext := toNat_add_hugePageSize (lt_of_accepts vm.layout hok)
    have hlt : c.pos < fin := by
      show c.pos.toNat < fin.toNat
      omega
    obtain ⟨n, rfl⟩ : ∃ m, n = m + 1 := ⟨n - 1, by omega⟩
    refine ⟨n, scanStep vm c, hrun.trans (if_pos hlt), hpos,
      (hs.step (scanStep_visits hs.wf) hlt hfin).1, by omega, fun h hge hokh => ?_⟩
    exact hkept h (by omega) hokh

/-- A leaf that was stepped over is still there, unless the scan meets it again. -/
theorem catchesUp_of_unmaps (hwf : WellFormed s) (hfin : fin.toNat ≤ 2 ^ 64 - 4096)
    (hrange : ∀ h : Word, start ≤ h → h < fin → hvaToGpa vm.mm h ≠ addrInval)
    (hclear : ∀ h : Word, start ≤ h → h < fin →
      (invalidateRangeStart vm s start fin).1.leaf (hvaToGpa vm.mm h) = none) :
    CatchesUp vm s start fin := by
  intro pos k h hjumps hover hge hlt hltfin hokh l e hleaf
  obtain ⟨n, c, hrun, rfl, hs, hfuel, hsame⟩ := hjumps.run hwf hfin
  obtain ⟨hpos, hkept⟩ := hover.scanStep hs.wf hsame
  obtain ⟨hok, _, _, hend⟩ := hover
  have hin := lt_blockEnd k c.pos
  have hle := hs.le
  have hnext := toNat_add_hugePageSize (lt_of_accepts vm.layout hok)
  have hposlt : c.pos < fin := by
    show c.pos.toNat < fin.toNat
    omega
  obtain ⟨n, rfl⟩ : ∃ m, n = m + 1 := ⟨n - 1, by omega⟩
  have hrun : scanRange vm s start fin = scanLoop vm fin n (scanStep vm c) :=
    hrun.trans (if_pos hposlt)
  have hwf' := (hs.step (scanStep_visits hs.wf) hposlt hfin).1.wf
  have hleaf' := (hkept h hge hokh).trans hleaf
  have hnone := hclear h (show start.toNat ≤ h.toNat by omega) hltfin
  rw [invalidate_fst, hrun] at hnone
  rw [← hpos] at hnext ⊢
  generalize scanStep vm c = c' at hnext hnone hwf' hleaf'
  -- The range does not end before the scan can come back to the leaf.
  have hlt' : c'.pos.toNat < fin.toNat := by
    by_contra hdone
    rw [scanLoop_done hdone, hleaf'] at hnone
    cases hnone
  have hok' := hrange c'.pos (show start.toNat ≤ c'.pos.toNat by omega) hlt'
  refine ⟨hlt', hok', ?_⟩
  obtain ⟨hscan, _⟩ := @scanLoop_rule vm fin (Scanned vm c'.state c'.pos)
    (fun c hc hlt => hc.step (scanStep_visits hc.wf) hlt hfin) n c'
    ⟨hwf', Nat.le_refl _, by simp, fun _ => .inl rfl⟩ (by omega)
  rcases hscan.lost (hvaToGpa vm.mm h) with hkeep | ⟨_, q, k', e', hq, _, hokq, hleafq, hentry⟩
  · rw [hnone, hleaf'] at hkeep
    cases hkeep
  · rw [leaf_agree hleafq hentry] at hleaf'
    obtain ⟨rfl, rfl⟩ := Prod.mk.inj (Option.some.inj hleaf')
    have hk := (leaf_kind hleafq).1
    have hdiv := (sameEntry_iff hokq hokh hk).1 hentry
    have hdiv1 := Nat.div_le_div_right (c := blockSize k') hq
    have hdiv2 := @Nat.div_le_div_right h.toNat c'.pos.toNat (blockSize k') (by omega)
    exact (sameEntry_iff hok' hokh hk).2 (by omega)

/-- **No mapping survives an invalidation** of a range of pages that can be translated,
    exactly if the scan catches up on what it steps over. -/
theorem invalidate_unmaps (hwf : WellFormed s) (hstart : start.toNat % 4096 = 0)
    (hrange : ∀ h : Word, start ≤ h → h < fin → hvaToGpa vm.mm h ≠ addrInval) :
    (∀ h : Word, start ≤ h → h < fin →
      (invalidateRangeStart vm s start fin).1.leaf (hvaToGpa vm.mm h) = none) ↔
    CatchesUp vm s start fin := by
  by_cases hlt : start < fin
  · have hfin : fin.toNat ≤ 2 ^ 64 - 4096 := by
      have hlast : start ≤ fin - 1#64 ∧ fin - 1#64 < fin ∧ (fin - 1#64).toNat = fin.toNat - 1 := by
        bv_omega
      have := lt_of_accepts vm.layout (hrange _ hlast.1 hlast.2.1)
      omega
    refine ⟨catchesUp_of_unmaps hwf hfin hrange, fun hcatch h hge hlt => ?_⟩
    exact (invalidate_ok hwf hfin hstart hcatch).2 h hge hlt (hrange h hge hlt)
  · -- An empty range: there is nothing to step into.
    have hle : fin.toNat ≤ start.toNat := Nat.not_lt.1 hlt
    refine iff_of_true (fun h hge hlt' => absurd (Nat.lt_of_le_of_lt hge hlt') hlt)
      (catchesUp_of_inside (stepsInside_iff.2 fun k _ _ _ _ => ?_))
    exact (Nat.min_le_right _ _).trans (hle.trans (lt_blockEnd k start).le)

/-- A page on its own, next to the block of a large page. -/
def afterBoth : State :=
  (eptSetEpte vm46 afterLarge false 0x200000#64 (hostPage smallPage) [3]).2

theorem wellFormed_afterBoth : WellFormed afterBoth := by
  have hw : leafWrite vm46 false 0x200000#64 (hostPage smallPage) = .ok true := rfl
  unfold afterBoth
  rw [eptSetEpte_page hw rfl]
  exact (installPage_ok (wellFormed_afterLarge.getPage _) ⟨by decide, by decide +kernel⟩
    (by decide +kernel) (by decide +kernel)).wf

theorem accepts_low (h : Word) (hlt : h.toNat < 2 ^ 30) : hvaToGpa vm46.mm h ≠ addrInval := by
  refine hvaToGpa_accepts layout46 (h := 0#64) (by decide) ?_
  show h.toNat / 2 ^ 30 = 0
  omega

/-- A range that begins where the large page begins. -/
theorem invalidate_unmaps_aligned :
    (invalidateRangeStart vm46 afterBoth 0#64 0x202000#64).1.leaf
      (hvaToGpa vm46.mm 0x200000#64) = none := by
  refine (invalidate_unmaps wellFormed_afterBoth (by decide) ?_).2
    (catchesUp_of_inside (by decide +kernel)) _ (by decide) (by decide)
  intro h _ hlt
  have hlt' : h.toNat < 0x202000 := hlt
  exact accepts_low h (by omega)

/-- **A mapping survives**: a range that begins in the middle of a large page.
    From there the scan goes on by 2 MB, and has passed the next page. -/
theorem mapping_survives :
    WellFormed afterBoth ∧
    (∀ h : Word, 0x3000#64 ≤ h → h < 0x202000#64 → hvaToGpa vm46.mm h ≠ addrInval) ∧
    (invalidateRangeStart vm46 afterBoth 0x3000#64 0x202000#64).1.leaf
      (hvaToGpa vm46.mm 0x200000#64) ≠ none := by
  refine ⟨wellFormed_afterBoth, ?_, by decide +kernel⟩
  intro h _ hlt
  have hlt' : h.toNat < 0x202000 := hlt
  exact accepts_low h (by omega)

/-- One page on its own at `gpa`. -/
def afterSmall (gpa : Word) : State :=
  (eptSetEpte vm46 (vmxInitEpt 0) false gpa (hostPage smallPage) [1, 2, 3]).2

theorem wellFormed_afterSmall : WellFormed (afterSmall 0x3000#64) := by
  have hw : leafWrite vm46 false 0x3000#64 (hostPage smallPage) = .ok true := rfl
  unfold afterSmall
  rw [eptSetEpte_page hw rfl]
  exact (installPage_ok ((wellFormed_init 0).getPage _) ⟨by decide, by decide⟩ (by decide +kernel)
    (by decide +kernel)).wf

end Ept
