import Libdbos.Framework.System
import Libdbos.Kern.EptInvalidate

/-! # Faults and Host Mappings

    Processors fault while the host changes its mappings. A fault of
    `ept_set_epte` gets the page of a host address from the host, and then
    installs a leaf for it; nothing keeps the host from changing the mapping
    in between. A change of the host first calls
    `ept_mmu_notifier_invalidate_range_start` for its range.

    A leaf that is installed for a page which was invalidated meanwhile stays
    (`stale_leaf`). Runs in which no fault is between its two steps when its
    addresses are invalidated, or begins before the host has changed them,
    keep every leaf to what the host maps (`leaves_coherent`).
-/

namespace Ept

open LTS Radix

/-! ## The machine -/

/-- A fault that has got its page. -/
structure Fault where
  gpa : Word
  hva : Word
  makeWrite : Bool
  page : HostPage
  deriving DecidableEq

structure Machine where
  ept : State
  /-- What backs a page of host addresses. -/
  host : Nat → Option HostPage
  faults : List Fault
  /-- The ranges that have been invalidated, but not changed yet. -/
  remaps : List (Word × Word)

inductive Label where
  /-- A fault in an area `vma` gets its page. -/
  | getPage (gpa : Word) (makeWrite : Bool) (vma : Option Vma)
  /-- A fault installs its leaf; the allocator has pages `free`. -/
  | install (f : Fault) (free : List Nat)
  | invalidate (start fin : Word)
  /-- The pages of an invalidated range are mapped to `new`. -/
  | change (start fin : Word) (new : Nat → Option HostPage)

/-- A fault has the page, if there is one. -/
def Machine.hold (s : Machine) (gpa hva : Word) :
    Except Errno Bool → Option HostPage → Option Machine
  | .ok w, some page =>
      some { s with ept := s.ept.getPage page.pfn, faults := ⟨gpa, hva, w, page⟩ :: s.faults }
  | _, _ => none

/-- Ranges of the host are made of user pages. -/
def isRange (start fin : Word) : Bool :=
  decide (start.toNat % 4096 = 0) && decide (fin.toNat % 4096 = 0) && decide (fin.toNat ≤ 2 ^ 47)

def inRange (start fin : Word) (n : Nat) : Bool :=
  decide (start.toNat ≤ n * 4096) && decide (n * 4096 < fin.toNat)

def step (vm : Vm) (s : Machine) : Label → Option Machine
  | .getPage gpa makeWrite vma =>
      let hva := gpaToHva vm.mm gpa
      let page := s.host (hva.toNat / 4096)
      if hva = addrInval then none
      else s.hold gpa hva
        (leafWrite vm makeWrite gpa ⟨vma, fun _ => page, fun _ => .error .host⟩) page
  | .install f free =>
      if f ∈ s.faults ∧ isFresh s.ept free = true then
        some { s with
          ept := (installPage vm s.ept f.makeWrite f.gpa f.page free).2
          faults := s.faults.erase f }
      else none
  | .invalidate start fin =>
      if isRange start fin then
        some { s with
          ept := (invalidateRangeStart vm s.ept start fin).1
          remaps := (start, fin) :: s.remaps }
      else none
  | .change start fin new =>
      if (start, fin) ∈ s.remaps then
        some { s with
          host := fun n => if inRange start fin n then new n else s.host n
          remaps := s.remaps.erase (start, fin) }
      else none

/-- There is an empty EPT, and whatever the host maps. -/
def Init (s : Machine) : Prop :=
  ∃ root, s.ept = vmxInitEpt root ∧ s.faults = [] ∧ s.remaps = []

def system (vm : Vm) : System Machine Label where
  init := Init
  step := step vm

/-! ## The condition -/

/-- The block of a page of level `k` at `hva` and a range have addresses in
    common. -/
def meets (k : Nat) (hva : Word) (r : Word × Word) : Bool :=
  decide (hva.toNat / blockSize k * blockSize k < r.2.toNat) && decide (r.1.toNat < blockEnd k hva)

/-- The page that a compound page has for address `h`. -/
def HostPage.pageAt (page : HostPage) (h : Nat) : Nat :=
  if page.level ≠ 0 then page.head + h / 4096 % 512 ^ page.level else page.pfn

/-- The host maps the compound page of `page` as a whole around `hva`. -/
def mapsWhole (host : Nat → Option HostPage) (hva : Word) (page : HostPage) : Bool :=
  (List.range (512 ^ page.level)).all fun i =>
    let n := hva.toNat / blockSize page.level * 512 ^ page.level + i
    (host n).map HostPage.pfn = some (page.pageAt (n * 4096))

/-- A fault that begins here is at the guest-physical address of its host
    address, the host maps its page as a whole, and is not about to change
    that. -/
def getsWhole (vm : Vm) (s : Machine) (gpa : Word) : Option HostPage → Bool
  | none => true
  | some page =>
      let hva := gpaToHva vm.mm gpa
      decide (hvaToGpa vm.mm hva = gpa) && mapsWhole s.host hva page &&
        s.remaps.all fun r => !meets page.level hva r

/-- The condition on runs: an invalidation meets no fault that has got its
    page, and steps over the end of no large leaf; a leaf is installed where
    no larger one is. -/
def undisturbed (vm : Vm) (s : Machine) : Label → Bool
  | .getPage gpa _ _ => getsWhole vm s gpa (s.host ((gpaToHva vm.mm gpa).toNat / 4096))
  | .install f _ => fits s.ept f.gpa f.page.level
  | .invalidate start fin =>
      stepsInside vm s.ept start fin && s.faults.all fun f => !meets f.page.level f.hva (start, fin)
  | .change _ _ _ => true

/-! ## The invariant -/

/-- All of the block of `hva` is backed by what `page` gives it. -/
def Backs (host : Nat → Option HostPage) (k : Nat) (hva : Word) (pfn : Nat → Nat) : Prop :=
  ∀ h : Word, h.toNat / blockSize k = hva.toNat / blockSize k →
    (host (h.toNat / 4096)).map HostPage.pfn = some (pfn h.toNat)

/-- The page to which a leaf takes address `h`. -/
def leafPfn (k : Nat) (e : Epte) (h : Nat) : Nat := e.page / 512 ^ k * 512 ^ k + h / 4096 % 512 ^ k

structure Coherent (vm : Vm) (s : Machine) : Prop where
  wf : WellFormed s.ept
  /-- A leaf is that of a block of host addresses, and backs it as the host does. -/
  leaves : ∀ g k e, s.ept.leaf g = some (k, e) → ∃ hva, hvaToGpa vm.mm hva ≠ addrInval ∧
    SameEntry k (hvaToGpa vm.mm hva) g ∧ Backs s.host k hva (leafPfn k e)
  faults : ∀ f ∈ s.faults, hvaToGpa vm.mm f.hva ≠ addrInval ∧ hvaToGpa vm.mm f.hva = f.gpa ∧
    Backs s.host f.page.level f.hva f.page.pageAt
  /-- What has been invalidated stays so until it is changed. -/
  clear : ∀ r ∈ s.remaps, ∀ h : Word, r.1.toNat ≤ h.toNat → h.toNat < r.2.toNat →
    hvaToGpa vm.mm h ≠ addrInval → s.ept.leaf (hvaToGpa vm.mm h) = none
  apart : ∀ r ∈ s.remaps, ∀ f ∈ s.faults, meets f.page.level f.hva r = false

variable {vm : Vm} {s s' : Machine} {start fin hva h : Word} {k : Nat} {e : Epte} {page : HostPage}

theorem blockSize_eq (k : Nat) : blockSize k = 4096 * 512 ^ k := by
  rw [blockSize, Nat.pow_add, show 512 = 2 ^ 9 from rfl, ← Nat.pow_mul]

/-- What is in a range and in a block is where they meet. -/
theorem meets_of_mem {r : Word × Word} (hdiv : h.toNat / blockSize k = hva.toNat / blockSize k)
    (hge : r.1.toNat ≤ h.toNat) (hlt : h.toNat < r.2.toNat) : meets k hva r = true := by
  have hlow := Nat.div_mul_le_self h.toNat (blockSize k)
  have hhigh := lt_blockEnd k h
  unfold blockEnd at hhigh
  rw [hdiv] at hlow hhigh
  unfold meets blockEnd
  rw [decide_eq_true (Nat.lt_of_le_of_lt hlow hlt), decide_eq_true (Nat.lt_of_le_of_lt hge hhigh)]
  rfl

/-- The first address of a page. -/
def pageBase (h : Word) : Word := BitVec.ofNat 64 (h.toNat / 4096 * 4096)

theorem pageBase_toNat (h : Word) : (pageBase h).toNat = h.toNat / 4096 * 4096 := by
  have := h.isLt
  rw [pageBase, BitVec.toNat_ofNat]
  omega

theorem pageBase_div (h : Word) (k : Nat) :
    (pageBase h).toNat / blockSize k = h.toNat / blockSize k := by
  rw [pageBase_toNat, blockSize_eq, ← Nat.div_div_eq_div_mul, ← Nat.div_div_eq_div_mul,
    Nat.mul_div_cancel _ (by decide)]

/-- Blocks of leaves are in one gigabyte. -/
theorem accepts_of_block (hok : hvaToGpa vm.mm hva ≠ addrInval) (hk : k ≤ 2)
    (hdiv : h.toNat / blockSize k = hva.toNat / blockSize k) : hvaToGpa vm.mm h ≠ addrInval := by
  refine hvaToGpa_accepts vm.layout hok ?_
  have hsplit : 2 ^ 30 = blockSize k * 2 ^ (9 * (2 - k)) := by
    rw [blockSize, ← Nat.pow_add]
    congr 1
    omega
  rw [hsplit, ← Nat.div_div_eq_div_mul, ← Nat.div_div_eq_div_mul, hdiv]

theorem SameEntry.trans {gpa gpa' gpa'' : Word} (h : SameEntry k gpa gpa')
    (h' : SameEntry k gpa' gpa'') : SameEntry k gpa gpa'' :=
  fun j hj hj' => (h' j hj hj').trans (h j hj hj')

/-- A change of a range where a block has no address. -/
theorem Backs.change {host new : Nat → Option HostPage} {pfn : Nat → Nat}
    (hbacks : Backs host k hva pfn)
    (hout : ∀ h : Word, h.toNat / blockSize k = hva.toNat / blockSize k →
      start.toNat ≤ h.toNat → h.toNat < fin.toNat → False) :
    Backs (fun n => if inRange start fin n then new n else host n) k hva pfn := by
  intro h hdiv
  have hnot : inRange start fin (h.toNat / 4096) = false := by
    by_contra hin
    rw [Bool.not_eq_false, inRange, Bool.and_eq_true, decide_eq_true_eq, decide_eq_true_eq,
      ← pageBase_toNat] at hin
    exact hout (pageBase h) ((pageBase_div h k).trans hdiv) hin.1 hin.2
  simp only [hnot, Bool.false_eq_true, if_false]
  exact hbacks h hdiv

/-! ## Steps -/

/-- Translations are only lost in `t`. -/
def Loses (s t : State) : Prop := ∀ g, t.leaf g = s.leaf g ∨ t.leaf g = none

/-- Losing translations disturbs nothing. -/
theorem Coherent.loses {t : State} (hs : Coherent vm s) (hwf : WellFormed t) (ht : Loses s.ept t) :
    Coherent vm { s with ept := t } := by
  refine ⟨hwf, ?_, hs.faults, ?_, hs.apart⟩
  · intro g k e hleaf
    rcases ht g with hsame | hnone
    · rw [hsame] at hleaf
      exact hs.leaves g k e hleaf
    · rw [hnone] at hleaf
      cases hleaf
  · intro r hr h hge hlt hok
    rcases ht (hvaToGpa vm.mm h) with hsame | hnone
    · rw [hsame]
      exact hs.clear r hr h hge hlt hok
    · exact hnone

/-- A fault is done with. -/
theorem Coherent.erase (hs : Coherent vm s) (f : Fault) :
    Coherent vm { s with faults := s.faults.erase f } :=
  ⟨hs.wf, hs.leaves, fun f' hf' => hs.faults f' (List.mem_of_mem_erase hf'), hs.clear,
    fun r hr f' hf' => hs.apart r hr f' (List.mem_of_mem_erase hf')⟩

theorem backs_of_mapsWhole {host : Nat → Option HostPage}
    (h : mapsWhole host hva page = true) : Backs host page.level hva page.pageAt := by
  intro h' hdiv
  have hpos : 0 < 512 ^ page.level := Nat.pow_pos (by decide)
  have hn : hva.toNat / blockSize page.level * 512 ^ page.level +
      h'.toNat / 4096 % 512 ^ page.level = h'.toNat / 4096 := by
    rw [← hdiv, blockSize_eq, ← Nat.div_div_eq_div_mul, Nat.mul_comm]
    exact Nat.div_add_mod _ _
  have hone := List.all_eq_true.1 h (h'.toNat / 4096 % 512 ^ page.level)
    (List.mem_range.2 (Nat.mod_lt _ hpos))
  simp only [hn] at hone
  have hpage := of_decide_eq_true hone
  rw [hpage, HostPage.pageAt, HostPage.pageAt, Nat.mul_div_cancel _ (by decide)]

theorem hold_eq {gpa : Word} {w : Except Errno Bool} {page : Option HostPage}
    (h : s.hold gpa hva w page = some s') : ∃ b p, page = some p ∧
      s' = { s with ept := s.ept.getPage p.pfn, faults := ⟨gpa, hva, b, p⟩ :: s.faults } := by
  unfold Machine.hold at h
  split at h
  · cases h
    exact ⟨_, _, rfl, rfl⟩
  · cases h

theorem step_getPage {gpa : Word} {makeWrite : Bool} {vma : Option Vma} (hs : Coherent vm s)
    (hok : undisturbed vm s (.getPage gpa makeWrite vma) = true)
    (hstep : step vm s (.getPage gpa makeWrite vma) = some s') : Coherent vm s' := by
  simp only [step] at hstep
  split at hstep
  · cases hstep
  · rename_i hne
    obtain ⟨b, p, hpage, rfl⟩ := hold_eq hstep
    simp only [undisturbed, hpage, getsWhole, Bool.and_eq_true, decide_eq_true_eq,
      List.all_eq_true, Bool.not_eq_true'] at hok
    obtain ⟨⟨htrip, hwhole⟩, hremaps⟩ := hok
    refine ⟨hs.wf.getPage _, hs.leaves, ?_, hs.clear, ?_⟩
    · intro f hf
      rcases List.mem_cons.1 hf with rfl | hf
      · refine ⟨?_, htrip, backs_of_mapsWhole hwhole⟩
        -- Guest-physical addresses that are taken for a host address are valid.
        show hvaToGpa vm.mm (gpaToHva vm.mm gpa) ≠ addrInval
        rw [htrip]
        rintro rfl
        exact hne (gpaToHva_inval vm.layout)
      · exact hs.faults f hf
    · intro r hr f hf
      rcases List.mem_cons.1 hf with rfl | hf
      · exact hremaps r hr
      · exact hs.apart r hr f hf

/-- A leaf is installed as the host maps the block. -/
theorem Coherent.installs {t : State} {f : Fault} {d : Nat → Int} (hs : Coherent vm s)
    (hf : f ∈ s.faults)
    (ht : Installs s.ept t f.gpa f.page.level (leafEntry vm f.makeWrite f.page) d) :
    Coherent vm { s with ept := t } := by
  obtain ⟨hok, hgpa, hbacks⟩ := hs.faults f hf
  refine ⟨ht.wf, ?_, hs.faults, ?_, hs.apart⟩
  · intro g k e hleaf
    by_cases hsame : SameEntry f.page.level f.gpa g
    · rw [ht.same g hsame] at hleaf
      cases hleaf
      refine ⟨f.hva, hok, ?_, ?_⟩
      · rw [hgpa]
        exact hsame
      · intro h hdiv
        rw [hbacks h hdiv, HostPage.pageAt]
        exact congrArg some (@leafPage_leafEntry vm _ f.makeWrite h).symm
    · rw [ht.other g hsame] at hleaf
      exact hs.leaves g k e hleaf
  · intro r hr h hge hlt hokh
    by_cases hsame : SameEntry f.page.level f.gpa (hvaToGpa vm.mm h)
    · rw [← hgpa, sameEntry_iff hok hokh (level_le f.page)] at hsame
      have hapart := hs.apart r hr f hf
      rw [meets_of_mem hsame hge hlt] at hapart
      cases hapart
    · rw [ht.other _ hsame]
      exact hs.clear r hr h hge hlt hokh

theorem step_install {f : Fault} {free : List Nat} (hs : Coherent vm s)
    (hok : undisturbed vm s (.install f free) = true)
    (hstep : step vm s (.install f free) = some s') : Coherent vm s' := by
  simp only [step] at hstep
  split at hstep
  · rename_i hguard
    cases hstep
    have hfresh := fresh_of_isFresh hguard.2
    cases hres : (installPage vm s.ept f.makeWrite f.gpa f.page free).1 with
    | ok u =>
      have hin := installPage_ok hs.wf hfresh hok hres
      exact (hs.installs hguard.1 hin).erase f
    | error err =>
      obtain ⟨s1, hext, hs1⟩ := installPage_error hs.wf hfresh hres
      rw [hs1]
      have hwf1 := hext.wf
      have hwf : WellFormed (s1.putPage f.page.pfn) :=
        ⟨hwf1.tree, hwf1.tables, hwf1.top, hwf1.small, hwf1.vacant⟩
      exact (hs.loses hwf fun g => .inl (hext.leaf g)).erase f
  · cases hstep

theorem step_invalidate (hs : Coherent vm s) (hok : undisturbed vm s (.invalidate start fin) = true)
    (hstep : step vm s (.invalidate start fin) = some s') : Coherent vm s' := by
  simp only [step] at hstep
  split at hstep
  · rename_i hrange
    cases hstep
    simp only [isRange, Bool.and_eq_true, decide_eq_true_eq] at hrange
    obtain ⟨⟨hstart, _⟩, hfin⟩ := hrange
    simp only [undisturbed, Bool.and_eq_true, List.all_eq_true, Bool.not_eq_true'] at hok
    obtain ⟨hinside, hfaults⟩ := hok
    have hfin' : fin.toNat ≤ 2 ^ 64 - 4096 := by omega
    obtain ⟨hscan, hclear⟩ := invalidate_ok hs.wf hfin' hstart (catchesUp_of_inside hinside)
    have hwf : WellFormed (invalidateRangeStart vm s.ept start fin).1 := hscan.wf
    have hloses : Loses s.ept (invalidateRangeStart vm s.ept start fin).1 := by
      intro g
      rw [invalidate_fst]
      rcases hscan.lost g with hsame | ⟨hnone, _⟩
      · exact .inl hsame
      · exact .inr hnone
    have hold := hs.loses hwf hloses
    refine ⟨hold.wf, hold.leaves, hold.faults, ?_, ?_⟩
    · intro r hr
      rcases List.mem_cons.1 hr with rfl | hr
      · exact hclear
      · exact hold.clear r hr
    · intro r hr f hf
      rcases List.mem_cons.1 hr with rfl | hr
      · exact hfaults f hf
      · exact hold.apart r hr f hf
  · cases hstep

theorem step_change {new : Nat → Option HostPage} (hs : Coherent vm s)
    (hstep : step vm s (.change start fin new) = some s') : Coherent vm s' := by
  simp only [step] at hstep
  split at hstep
  · rename_i hr
    cases hstep
    refine ⟨hs.wf, ?_, ?_, ?_, ?_⟩
    · intro g k e hleaf
      obtain ⟨hva, hok, hsame, hbacks⟩ := hs.leaves g k e hleaf
      have hk := (leaf_kind hleaf).1
      refine ⟨hva, hok, hsame, hbacks.change ?_⟩
      -- An address of the range has no leaf, but this one has.
      intro h hdiv hge hlt
      have hokh := accepts_of_block hok hk hdiv
      have hentry := hsame.symm.trans ((sameEntry_iff hok hokh hk).2 hdiv)
      have hnone := hs.clear (start, fin) hr h hge hlt hokh
      rw [leaf_agree hleaf hentry] at hnone
      cases hnone
    · intro f hf
      obtain ⟨hok, hgpa, hbacks⟩ := hs.faults f hf
      refine ⟨hok, hgpa, hbacks.change ?_⟩
      intro h hdiv hge hlt
      have hapart := hs.apart (start, fin) hr f hf
      rw [meets_of_mem hdiv hge hlt] at hapart
      cases hapart
    · intro r hr'
      exact hs.clear r (List.mem_of_mem_erase hr')
    · intro r hr'
      exact hs.apart r (List.mem_of_mem_erase hr')
  · cases hstep

theorem coherent_init (hinit : Init s) : Coherent vm s := by
  obtain ⟨root, hept, hfaults, hremaps⟩ := hinit
  refine ⟨?_, ?_, ?_, ?_, ?_⟩
  · rw [hept]
    exact wellFormed_init root
  · intro g k e hleaf
    rw [hept, State.leaf, leafAt_empty (addrToIdx g) 3 rfl] at hleaf
    cases hleaf
  · rw [hfaults]
    exact fun f hf => absurd hf List.not_mem_nil
  · rw [hremaps]
    exact fun r hr => absurd hr List.not_mem_nil
  · rw [hremaps]
    exact fun r hr => absurd hr List.not_mem_nil

theorem coherent (h : (system vm).RunsTo (fun s l => undisturbed vm s l = true) s) :
    Coherent vm s := by
  refine System.invariant_when (fun _ => coherent_init) ?_ h
  intro s l s' hs hok hstep
  cases l with
  | getPage gpa makeWrite vma => exact step_getPage hs hok hstep
  | install f free => exact step_install hs hok hstep
  | invalidate start fin => exact step_invalidate hs hok hstep
  | change start fin new => exact step_change hs hstep

/-- Addresses of a block have the same place in it on both sides. -/
theorem leafPage_hvaToGpa (hok : hvaToGpa vm.mm h ≠ addrInval) (hk : k ≤ 2) (e : Epte) :
    leafPage k e (hvaToGpa vm.mm h) = leafPfn k e h.toNat := by
  have hmod := hvaToGpa_mod vm.layout hok
  have hcases : k = 0 ∨ k = 1 ∨ k = 2 := by omega
  have hplace : (hvaToGpa vm.mm h).toNat / 4096 % 512 ^ k = h.toNat / 4096 % 512 ^ k := by
    change (hvaToGpa vm.mm h).toNat % 2 ^ 30 = h.toNat % 2 ^ 30 at hmod
    generalize (hvaToGpa vm.mm h).toNat = g at hmod ⊢
    rcases hcases with rfl | rfl | rfl <;> omega
  rw [leafPage, leafPfn, hplace]

/-- **Leaves are what the host maps**: in every run that meets the condition,
    each leaf is that of a block of host addresses, and takes each of them to
    the page that backs it now. -/
theorem leaves_coherent (h : (system vm).RunsTo (fun s l => undisturbed vm s l = true) s)
    {g : Word} (hleaf : s.ept.leaf g = some (k, e)) :
    ∃ hva, hvaToGpa vm.mm hva ≠ addrInval ∧ SameEntry k (hvaToGpa vm.mm hva) g ∧
      ∀ h : Word, h.toNat / blockSize k = hva.toNat / blockSize k →
        s.ept.translate (hvaToGpa vm.mm h) = (s.host (h.toNat / 4096)).map HostPage.pfn := by
  obtain ⟨hva, hok, hsame, hbacks⟩ := (coherent h).leaves g k e hleaf
  refine ⟨hva, hok, hsame, ?_⟩
  intro h hdiv
  have hk := (leaf_kind hleaf).1
  have hokh := accepts_of_block hok hk hdiv
  have hentry := hsame.symm.trans ((sameEntry_iff hok hokh hk).2 hdiv)
  rw [State.translate, leaf_agree hleaf hentry, hbacks h hdiv, Option.map_some,
    leafPage_hvaToGpa hokh hk]

/-! ## Runs -/

/-- The host maps one page, and then another one, at address `0x3000`. -/
def hostOf (page : HostPage) (n : Nat) : Option HostPage := if n = 3 then some page else none

def machine (page : HostPage) : Machine := ⟨vmxInitEpt 0, hostOf page, [], []⟩

def otherPage : HostPage := { smallPage with head := 8, aligned := by decide }

def smallFault : Fault := ⟨0x3000#64, 0x3000#64, true, smallPage⟩

def anonymous : Option Vma := some ⟨true, false, .wb⟩

/-- A fault, a change of its page, and another fault. -/
theorem leaves_coherent_changed :
    ∃ s, (system vm46).RunsTo (fun s l => undisturbed vm46 s l = true) s ∧
      s.ept.translate (hvaToGpa vm46.mm 0x3000#64) = some 8 ∧
      ∀ k e, s.ept.leaf 0x3000#64 = some (k, e) → ∃ hva,
        hvaToGpa vm46.mm hva ≠ addrInval ∧ SameEntry k (hvaToGpa vm46.mm hva) 0x3000#64 ∧
        ∀ h : Word, h.toNat / blockSize k = hva.toNat / blockSize k →
          s.ept.translate (hvaToGpa vm46.mm h) = (s.host (h.toNat / 4096)).map HostPage.pfn := by
  obtain ⟨s, hrun, htest⟩ := (system vm46).exists_runsTo (undisturbed vm46)
    (s := machine smallPage) ⟨0, rfl, rfl, rfl⟩
    [.getPage 0x3000#64 false anonymous, .install smallFault [1, 2, 3],
      .invalidate 0x3000#64 0x4000#64, .change 0x3000#64 0x4000#64 (hostOf otherPage),
      .getPage 0x3000#64 false anonymous, .install ⟨0x3000#64, 0x3000#64, true, otherPage⟩ []]
    (fun s => s.ept.translate (hvaToGpa vm46.mm 0x3000#64) = some 8) (by decide +kernel)
  exact ⟨s, hrun, htest, fun k e hleaf => leaves_coherent hrun hleaf⟩

/-- **A stale leaf**: the page is invalidated and changed after a fault has
    got it, and before the fault installs it. -/
theorem stale_leaf :
    ∃ s, (system vm46).exec (machine smallPage)
        [.getPage 0x3000#64 false anonymous, .invalidate 0x3000#64 0x4000#64,
          .change 0x3000#64 0x4000#64 (hostOf otherPage), .install smallFault [1, 2, 3]] = some s ∧
      decide (s.faults = [] ∧ s.remaps = [] ∧
        s.ept.translate (hvaToGpa vm46.mm 0x3000#64) = some 7 ∧
        (s.ept.leaf 0x3000#64).any (fun x => !x.2.has eptePfnmap) = true ∧
        (s.host 3).map HostPage.pfn = some 8) = true :=
  (system vm46).exists_exec (machine smallPage) _ _ (by decide +kernel)

end Ept
