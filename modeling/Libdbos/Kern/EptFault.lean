import Libdbos.Kern.EptTables

/-! # The EPT Fault

    A fault for which the host has a page puts a leaf where the lookup ends
    (`installPage_at`): on the level that the order of the compound page asks
    for, or at a larger leaf (`endLevel`). A page on its own that is put in the
    place of a larger leaf becomes a table (`installPage_table`), and a leaf
    takes all its addresses to the compound page, wherever the host maps that;
    the source checks neither (`fault_breaks_translation`). What has to hold
    for the translation to be right is `Installable`.
-/

namespace Ept

open Radix

variable {vm : Vm} {s s' : State} {gpa gpa' : Word} {k l dir p : Nat} {e : Epte} {page : HostPage}
  {free : List Nat} {makeWrite : Bool}

/-! ## Leaves -/

/-- The leaf for a host page. -/
def leafEntry (vm : Vm) (makeWrite : Bool) (page : HostPage) : Epte :=
  ⟨if page.level ≠ 0 then page.head else page.pfn, leafFlags vm makeWrite page.level⟩

theorem level_le (page : HostPage) : page.level ≤ 2 := by
  unfold HostPage.level
  split
  · exact Nat.le_refl 2
  · split <;> omega

/-- On a level above the last, the order is that of the level. -/
theorem order_of_level (h : page.level ≠ 0) : 2 ^ page.order = 512 ^ page.level := by
  unfold HostPage.level at h ⊢
  split
  · have : page.order = 18 := by omega
    rw [this]
    decide
  · split
    · have : page.order = 9 := by omega
      rw [this]
      decide
    · rename_i h2 h1
      rw [if_neg h2, if_neg h1] at h
      exact absurd rfl h

theorem leafFlags_bits (vm : Vm) (makeWrite : Bool) (level : Nat) :
    (leafFlags vm makeWrite level &&& epteFull != 0#12) = true ∧
    (leafFlags vm makeWrite level &&& epteSz != 0#12) = decide (level ≠ 0) ∧
    (leafFlags vm makeWrite level &&& eptePfnmap != 0#12) = false := by
  by_cases hl : level = 0
  · simp only [leafFlags, accessFlags, hl, ne_eq, not_true, if_false, decide_false]
    cases makeWrite <;> cases vm.adEnabled <;> decide
  · simp only [leafFlags, accessFlags, hl, ne_eq, not_false_eq_true, if_true, decide_true]
    cases makeWrite <;> cases vm.adEnabled <;> decide

theorem leafEntry_kind (vm : Vm) (makeWrite : Bool) (hk : k ≤ 2) (hl : page.level = 0 → k = 0) :
    eptKind k (leafEntry vm makeWrite page) = .leaf := by
  obtain ⟨hpresent, hbig, _⟩ := leafFlags_bits vm makeWrite page.level
  by_cases hzero : page.level = 0
  · rw [hl hzero]
    exact eptKind_zero hpresent
  · exact eptKind_big hpresent (hbig.trans (decide_eq_true hzero)) hk

theorem leafEntry_small (vm : Vm) (makeWrite : Bool) (page : HostPage) (h : page.level = 0) :
    epteBig (leafEntry vm makeWrite page) = false :=
  (leafFlags_bits vm makeWrite page.level).2.1.trans (decide_eq_false (not_not.2 h))

theorem leafEntry_ref (vm : Vm) (makeWrite : Bool) (page : HostPage) (p : Nat) :
    refLeaf p (leafEntry vm makeWrite page) =
      if (leafEntry vm makeWrite page).page = p then 1 else 0 := by
  have hpfn : (leafEntry vm makeWrite page).has eptePfnmap = false :=
    (leafFlags_bits vm makeWrite page.level).2.2
  simp [refLeaf, hpfn]

/-- The leaf for a host page takes an address to the page of the compound
    page at the offset that the address has. -/
theorem leafPage_leafEntry (gpa : Word) :
    leafPage page.level (leafEntry vm makeWrite page) gpa =
      if page.level ≠ 0 then page.head + gpa.toNat / 4096 % 512 ^ page.level else page.pfn := by
  unfold leafPage leafEntry
  by_cases hl : page.level = 0
  · simp [hl, Nat.mod_one]
  · simp only [ne_eq, hl, not_false_eq_true, if_true]
    have hal := page.aligned
    rw [order_of_level hl] at hal
    rw [Nat.div_mul_cancel (Nat.dvd_of_mod_eq_zero hal)]

/-! ## Installing a leaf -/

/-- No leaf for `gpa` is larger than one of `level`. -/
def fits (s : State) (gpa : Word) (level : Nat) : Bool :=
  match s.leaf gpa with
  | some (k, _) => decide (k ≤ level)
  | none => true

/-- The level on which a lookup for `level` ends. -/
def endLevel (s : State) (gpa : Word) (level : Nat) : Nat :=
  match s.leaf gpa with
  | some (k, _) => max k level
  | none => level

theorem endLevel_of_fits {level : Nat} (h : fits s gpa level = true) :
    endLevel s gpa level = level := by
  unfold fits at h
  unfold endLevel
  cases hleaf : s.leaf gpa with
  | none => rfl
  | some x =>
    rw [hleaf] at h
    exact Nat.max_eq_right (of_decide_eq_true h)

theorem lookupForLeaf_ok (hwf : WellFormed s) (gpa : Word) {level : Nat} (hlevel : level ≤ 2)
    (hfresh : Fresh s free) :
    Extends s (lookupForLeaf s gpa level free).2 ∧
    ∀ loc, (lookupForLeaf s gpa level free).1 = .ok loc →
      ∃ k, Found (lookupForLeaf s gpa level free).2 gpa level k loc := by
  unfold lookupForLeaf
  split
  · exact lookup_ok hwf gpa (by omega) true hfresh
  · exact lookup_ok hwf gpa (by omega) false (fresh_nil s)

theorem Found.level {level : Nat} {loc : Loc} (h : Found s gpa level k loc) :
    k = endLevel s gpa level := by
  have hat : s.leaf gpa = leafAt eptShape s.mem (addrToIdx gpa) k loc.dir :=
    h.place.leaf.trans (leafAt_eq ..).symm
  unfold endLevel
  by_cases hk : k = level
  · subst hk
    rw [hat]
    cases hleaf : leafAt eptShape s.mem (addrToIdx gpa) k loc.dir with
    | none => rfl
    | some x => exact (Nat.max_eq_right (leafAt_level k loc.dir hleaf)).symm
  · obtain ⟨hpresent, hbig, hle⟩ := h.above hk
    have hleaf := h.place.leaf
    rw [← h.idx] at hleaf
    rw [hleaf.trans (entryLeaf_leaf (eptKind_big hpresent hbig hle))]
    exact (Nat.max_eq_left h.le).symm

theorem Found.le_two {level : Nat} {loc : Loc} (h : Found s gpa level k loc) (hl : level ≤ 2) :
    k ≤ 2 := by
  by_cases hk : k = level
  · omega
  · exact (h.above hk).2.2

theorem endLevel_congr {level : Nat} (h : s'.leaf gpa = s.leaf gpa) :
    endLevel s' gpa level = endLevel s gpa level := by
  rw [endLevel, endLevel, h]

/-- A leaf is in the place of what was there; against what there is, `d p`
    references on page `p` have been used up. -/
structure Installs (s s' : State) (gpa : Word) (k : Nat) (e : Epte) (d : Nat → Int) : Prop where
  wf : WellFormed s'
  same : ∀ gpa', SameEntry k gpa gpa' → s'.leaf gpa' = some (k, e)
  other : ∀ gpa', ¬ SameEntry k gpa gpa' → s'.leaf gpa' = s.leaf gpa'
  refs : ∀ p, s'.refs p - s'.leaves p = s.refs p - s.leaves p - d p
  tables : ∀ p, s'.tables p - s'.occurs p = s.tables p - s.occurs p

/-- What has been cleared is taken by a leaf. -/
theorem Clears.installs {loc : Loc} (h : Clears s s' gpa k loc) (hidx : loc.idx = addrToIdx gpa k)
    (hkind : eptKind k e = .leaf) (hsmall : k = 0 → epteBig e = false) :
    Installs s (s'.setEntry loc e) gpa k e fun p => refLeaf p e := by
  obtain ⟨dir, idx⟩ := loc
  obtain rfl : idx = addrToIdx gpa k := hidx
  obtain ⟨hwf, hweight⟩ := setLeaf_wf h.wf h.place h.empty hkind hsmall
  refine ⟨hwf, ?_, ?_, ?_, ?_⟩
  · intro gpa' hsame
    rw [setEntry_leaf_same h.wf h.place e hsame]
    exact entryLeaf_leaf hkind
  · intro gpa' hne
    rw [setEntry_leaf_ne h.wf h.place e hne]
    exact h.other gpa' hne
  · intro p
    have hw := hweight (fun _ => 0) (refLeaf p)
    have hold := h.settles.refs p
    show s'.refs p - _ = _
    rw [State.leaves, hw]
    unfold State.leaves at hold ⊢
    omega
  · intro p
    have hw := hweight (fun t => if t = p then 1 else 0) fun _ => 0
    have hold := h.settles.tables p
    have hocc : (s'.setEntry ⟨dir, addrToIdx gpa k⟩ e).occurs p = s'.occurs p := hw
    show s'.tables p - _ = _
    rw [hocc]
    exact hold

/-- What a lookup has created before does not matter. -/
theorem Extends.installs {s'' : State} {d : Nat → Int} (h : Extends s s')
    (h' : Installs s' s'' gpa k e d) : Installs s s'' gpa k e d := by
  refine ⟨h'.wf, h'.same, ?_, ?_, ?_⟩
  · intro gpa' hne
    exact (h'.other gpa' hne).trans (h.leaf gpa')
  · intro p
    rw [h'.refs, h.settles.refs]
  · intro p
    rw [h'.tables, h.tables]

/-- A reference is exchanged for another one. -/
theorem Installs.exchange {d : Nat → Int} (h : Installs s s' gpa k e d) (a b : Nat) :
    Installs s ((s'.getPage a).putPage b) gpa k e fun p =>
      d p - (if a = p then 1 else 0) + if b = p then 1 else 0 := by
  have hrefs : ∀ p, ((s'.getPage a).putPage b).refs p =
      s'.refs p + (if a = p then 1 else 0) - if b = p then 1 else 0 := by
    intro p
    simp only [State.getPage, State.putPage, Function.update_apply]
    split <;> split <;> simp_all [eq_comm]
  refine { h with wf := { h.wf with }, refs := ?_ }
  intro p
  have hold := h.refs p
  rw [hrefs]
  show _ - (s'.leaves p : Int) = _
  omega

/-- The second half of a fault that succeeds: an entry is found, cleared and set. -/
theorem installPage_found (hwf : WellFormed s) (hfresh : Fresh s free)
    (h : (installPage vm s makeWrite gpa page free).1 = .ok ()) :
    ∃ loc s1, Extends s s1 ∧ Found s1 gpa page.level (endLevel s gpa page.level) loc ∧
      (installPage vm s makeWrite gpa page free).2 =
        let s2 := clearForLeaf s1 loc page.level
        (if page.level ≠ 0 then (s2.getPage page.head).putPage page.pfn else s2).setEntry loc
          (leafEntry vm makeWrite page) := by
  obtain ⟨hext, hfound⟩ := lookupForLeaf_ok hwf gpa (level_le page) hfresh
  unfold installPage at h ⊢
  simp only at h ⊢
  split at h
  · cases h
  · rename_i loc s1 hlookup
    rw [hlookup] at hext hfound
    obtain ⟨k, hloc⟩ := hfound loc rfl
    obtain rfl := hloc.level.trans (endLevel_congr (hext.leaf gpa))
    refine ⟨loc, s1, hext, hloc, ?_⟩
    split
    · rename_i hl
      simp only [leafEntry, if_pos hl]
    · rename_i hl
      simp only [leafEntry, if_neg hl]

/-- The leaf for the page is in its place, and has the reference that the host gave. -/
theorem installPage_at (hwf : WellFormed s) (hfresh : Fresh s free)
    (hsize : page.level = 0 → endLevel s gpa page.level = 0)
    (h : (installPage vm s makeWrite gpa page free).1 = .ok ()) :
    Installs s (installPage vm s makeWrite gpa page free).2 gpa (endLevel s gpa page.level)
      (leafEntry vm makeWrite page) fun p => if page.pfn = p then 1 else 0 := by
  obtain ⟨loc, s1, hext, hloc, hafter⟩ := installPage_found hwf hfresh h
  have hclear := clearForLeaf_clears hext.wf (level_le page) hloc
  have hin := hext.installs (hclear.installs hloc.idx
    (leafEntry_kind vm makeWrite (hloc.le_two (level_le page)) hsize)
    fun hk => leafEntry_small vm makeWrite page (Nat.le_zero.1 (hk ▸ hloc.le)))
  have href : ∀ p, (refLeaf p (leafEntry vm makeWrite page) : Int) =
      if (if page.level ≠ 0 then page.head else page.pfn) = p then 1 else 0 := by
    intro p
    rw [leafEntry_ref]
    split <;> simp_all [leafEntry]
  rw [hafter]
  simp only
  split
  · rename_i hl
    have hex := hin.exchange page.head page.pfn
    simp only [href, if_pos hl] at hex
    refine ⟨hex.wf, hex.same, hex.other, ?_, hex.tables⟩
    intro p
    have hp := hex.refs p
    rw [Int.sub_self, Int.zero_add] at hp
    exact hp
  · rename_i hl
    simp only [href, if_neg hl] at hin
    exact hin

/-- Where leaves fit, it is on the level of the page. -/
theorem installPage_ok (hwf : WellFormed s) (hfresh : Fresh s free)
    (hfits : fits s gpa page.level = true)
    (h : (installPage vm s makeWrite gpa page free).1 = .ok ()) :
    Installs s (installPage vm s makeWrite gpa page free).2 gpa page.level
      (leafEntry vm makeWrite page) fun p => if page.pfn = p then 1 else 0 := by
  have hend := endLevel_of_fits hfits
  have hin := installPage_at hwf hfresh (fun hl => hend.trans hl) h
  rwa [hend] at hin

/-- A page on its own in the place of a larger leaf is taken for a table, which it is not. -/
theorem installPage_table (hwf : WellFormed s) (hfresh : Fresh s free)
    (hdata : s.tables page.pfn = 0) (hl : page.level = 0) (hk : endLevel s gpa page.level ≠ 0)
    (h : (installPage vm s makeWrite gpa page free).1 = .ok ()) :
    ¬ WellFormed (installPage vm s makeWrite gpa page free).2 := by
  obtain ⟨⟨dir, idx⟩, s1, hext, hloc, hafter⟩ := installPage_found hwf hfresh h
  have hclear := clearForLeaf_clears hext.wf (level_le page) hloc
  obtain rfl : idx = addrToIdx gpa _ := hloc.idx
  obtain ⟨k, hk⟩ : ∃ k, endLevel s gpa page.level = k + 1 := ⟨_, (Nat.succ_pred hk).symm⟩
  rw [hafter]
  simp only [if_neg (not_not.2 hl)]
  rw [hk] at hclear ⊢
  generalize clearForLeaf s1 _ page.level = s2 at hclear ⊢
  intro hwf'
  -- Now the page occurs once more than before, and is still not a table page.
  have hpresent : eptePresent (leafEntry vm makeWrite page) = true :=
    (leafFlags_bits vm makeWrite page.level).1
  have hkind : eptShape.kind (k + 1) (leafEntry vm makeWrite page) = .table page.pfn := by
    refine (eptKind_table hpresent (leafEntry_small vm makeWrite page hl)).trans ?_
    rw [leafEntry, if_neg (not_not.2 hl)]
  have hempty : eptShape.kind (k + 1) (s2.mem dir (addrToIdx gpa (k + 1))) = .empty :=
    eptKind_empty hclear.empty (k + 1)
  have hplace : s2.at gpa (k + 1) dir := hclear.place
  have hw := setEntry_weight hclear.wf hplace (fun t => if t = page.pfn then 1 else 0)
    (fun _ => 0) (leafEntry vm makeWrite page)
  rw [entryWeight_empty hempty, entryWeight_table hkind, Nat.add_zero] at hw
  have hmore : s2.occurs page.pfn + 1 ≤ State.occurs _ page.pfn :=
    (Nat.add_le_add_left (count_self k page.pfn) _).trans hw.ge
  have htables : s2.tables page.pfn = 1 := hwf'.tables page.pfn (by omega)
  have honce := hwf'.occurs_le page.pfn
  have hnone := hwf.not_occurs hdata
  have hcleared := hclear.settles.tables page.pfn
  have hlooked := hext.tables page.pfn
  omega

/-- A fault that fails leaves the references and the translations as they
    were, apart from the reference that the host gave. -/
theorem installPage_error {err : Errno} (hwf : WellFormed s) (hfresh : Fresh s free)
    (h : (installPage vm s makeWrite gpa page free).1 = .error err) :
    ∃ s1, Extends s s1 ∧ (installPage vm s makeWrite gpa page free).2 = s1.putPage page.pfn := by
  have hext := (lookupForLeaf_ok hwf gpa (level_le page) hfresh).1
  unfold installPage at h ⊢
  simp only at h ⊢
  split at h
  · rename_i s1 hlookup
    rw [hlookup] at hext
    exact ⟨s1, hext, rfl⟩
  · split at h <;> cases h

/-! ## Faults -/

/-- A page of a compound page. -/
def HostPage.has (page : HostPage) (pfn : Nat) : Prop :=
  page.head ≤ pfn ∧ pfn < page.head + 2 ^ page.order

/-- What has to hold of the entry at which the lookup ends: it is of the level of the page, or
    can be a larger leaf; the leaf for the page takes `gpa` to the page; and an address of the
    entry that the host does not map to the compound page goes there already. -/
def Installable (s : State) (backing : Word → Option Nat) (gpa : Word) (page : HostPage) : Prop :=
  let k := endLevel s gpa page.level
  let e : Epte := ⟨if page.level ≠ 0 then page.head else page.pfn, 0#12⟩
  (page.level = 0 → k = 0) ∧ leafPage k e gpa = page.pfn ∧
    ∀ gpa', SameEntry k gpa gpa' → (∀ pfn, backing gpa' = some pfn → ¬ page.has pfn) →
      s.translate gpa' = some (leafPage k e gpa')

theorem sameEntry_refl (k : Nat) (gpa : Word) : SameEntry k gpa gpa := fun _ _ _ => rfl

theorem eptSetEpte_page {host : Answer} {w : Bool} (hw : leafWrite vm makeWrite gpa host = .ok w)
    (hpage : host.page w = some page) :
    eptSetEpte vm s makeWrite gpa host free =
      installPage vm (s.getPage page.pfn) w gpa page free := by
  simp only [eptSetEpte, hw, hpage]

theorem WellFormed.getPage (hwf : WellFormed s) (p : Nat) : WellFormed (s.getPage p) :=
  ⟨hwf.tree, hwf.tables, hwf.top, hwf.small, hwf.vacant⟩

/-- What `vmx_init_ept` leaves: an empty table. -/
def vmxInitEpt (root : Nat) : State where
  mem _ _ := epteNone
  root := root
  refs _ := 0
  tables := Function.update (fun _ => 0) root 1
  dirty _ := false

theorem wellFormed_init (root : Nat) : WellFormed (vmxInitEpt root) := by
  have hoccurs : ∀ p, (vmxInitEpt root).occurs p = if root = p then 1 else 0 :=
    fun p => weight_empty _ _ 3 rfl
  refine ⟨?_, ?_, ?_, ?_, fun _ _ _ _ => rfl⟩
  · intro p
    have hp := hoccurs p
    unfold State.occurs at hp
    rw [hp]
    split <;> omega
  · intro p hp
    rw [hoccurs] at hp
    split at hp
    · rename_i hroot
      subst hroot
      show Function.update (fun _ => (0 : Int)) root 1 root = 1
      exact Function.update_self ..
    · omega
  · intro i _ hpresent
    exact absurd hpresent (by rw [show (vmxInitEpt root).mem _ i = epteNone from rfl]; decide)
  · intro gpa e he
    rw [State.leaf, leafAt_empty (addrToIdx gpa) 3 rfl] at he
    cases he

/-- A processor with 46 physical bits and four cores. -/
def vm46 : Vm := ⟨layout46, true, 4, 100, 200⟩

/-- Host addresses behind an anonymous area with one page. -/
def hostPage (page : HostPage) : Answer where
  vma := some ⟨true, false, .wb⟩
  page _ := some page
  pfn _ := .error .host

/-- Page 3 of a compound page of 512 pages. -/
def largePage : HostPage := ⟨1024, 9, 3, by decide, by decide⟩

/-- A page on its own. -/
def smallPage : HostPage := ⟨7, 0, 0, by decide, by decide⟩

/-- The EPT after a fault with a large page. -/
def afterLarge : State :=
  (eptSetEpte vm46 (vmxInitEpt 0) false 0x3000#64 (hostPage largePage) [1, 2]).2

theorem wellFormed_afterLarge : WellFormed afterLarge := by
  have hw : leafWrite vm46 false 0x3000#64 (hostPage largePage) = .ok true := rfl
  unfold afterLarge
  rw [eptSetEpte_page hw rfl]
  exact (installPage_ok ((wellFormed_init 0).getPage _) ⟨by decide, by decide⟩ (by decide +kernel)
    (by decide +kernel)).wf

end Ept
