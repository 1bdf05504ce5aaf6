import Libdbos.Framework.System
import Libdbos.Kern.EptInvalidate

/-! # References on Host Pages

    Faults take references on the host pages that they map; clearing an
    entry, and freeing the tables, drops them. Each operation settles its
    accounts: against the leaves and the tables that there are, references
    and table pages stay what they were (`Settles`, `Installs`).

    The pages of the posted-interrupt descriptors and of the paravirtual flag
    words are mapped without a reference, but as if there was one, so freeing
    the tables drops references that were never taken (`reference_dropped`).
-/

namespace Ept.Refs

open LTS Radix

/-! ## The machine -/

inductive Label where
  | fault (makeWrite : Bool) (gpa : Word) (host : Word → Answer) (free : List Nat)
  | invalidatePage (addr : Word)
  | invalidateRange (start fin : Word)
  | clearFlushYoung (pages : Nat) (start : Word)

def step (vm : Vm) (s : State) : Label → Option State
  | .fault makeWrite gpa host free =>
      if isFresh s free then some (vmxDoEptFault vm s makeWrite gpa host free).2 else none
  | .invalidatePage addr => some (eptInvalidatePage vm s addr).2.1
  | .invalidateRange start fin => some (invalidateRangeStart vm s start fin).1
  | .clearFlushYoung pages start => some (clearFlushYoung vm pages s start).2

def system (vm : Vm) : System State Label where
  init s := ∃ root, s = vmxInitEpt root
  step := step vm

/-! ## The condition -/

/-- The addresses of pages of the host that are mapped without a reference. -/
def unaccounted (vm : Vm) (gpa : Word) : Bool :=
  decide (gpa &&& pageMask ≠ gpaApicPage) &&
    (inPages gpaPostedIntrDescs vm.cpus gpa || inPages gpaPvInfoPages vm.cpus gpa)

/-- Nothing larger is in the way of the leaf, for what the host answers. -/
def leafFits (vm : Vm) (s : State) (gpa : Word) (host : Answer) : Except Errno Bool → Bool
  | .error _ => true
  | .ok w =>
      match host.page w with
      | some page => fits s gpa page.level
      | none => !unaccounted vm gpa && fits s gpa 0

/-- The condition on runs: no leaf is mapped without a reference, and none is
    put in the place of a larger one. -/
def accounted (vm : Vm) (s : State) : Label → Bool
  | .fault makeWrite gpa host _ =>
      let answer := host (gpaToHva vm.mm gpa)
      leafFits vm s gpa answer (leafWrite vm makeWrite gpa answer)
  | _ => true

/-! ## The invariant -/

/-- There is a reference for each leaf, and a table page for each table. -/
structure Balanced (s : State) : Prop where
  wf : WellFormed s
  refs : ∀ p, s.refs p = s.leaves p
  tables : ∀ p, s.tables p = s.occurs p

variable {vm : Vm} {s s' : State} {gpa : Word} {k : Nat} {e : Epte} {loc : Loc} {page : HostPage}
  {free : List Nat} {makeWrite : Bool}

theorem Balanced.settles (h : Balanced s) (hwf : WellFormed s') (hs : Settles s s') :
    Balanced s' := by
  refine ⟨hwf, ?_, ?_⟩
  · intro p
    have hold := h.refs p
    have hnew := hs.refs p
    omega
  · intro p
    have hold := h.tables p
    have hnew := hs.tables p
    omega

theorem Balanced.clears (h : Balanced s) (hc : Clears s s' gpa k loc) : Balanced s' :=
  h.settles hc.wf hc.settles

/-- A leaf has taken the reference that had been got for it. -/
theorem Balanced.installs {d : Nat → Int} {s0 : State} (h : Balanced s)
    (hrefs : ∀ p, s0.refs p = s.refs p + d p) (htables : s0.tables = s.tables)
    (hleaves : ∀ p, s0.leaves p = s.leaves p) (hoccurs : ∀ p, s0.occurs p = s.occurs p)
    (hin : Installs s0 s' gpa k e d) : Balanced s' := by
  refine ⟨hin.wf, ?_, ?_⟩
  · intro p
    have hold := h.refs p
    have hget := hrefs p
    have hnew := hin.refs p
    rw [hleaves] at hnew
    omega
  · intro p
    have hold := h.tables p
    have hnew := hin.tables p
    rw [htables, hoccurs] at hnew
    omega

/-! ## Faults -/

theorem getPage_refs (s : State) (q p : Nat) :
    (s.getPage q).refs p = s.refs p + if q = p then 1 else 0 := by
  by_cases h : q = p
  · subst h
    simp [State.getPage]
  · simp [State.getPage, h, Function.update_of_ne (Ne.symm h)]

theorem putPage_refs (s : State) (q p : Nat) :
    (s.putPage q).refs p = s.refs p - if q = p then 1 else 0 := by
  by_cases h : q = p
  · subst h
    simp [State.putPage]
  · simp [State.putPage, h, Function.update_of_ne (Ne.symm h)]

/-- A page of the host is mapped, or its reference is dropped. -/
theorem installPage_balanced (h : Balanced s) (hfresh : Fresh s free)
    (hfits : fits s gpa page.level = true) :
    Balanced (installPage vm (s.getPage page.pfn) makeWrite gpa page free).2 := by
  have hwf := h.wf.getPage page.pfn
  have hfresh' : Fresh (s.getPage page.pfn) free := ⟨hfresh.nodup, hfresh.unused⟩
  cases hres : (installPage vm (s.getPage page.pfn) makeWrite gpa page free).1 with
  | ok u =>
    have hin := installPage_ok hwf hfresh' hfits hres
    exact h.installs (getPage_refs s page.pfn) rfl (fun _ => rfl) (fun _ => rfl) hin
  | error err =>
    obtain ⟨s1, hext, hs1⟩ := installPage_error hwf hfresh' hres
    rw [hs1]
    have hwf1 := hext.wf
    refine ⟨⟨hwf1.tree, hwf1.tables, hwf1.top, hwf1.small, hwf1.vacant⟩, ?_, ?_⟩
    · intro p
      have hold := h.refs p
      have hleaves : s1.leaves p = s.leaves p := hext.leaves (refLeaf p)
      show (s1.putPage page.pfn).refs p = s1.leaves p
      rw [putPage_refs, hext.refs, getPage_refs, hleaves]
      omega
    · intro p
      have hold := h.tables p
      have hnew := hext.tables p
      show s1.tables p = s1.occurs p
      change s1.tables p - s1.occurs p = s.tables p - s.occurs p at hnew
      omega

/-- Flags of a page without a `struct page`. -/
structure PfnFlags (flags : BitVec 12) : Prop where
  present : (flags &&& epteFull != 0#12) = true
  small : (flags &&& epteSz != 0#12) = false
  pfnmap : (flags &&& eptePfnmap != 0#12) = true

theorem pfnFlags (vm : Vm) (cache : CacheType) (makeWrite : Bool) :
    PfnFlags (epteRead ||| epteType cache.code ||| epteIpat ||| eptePfnmap |||
      accessFlags vm makeWrite) := by
  unfold accessFlags
  cases cache <;> cases makeWrite <;> cases vm.adEnabled <;>
    exact ⟨by decide, by decide, by decide⟩

/-- A page without a `struct page` takes the place of what was there, and no
    reference. -/
theorem mapPfn_balanced {p : Nat} {flags : BitVec 12} (h : Balanced s) (hfresh : Fresh s free)
    (hfits : fits s gpa 0 = true) (hflags : PfnFlags flags) :
    Balanced (mapPfn s gpa p flags free).2 := by
  obtain ⟨hext, hfound⟩ := lookup_ok h.wf gpa (Nat.zero_le 3) true hfresh
  unfold mapPfn
  split
  · rename_i err s1 hlookup
    rw [hlookup] at hext
    exact h.settles hext.wf hext.settles
  · rename_i loc s1 hlookup
    rw [hlookup] at hext hfound
    obtain ⟨k, hloc⟩ := hfound loc rfl
    obtain rfl := hloc.level.trans ((endLevel_congr (hext.leaf gpa)).trans (endLevel_of_fits hfits))
    have hclear := clearForLeaf_clears hext.wf (Nat.zero_le 2) hloc
    have hsame : clearForLeaf s1 loc 0 =
        if eptePresent (s1.entry loc) then (eptClearEpte s1 loc).2 else s1 := by
      simp [clearForLeaf]
    rw [hsame] at hclear
    have hin := hext.installs (hclear.installs (e := ⟨p, flags⟩) hloc.idx
      (eptKind_zero hflags.present) fun _ => hflags.small)
    refine h.installs ?_ rfl (fun _ => rfl) (fun _ => rfl) hin
    intro q
    have hpfn : (⟨p, flags⟩ : Epte).has eptePfnmap = true := hflags.pfnmap
    simp [refLeaf, hpfn]

theorem eptSetPfnmapEpte_balanced {host : Answer} (h : Balanced s) (hfresh : Fresh s free)
    (hfits : fits s gpa 0 = true) (hacc : unaccounted vm gpa = false) :
    Balanced (eptSetPfnmapEpte vm s makeWrite gpa host free).2 := by
  simp only [unaccounted, ne_eq, decide_not, Bool.and_eq_false_iff, Bool.not_eq_false',
    decide_eq_true_eq, Bool.or_eq_false_iff] at hacc
  unfold eptSetPfnmapEpte
  split
  · exact mapPfn_balanced h hfresh hfits (pfnFlags vm .uc makeWrite)
  · rename_i hapic
    obtain ⟨hposted, hpv⟩ := hacc.resolve_left hapic
    rw [hposted, hpv]
    simp only [Bool.false_eq_true, if_false]
    split
    · exact h
    · split
      · exact h
      · split
        · exact h
        · exact mapPfn_balanced h hfresh hfits (pfnFlags vm _ makeWrite)

theorem eptSetEpte_balanced {host : Answer} (h : Balanced s) (hfresh : Fresh s free)
    (hfits : leafFits vm s gpa host (leafWrite vm makeWrite gpa host) = true) :
    Balanced (eptSetEpte vm s makeWrite gpa host free).2 := by
  unfold eptSetEpte
  generalize leafWrite vm makeWrite gpa host = w at hfits ⊢
  cases w with
  | error err => exact h
  | ok w =>
    simp only [leafFits] at hfits ⊢
    cases hpage : host.page w with
    | some page =>
      rw [hpage] at hfits
      exact installPage_balanced h hfresh hfits
    | none =>
      rw [hpage] at hfits
      simp only [Bool.and_eq_true, Bool.not_eq_true'] at hfits
      exact eptSetPfnmapEpte_balanced h hfresh hfits.2 hfits.1

/-! ## Invalidation -/

/-- Clearing what a lookup has found, if anything is there. -/
theorem clearFound_balanced (h : Balanced s) (hloc : Found s gpa 0 k loc) :
    Balanced (eptClearEpte s loc).2 := by
  rcases hloc.leaf with ⟨hpresent, _, hkind⟩ | ⟨hpresent, _, _⟩
  · exact h.clears (clearEpte_clears h.wf hloc.place hloc.idx hkind (ne_none_of_present hpresent))
  · have hnone : s.entry loc = epteNone := h.wf.vacant _ _ hloc.place.occurs.1 hpresent
    simp only [eptClearEpte, if_pos hnone]
    exact h

theorem invalidatePage_balanced (h : Balanced s) (addr : Word) :
    Balanced (eptInvalidatePage vm s addr).2.1 := by
  unfold eptInvalidatePage
  generalize hvaToGpa vm.mm addr = gpa
  simp only
  split
  · exact h
  · cases hlookup : (eptLookupGpa s gpa 0 false []).1 with
    | error err => exact h
    | ok loc =>
      obtain ⟨k, hfound⟩ := lookup_found h.wf hlookup
      exact clearFound_balanced h hfound

theorem scanLoop_balanced (fin : Word) :
    ∀ n c, Balanced c.state → Balanced (scanLoop vm fin n c).state := by
  intro n
  induction n with
  | zero => exact fun c hc => hc
  | succ n ih =>
    intro c hc
    unfold scanLoop
    split
    · refine ih _ ?_
      have hv := @scanStep_visits vm c hc.wf
      generalize scanStep vm c = c' at hv
      cases hv with
      | leaf k e loc hok hleaf hclear hpos => exact hc.clears hclear
      | nothing hnone hstate hpos =>
        rw [hstate]
        exact hc
    · exact hc

/-! ## Access flags -/

theorem clearYoung_balanced (h : Balanced s) (addr : Word) :
    Balanced (clearYoung vm s addr).2 := by
  cases had : vm.adEnabled with
  | true =>
    rw [clearYoung_accessed_state s addr had]
    exact h
  | false =>
    rw [clearYoung_mapped_state s addr had]
    exact invalidatePage_balanced h addr

theorem clearFlushYoung_balanced :
    ∀ n s start, Balanced s → Balanced (clearFlushYoung vm n s start).2 := by
  intro n
  induction n with
  | zero => exact fun _ _ h => h
  | succ n ih =>
    intro s start h
    exact ih _ _ (clearYoung_balanced h start)

/-! ## Runs -/

theorem balanced_init (root : Nat) : Balanced (vmxInitEpt root) := by
  have hleaves : ∀ p, (vmxInitEpt root).leaves p = 0 := fun p => weight_empty _ _ 3 rfl
  have hoccurs : ∀ p, (vmxInitEpt root).occurs p = if root = p then 1 else 0 :=
    fun p => weight_empty _ _ 3 rfl
  refine ⟨wellFormed_init root, ?_, ?_⟩
  · intro p
    rw [hleaves]
    rfl
  · intro p
    rw [hoccurs]
    show Function.update (fun _ => (0 : Int)) root 1 p = _
    by_cases hp : root = p
    · subst hp
      simp
    · simp [hp, Function.update_of_ne (Ne.symm hp)]

theorem step_balanced {l : Label} (h : Balanced s) (hok : accounted vm s l = true)
    (hstep : step vm s l = some s') : Balanced s' := by
  cases l with
  | fault makeWrite gpa host free =>
    simp only [step] at hstep
    split at hstep
    · rename_i hfresh
      cases hstep
      simp only [accounted] at hok
      unfold vmxDoEptFault
      generalize gpaToHva vm.mm gpa = hva at hok ⊢
      simp only
      split
      · exact h
      · exact eptSetEpte_balanced h (fresh_of_isFresh hfresh) hok
    · cases hstep
  | invalidatePage addr =>
    cases hstep
    exact invalidatePage_balanced h addr
  | invalidateRange start fin =>
    cases hstep
    exact scanLoop_balanced fin _ _ h
  | clearFlushYoung pages start =>
    cases hstep
    exact clearFlushYoung_balanced pages s start h

theorem balanced (h : (system vm).RunsTo (fun s l => accounted vm s l = true) s) : Balanced s := by
  refine System.invariant_when ?_ ?_ h
  · rintro s ⟨root, rfl⟩
    exact balanced_init root
  · intro s l s' hs hok hstep
    exact step_balanced hs hok hstep

/-- Freeing the tables drops a reference for each leaf, and frees each table. -/
theorem vmxFreeEpt_frees (s : State) :
    Frees s (vmxFreeEpt s) (fun p => s.leaves p) fun p => s.occurs p := by
  have hlock : freeEptPageLock = freeEptPage := rfl
  rw [vmxFreeEpt, hlock]
  exact freeTable_frees 3 s.root s

/-- **References balance**: in every run that meets the condition there is a
    reference for each leaf that is not PFNMAP, and freeing the tables drops
    each of them, and frees each table page, once. -/
theorem references_balance (h : (system vm).RunsTo (fun s l => accounted vm s l = true) s)
    (p : Nat) :
    s.refs p = s.leaves p ∧ s.tables p = s.occurs p ∧
    (vmxFreeEpt s).refs p = s.refs p - s.leaves p ∧ (vmxFreeEpt s).refs p = 0 ∧
    (vmxFreeEpt s).tables p = s.tables p - s.occurs p ∧ (vmxFreeEpt s).tables p = 0 := by
  have hb := balanced h
  have hrefs := hb.refs p
  have htables := hb.tables p
  have hfree := vmxFreeEpt_frees s
  have hrefs' : (vmxFreeEpt s).refs p = s.refs p - s.leaves p := hfree.refs p
  have htables' : (vmxFreeEpt s).tables p = s.tables p - s.occurs p := hfree.tables p
  refine ⟨hrefs, htables, hrefs', ?_, htables', ?_⟩
  · omega
  · omega

/-- The host has one page, at any address. -/
def only (page : HostPage) (_ : Word) : Answer := hostPage page

/-- The host has no page. -/
def noPage (_ : Word) : Answer := ⟨none, fun _ => none, fun _ => .error .host⟩

/-- A large page, and the page of the APIC. -/
theorem references_balance_apic :
    ∃ s, (system vm46).RunsTo (fun s l => accounted vm46 s l = true) s ∧ s.refs 1024 = 1 ∧
      s.leaves 1024 = 1 ∧ (vmxFreeEpt s).refs 1024 = 0 := by
  obtain ⟨s, hrun, hone⟩ := (system vm46).exists_runsTo (accounted vm46) (s := vmxInitEpt 0)
    ⟨0, rfl⟩
    [.fault false 0x3000#64 (only largePage) [1, 2], .fault true gpaApicPage noPage [3, 4, 5],
      .invalidatePage 0x5000000#64]
    (fun s => s.refs 1024 = 1) (by decide +kernel)
  obtain ⟨hrefs, _, _, hzero, _⟩ := references_balance hrun 1024
  refine ⟨s, hrun, hone, ?_, hzero⟩
  omega

/-- A leaf that is not PFNMAP counts for its page. -/
theorem leaves_pos (hleaf : s.leaf gpa = some (k, e)) (hpfn : e.has eptePfnmap = false) :
    0 < s.leaves e.page := by
  have hle : refLeaf e.page e ≤ s.leaves e.page :=
    leafAt_weight (fun _ => 0) (refLeaf e.page) (addrToIdx_lt gpa) 3 s.root hleaf
  have hone : refLeaf e.page e = 1 := by simp [refLeaf, hpfn]
  omega

/-- **A reference that nobody has**: after a fault on a posted-interrupt
    descriptor there is a leaf without a reference, and freeing the tables
    drops one that was not taken. -/
theorem reference_dropped :
    ∃ s, (system vm46).exec (vmxInitEpt 0)
        [.fault true gpaPostedIntrDescs noPage [1, 2, 3]] = some s ∧
      s.refs 100 = 0 ∧ 0 < s.leaves 100 ∧ (vmxFreeEpt s).refs 100 < 0 := by
  refine (system vm46).exists_exec_of (fun s => s.refs 100 = 0 ∧ s.leaf gpaPostedIntrDescs =
    some (0, ⟨100, epteRead ||| epteWrite ||| epteType CacheType.wb.code⟩)) (by decide +kernel) ?_
  rintro s - ⟨hzero, hleaf⟩
  have hleaves : 0 < s.leaves 100 := leaves_pos hleaf (by decide)
  refine ⟨hzero, hleaves, ?_⟩
  have hdrop := (vmxFreeEpt_frees s).refs 100
  omega

end Ept.Refs
