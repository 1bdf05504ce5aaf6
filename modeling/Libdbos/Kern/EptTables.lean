import Libdbos.Framework.RadixGrow
import Libdbos.Kern.Ept

/-! # Tables and Entries

    What lookups and writes do to the tables. A lookup comes to the entry of
    its address on the level asked for, or to a large leaf above it; the
    tables that it creates on its way are empty, so no translation changes
    (`lookup_ok`). A write where a lookup has ended changes the translation
    of the addresses of that entry.

    The accounts of references and of table pages are kept against the leaves
    and the tables that there are, `State.leaves` and `State.occurs`: what
    frees a tree settles both (`freeTable_frees`).
-/

namespace Ept

open Radix

variable {s s' : State} {gpa gpa' : Word} {k l dir p page : Nat} {e : Epte}

/-! ## Entries -/

theorem addrToIdx_eq (la : Word) (n : Nat) :
    addrToIdx la n = la.toNat / 2 ^ (12 + 9 * n) % 512 := by
  rw [addrToIdx, BitVec.toNat_and, BitVec.toNat_ushiftRight, Nat.shiftRight_eq_div_pow]
  exact Nat.and_two_pow_sub_one_eq_mod _ 9

theorem addrToIdx_lt (la : Word) (n : Nat) : addrToIdx la n < eptShape.fan := by
  rw [addrToIdx_eq]
  exact Nat.mod_lt _ (by decide)

theorem eptKind_empty (h : eptePresent e = false) (k : Nat) : eptKind k e = .empty := by
  simp [eptKind, h]

@[simp] theorem eptKind_none (k : Nat) : eptKind k epteNone = .empty := eptKind_empty rfl k

theorem eptKind_zero (h : eptePresent e = true) : eptKind 0 e = .leaf := by
  simp [eptKind, h]

theorem eptKind_big (h : eptePresent e = true) (hbig : epteBig e = true) (hk : k ≤ 2) :
    eptKind k e = .leaf := by
  simp [eptKind, h, hbig, hk]

theorem eptKind_table (h : eptePresent e = true) (hbig : epteBig e = false) :
    eptKind (k + 1) e = .table e.page := by
  simp [eptKind, h, hbig]

theorem epteBig_new (page : Nat) : epteBig ⟨page, epteFull⟩ = false := by
  show (epteFull &&& epteSz != 0#12) = false
  decide

theorem eptKind_new (page k : Nat) : eptKind (k + 1) ⟨page, epteFull⟩ = .table page := by
  refine eptKind_table ?_ (epteBig_new page)
  show (epteFull &&& epteFull != 0#12) = true
  decide

/-! ## Places -/

/-- The table of level `k` for `gpa` is `dir`. -/
def State.at (s : State) (gpa : Word) (k dir : Nat) : Prop :=
  descend eptShape s.mem (addrToIdx gpa) k 3 s.root = (k, dir)

/-- The addresses that lead to the same entry of level `k`. -/
def SameEntry (k : Nat) (gpa gpa' : Word) : Prop :=
  Agree k 3 (addrToIdx gpa) (addrToIdx gpa')

theorem at_root (s : State) (gpa : Word) : s.at gpa 3 s.root := descend_here _ 3 s.root

theorem State.at.next (h : s.at gpa (k + 1) dir)
    (hkind : eptKind (k + 1) (s.mem dir (addrToIdx gpa (k + 1))) = .table p) : s.at gpa k p :=
  descend_succ hkind 3 s.root h

theorem State.at.occurs (h : s.at gpa k dir) : 0 < s.occurs dir ∧ k ≤ 3 :=
  descend_below (addrToIdx_lt gpa) 3 s.root h

theorem State.at.leaf (h : s.at gpa k dir) :
    s.leaf gpa = entryLeaf eptShape s.mem (addrToIdx gpa) k (s.mem dir (addrToIdx gpa k)) :=
  leafAt_descend 3 s.root h

/-- Entries that are not present are zero, if those that are written are. -/
theorem vacant_write {mem : Mem Epte} {t i j : Nat}
    (hold : eptePresent (mem p j) = false → mem p j = epteNone)
    (hnew : eptePresent e = false → e = epteNone) :
    eptePresent (write mem t i e p j) = false → write mem t i e p j = epteNone := by
  by_cases hp : p = t
  · subst hp
    by_cases hj : j = i
    · subst hj
      rw [write_same]
      exact hnew
    · rw [write_index_ne hj]
      exact hold
  · rw [write_page_ne hp]
    exact hold

/-! ## Weights -/

/-- A leaf that has a reference on host page `p`. -/
def refLeaf (p : Nat) (e : Epte) : Nat := if e.has eptePfnmap = false ∧ e.page = p then 1 else 0

/-- What the tree of `s` weighs. -/
def State.weight (s : State) (wt : Nat → Nat) (wl : Epte → Nat) : Nat :=
  Radix.weight eptShape s.mem wt wl 3 s.root

/-- The number of leaves that have a reference on host page `p`. -/
def State.leaves (s : State) (p : Nat) : Nat := s.weight (fun _ => 0) (refLeaf p)

theorem WellFormed.occurs_le (hwf : WellFormed s) (p : Nat) : s.occurs p ≤ 1 := hwf.tree p

/-- A page that has not been allocated is not in the tree. -/
theorem WellFormed.not_occurs (hwf : WellFormed s) (h : s.tables p = 0) : s.occurs p = 0 := by
  by_contra hne
  have := hwf.tables p (by omega)
  omega

/-- An empty table weighs what its page weighs, and no walk goes on from it. -/
theorem weight_empty {mem : Mem Epte} (wt : Nat → Nat) (wl : Epte → Nat) (k : Nat)
    (h : mem page = fun _ => epteNone) : Radix.weight eptShape mem wt wl k page = wt page :=
  weight_row wt wl h fun _ => eptKind_none k

theorem leafAt_empty {mem : Mem Epte} (idx : Nat → Nat) (k : Nat)
    (h : mem page = fun _ => epteNone) : leafAt eptShape mem idx k page = none :=
  leafAt_row h fun _ => eptKind_none k

/-! ## New tables -/

/-- `s'` has new tables, in which there is nothing. -/
structure Extends (s s' : State) : Prop where
  wf : WellFormed s'
  root : s'.root = s.root
  leaf : ∀ gpa, s'.leaf gpa = s.leaf gpa
  refs : s'.refs = s.refs
  dirty : s'.dirty = s.dirty
  leaves : ∀ wl, s'.weight (fun _ => 0) wl = s.weight (fun _ => 0) wl
  tables : ∀ p, s'.tables p - s'.occurs p = s.tables p - s.occurs p

theorem Extends.refl (hwf : WellFormed s) : Extends s s :=
  ⟨hwf, rfl, fun _ => rfl, rfl, rfl, fun _ => rfl, fun _ => rfl⟩

theorem Extends.trans {s'' : State} (h : Extends s s') (h' : Extends s' s'') : Extends s s'' :=
  ⟨h'.wf, h'.root.trans h.root, fun gpa => (h'.leaf gpa).trans (h.leaf gpa),
    h'.refs.trans h.refs, h'.dirty.trans h.dirty, fun wl => (h'.leaves wl).trans (h.leaves wl),
    fun p => (h'.tables p).trans (h.tables p)⟩

/-- Table `page` of level `k` is put where there was nothing. -/
def State.addTable (s : State) (gpa : Word) (k dir page : Nat) : State :=
  (s.getFreePage page).setEntry ⟨dir, addrToIdx gpa (k + 1)⟩ ⟨page, epteFull⟩

section

variable (hwf : WellFormed s) (hat : s.at gpa (k + 1) dir)
  (hempty : eptePresent (s.mem dir (addrToIdx gpa (k + 1))) = false) (hfree : s.tables page = 0)

include hwf hat hempty hfree

/-- The tree grows by it. -/
theorem addTable_grows : Grows eptShape s.mem (addrToIdx gpa) 3 s.root k dir page
    (fun _ => epteNone) ⟨page, epteFull⟩ where
  digits := addrToIdx_lt gpa
  tree := hwf.tree
  path := hat
  empty := eptKind_empty hempty (k + 1)
  fresh := hwf.not_occurs hfree
  row _ := eptKind_none k
  entry := eptKind_new page k

theorem addTable_at : (s.addTable gpa k dir page).at gpa k page :=
  (addTable_grows hwf hat hempty hfree).descend_new

theorem addTable_extends : Extends s (s.addTable gpa k dir page) := by
  have hgrows := addTable_grows hwf hat hempty hfree
  have hoccurs : ∀ p, (s.addTable gpa k dir page).occurs p =
      s.occurs p + if page = p then 1 else 0 := hgrows.count_eq
  have hnot := hwf.not_occurs hfree
  have hnew := eptKind_new page 0
  have htables : ∀ p, (s.addTable gpa k dir page).tables p =
      s.tables p + if page = p then 1 else 0 := by
    intro p
    by_cases hp : page = p
    · subst hp
      simp [State.addTable, State.setEntry, State.getFreePage]
    · simp [State.addTable, State.setEntry, State.getFreePage, hp, Ne.symm hp]
  have hleaf : ∀ gpa', (s.addTable gpa k dir page).leaf gpa' = s.leaf gpa' :=
    fun gpa' => hgrows.leafAt (addrToIdx_lt gpa')
  refine ⟨⟨hgrows.grown_tree, ?_, ?_, ?_, ?_⟩, rfl, hleaf, rfl, rfl, ?_, ?_⟩
  · intro p hp
    rw [hoccurs] at hp
    rw [htables]
    split
    · subst_vars
      omega
    · rename_i hne
      rw [if_neg hne] at hp
      rw [hwf.tables p hp]
      rfl
  · intro i hi hpresent
    have hroot : s.root ≠ page := by
      rintro rfl
      have : 1 ≤ count eptShape s.mem s.root 3 s.root := count_self 3 s.root
      have : s.occurs s.root = 0 := hnot
      unfold State.occurs at this
      omega
    by_cases hdir : s.root = dir
    · by_cases hidx : i = addrToIdx gpa (k + 1)
      · simp only [State.addTable, State.setEntry, State.getFreePage] at hpresent ⊢
        rw [hdir, hidx, write_same]
        exact epteBig_new page
      · simp only [State.addTable, State.setEntry, State.getFreePage] at hpresent ⊢
        rw [hdir, write_index_ne hidx, ← hdir, Function.update_of_ne hroot] at hpresent ⊢
        exact hwf.top i hi hpresent
    · simp only [State.addTable, State.setEntry, State.getFreePage] at hpresent ⊢
      rw [write_page_ne hdir, Function.update_of_ne hroot] at hpresent ⊢
      exact hwf.top i hi hpresent
  · intro gpa' e he
    rw [hleaf] at he
    exact hwf.small gpa' e he
  · intro p i hp
    by_cases hpage : p = page
    · intro _
      exact hpage ▸ congrFun hgrows.new_row i
    · rw [hoccurs, if_neg (Ne.symm hpage)] at hp
      have hrow : (s.getFreePage page).mem p = s.mem p := hgrows.frame p hp
      refine vacant_write ?_ ?_
      · rw [hrow]
        exact hwf.vacant p i hp
      · intro hnot
        rw [eptKind_empty hnot 1] at hnew
        cases hnew
  · intro wl
    exact hgrows.weight _ _
  · intro p
    rw [htables, hoccurs]
    split <;> simp

end

/-! ## Lookups -/

/-- The allocator gives pages that are not in use. -/
structure Fresh (s : State) (free : List Nat) : Prop where
  nodup : free.Nodup
  unused : ∀ p ∈ free, s.tables p = 0

/-- The test for it. -/
def isFresh (s : State) (free : List Nat) : Bool :=
  decide free.Nodup && free.all fun p => s.tables p = 0

theorem fresh_of_isFresh {free : List Nat} (h : isFresh s free = true) : Fresh s free := by
  rw [isFresh, Bool.and_eq_true, decide_eq_true_eq, List.all_eq_true] at h
  refine ⟨h.1, ?_⟩
  intro p hp
  exact of_decide_eq_true (h.2 p hp)

/-- A lookup down to `level` has come to `loc`: to the entry of that level, or
    to a large leaf above it. -/
structure Found (s : State) (gpa : Word) (level k : Nat) (loc : Loc) : Prop where
  place : s.at gpa k loc.dir
  idx : loc.idx = addrToIdx gpa k
  le : level ≤ k
  above : k ≠ level → eptePresent (s.entry loc) = true ∧ epteBig (s.entry loc) = true ∧ k ≤ 2

theorem Fresh.addTable {free : List Nat} (h : Fresh s (page :: free)) (gpa : Word) (k dir : Nat) :
    Fresh (s.addTable gpa k dir page) free := by
  obtain ⟨hnot, hnodup⟩ := List.nodup_cons.1 h.nodup
  refine ⟨hnodup, ?_⟩
  intro p hp
  have hne : p ≠ page := by
    rintro rfl
    exact hnot hp
  have := h.unused p (List.mem_cons_of_mem _ hp)
  simpa [State.addTable, State.setEntry, State.getFreePage, hne] using this

/-- **Lookup**: translations stay as they are, and the entry that is found is
    that of the address. -/
theorem lookupFrom_ok (gpa : Word) (level : Nat) (create : Bool) :
    ∀ i dir free s, WellFormed s → s.at gpa i dir → level ≤ i → Fresh s free →
      Extends s (lookupFrom gpa level create i dir free s).2 ∧
      ∀ loc, (lookupFrom gpa level create i dir free s).1 = .ok loc →
        ∃ k, Found (lookupFrom gpa level create i dir free s).2 gpa level k loc := by
  intro i
  induction i with
  | zero =>
    intro dir free s hwf hat hle _
    obtain rfl := Nat.le_zero.1 hle
    refine ⟨.refl hwf, ?_⟩
    intro loc hloc
    cases hloc
    exact ⟨0, hat, rfl, Nat.le_refl 0, fun h => absurd rfl h⟩
  | succ i ih =>
    intro dir free s hwf hat hle hfresh
    unfold lookupFrom
    split
    · rename_i hstop
      refine ⟨.refl hwf, ?_⟩
      intro loc hloc
      cases hloc
      obtain rfl := Nat.le_antisymm hle hstop
      exact ⟨i + 1, hat, rfl, Nat.le_refl _, fun h => absurd rfl h⟩
    · rename_i hstop
      simp only
      split
      · rename_i hpresent
        split
        · rename_i hbig
          split
          · exact ⟨.refl hwf, fun _ h => by cases h⟩
          · rename_i hlevel
            refine ⟨.refl hwf, ?_⟩
            intro loc hloc
            cases hloc
            exact ⟨i + 1, hat, rfl, hle, fun _ => ⟨hpresent, hbig, by omega⟩⟩
        · rename_i hbig
          have hnext := hat.next (eptKind_table hpresent (Bool.eq_false_iff.2 hbig))
          exact ih _ free s hwf hnext (by omega) hfresh
      · rename_i hpresent
        have hempty := Bool.eq_false_iff.2 hpresent
        split
        · cases free with
          | nil => exact ⟨.refl hwf, fun _ h => by cases h⟩
          | cons page free =>
            have hpage := hfresh.unused page List.mem_cons_self
            have hext := addTable_extends hwf hat hempty hpage
            obtain ⟨hext', hfound⟩ := ih page free (s.addTable gpa i dir page) hext.wf
              (addTable_at hwf hat hempty hpage) (by omega) (hfresh.addTable gpa i dir)
            exact ⟨hext.trans hext', hfound⟩
        · exact ⟨.refl hwf, fun _ h => by cases h⟩

/-- Without tables to create, nothing changes, and where there is no entry
    there is no translation. -/
theorem lookupFrom_false (gpa : Word) (level : Nat) :
    ∀ i dir free s, WellFormed s → s.at gpa i dir → i ≤ 3 →
      (lookupFrom gpa level false i dir free s).2 = s ∧
      ∀ err, (lookupFrom gpa level false i dir free s).1 = .error err →
        err = .enoent ∧ s.leaf gpa = none := by
  intro i
  induction i with
  | zero =>
    intro dir free s _ _ _
    exact ⟨rfl, fun _ h => by cases h⟩
  | succ i ih =>
    intro dir free s hwf hat hle
    unfold lookupFrom
    split
    · exact ⟨rfl, fun _ h => by cases h⟩
    · simp only
      split
      · rename_i hpresent
        split
        · rename_i hbig
          split
          · rename_i hlevel
            -- There is no large leaf on the top level.
            have htop : i + 1 = 3 := by omega
            have hroot : dir = s.root := by
              have h3 := at_root s gpa
              unfold State.at at hat h3
              rw [htop, h3] at hat
              exact (Prod.mk.inj hat).2.symm
            rw [hroot] at hpresent hbig
            rw [hwf.top _ (addrToIdx_lt gpa (i + 1)) hpresent] at hbig
            cases hbig
          · exact ⟨rfl, fun _ h => by cases h⟩
        · rename_i hbig
          have hnext := hat.next (eptKind_table hpresent (Bool.eq_false_iff.2 hbig))
          exact ih _ free s hwf hnext (by omega)
      · rename_i hpresent
        refine ⟨rfl, ?_⟩
        intro err herr
        cases herr
        refine ⟨rfl, ?_⟩
        rw [hat.leaf]
        exact entryLeaf_empty (eptKind_empty (Bool.eq_false_iff.2 hpresent) (i + 1))

theorem lookup_ok (hwf : WellFormed s) (gpa : Word) {level : Nat} (hlevel : level ≤ 3)
    (create : Bool) {free : List Nat} (hfresh : Fresh s free) :
    Extends s (eptLookupGpa s gpa level create free).2 ∧
    ∀ loc, (eptLookupGpa s gpa level create free).1 = .ok loc →
      ∃ k, Found (eptLookupGpa s gpa level create free).2 gpa level k loc :=
  lookupFrom_ok gpa level create 3 s.root free s hwf (at_root s gpa) hlevel hfresh

theorem fresh_nil (s : State) : Fresh s [] := ⟨List.nodup_nil, by simp⟩

theorem lookup_false (hwf : WellFormed s) (gpa : Word) (level : Nat) :
    (eptLookupGpa s gpa level false []).2 = s ∧
    ∀ err, (eptLookupGpa s gpa level false []).1 = .error err →
      err = .enoent ∧ s.leaf gpa = none :=
  lookupFrom_false gpa level 3 s.root [] s hwf (at_root s gpa) (Nat.le_refl 3)

/-- The entry that a lookup has found, without creating tables. -/
theorem lookup_found {loc : Loc} (hwf : WellFormed s)
    (h : (eptLookupGpa s gpa 0 false []).1 = .ok loc) : ∃ k, Found s gpa 0 k loc := by
  obtain ⟨k, hfound⟩ := (lookup_ok hwf gpa (Nat.zero_le 3) false (fresh_nil s)).2 loc h
  rw [(lookup_false hwf gpa 0).1] at hfound
  exact ⟨k, hfound⟩

/-- The flag of an access is not the lowest bit, so it is never taken back. -/
theorem flush_and_accessed (flush : Bool) (flags : BitVec 12) :
    ofBool flush &&& (flags &&& epteA) = 0#12 := by
  have hbits : ∀ b, ofBool b &&& epteA = 0#12 := by decide
  rw [BitVec.and_comm flags, ← BitVec.and_assoc, hbits, BitVec.zero_and]

theorem checkPageAccessed_state (vm : Vm) (s : State) (addr : Word) (flush : Bool) :
    (eptCheckPageAccessed vm s addr flush).2.1 = s := by
  unfold eptCheckPageAccessed
  generalize hvaToGpa vm.mm addr = gpa
  simp only
  split
  · rfl
  · split
    · rfl
    · rw [if_neg (not_not.mpr (flush_and_accessed flush _))]

section

variable {vm : Vm} (s : State) (addr : Word)

-- Below, the pairs are compared as pairs: the kernel would evaluate the calls to compare
-- one component.

/-- With access flags, nothing changes. -/
theorem clearYoung_accessed_state (h : vm.adEnabled = true) : (clearYoung vm s addr).2 = s := by
  have hpair : clearYoung vm s addr = ((eptCheckPageAccessed vm s addr true).1,
    (eptCheckPageAccessed vm s addr true).2.1) := if_pos h
  rw [checkPageAccessed_state] at hpair
  exact (Prod.mk.inj (Prod.mk.eta.trans hpair)).2

/-- Without access flags, the page is taken out. -/
theorem clearYoung_mapped_state (h : vm.adEnabled = false) :
    (clearYoung vm s addr).2 = (eptInvalidatePage vm s addr).2.1 := by
  have hpair : clearYoung vm s addr = (ofBool (eptInvalidatePage vm s addr).1,
    (eptInvalidatePage vm s addr).2.1) := if_neg (by rw [h]; exact Bool.false_ne_true)
  exact (Prod.mk.inj (Prod.mk.eta.trans hpair)).2

end

/-- The entry that a lookup down to the last level finds, and the translation. -/
theorem Found.leaf {loc : Loc} (h : Found s gpa 0 k loc) :
    (eptePresent (s.entry loc) = true ∧ s.leaf gpa = some (k, s.entry loc) ∧
      eptKind k (s.entry loc) = .leaf) ∨
    (eptePresent (s.entry loc) = false ∧ s.leaf gpa = none ∧ k = 0) := by
  have hleaf := h.place.leaf
  rw [← h.idx] at hleaf
  change s.leaf gpa = entryLeaf eptShape s.mem (addrToIdx gpa) k (s.entry loc) at hleaf
  cases hp : eptePresent (s.entry loc) with
  | true =>
    have hkind : eptKind k (s.entry loc) = .leaf := by
      by_cases hk : k = 0
      · rw [hk]
        exact eptKind_zero hp
      · obtain ⟨_, hbig, hle⟩ := h.above hk
        exact eptKind_big hp hbig hle
    exact .inl ⟨rfl, hleaf.trans (entryLeaf_leaf hkind), hkind⟩
  | false =>
    have hk : k = 0 := by
      by_contra hk
      rw [(h.above hk).1] at hp
      cases hp
    exact .inr ⟨rfl, hleaf.trans (entryLeaf_empty (eptKind_empty hp k)), hk⟩

/-! ## Writes -/

section

variable (hwf : WellFormed s) (hat : s.at gpa k dir)

include hwf hat

theorem setEntry_weight (wt : Nat → Nat) (wl : Epte → Nat) (e : Epte) :
    (s.setEntry ⟨dir, addrToIdx gpa k⟩ e).weight wt wl +
        entryWeight eptShape s.mem wt wl k (s.mem dir (addrToIdx gpa k)) =
      s.weight wt wl +
        entryWeight eptShape (s.setEntry ⟨dir, addrToIdx gpa k⟩ e).mem wt wl k e :=
  weight_write wt wl (addrToIdx_lt gpa) e 3 s.root hat hwf.tree

theorem setEntry_leaf_same (e : Epte) (h : SameEntry k gpa gpa') :
    (s.setEntry ⟨dir, addrToIdx gpa k⟩ e).leaf gpa' =
      entryLeaf eptShape (s.setEntry ⟨dir, addrToIdx gpa k⟩ e).mem (addrToIdx gpa') k e :=
  leafAt_write_agree (addrToIdx_lt gpa) e 3 s.root hat hwf.tree h

theorem setEntry_leaf_ne (e : Epte) (h : ¬ SameEntry k gpa gpa') :
    (s.setEntry ⟨dir, addrToIdx gpa k⟩ e).leaf gpa' = s.leaf gpa' :=
  leafAt_write_ne (addrToIdx_lt gpa) (addrToIdx_lt gpa') e 3 s.root hat hwf.tree h

theorem setEntry_at (e : Epte) : (s.setEntry ⟨dir, addrToIdx gpa k⟩ e).at gpa k dir :=
  descend_write (addrToIdx_lt gpa) (Nat.le_refl k) 3 s.root hat hwf.tree

theorem leaf_of_sameEntry (h : SameEntry k gpa gpa') :
    s.leaf gpa' =
      entryLeaf eptShape s.mem (addrToIdx gpa') k (s.mem dir (addrToIdx gpa k)) :=
  leafAt_of_agree (addrToIdx_lt gpa) hwf.tree hat h

end

/-- Entries of the top level that are written stay tables. -/
theorem setEntry_top (hwf : WellFormed s) {e : Epte}
    (he : dir = s.root → eptePresent e = true → epteBig e = false) :
    ∀ i, i < 512 → eptePresent ((s.setEntry ⟨dir, addrToIdx gpa k⟩ e).mem s.root i) = true →
      epteBig ((s.setEntry ⟨dir, addrToIdx gpa k⟩ e).mem s.root i) = false := by
  intro i hi
  show eptePresent (write s.mem dir (addrToIdx gpa k) e s.root i) = true →
    epteBig (write s.mem dir (addrToIdx gpa k) e s.root i) = false
  by_cases hdir : s.root = dir
  · by_cases hidx : i = addrToIdx gpa k
    · rw [hdir, hidx, write_same]
      exact he hdir.symm
    · rw [hdir, write_index_ne hidx, ← hdir]
      exact hwf.top i hi
  · rw [write_page_ne hdir]
    exact hwf.top i hi

/-! ## Freeing -/

/-- The accounts that `s'` has settled, apart from `a` references and `b`
    tables; memory stays as it is. -/
structure Frees (s s' : State) (a b : Nat → Nat) : Prop where
  mem : s'.mem = s.mem
  root : s'.root = s.root
  refs : ∀ p, s'.refs p = s.refs p - a p
  tables : ∀ p, s'.tables p = s.tables p - b p

theorem Frees.refl (s : State) : Frees s s (fun _ => 0) fun _ => 0 :=
  ⟨rfl, rfl, fun _ => (Int.sub_zero _).symm, fun _ => (Int.sub_zero _).symm⟩

theorem Frees.trans {s'' : State} {a b a' b' : Nat → Nat} (h : Frees s s' a b)
    (h' : Frees s' s'' a' b') : Frees s s'' (fun p => a p + a' p) fun p => b p + b' p := by
  refine ⟨h'.mem.trans h.mem, h'.root.trans h.root, ?_, ?_⟩
  · intro p
    rw [h'.refs, h.refs]
    omega
  · intro p
    rw [h'.tables, h.tables]
    omega

theorem freeEptPage_frees (s : State) (e : Epte) :
    Frees s (freeEptPage s e) (fun p => refLeaf p e) fun _ => 0 := by
  unfold freeEptPage
  cases hp : e.has eptePfnmap with
  | true =>
    refine ⟨rfl, rfl, ?_, fun _ => (Int.sub_zero _).symm⟩
    intro p
    simp [refLeaf, hp]
  | false =>
    have hput : ∀ s : State, Frees s (s.putPage e.page) (fun p => refLeaf p e) fun _ => 0 := by
      intro s
      refine ⟨rfl, rfl, ?_, fun _ => (Int.sub_zero _).symm⟩
      intro p
      by_cases hpage : e.page = p
      · subst hpage
        simp [State.putPage, refLeaf, hp]
      · simp [State.putPage, refLeaf, hp, hpage, Function.update_of_ne (Ne.symm hpage)]
    simp only [Bool.false_eq_true, if_false]
    split
    · have h := hput (s.setPageDirty e.page)
      exact ⟨h.mem, h.root, h.refs, h.tables⟩
    · exact hput s

/-- A loop over the entries of a table adds up what each of them frees. -/
theorem foldl_frees {f : State → Nat → State} {a b : Nat → Nat → Nat} (n : Nat)
    (hf : ∀ s' : State, s'.mem = s.mem → ∀ i, Frees s' (f s' i) (a i) (b i)) :
    Frees s ((List.range n).foldl f s) (fun p => ∑ i ∈ Finset.range n, a i p)
      fun p => ∑ i ∈ Finset.range n, b i p := by
  induction n with
  | zero => exact .refl s
  | succ n ih =>
    rw [List.range_succ, List.foldl_append]
    have hstep := ih.trans (hf _ ih.mem n)
    refine ⟨hstep.mem, hstep.root, ?_, ?_⟩
    · intro p
      rw [Finset.sum_range_succ]
      exact hstep.refs p
    · intro p
      rw [Finset.sum_range_succ]
      exact hstep.tables p

theorem freePage_frees (s : State) (t : Nat) :
    Frees s (s.freePage t) (fun _ => 0) fun p => if t = p then 1 else 0 := by
  refine ⟨rfl, rfl, fun _ => (Int.sub_zero _).symm, ?_⟩
  intro p
  by_cases hp : t = p
  · subst hp
    simp [State.freePage]
  · simp [State.freePage, hp, Function.update_of_ne (Ne.symm hp)]

/-- **Freeing a tree** drops each reference of its leaves, and each of its
    tables, once. -/
theorem freeTable_frees : ∀ l t s, Frees s (freeTable freeEptPage l t s)
    (fun p => Radix.weight eptShape s.mem (fun _ => 0) (refLeaf p) l t)
    fun p => count eptShape s.mem p l t := by
  have hdone : ∀ {s s' : State} {a b : Nat → Nat} {l t : Nat}, Frees s s' a b →
      (∀ p, a p = ∑ i ∈ Finset.range 512,
        entryWeight eptShape s.mem (fun _ => 0) (refLeaf p) l (s.mem t i)) →
      (∀ p, b p = ∑ i ∈ Finset.range 512, entryWeight eptShape s.mem
        (fun t => if t = p then 1 else 0) (fun _ => 0) l (s.mem t i)) →
      Frees s (s'.freePage t) (fun p => Radix.weight eptShape s.mem (fun _ => 0) (refLeaf p) l t)
        fun p => count eptShape s.mem p l t := by
    intro s s' a b l t h ha hb
    have hfree := h.trans (freePage_frees s' t)
    refine ⟨hfree.mem, hfree.root, ?_, ?_⟩
    · intro p
      rw [hfree.refs, ha, weight_eq]
      simp only [Nat.add_zero, Nat.zero_add]
      rfl
    · intro p
      rw [hfree.tables, hb, count, weight_eq, Nat.add_comm]
      rfl
  intro l
  induction l with
  | zero =>
    intro t s
    refine hdone (foldl_frees (a := fun i p => entryWeight eptShape s.mem (fun _ => 0) (refLeaf p) 0
      (s.mem t i)) (b := fun i p => entryWeight eptShape s.mem
        (fun t => if t = p then 1 else 0) (fun _ => 0) 0 (s.mem t i)) 512 ?_)
      (fun _ => rfl) fun _ => rfl
    intro s' hmem i
    rw [hmem]
    cases hk : eptKind 0 (s.mem t i) with
    | empty =>
      simp only [@entryWeight_empty _ eptShape _ _ _ _ _ hk]
      exact .refl s'
    | leaf =>
      simp only [@entryWeight_leaf _ eptShape _ _ _ _ _ hk]
      exact freeEptPage_frees s' _
    | table c => exact absurd hk (eptShape.bottom _ c)
  | succ l ih =>
    intro t s
    refine hdone (foldl_frees (a := fun i p => entryWeight eptShape s.mem (fun _ => 0) (refLeaf p)
      (l + 1) (s.mem t i)) (b := fun i p => entryWeight eptShape s.mem
        (fun t => if t = p then 1 else 0) (fun _ => 0) (l + 1) (s.mem t i)) 512 ?_)
      (fun _ => rfl) fun _ => rfl
    intro s' hmem i
    rw [hmem]
    cases hk : eptKind (l + 1) (s.mem t i) with
    | empty =>
      simp only [@entryWeight_empty _ eptShape _ _ _ _ _ hk]
      exact .refl s'
    | leaf =>
      simp only [@entryWeight_leaf _ eptShape _ _ _ _ _ hk]
      exact freeEptPage_frees s' _
    | table c =>
      have hk' : eptShape.kind (l + 1) (s.mem t i) = .table c := hk
      simp only [entryWeight_table hk']
      have hc := ih c s'
      rw [hmem] at hc
      exact hc

/-! ## Clearing -/

/-- The accounts of `s'` against what it has are those of `s`. -/
structure Settles (s s' : State) : Prop where
  refs : ∀ p, s'.refs p - s'.leaves p = s.refs p - s.leaves p
  tables : ∀ p, s'.tables p - s'.occurs p = s.tables p - s.occurs p

theorem Settles.refl (s : State) : Settles s s := ⟨fun _ => rfl, fun _ => rfl⟩

theorem Extends.settles (h : Extends s s') : Settles s s' := by
  refine ⟨?_, h.tables⟩
  intro p
  rw [h.refs, State.leaves, h.leaves]
  rfl

/-- The entry of level `k` for `gpa` has been cleared, and the accounts have
    been settled. -/
structure Clears (s s' : State) (gpa : Word) (k : Nat) (loc : Loc) : Prop where
  wf : WellFormed s'
  place : s'.at gpa k loc.dir
  empty : eptePresent (s'.entry loc) = false
  same : ∀ gpa', SameEntry k gpa gpa' → s'.leaf gpa' = none
  other : ∀ gpa', ¬ SameEntry k gpa gpa' → s'.leaf gpa' = s.leaf gpa'
  settles : Settles s s'

/-- An entry whose weight has been freed is cleared. -/
theorem Frees.clears (hwf : WellFormed s) (hat : s.at gpa k dir)
    (h : Frees s s' (fun p => entryWeight eptShape s.mem (fun _ => 0) (refLeaf p) k
      (s.mem dir (addrToIdx gpa k))) fun p => entryWeight eptShape s.mem
        (fun t => if t = p then 1 else 0) (fun _ => 0) k (s.mem dir (addrToIdx gpa k))) :
    Clears s (s'.setEntry ⟨dir, addrToIdx gpa k⟩ epteNone) gpa k ⟨dir, addrToIdx gpa k⟩ := by
  have hmem : (s'.setEntry ⟨dir, addrToIdx gpa k⟩ epteNone).mem =
      (s.setEntry ⟨dir, addrToIdx gpa k⟩ epteNone).mem := by
    simp only [State.setEntry, h.mem]
  have hroot : (s'.setEntry ⟨dir, addrToIdx gpa k⟩ epteNone).root = s.root := h.root
  have hleaf : ∀ gpa', (s'.setEntry ⟨dir, addrToIdx gpa k⟩ epteNone).leaf gpa' =
      (s.setEntry ⟨dir, addrToIdx gpa k⟩ epteNone).leaf gpa' := by
    intro gpa'
    rw [State.leaf, hmem, hroot]
    rfl
  have hweight : ∀ wt wl, (s'.setEntry ⟨dir, addrToIdx gpa k⟩ epteNone).weight wt wl +
      entryWeight eptShape s.mem wt wl k (s.mem dir (addrToIdx gpa k)) = s.weight wt wl := by
    intro wt wl
    have hw := setEntry_weight hwf hat wt wl epteNone
    rw [@entryWeight_empty _ eptShape _ k epteNone _ _ (eptKind_none k), Nat.add_zero] at hw
    rw [State.weight, hmem, hroot]
    exact hw
  have hoccurs : ∀ p, (s'.setEntry ⟨dir, addrToIdx gpa k⟩ epteNone).occurs p +
      entryWeight eptShape s.mem (fun t => if t = p then 1 else 0) (fun _ => 0) k
        (s.mem dir (addrToIdx gpa k)) = s.occurs p := fun p => hweight _ _
  have hsame : ∀ gpa', SameEntry k gpa gpa' →
      (s'.setEntry ⟨dir, addrToIdx gpa k⟩ epteNone).leaf gpa' = none := by
    intro gpa' hsame
    rw [hleaf, setEntry_leaf_same hwf hat epteNone hsame]
    exact entryLeaf_empty (eptKind_none k)
  have hother : ∀ gpa', ¬ SameEntry k gpa gpa' →
      (s'.setEntry ⟨dir, addrToIdx gpa k⟩ epteNone).leaf gpa' = s.leaf gpa' := by
    intro gpa' hne
    rw [hleaf]
    exact setEntry_leaf_ne hwf hat epteNone hne
  refine ⟨⟨?_, ?_, ?_, ?_, ?_⟩, ?_, ?_, hsame, hother, ⟨?_, ?_⟩⟩
  · intro p
    have hle := hwf.occurs_le p
    have hp := hoccurs p
    show (s'.setEntry ⟨dir, addrToIdx gpa k⟩ epteNone).occurs p ≤ 1
    omega
  · intro p hp
    have hle := hwf.occurs_le p
    have hold := hoccurs p
    have htable := hwf.tables p (by omega)
    show s'.tables p = 1
    rw [h.tables]
    omega
  · rw [hroot, hmem]
    refine setEntry_top hwf fun _ hpresent => ?_
    cases hpresent
  · intro gpa' e he
    by_cases hs : SameEntry k gpa gpa'
    · rw [hsame gpa' hs] at he
      cases he
    · rw [hother gpa' hs] at he
      exact hwf.small gpa' e he
  · intro p i hp
    have hold := hoccurs p
    rw [hmem]
    exact vacant_write (hwf.vacant p i (by omega)) fun _ => rfl
  · have hat' := setEntry_at hwf hat epteNone
    unfold State.at at hat' ⊢
    rw [hmem, hroot]
    exact hat'
  · show eptePresent (write s'.mem dir _ epteNone dir _) = false
    rw [write_same]
    rfl
  · intro p
    have hw := hweight (fun _ => 0) (refLeaf p)
    show s'.refs p - _ = _
    rw [h.refs, State.leaves, State.leaves]
    omega
  · intro p
    have hw := hoccurs p
    show s'.tables p - _ = _
    rw [h.tables]
    omega

theorem ne_none_of_present (h : eptePresent e = true) : e ≠ epteNone := by
  rintro rfl
  cases h

/-- A leaf is cleared. -/
theorem clearEpte_clears (hwf : WellFormed s) {loc : Loc} (hat : s.at gpa k loc.dir)
    (hidx : loc.idx = addrToIdx gpa k) (hkind : eptKind k (s.entry loc) = .leaf)
    (hne : s.entry loc ≠ epteNone) :
    Clears s (eptClearEpte s loc).2 gpa k loc := by
  obtain ⟨dir, idx⟩ := loc
  obtain rfl : idx = addrToIdx gpa k := hidx
  simp only [eptClearEpte, if_neg hne]
  refine Frees.clears hwf hat ?_
  have hkind' : eptKind k (s.mem dir (addrToIdx gpa k)) = .leaf := hkind
  simp only [@entryWeight_leaf _ eptShape _ _ _ _ _ hkind']
  exact freeEptPage_frees s _

/-- A table is cleared. -/
theorem clearTable_clears (hwf : WellFormed s) {loc : Loc} (hat : s.at gpa (l + 1) loc.dir)
    (hidx : loc.idx = addrToIdx gpa (l + 1)) (hpresent : eptePresent (s.entry loc) = true)
    (hbig : epteBig (s.entry loc) = false) :
    Clears s (clearTable l s loc).2 gpa (l + 1) loc := by
  obtain ⟨dir, idx⟩ := loc
  obtain rfl : idx = addrToIdx gpa (l + 1) := hidx
  simp only [clearTable, if_neg (ne_none_of_present hpresent)]
  refine Frees.clears hwf hat ?_
  have hkind : eptShape.kind (l + 1) (s.mem dir (addrToIdx gpa (l + 1))) =
      .table (s.mem dir (addrToIdx gpa (l + 1))).page := eptKind_table hpresent hbig
  simp only [entryWeight_table hkind]
  exact freeTable_frees l _ s

/-- What is at an entry makes room for a leaf of its level. -/
theorem clearForLeaf_clears (hwf : WellFormed s) {level : Nat} {loc : Loc} (hlevel : level ≤ 2)
    (h : Found s gpa level k loc) : Clears s (clearForLeaf s loc level) gpa k loc := by
  unfold clearForLeaf
  simp only
  split
  · rename_i hpresent
    have hleaf : epteBig (s.entry loc) = true ∨ level = 0 → Clears s (eptClearEpte s loc).2 gpa k loc := by
      intro hor
      refine clearEpte_clears hwf h.place h.idx ?_ (ne_none_of_present hpresent)
      by_cases hk : k = level
      · rcases hor with hbig | hzero
        · exact eptKind_big hpresent hbig (by omega)
        · rw [hk, hzero]
          exact eptKind_zero hpresent
      · obtain ⟨_, hbig, hle⟩ := h.above hk
        exact eptKind_big hpresent hbig hle
    have htable : epteBig (s.entry loc) = false → k = level := by
      intro hbig
      by_contra hk
      rw [(h.above hk).2.1] at hbig
      cases hbig
    cases hbig : epteBig (s.entry loc) with
    | true =>
      simp only [Bool.not_true, Bool.false_eq_true, false_and, if_false]
      exact hleaf (.inl hbig)
    | false =>
      have hk := htable hbig
      have hplace := h.place
      have hidx := h.idx
      rw [hk] at hplace hidx ⊢
      simp only [Bool.not_false, true_and]
      split
      · rename_i h2
        subst h2
        exact clearTable_clears hwf hplace hidx hpresent hbig
      · split
        · rename_i h1
          subst h1
          exact clearTable_clears hwf hplace hidx hpresent hbig
        · rename_i h2 h1
          have := hleaf (.inr (by omega))
          rwa [hk] at this
  · rename_i hpresent
    have hempty := Bool.eq_false_iff.2 hpresent
    refine ⟨hwf, h.place, hempty, ?_, fun _ _ => rfl, .refl s⟩
    intro gpa' hsame
    rw [leaf_of_sameEntry hwf h.place hsame, ← h.idx]
    exact entryLeaf_empty (eptKind_empty hempty k)

/-- A leaf is put where there was nothing. -/
theorem setLeaf_wf (hwf : WellFormed s) (hat : s.at gpa k dir)
    (hempty : eptePresent (s.mem dir (addrToIdx gpa k)) = false) (hkind : eptKind k e = .leaf)
    (hsmall : k = 0 → epteBig e = false) :
    WellFormed (s.setEntry ⟨dir, addrToIdx gpa k⟩ e) ∧
    (∀ wt wl, (s.setEntry ⟨dir, addrToIdx gpa k⟩ e).weight wt wl = s.weight wt wl + wl e) := by
  have hweight : ∀ wt wl, (s.setEntry ⟨dir, addrToIdx gpa k⟩ e).weight wt wl =
      s.weight wt wl + wl e := by
    intro wt wl
    have hw := setEntry_weight hwf hat wt wl e
    rw [@entryWeight_empty _ eptShape _ _ _ _ _ (eptKind_empty hempty k),
      @entryWeight_leaf _ eptShape _ _ _ _ _ hkind] at hw
    exact hw
  have hoccurs : ∀ p, (s.setEntry ⟨dir, addrToIdx gpa k⟩ e).occurs p = s.occurs p :=
    fun p => hweight _ _
  refine ⟨⟨?_, ?_, ?_, ?_, ?_⟩, hweight⟩
  · intro p
    have := hwf.occurs_le p
    have hp := hoccurs p
    show (s.setEntry ⟨dir, addrToIdx gpa k⟩ e).occurs p ≤ 1
    omega
  · intro p hp
    rw [hoccurs] at hp
    exact hwf.tables p hp
  · refine setEntry_top hwf ?_
    intro hdir hpresent
    -- The root is the table of level 3, on which there are no leaves.
    rw [hdir] at hat
    have hk : k = 3 := descend_self (addrToIdx_lt gpa) hwf.tree hat
    subst hk
    simp [eptKind, hpresent] at hkind
  · intro gpa' e' he
    by_cases hs : SameEntry k gpa gpa'
    · rw [(setEntry_leaf_same hwf hat e hs).trans (entryLeaf_leaf hkind)] at he
      cases he
      exact hsmall rfl
    · rw [setEntry_leaf_ne hwf hat e hs] at he
      exact hwf.small gpa' e' he
  · intro p i hp
    rw [hoccurs] at hp
    refine vacant_write (hwf.vacant p i hp) ?_
    intro hnot
    rw [eptKind_empty hnot k] at hkind
    cases hkind

end Ept
