import Libdbos.Framework.System
import Libdbos.Libdune.VmClone

/-! # Lookup and Walk

    `dune_vm_lookup` of `libdune/vm.c` finds the entry for one address. It
    tests whether an entry is present before it tests whether it is large; the
    page walk has the tests the other way round. So they part at entries that
    are large and not present: the walk visits them, and the lookup goes past
    them, or replaces them by a table if it is to create one.

    Such entries are made by `dune_vm_mprotect` and `dune_vm_map_phys` without
    `PERM_R`. Where no call makes one (`TableCall.Shows`), lookup and walk agree
    after every sequence of calls (`lookup_walk_agree`).
-/

namespace Dune

open Pte Radix Sweep LTS

section

variable {σ : Type}

variable {s : Vm σ}

/-! ## The lookup -/

/-- What a lookup returns. -/
inductive Found where
  | entry (table index : Nat)
  | enoent
  /-- A new table that is null is written to. -/
  | abort
  deriving DecidableEq, Repr

/-- The lookup from table `t` of level `l` on. Only levels 1 and 2 have large
    entries. -/
def lookupFrom (va : Nat) (create : Bool) : Nat → Nat → Vm σ → Vm σ × Found
  | 0, t, s => (s, .entry t (pdx 0 va))
  | l + 1, t, s =>
      let w := s.mem t (pdx (l + 1) va)
      if !isP w then
        if !create then (s, .enoent)
        else
          match allocZeroed s with
          | (s, none) => (s, .abort)
          | (s, some new) =>
              lookupFrom va create l new
                { s with mem := write s.mem t (pdx (l + 1) va) (tableEntry new) }
      else if (l + 1 == 1 || l + 1 == 2) && pteBig w then (s, .entry t (pdx (l + 1) va))
      else lookupFrom va create l (tableOf w) s

/-- The function `dune_vm_lookup`. -/
def vmLookup (root va : Nat) (create : Bool) (s : Vm σ) : Vm σ × Found :=
  lookupFrom va create 3 root s

/-- The walk over the one address `va` is the call for entry `i` of table `t`. -/
def WalkVisits (root va : Nat) (s : Vm σ) (t i : Nat) : Prop :=
  ∃ base level, ∀ cb : Callback σ, vmPageWalk cb root va va s = cb t i base level s

/-! ## Large entries that are not present -/

/-- The word is present if it is marked as large. -/
def Plain (w : Word) : Prop := pteBig w = true → isP w = true

/-- No large entry is hidden from the lookup. -/
def Visible (mem : Mem Word) : Prop := ∀ t i, Plain (mem t i)

theorem indices_single (level va : Nat) : indices level va va = [pdx level va] := by
  rw [indices, Nat.add_sub_cancel_left]
  rfl

/-- One level of the walk over one address. -/
theorem pageWalk_single (cb : Callback σ) (l t va : Nat) (s : Vm σ) :
    pageWalk cb .none (l + 1) t va va s =
      if (l + 1 == 1 || l + 1 == 2) && pteBig (s.mem t (pdx (l + 1) va)) then
        cb t (pdx (l + 1) va) (baseVa (l + 1) va + pdAddr (l + 1) (pdx (l + 1) va)) (l + 1) s
      else if isP (s.mem t (pdx (l + 1) va)) then
        pageWalk cb .none l (tableOf (s.mem t (pdx (l + 1) va))) va va s
      else (s, .ok) := by
  rw [pageWalk, indices_single, sweep_singleton, visitEntry, callsAt_none]
  simp only [if_true]

/-- What the walk over one address does, by what the lookup finds. -/
theorem walk_of_lookup (h : Visible s.mem) (va l : Nat) : ∀ t,
    (∃ i u base level, lookupFrom va false l t s = (s, .entry u i) ∧ s.mem u i ≠ 0#64 ∧
      lookupFrom va true l t s = (s, .entry u i) ∧
      ∀ cb, pageWalk cb .none l t va va s = cb u i base level s) ∨
    (∀ u i, (lookupFrom va false l t s).2 = .entry u i → s.mem u i = 0#64) ∧
      ∀ cb, pageWalk cb .none l t va va s = (s, .ok) := by
  induction l with
  | zero =>
    intro t
    simp only [pageWalk, indices_single, sweep_singleton, visitBottom, reduceCtorEq, false_or,
      lookupFrom]
    by_cases hw : s.mem t (pdx 0 va) = 0#64
    · right
      refine ⟨?_, fun cb => if_neg (not_not.mpr hw)⟩
      intro u i hfound
      cases hfound
      exact hw
    · left
      exact ⟨_, _, _, _, rfl, hw, rfl, fun cb => if_pos hw⟩
  | succ l ih =>
    intro t
    simp only [pageWalk_single, lookupFrom]
    cases hlarge : (l + 1 == 1 || l + 1 == 2) && pteBig (s.mem t (pdx (l + 1) va)) with
    | true =>
      -- The walk stops at a large entry, which is present.
      have hp := h _ _ (Bool.and_eq_true_iff.mp hlarge).2
      left
      refine ⟨_, _, _, _, by rw [hp]; rfl, ?_, by rw [hp]; rfl, fun _ => rfl⟩
      intro hzero
      rw [hzero] at hp
      exact absurd hp (by decide)
    | false =>
      cases hp : isP (s.mem t (pdx (l + 1) va)) with
      | true => exact ih _
      | false =>
        right
        refine ⟨?_, fun _ => rfl⟩
        intro u i hfound
        cases hfound

/-- **Lookup and walk agree** where no large entry is hidden. -/
theorem visible_agree (h : Visible s.mem) (root va t i : Nat) :
    (WalkVisits root va s t i ↔
      (vmLookup root va false s).2 = .entry t i ∧ s.mem t i ≠ 0#64) ∧
    (WalkVisits root va s t i → vmLookup root va true s = (s, .entry t i)) := by
  -- A callback that tells the entry from all others.
  let spy : Callback σ := fun u j _ _ s => (s, if u = t ∧ j = i then .code 1 else .ok)
  rcases walk_of_lookup h va 3 root with ⟨j, u, base, level, hfound, hne, hcreate, hwalk⟩ |
    ⟨hzero, hwalk⟩
  · have hsame : WalkVisits root va s t i → u = t ∧ j = i := by
      rintro ⟨base', level', hvisit⟩
      have hspy := (hvisit spy).symm.trans (hwalk spy)
      by_contra hother
      simp only [spy, and_self, if_true, if_neg hother, Prod.mk.injEq, Ret.code.injEq] at hspy
      exact absurd hspy.2 (by decide)
    refine ⟨⟨?_, ?_⟩, ?_⟩
    · intro hvisit
      obtain ⟨rfl, rfl⟩ := hsame hvisit
      exact ⟨congrArg Prod.snd hfound, hne⟩
    · rintro ⟨hentry, _⟩
      rw [vmLookup, hfound] at hentry
      cases hentry
      exact ⟨base, level, hwalk⟩
    · intro hvisit
      obtain ⟨rfl, rfl⟩ := hsame hvisit
      exact hcreate
  · have hnone : ¬ WalkVisits root va s t i := by
      rintro ⟨base', level', hvisit⟩
      have hspy := (hvisit spy).symm.trans (hwalk spy)
      simp only [spy, and_self, if_true, Prod.mk.injEq, Ret.code.injEq] at hspy
      exact absurd hspy.2 (by decide)
    refine ⟨⟨fun hvisit => absurd hvisit hnone, ?_⟩, fun hvisit => absurd hvisit hnone⟩
    rintro ⟨hentry, hne⟩
    exact absurd (hzero t i hentry) hne

/-! ## What the calls write -/

theorem plain_zero : Plain 0#64 := by
  intro h
  exact absurd h (by decide)

/-- Only two bits matter. -/
theorem Plain.of_bits {w w' : Word} (h : Plain w) (hp : w'.getLsbD 0 = w.getLsbD 0)
    (hbig : w'.getLsbD 7 = w.getLsbD 7) : Plain w' := by
  intro hw
  rw [pteBig_eq, hbig, ← pteBig_eq] at hw
  rw [isP_eq, hp, ← isP_eq]
  exact h hw

theorem getLsbD_pteAddr_low (w : Word) {i : Nat} (h : addrMask.getLsbD i = false) :
    (pteAddr w).getLsbD i = false := by
  rw [pteAddr, BitVec.getLsbD_and, h, Bool.and_false]

theorem plain_join {flags : Word} (h : Plain flags) (addr : Word) :
    Plain (pteAddr addr ||| flags) := by
  refine h.of_bits ?_ ?_
  · rw [BitVec.getLsbD_or, getLsbD_pteAddr_low addr (by decide), Bool.false_or]
  · rw [BitVec.getLsbD_or, getLsbD_pteAddr_low addr (by decide), Bool.false_or]

theorem plain_tableEntry (new : Nat) : Plain (tableEntry new) :=
  plain_join (fun h => absurd h (by decide)) _

theorem plain_getPtePerm {perm : Word}
    (h : Word.has perm permBig = true ∨ Word.has perm permBig1gb = true → Word.has perm permR = true) :
    Plain (getPtePerm perm) := by
  intro hbig
  rw [pteBig_eq, getPtePerm_getLsbD] at hbig
  rw [isP_eq, getPtePerm_getLsbD, h (by simpa using hbig)]
  rfl

/-- A new protection that keeps a present entry present, or an entry small. -/
theorem plain_protectWord {perm w : Word} (h : Word.has perm permR = true ∨ pteBig w = false) :
    Plain (protectWord (getPtePerm (effective perm)) w) := by
  intro hbig
  rw [isP_eq, getLsbD_protectWord (by decide) (by decide), getPtePerm_getLsbD]
  by_cases hr : Word.has perm permR = true
  · rw [effective, if_pos hr, hr]
    rfl
  · -- Without the right to read the call sets one flag only, that against execution.
    have hsmall := h.resolve_left hr
    rw [pteBig_eq] at hbig hsmall
    rw [protectWord, BitVec.getLsbD_or, BitVec.getLsbD_or, getLsbD_pteAddr_low w (by decide),
      pteFlags, BitVec.getLsbD_and, BitVec.getLsbD_and, hsmall, effective, if_neg hr] at hbig
    exact absurd hbig (by decide)

theorem plain_intFlags {w : Word} (h : Plain w) :
    Plain (((pteFlags w).setWidth 32).signExtend 64) := by
  have hbit : ∀ i, i < 32 → flagsMask.getLsbD i = true →
      (((pteFlags w).setWidth 32).signExtend 64).getLsbD i = w.getLsbD i := by
    intro i hi hflags
    rw [BitVec.getLsbD_signExtend, BitVec.getLsbD_setWidth, pteFlags, BitVec.getLsbD_and, hflags]
    simp [show i < 64 by omega, hi]
  exact h.of_bits (hbit 0 (by decide) (by decide)) (hbit 7 (by decide) (by decide))

theorem Visible.write {mem : Mem Word} (h : Visible mem) {w : Word} (hw : Plain w) (t i : Nat) :
    Visible (Radix.write mem t i w) := by
  intro u j
  by_cases hu : u = t
  · subst hu
    by_cases hj : j = i
    · subst hj
      rw [write_same]
      exact hw
    · rw [write_index_ne hj]
      exact h u j
  · rw [write_page_ne hu]
    exact h u j

theorem allocZeroed_visible (h : Visible s.mem) : Visible (allocZeroed s).1.mem := by
  unfold allocZeroed
  split
  · exact h
  · rename_i pool pg _
    intro u j
    dsimp only
    by_cases hu : u = page2pa pg
    · rw [hu, Function.update_self]
      exact plain_zero
    · rw [Function.update_of_ne hu]
      exact h u j

theorem linkTable_visible (dir i : Nat) (h : Visible s.mem) :
    Visible (linkTable dir i s).1.mem := by
  have halloc := allocZeroed_visible h
  unfold linkTable
  split
  · rename_i hget
    rw [hget] at halloc
    exact halloc
  · rename_i hget
    rw [hget] at halloc
    exact halloc.write (plain_tableEntry _) dir i

/-! ## What the calls keep -/

/-- **Invariant rule for walks** over any memory: callbacks and new tables keep
    the invariant. -/
theorem pageWalk_invariant {cb : Callback σ} {create : Create} {Inv : Vm σ → Prop}
    (hcall : ∀ dir i va level s, Inv s → Inv (cb dir i va level s).1)
    (hlink : ∀ dir i s, Inv s → Inv (linkTable dir i s).1) (l : Nat) : ∀ t start last s,
    Inv s → Inv (pageWalk cb create l t start last s).1 := by
  induction l with
  | zero =>
    intro t start last s h
    rw [pageWalk]
    refine sweep_invariant (fun i _ s h => ?_) s h
    unfold visitBottom
    split
    · exact hcall _ _ _ _ _ h
    · exact h
  | succ l ih =>
    intro t start last s h
    rw [pageWalk]
    refine sweep_invariant (fun i _ s h => ?_) s h
    unfold visitEntry
    dsimp only
    split
    · exact hcall _ _ _ _ _ h
    · split
      · exact ih _ _ _ _ h
      · split
        · exact h
        · split
          · exact ih _ _ _ _ (hlink t i s h)
          · exact hlink t i s h

theorem linkTable_arg (dir i : Nat) (s : Vm σ) : (linkTable dir i s).1.arg = s.arg := by
  unfold linkTable allocZeroed
  cases pageAlloc s.pool with
  | mk pool page => cases page <;> rfl

theorem mapPhysHelper_visible {flags : Word} (hflags : Plain flags) (create : Create)
    (l t start last : Nat) {s : Vm MapPhysData} (h : Visible s.mem) (harg : s.arg.perm = flags) :
    Visible (pageWalk mapPhysHelper create l t start last s).1.mem := by
  refine (@pageWalk_invariant _ _ _ (fun s => Visible s.mem ∧ s.arg.perm = flags) ?_ ?_ l t start
    last s ⟨h, harg⟩).1
  · rintro dir i va level s ⟨hs, harg⟩
    exact ⟨hs.write (plain_join (by rw [harg]; exact hflags) _) dir i, harg⟩
  · rintro dir i s ⟨hs, harg⟩
    rw [linkTable_arg]
    exact ⟨linkTable_visible dir i hs, harg⟩

theorem mem_withArg {τ : Type} (s : Vm σ) (arg : τ) : (s.withArg arg).mem = s.mem := rfl

theorem mapWalk_visible {flags : Word} (hflags : Plain flags) (create : Create)
    (root va len pa : Nat) (h : Visible s.mem) :
    Visible (mapWalk flags create root va len pa s).1.mem := by
  rw [mapWalk]
  dsimp only
  rw [mem_withArg]
  exact mapPhysHelper_visible hflags create 3 root va _ h rfl

theorem freeHelper_visible (l t start last : Nat) (h : Visible s.mem) :
    Visible (after (pageWalk freeHelper .none l t start last s)).mem :=
  @pageWalk_invariant _ _ _ (fun s => Visible s.mem)
    (fun dir i _ _ _ hs => hs.write plain_zero dir i)
    (fun dir i _ hs => linkTable_visible dir i hs) l t start last s h

/-- The end of the clone helper: it changes the pool only. -/
theorem gets_visible {r : Vm σ × Ret} (h : Visible r.1.mem) (dir i : Nat) (pool : Pool) :
    Visible (if r.2 = .ok then
      if pageIsfrompool (tableOf (r.1.mem dir i)) then ({ r.1 with pool := pool }, Ret.ok) else r
      else r).1.mem := by
  split
  · split
    · exact h
    · exact h
  · exact h

theorem cloneHelper_visible (newRoot dir i va level : Nat) (h : Visible s.mem) :
    Visible (cloneHelper newRoot dir i va level s).1.mem := by
  have hmap : Visible (mapPhysWithPteFlags newRoot va (pgsize level) (tableOf (s.mem dir i))
      (pteFlags (s.mem dir i)) (createPerm level) s).1.mem := by
    rw [mapPhysWithPteFlags]
    exact mapWalk_visible (plain_intFlags (h dir i)) _ newRoot va _ _ h
  unfold cloneHelper
  dsimp only
  split
  · exact gets_visible hmap dir i _
  · exact h

theorem Visible.of_pool (h : Visible s.mem) (pool : Pool) :
    Visible ({ s with pool := pool } : Vm σ).mem := h

theorem putPage_visible (page : Nat) (h : Visible s.mem) :
    Visible (putPage page s).1.mem := by
  unfold putPage
  split
  · exact h.of_pool _
  · exact h

theorem vmFree_visible (root : Nat) (h : Visible s.mem) :
    Visible (vmFree root s).1.mem :=
  putPage_visible root
    (freeHelper_visible 1 root 0 vaEnd
      (freeHelper_visible 2 root 0 vaEnd (freeHelper_visible 3 root 0 vaEnd h)))

theorem vmClone_visible (root : Nat) (h : Visible s.mem) :
    Visible (vmClone root s).1.mem := by
  have halloc := allocZeroed_visible h
  unfold vmClone
  split
  · rename_i hget
    rw [hget] at halloc
    exact halloc
  · rename_i s' newRoot hget
    rw [hget] at halloc
    have hwalk : Visible (vmPageWalk (cloneHelper newRoot) root 0 vaEnd s').1.mem :=
      @pageWalk_invariant _ _ _ (fun s => Visible s.mem)
        (fun dir i va level _ hs => cloneHelper_visible newRoot dir i va level hs)
        (fun dir i _ hs => linkTable_visible dir i hs) 3 root 0 vaEnd s' halloc
    generalize vmPageWalk (cloneHelper newRoot) root 0 vaEnd s' = r at hwalk ⊢
    obtain ⟨s'', ret⟩ := r
    cases ret with
    | abort => exact hwalk
    | code c =>
      dsimp only
      split
      · have hfree := vmFree_visible newRoot hwalk
        generalize vmFree newRoot s'' = f at hfree ⊢
        obtain ⟨s₃, ret⟩ := f
        cases ret <;> exact hfree
      · exact hwalk

theorem mapPages_visible (root va len : Nat) (perm : Word) (h : Visible s.mem) :
    Visible (mapPages root va len perm s).1.mem := by
  unfold mapPages
  split
  · exact h
  · rename_i haccept
    have hflags : Plain (getPtePerm perm) := by
      refine plain_getPtePerm fun hbig => ?_
      by_contra hr
      refine haccept ⟨by simpa using hr, ?_⟩
      intro hzero
      have hsub : ∀ q : Word, q &&& permR = 0#64 → Word.has perm q = false := by
        intro q hq
        have hsplit : perm &&& q = perm &&& ~~~permR &&& q := by
          rw [BitVec.and_assoc, BitVec.and_comm (~~~permR), show q &&& ~~~permR = q by
            have hall : q &&& permR ||| q &&& ~~~permR = q := by
              rw [← BitVec.and_or_distrib_left, BitVec.or_not_self, BitVec.and_allOnes]
            rwa [hq, BitVec.zero_or] at hall]
        rw [Word.has, hsplit, hzero, BitVec.zero_and]
        rfl
      rw [hsub permBig (by decide), hsub permBig1gb (by decide)] at hbig
      exact hbig.elim Bool.false_ne_true Bool.false_ne_true
    refine @pageWalk_invariant _ _ _ (fun s => Visible s.mem) ?_
      (fun dir i _ hs => linkTable_visible dir i hs) 3 root va (lastVa va len) s h
    intro dir i _ _ s' hs
    unfold mapPagesHelper
    split
    · exact hs.of_pool _
    · exact hs.write (plain_join hflags _) dir i

/-- The range has no large leaf. -/
structure SmallRange (mem : Mem Word) (root start last : Nat) : Prop where
  tree : Tree shape mem 3 root
  range : WalkRange start last
  small : ∀ p ∈ visitsOf mem root start last, pteBig (mem p.table p.index) = false

theorem mprotect_visible {root va len : Nat} {perm : Word} (h : Visible s.mem)
    (hperm : Word.has perm permR = true ∨ SmallRange s.mem root va (lastVa va len)) :
    Visible (mprotect root va len perm s).1.mem := by
  unfold mprotect
  split
  · exact h
  · rcases hperm with hr | ⟨htree, hrange, hsmall⟩
    · exact @pageWalk_invariant _ _ _ (fun s => Visible s.mem)
        (fun dir i _ _ _ hs => hs.write (plain_protectWord (.inl hr)) dir i)
        (fun dir i _ hs => linkTable_visible dir i hs) 3 root va (lastVa va len) s h
    · have hcb := mprotectHelper_rewrites (σ := σ) (getPtePerm (effective perm))
      rw [hcb.may.walk_eq htree hrange]
      obtain ⟨hnew, hold⟩ := hcb.may.sweep (visitsOf_apart htree va (lastVa va len)) s
        (hcb.sweep_ok _ s)
      generalize visitsOf s.mem root va (lastVa va len) = visits at hnew hold hsmall ⊢
      intro t i
      by_cases hvisit : ∃ p ∈ visits, t = p.table ∧ i = p.index
      · obtain ⟨p, hp, rfl, rfl⟩ := hvisit
        rw [hnew p hp]
        exact plain_protectWord (.inr (hsmall p hp))
      · rw [hold t i fun p hp => by
          by_contra hboth
          simp only [not_or, ne_eq, not_not] at hboth
          exact hvisit ⟨p, hp, hboth⟩]
        exact h t i

/-! ## Sequences of calls -/

/-- The calls that change tables; a clone gives a new one. -/
inductive TableCall where
  | call (root : Nat) (op : VmOp)
  | clone (root : Nat)

/-- The machine after a call, unless the call ends the program. -/
def TableCall.run : TableCall → Vm σ → Option (Vm σ)
  | .call root op, s => some (op.run root s)
  | .clone root, s =>
      match vmClone root s with
      | (_, .abort) => none
      | (s, _) => some s

/-- Machines with tables. Before the first call no large entry is hidden, as
    when all memory is zero. -/
def tables (σ : Type) : System (Vm σ) TableCall where
  init := fun s => Visible s.mem
  step := fun s c => c.run s

/-- The call hides no large entry: it maps large pages and changes their
    protection with `PERM_R` only. -/
def TableCall.Shows (s : Vm σ) : TableCall → Prop
  | .call _ (.mapPhys _ _ _ perm) =>
      Word.has perm permBig = true ∨ Word.has perm permBig1gb = true → Word.has perm permR = true
  | .call root (.mprotect va len perm) =>
      Word.has perm permR = true ∨ SmallRange s.mem root va (lastVa va len)
  | _ => True

theorem TableCall.Shows.visible {c : TableCall} {s' : Vm σ} (hc : c.Shows s) (h : Visible s.mem)
    (hrun : c.run s = some s') : Visible s'.mem := by
  cases c with
  | call root op =>
    cases hrun
    cases op with
    | mapPhys va len pa perm => exact mapWalk_visible (plain_getPtePerm hc) _ root va len pa h
    | mapPages va len perm => exact mapPages_visible root va len perm h
    | unmap va len => exact freeHelper_visible 3 root va _ h
    | mprotect va len perm => exact mprotect_visible h hc
  | clone root =>
    have hclone := vmClone_visible root h
    rw [TableCall.run] at hrun
    split at hrun
    · cases hrun
    · rename_i hget
      cases hrun
      rw [hget] at hclone
      exact hclone

/-- **Lookup and walk agree** after every sequence of calls that hide no large
    entry: the walk over an address visits exactly the entry that the lookup
    finds, if it is not zero, and a lookup that may create tables leaves it as
    it is. -/
theorem lookup_walk_agree {s : Vm σ} (h : (tables σ).RunsTo (fun s c => c.Shows s) s)
    (root va t i : Nat) :
    (WalkVisits root va s t i ↔
      (vmLookup root va false s).2 = .entry t i ∧ s.mem t i ≠ 0#64) ∧
    (WalkVisits root va s t i → vmLookup root va true s = (s, .entry t i)) := by
  have hvisible : Visible s.mem :=
    @System.invariant_when _ _ _ _ (fun s => Visible s.mem) (fun _ h => h)
      (fun _ _ _ hs hc hrun => TableCall.Shows.visible hc hs hrun) _ h
  exact visible_agree hvisible root va t i

end

/-! ### A table with one large page -/

theorem lookup_walk_agree_large :
    WalkVisits 0x1000 0x5000 largeVm (page2pa 1) 0 ∧
      vmLookup 0x1000 0x5000 true largeVm = (largeVm, .entry (page2pa 1) 0) := by
  have hinit : (tables Unit).init bootVm := fun _ _ => plain_zero
  have hshows : TableCall.Shows bootVm
      (.call 0x1000 (.mapPhys 0 0x200000 0 (permR ||| permW ||| permBig))) := fun _ => by decide
  have hrun : (tables Unit).RunsTo (fun s c => c.Shows s) largeVm := .step (.init hinit) hshows rfl
  obtain ⟨hagree, hcreate⟩ := lookup_walk_agree hrun 0x1000 0x5000 (page2pa 1) 0
  have hvisit := hagree.mpr (by decide +kernel)
  exact ⟨hvisit, hcreate hvisit⟩

/-- The machine whose large page has lost all rights. -/
def hiddenVm : Vm Unit := after (mprotect 0x1000 0 0x200000 0#64 largeVm)

/-- A large page without rights: the walk visits its entry. The lookup finds
    none, and if it is to create one, it puts a table in its place. -/
theorem lookup_misses_large :
    WalkVisits 0x1000 0x5000 hiddenVm (page2pa 1) 0 ∧
    (vmLookup 0x1000 0x5000 false hiddenVm).2 = .enoent ∧
    hiddenVm.mem (page2pa 1) 0 = 0x8000000000000080#64 ∧
    (vmLookup 0x1000 0x5000 true hiddenVm).2 = .entry (page2pa 2) 5 ∧
    (vmLookup 0x1000 0x5000 true hiddenVm).1.mem (page2pa 1) 0 = tableEntry (page2pa 2) := by
  refine ⟨⟨0, 1, ?_⟩, by decide +kernel⟩
  intro cb
  have hroot : hiddenVm.mem 0x1000 0 = tableEntry (page2pa 0) := by decide +kernel
  have hupper : hiddenVm.mem (page2pa 0) 0 = tableEntry (page2pa 1) := by decide +kernel
  have hlarge : hiddenVm.mem (page2pa 1) 0 = 0x8000000000000080#64 := by decide +kernel
  generalize hiddenVm = s at hroot hupper hlarge ⊢
  have htable : ∀ pg < 2, isP (tableEntry (page2pa pg)) = true ∧
      tableOf (tableEntry (page2pa pg)) = page2pa pg := by decide
  rw [vmPageWalk, pageWalk_single, show pdx (2 + 1) 0x5000 = 0 by decide, hroot, if_neg (by decide),
    if_pos (htable 0 (by decide)).1, (htable 0 (by decide)).2, pageWalk_single,
    show pdx (1 + 1) 0x5000 = 0 by decide, hupper, if_neg (by decide),
    if_pos (htable 1 (by decide)).1, (htable 1 (by decide)).2, pageWalk_single,
    show pdx (0 + 1) 0x5000 = 0 by decide, hlarge, if_pos (by decide)]
  rfl

end Dune
