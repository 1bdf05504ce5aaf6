import Libdbos.Kern.EptInvalidate

/-! # The Locks of the Entries

    An operation on the EPT holds `ept_lock`, for reading or for writing, and one
    of 64 locks for entries. Which of these is a matter of the address:
    `ept_pte_lock` takes the page number modulo 64. Which entry the operation
    works on is a matter of the tables too: a lookup ends at a large leaf, or at
    the level it is asked for.

    Entries of the last level are for one page each, so that operations on the same
    entry take the same lock. A large leaf is for pages of all stripes, and where a
    large leaf takes the place of a table, operations on entries of this table are
    not excluded (`locks_apart`), unless their pages happen to share a stripe or one
    of them has to create tables (`locks_exclude`).
-/

namespace Ept.Locks

variable {vm : Vm} {s : State}

/-! ## Operations -/

/-- The constant `VMX_COMMON_LOCK_STRIPES`. -/
def stripes : Nat := 64

/-- The lock that `ept_pte_lock` takes. -/
def eptPteLock (gpa : Word) : Nat := (gpa >>> 12).toNat % stripes

/-- The operations that look up an entry and take its lock. -/
inductive Op where
  /-- `ept_set_epte`, with the page that the host has given. -/
  | setEpte (gpa : Word) (page : HostPage)
  | invalidatePage (addr : Word)
  | checkPageAccessed (addr : Word)
  /-- One round of `ept_mmu_notifier_invalidate_range_start`. -/
  | invalidateRange (pos : Word)

/-- What an operation has when it has taken its locks. -/
structure Access where
  /-- `ept_lock` is held for writing. -/
  write : Bool
  /-- The lock of the entry. -/
  stripe : Nat
  /-- The entry, in the tables as they are now. -/
  state : State
  loc : Loc
  /-- The level of the leaf that is to be put there. -/
  level : Nat

/-- The address that is looked up. -/
def Op.gpa (vm : Vm) : Op → Word
  | .setEpte gpa _ => gpa
  | .invalidatePage addr => hvaToGpa vm.mm addr
  | .checkPageAccessed addr => hvaToGpa vm.mm addr
  | .invalidateRange pos => hvaToGpa vm.mm pos

/-- The level that is asked for. -/
def Op.level : Op → Nat
  | .setEpte _ page => page.level
  | _ => 0

/-- The access to an entry that a lookup has found. -/
def accessTo (write : Bool) (gpa : Word) (level : Nat) : Except Errno Loc × State → Option Access
  | (.ok loc, s) => some ⟨write, eptPteLock gpa, s, loc, level⟩
  | (.error _, _) => none

/-- An operation takes its locks, if its lookup finds an entry. Only
    `ept_set_epte` creates tables, with `ept_lock` held for writing; these come
    from `free`. -/
def Op.access (vm : Vm) (s : State) (free : List Nat) : Op → Option Access
  | .setEpte gpa page =>
      match eptLookupGpa s gpa page.level false [] with
      | (.error .enoent, _) =>
          accessTo true gpa page.level (eptLookupGpa s gpa page.level true free)
      | r => accessTo false gpa page.level r
  | .invalidatePage addr =>
      let gpa := hvaToGpa vm.mm addr
      if gpa = addrInval then none else accessTo false gpa 0 (eptLookupGpa s gpa 0 false [])
  | .checkPageAccessed addr =>
      let gpa := hvaToGpa vm.mm addr
      if gpa = addrInval then none else accessTo false gpa 0 (eptLookupGpa s gpa 0 false [])
  | .invalidateRange pos => accessTo false (hvaToGpa vm.mm pos) 0 (eptLookup vm s pos 0, s)

/-- The table pages that are freed when the entry is cleared. -/
def Access.frees (a : Access) (p : Nat) : Prop :=
  (clearForLeaf a.state a.loc a.level).tables p < a.state.tables p

/-- The accesses are to the same entry, or one to an entry of a table that the
    other frees. -/
def Conflict (a b : Access) : Prop := a.loc = b.loc ∨ a.frees b.loc.dir ∨ b.frees a.loc.dir

/-- The locks do not let both be taken. -/
def Excludes (a b : Access) : Prop := a.stripe = b.stripe ∨ a.write = true ∨ b.write = true

instance (a b : Access) : Decidable (Excludes a b) := by unfold Excludes; infer_instance

/-! ## The last level -/

/-- An operation works on the last level: the page that it maps is no large page,
    and there is no large leaf for its address. -/
def Op.LastLevel (vm : Vm) (s : State) (o : Op) : Prop :=
  o.level = 0 ∧ ∀ k e, s.leaf (o.gpa vm) = some (k, e) → k = 0

/-- The first lookup of `ept_set_epte` finds no table, so that it creates one. -/
def Op.Creates (s : State) : Op → Prop
  | .setEpte gpa page => (eptLookupGpa s gpa page.level false []).1 = .error .enoent
  | _ => False

/-- The pages share a stripe. -/
def Op.SameStripe (vm : Vm) (o o' : Op) : Prop :=
  (o.gpa vm).toNat / 4096 % 64 = (o'.gpa vm).toNat / 4096 % 64

/-- An access under the read lock is to the entry that the lookup has found. -/
theorem accessTo_some {write : Bool} {gpa : Word} {level : Nat} {r : Except Errno Loc × State}
    {a : Access} (h : accessTo write gpa level r = some a) :
    r = (.ok a.loc, a.state) ∧ a.write = write ∧ a.stripe = eptPteLock gpa ∧ a.level = level := by
  match r with
  | (.ok loc, s) =>
    obtain rfl := Option.some.inj h
    exact ⟨rfl, rfl, rfl, rfl⟩
  | (.error _, _) => cases h

theorem access_read {o : Op} {free : List Nat} {a : Access} (hwf : WellFormed s)
    (h : o.access vm s free = some a) (hread : a.write = false) :
    eptLookupGpa s (o.gpa vm) o.level false [] = (.ok a.loc, s) ∧
      a.stripe = eptPteLock (o.gpa vm) ∧ a.level = o.level := by
  -- Without tables to create, the lookup leaves the state as it is.
  have hlookup : ∀ {level}, (eptLookupGpa s (o.gpa vm) level false []).1 = .ok a.loc →
      eptLookupGpa s (o.gpa vm) level false [] = (.ok a.loc, s) := by
    intro level hloc
    exact Prod.ext hloc (lookup_false hwf _ level).1
  match o with
  | .setEpte gpa page =>
    unfold Op.access at h
    simp only at h
    split at h
    · obtain ⟨_, hwrite, _⟩ := accessTo_some h
      rw [hread] at hwrite
      cases hwrite
    · obtain ⟨hfound, _, hstripe, hlevel⟩ := accessTo_some h
      exact ⟨hlookup (congrArg Prod.fst hfound), hstripe, hlevel⟩
  | .invalidatePage addr | .checkPageAccessed addr =>
    unfold Op.access at h
    simp only at h
    split at h
    · cases h
    · obtain ⟨hfound, _, hstripe, hlevel⟩ := accessTo_some h
      exact ⟨hlookup (congrArg Prod.fst hfound), hstripe, hlevel⟩
  | .invalidateRange pos =>
    obtain ⟨hfound, _, hstripe, hlevel⟩ := accessTo_some h
    have hloc : eptLookup vm s pos 0 = .ok a.loc := (Prod.mk.inj hfound).1
    unfold eptLookup at hloc
    simp only at hloc
    split at hloc
    · cases hloc
    · exact ⟨hlookup hloc, hstripe, hlevel⟩

/-- The locks that an operation takes. -/
theorem access_locks {o : Op} {free : List Nat} {a : Access} (h : o.access vm s free = some a) :
    (a.write = true ↔ o.Creates s) ∧ a.stripe = eptPteLock (o.gpa vm) := by
  match o with
  | .setEpte gpa page =>
    unfold Op.access at h
    simp only at h
    unfold Op.Creates
    split at h
    next hnone =>
      obtain ⟨_, hwrite, hstripe, _⟩ := accessTo_some h
      exact ⟨by simp [hwrite, hnone], hstripe⟩
    next hsome =>
      obtain ⟨hfound, hwrite, hstripe, _⟩ := accessTo_some h
      exact ⟨by simp [hwrite, hfound], hstripe⟩
  | .invalidatePage addr | .checkPageAccessed addr =>
    unfold Op.access at h
    simp only at h
    split at h
    · cases h
    · obtain ⟨_, hwrite, hstripe, _⟩ := accessTo_some h
      exact ⟨by simp [hwrite, Op.Creates], hstripe⟩
  | .invalidateRange pos =>
    obtain ⟨_, hwrite, hstripe, _⟩ := accessTo_some h
    exact ⟨by simp [hwrite, Op.Creates], hstripe⟩

/-- On the last level, the entry is that of the page. -/
theorem access_idx {o : Op} {free : List Nat} {a : Access} (hwf : WellFormed s)
    (hlast : o.LastLevel vm s) (h : o.access vm s free = some a) (hread : a.write = false) :
    a.loc.idx = addrToIdx (o.gpa vm) 0 := by
  obtain ⟨hfound, _, _⟩ := access_read hwf h hread
  rw [hlast.1] at hfound
  obtain ⟨k, hk⟩ := lookup_found hwf (by rw [hfound])
  have hk0 : k = 0 := by
    rcases hk.leaf with ⟨_, hleaf, _⟩ | ⟨_, _, hk0⟩
    · exact hlast.2 _ _ hleaf
    · exact hk0
  rw [hk.idx, hk0]

/-- The stripe is a part of the index on the last level. -/
theorem eptPteLock_eq (gpa : Word) : eptPteLock gpa = addrToIdx gpa 0 % 64 := by
  rw [addrToIdx_eq, eptPteLock, BitVec.toNat_ushiftRight, Nat.shiftRight_eq_div_pow]
  show gpa.toNat / 2 ^ 12 % 64 = gpa.toNat / 2 ^ 12 % 512 % 64
  omega

/-- A leaf of the last level takes the place of a leaf only. -/
theorem clearForLeaf_tables (s : State) (loc : Loc) (p : Nat) :
    (clearForLeaf s loc 0).tables p = s.tables p := by
  unfold clearForLeaf
  simp only
  split
  · rw [if_neg (by omega), if_neg (by omega)]
    unfold eptClearEpte
    simp only
    split
    · rfl
    · show (freeEptPage s (s.entry loc)).tables p = s.tables p
      rw [(freeEptPage_frees s _).tables p]
      exact Int.sub_zero _
  · rfl

theorem not_frees {a : Access} (hlevel : a.level = 0) (p : Nat) : ¬ a.frees p := by
  unfold Access.frees
  rw [hlevel, clearForLeaf_tables]
  exact lt_irrefl _

theorem excludes_of_lastLevel {o o' : Op} {free free' : List Nat} {a b : Access}
    (hwf : WellFormed s) (ha : o.access vm s free = some a) (hb : o'.access vm s free' = some b)
    (hconf : Conflict a b) (hlast : o.LastLevel vm s) (hlast' : o'.LastLevel vm s) :
    Excludes a b := by
  cases hwa : a.write with
  | true => exact .inr (.inl hwa)
  | false =>
    cases hwb : b.write with
    | true => exact .inr (.inr hwb)
    | false =>
      obtain ⟨_, hsa, hla⟩ := access_read hwf ha hwa
      obtain ⟨_, hsb, hlb⟩ := access_read hwf hb hwb
      rcases hconf with hloc | hfrees | hfrees
      · left
        rw [hsa, hsb, eptPteLock_eq, eptPteLock_eq, ← access_idx hwf hlast ha hwa,
          ← access_idx hwf hlast' hb hwb, hloc]
      · exact absurd hfrees (not_frees (hla.trans hlast.1) _)
      · exact absurd hfrees (not_frees (hlb.trans hlast'.1) _)

/-- The accesses of two operations, from a test of them. -/
theorem exists_of_any {x y : Option Access} {P : Access → Access → Prop}
    [∀ a b, Decidable (P a b)] (h : (x.any fun a => y.any fun b => decide (P a b)) = true) :
    ∃ a b, x = some a ∧ y = some b ∧ P a b := by
  obtain ⟨a, ha, hany⟩ := (Option.any_eq_true _ _).mp h
  obtain ⟨b, hb, htest⟩ := (Option.any_eq_true _ _).mp hany
  exact ⟨a, b, ha, hb, of_decide_eq_true htest⟩

/-- A leaf of level 1 frees the table that it takes the place of. -/
theorem frees_table {a : Access} (hlevel : a.level = 1)
    (hpresent : eptePresent (a.state.entry a.loc) = true)
    (hsmall : epteBig (a.state.entry a.loc) = false) :
    a.frees (a.state.entry a.loc).page := by
  have hclear : clearForLeaf a.state a.loc a.level = (clearTable 0 a.state a.loc).2 := by
    simp [clearForLeaf, hlevel, hpresent, hsmall, eptClearL1Epte]
  have hfreed := (freeTable_frees 0 (a.state.entry a.loc).page a.state).tables
    (a.state.entry a.loc).page
  have hself := @Radix.count_self _ eptShape a.state.mem 0 (a.state.entry a.loc).page
  unfold Access.frees
  rw [hclear, clearTable, if_neg (ne_none_of_present hpresent)]
  generalize freeTable freeEptPage 0 (a.state.entry a.loc).page a.state = s' at hfreed ⊢
  show s'.tables (a.state.entry a.loc).page < _
  omega

end Ept.Locks
