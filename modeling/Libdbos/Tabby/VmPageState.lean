import Mathlib.Logic.Function.Basic

/-! # The State Word of a Page

    `VMPageState` of `apps/tabby/tabby.cpp`: a word at the head of every
    page that holds the VM address of the page, a version and a state. The
    address is kept in 36 bits, the version in 20 and the state in 8.

    The operations here compute the word that an operation of the source
    stores or swaps in; the loads, stores and compare-exchanges are steps
    of the machines that use them.
-/

namespace Tabby

/-- A VM address without its lowest 12 and highest 16 bits; it names a page. -/
abbrev Pid := BitVec 36

/-- What is kept of `kTabbyInvalidAddr`. -/
def invalidAddr : Pid := 0xfffffffff#36

structure VmPageState where
  addr : Pid
  version : BitVec 20
  state : BitVec 8
  deriving DecidableEq, Repr

namespace VmPageState

/-! ## States -/

def unlocked : BitVec 8 := 0#8

def maxShared : BitVec 8 := 252#8

def locked : BitVec 8 := 253#8

def marked : BitVec 8 := 254#8

def evicted : BitVec 8 := 255#8

/-! ## Operations -/

section

variable (v : VmPageState)

def sameVersion (state : BitVec 8) : VmPageState := { v with state := state }

def nextVersion (addr : Pid) (state : BitVec 8) : VmPageState :=
  { addr := addr, version := v.version + 1, state := state }

/-- What `tryLockX` swaps in for `v`. -/
def lockX : VmPageState := v.nextVersion v.addr locked

def unlockX : VmPageState := v.nextVersion v.addr unlocked

def unlockXInvalidated : VmPageState := v.nextVersion invalidAddr unlocked

/-- What `tryLockS` swaps in for `v`, if it tries. -/
def lockS : Option VmPageState :=
  if v.state < maxShared then some (v.sameVersion (v.state + 1))
  else if v.state = marked then some (v.sameVersion 1#8)
  else none

def unlockS : VmPageState := v.sameVersion (v.state - 1)

/-- What `tryMark` swaps in for `v`. -/
def mark : VmPageState := v.sameVersion marked

/-- What a `GuardO` swaps in for a marked `v`. -/
def clearMark : VmPageState := v.sameVersion unlocked

/-- The exclusive lock is only tried on these words. -/
def lockable : Bool := decide (v.state = unlocked) || decide (v.state = marked)

end

end VmPageState

/-! ## Counting readers -/

/-- The state of a word counts the readers; a mark is only on a page
    without readers. -/
def CountsReaders (readers : List Nat) (state : BitVec 8) : Prop :=
  (state.toNat = readers.length ∧ readers.length ≤ 252) ∨
  (readers = [] ∧ state = VmPageState.marked)

theorem CountsReaders.nil_of_lockable {readers : List Nat} {v : VmPageState}
    (h : CountsReaders readers v.state) (hlock : v.lockable = true) : readers = [] := by
  simp only [VmPageState.lockable, Bool.or_eq_true, decide_eq_true_eq] at hlock
  rcases h with ⟨hcount, hle⟩ | ⟨hnil, _⟩
  · rcases hlock with hlock | hlock
    · rw [hlock] at hcount
      exact List.length_eq_zero_iff.1 hcount.symm
    · rw [hlock] at hcount
      have : (254 : Nat) = readers.length := hcount
      omega
  · exact hnil

theorem countsReaders_nil : CountsReaders [] VmPageState.unlocked := .inl ⟨rfl, Nat.zero_le _⟩

theorem CountsReaders.lockS {readers : List Nat} {v w : VmPageState}
    (h : CountsReaders readers v.state) (hlock : v.lockS = some w) (t : Nat) :
    w.addr = v.addr ∧ w.version = v.version ∧ CountsReaders (t :: readers) w.state := by
  unfold VmPageState.lockS at hlock
  split at hlock
  · rename_i hlt
    cases hlock
    refine ⟨rfl, rfl, .inl ?_⟩
    have hlt' : v.state.toNat < 252 := hlt
    rcases h with ⟨hcount, _⟩ | ⟨_, hmarked⟩
    · have hadd : (v.state + 1).toNat = v.state.toNat + 1 := by
        rw [BitVec.toNat_add]
        exact Nat.mod_eq_of_lt (by simp; omega)
      exact ⟨by simp only [VmPageState.sameVersion, hadd, hcount, List.length_cons],
        by rw [List.length_cons]; omega⟩
    · rw [hmarked] at hlt'
      exact absurd hlt' (by decide)
  · split at hlock
    · rename_i hmarked
      cases hlock
      rcases h with ⟨hcount, hle⟩ | ⟨hnil, _⟩
      · rw [hmarked] at hcount
        have : (254 : Nat) = readers.length := hcount
        omega
      · subst hnil
        exact ⟨rfl, rfl, .inl ⟨rfl, Nat.le_of_ble_eq_true rfl⟩⟩
    · cases hlock

theorem CountsReaders.unlockS {readers : List Nat} {v : VmPageState} {t : Nat}
    (h : CountsReaders readers v.state) (ht : t ∈ readers) :
    CountsReaders (readers.erase t) v.unlockS.state := by
  have hpos := List.length_pos_of_mem ht
  have herase := List.length_erase_of_mem ht
  rcases h with ⟨hcount, hle⟩ | ⟨hnil, _⟩
  · refine .inl ⟨?_, by omega⟩
    have hsub : (v.state - 1).toNat = v.state.toNat - 1 := by
      rw [BitVec.toNat_sub_of_le]
      · rfl
      · rw [BitVec.le_def]
        simp
        omega
    simp only [VmPageState.unlockS, VmPageState.sameVersion, hsub, hcount, herase]
  · rw [hnil] at ht
    cases ht

end Tabby
