import Mathlib.Algebra.BigOperators.Group.Finset.Piecewise
import Mathlib.Data.Int.CardIntervalMod

/-! # Windows of a Ring

    The places `0, …, n - 1` of a ring are gone through one after another,
    in windows of any length that follow each other.

    * `hits n f pos k`: how often a window of `k` places that starts at `pos`
      meets `f`; `hits_succ` and `hits_add` take it apart.
    * `hits_zero_eq`: the closed form for a window that starts at `0`, by which
      two places differ by at most one (`hits_le_hits_add_one`).
    * `sum_update`: a sum over workers when one of them changes.
-/

namespace Rotation

open Finset

/-- How often the `k` places after `pos`, itself included, are the place `f`
    of a ring of `n` places. -/
def hits (n f pos k : Nat) : Nat := Nat.count (fun j => (pos + j) % n = f) k

variable {n : Nat}

@[simp] theorem hits_none (f pos : Nat) : hits n f pos 0 = 0 := Nat.count_zero _

/-- Only where a window starts in the ring matters. -/
theorem hits_mod (f pos k : Nat) : hits n f (pos % n) k = hits n f pos k := by
  unfold hits
  simp only [Nat.mod_add_mod]

/-- The first place of a window, and the rest. -/
theorem hits_succ (f pos k : Nat) :
    hits n f pos (k + 1) = hits n f ((pos + 1) % n) k + if pos % n = f then 1 else 0 := by
  rw [hits_mod, hits, Nat.count_succ', hits, Nat.add_zero]
  simp only [Nat.add_assoc, Nat.add_comm 1]

/-- A window that follows another one. -/
theorem hits_add (f pos k l : Nat) :
    hits n f pos (k + l) = hits n f pos k + hits n f ((pos + k) % n) l := by
  rw [hits_mod, hits, Nat.count_add, hits, hits]
  simp only [Nat.add_assoc]

/-- The places of the ring are met in turn. -/
theorem hits_zero_eq {f : Nat} (hf : f < n) (k : Nat) :
    hits n f 0 k = k / n + if f < k % n then 1 else 0 := by
  have hcount : hits n f 0 k = Nat.count (· ≡ f [MOD n]) k := by
    unfold hits Nat.ModEq
    simp only [Nat.zero_add, Nat.mod_eq_of_lt hf]
  rw [hcount, Nat.count_modEq_card k (Nat.zero_lt_of_lt hf), Nat.mod_eq_of_lt hf]

/-- No place is two visits ahead of another one. -/
theorem hits_le_hits_add_one {f g : Nat} (hf : f < n) (hg : g < n) (k : Nat) :
    hits n f 0 k ≤ hits n g 0 k + 1 := by
  rw [hits_zero_eq hf, hits_zero_eq hg]
  split <;> split <;> omega

/-- Every place that a window goes through is a place of the ring. -/
theorem sum_hits (hn : 0 < n) (pos k : Nat) : ∑ f ∈ range n, hits n f pos k = k := by
  induction k generalizing pos with
  | zero => simp
  | succ k ih =>
    have hone : ∑ f ∈ range n, (if pos % n = f then 1 else 0) = 1 := by
      rw [Finset.sum_ite_eq, if_pos (Finset.mem_range.mpr (Nat.mod_lt pos hn))]
    simp only [hits_succ, Finset.sum_add_distrib, ih, hone]

/-- When one worker changes, the sum changes by what it was and what it is. -/
theorem sum_update {ι β : Type} [Fintype ι] [DecidableEq ι] (tbl : ι → β) (i : ι) (b : β)
    (g : β → Nat) :
    ∑ j, g (Function.update tbl i b j) + g (tbl i) = ∑ j, g (tbl j) + g b := by
  have hrest : ∑ j ∈ univ.erase i, g (Function.update tbl i b j) =
      ∑ j ∈ univ.erase i, g (tbl j) := by
    apply Finset.sum_congr rfl
    intro j hj
    rw [Function.update_of_ne (Finset.ne_of_mem_erase hj)]
  rw [← Finset.add_sum_erase univ _ (Finset.mem_univ i), hrest, Function.update_self,
    ← Finset.add_sum_erase univ (fun j => g (tbl j)) (Finset.mem_univ i)]
  omega

end Rotation
