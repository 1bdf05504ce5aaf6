import Mathlib.Data.List.Basic
import Mathlib.Logic.Function.Basic

/-! # Items in Places

    A family of places, each with a list of the items it holds. `total` counts
    how often an item is held by any place of a list. When the list of one place
    is replaced, the totals change by the old and the new list
    (`total_update`); every law about items that move follows from this.
-/

namespace Places

variable {ι α : Type} [DecidableEq α] {is : List ι} {i : ι}

/-- How often the places `is` hold item `x`. -/
def total (is : List ι) (f : ι → List α) (x : α) : Nat := (is.flatMap f).count x

theorem total_cons (f : ι → List α) (x : α) :
    total (i :: is) f x = (f i).count x + total is f x := by
  rw [total, total, List.flatMap_cons, List.count_append]

/-- Only the places that are counted matter. -/
theorem total_congr {f g : ι → List α} (h : ∀ j ∈ is, f j = g j) (x : α) :
    total is f x = total is g x := by
  rw [total, total, List.flatMap_congr h]

/-- Places without items hold nothing. -/
theorem total_eq_zero {f : ι → List α} (h : ∀ j ∈ is, f j = []) (x : α) : total is f x = 0 := by
  rw [total, List.flatMap_eq_nil_iff.mpr h, List.count_nil]

/-- A place holds no more than all of them. -/
theorem count_le_total (hi : i ∈ is) (f : ι → List α) (x : α) : (f i).count x ≤ total is f x := by
  induction is with
  | nil => exact absurd hi List.not_mem_nil
  | cons j is ih =>
    rw [total_cons]
    rcases List.mem_cons.mp hi with rfl | hi
    · exact Nat.le_add_right _ _
    · exact Nat.le_trans (ih hi) (Nat.le_add_left _ _)

theorem exists_of_total_pos {f : ι → List α} {x : α} (h : 0 < total is f x) :
    ∃ j ∈ is, x ∈ f j := List.mem_flatMap.mp (List.count_pos_iff.mp h)

variable [DecidableEq ι]

/-- **One place gets a new list**: the totals change by the old and the new one. -/
theorem total_update (hnodup : is.Nodup) (hi : i ∈ is) (f : ι → List α) (new : List α) (x : α) :
    total is (Function.update f i new) x + (f i).count x = total is f x + new.count x := by
  induction is with
  | nil => exact absurd hi List.not_mem_nil
  | cons j is ih =>
    obtain ⟨hj, hnodup⟩ := List.nodup_cons.mp hnodup
    rw [total_cons, total_cons]
    by_cases hij : i = j
    · subst hij
      have hsame : total is (Function.update f i new) x = total is f x := by
        refine total_congr (fun k hk => ?_) x
        have hki : k ≠ i := by
          rintro rfl
          exact hj hk
        exact Function.update_of_ne hki _ _
      rw [hsame, Function.update_self]
      omega
    · have hrest := ih hnodup ((List.mem_cons.mp hi).resolve_left hij)
      rw [Function.update_of_ne (Ne.symm hij)]
      omega

/-- Two places hold no more than all of them. -/
theorem count_add_count_le {j : ι} (hnodup : is.Nodup) (hi : i ∈ is) (hj : j ∈ is) (hne : i ≠ j)
    (f : ι → List α) (x : α) : (f i).count x + (f j).count x ≤ total is f x := by
  have hupdate := total_update hnodup hi f [] x
  have hle := count_le_total hj (Function.update f i []) x
  rw [Function.update_of_ne hne.symm] at hle
  rw [List.count_nil] at hupdate
  omega

end Places
