import Mathlib.Data.List.Basic

/-! # Reference Counts against a Census

    Resources with a reference count and a list of those that are free, next
    to a census: how many users each resource really has. The counts are
    exact where there is a user, and the free list holds unused resources
    once.

    Some resources are set apart (`apart`): their counts are changed for
    other reasons, they are listed at will, and the census must not count
    users for them.

    * `countP_update`: a census of the entries of a table, when one entry
      changes;
    * `Exact`: the invariant;
    * `Exact.share`, `Exact.recount`, `Exact.take`, `Exact.settle`, `Exact.leave`:
      new users of a used resource, a count set apart that changes, a
      resource taken from the list, its first user, and a user that goes.
-/

namespace Census

variable {α : Type} [DecidableEq α]

/-! ## Counting entries -/

/-- When one entry of a table changes, the census changes by the old and the
    new entry. -/
theorem countP_update {ι β : Type} [DecidableEq ι] {xs : List ι} (hnodup : xs.Nodup) {i : ι}
    (hi : i ∈ xs) (tbl : ι → β) (b : β) (q : β → Bool) :
    (xs.countP fun j => q (Function.update tbl i b j)) + (if q (tbl i) then 1 else 0) =
      (xs.countP fun j => q (tbl j)) + if q b then 1 else 0 := by
  induction xs with
  | nil => simp at hi
  | cons x xs ih =>
    obtain ⟨hx, hnodup⟩ := List.nodup_cons.mp hnodup
    simp only [List.countP_cons]
    by_cases hxi : x = i
    · subst hxi
      have hrest : (xs.countP fun j => q (Function.update tbl x b j)) =
          xs.countP fun j => q (tbl j) := by
        apply List.countP_congr
        intro j hj
        have hjx : j ≠ x := by
          rintro rfl
          exact hx hj
        rw [Function.update_of_ne hjx]
      rw [hrest, Function.update_self]
      omega
    · have hi' : i ∈ xs := (List.mem_cons.mp hi).resolve_left (Ne.symm hxi)
      have hrest := ih hnodup hi'
      rw [Function.update_of_ne hxi]
      omega

/-! ## Exact counts -/

/-- The counts agree with the census on the resources that `managed` names. -/
structure Exact (managed apart : α → Prop) (ref users : α → Nat) (free : List α) : Prop where
  counted : ∀ f, managed f → 0 < users f → ref f = users f
  regular : ∀ f, managed f → 0 < users f → ¬ apart f
  unused : ∀ p ∈ free, ¬ apart p → ref p = 0
  once : ∀ p, ¬ apart p → free.count p ≤ 1

variable {managed apart : α → Prop} {ref users users' : α → Nat} {free : List α} {f p : α}

/-! ## Listed resources -/

/-- A resource with a user is not listed. -/
theorem Exact.not_listed (h : Exact managed apart ref users free) (hf : managed f)
    (hused : 0 < users f) : f ∉ free := by
  intro hfree
  have hzero := h.unused f hfree (h.regular f hf hused)
  rw [h.counted f hf hused] at hzero
  omega

/-! ## Changes -/

/-- Only managed resources matter to the census. -/
theorem Exact.congr (h : Exact managed apart ref users free)
    (husers : ∀ g, managed g → users' g = users g) : Exact managed apart ref users' free where
  counted g hg hused := by
    rw [husers g hg] at hused ⊢
    exact h.counted g hg hused
  regular g hg hused := by
    rw [husers g hg] at hused
    exact h.regular g hg hused
  unused := h.unused
  once := h.once

/-- A resource in use gets `n` more users, all of them counted. -/
theorem Exact.share (h : Exact managed apart ref users free) (hf : managed f)
    (hused : 0 < users f) (n : Nat)
    (husers : ∀ g, managed g → users' g = users g + if g = f then n else 0) :
    Exact managed apart (Function.update ref f (ref f + n)) users' free where
  counted g hg hg' := by
    rw [husers g hg] at hg' ⊢
    by_cases hgf : g = f
    · subst hgf
      rw [Function.update_self, if_pos rfl, h.counted g hg hused]
    · rw [if_neg hgf, Nat.add_zero] at hg' ⊢
      rw [Function.update_of_ne hgf]
      exact h.counted g hg hg'
  regular g hg hg' := by
    by_cases hgf : g = f
    · subst hgf
      exact h.regular g hg hused
    · rw [husers g hg, if_neg hgf, Nat.add_zero] at hg'
      exact h.regular g hg hg'
  unused p hp hapart := by
    have hpf : p ≠ f := by
      rintro rfl
      exact h.not_listed hf hused hp
    rw [Function.update_of_ne hpf]
    exact h.unused p hp hapart
  once := h.once

/-- The count of a resource set apart is free to change. -/
theorem Exact.recount (h : Exact managed apart ref users free) (hf : apart f) (n : Nat) :
    Exact managed apart (Function.update ref f n) users free where
  counted g hg hused := by
    have hgf : g ≠ f := by
      rintro rfl
      exact h.regular g hg hused hf
    rw [Function.update_of_ne hgf]
    exact h.counted g hg hused
  regular := h.regular
  unused p hp hapart := by
    have hpf : p ≠ f := by
      rintro rfl
      exact hapart hf
    rw [Function.update_of_ne hpf]
    exact h.unused p hp hapart
  once := h.once

/-- A listed resource is taken; nobody uses it yet. -/
theorem Exact.take (h : Exact managed apart ref users free) (hp : p ∈ free) (n : Nat) :
    Exact managed apart (Function.update ref p n) users (free.erase p) where
  counted g hg hused := by
    have hgp : g ≠ p := by
      rintro rfl
      exact h.not_listed hg hused hp
    rw [Function.update_of_ne hgp]
    exact h.counted g hg hused
  regular := h.regular
  unused q hq hapart := by
    have hqp : q ≠ p := by
      -- A second occurrence would have been listed twice.
      rintro rfl
      have hcount := h.once q hapart
      have hleft : 0 < (free.erase q).count q := List.count_pos_iff.mpr hq
      rw [List.count_erase_self] at hleft
      omega
    rw [Function.update_of_ne hqp]
    exact h.unused q (List.mem_of_mem_erase hq) hapart
  once q hapart := by
    have hle : (free.erase p).count q ≤ free.count q := List.Sublist.count_le q List.erase_sublist
    exact Nat.le_trans hle (h.once q hapart)

/-- The list after a count of `f` has been dropped: a resource without
    references is listed. -/
def relisted (ref : α → Nat) (f : α) (free : List α) : List α :=
  if ref f = 1 then f :: free else free

/-- A resource that has been taken gets the user it was taken for. -/
theorem Exact.settle (h : Exact managed apart ref users free) (hp : ¬ apart p) (hone : ref p = 1)
    (hnone : users p = 0)
    (husers : ∀ g, managed g → users' g = users g + if g = p then 1 else 0) :
    Exact managed apart ref users' free where
  counted g hg hused := by
    rw [husers g hg] at hused ⊢
    by_cases hgp : g = p
    · subst hgp
      rw [if_pos rfl]
      omega
    · rw [if_neg hgp, Nat.add_zero] at hused ⊢
      exact h.counted g hg hused
  regular g hg hused := by
    by_cases hgp : g = p
    · exact hgp ▸ hp
    · rw [husers g hg, if_neg hgp, Nat.add_zero] at hused
      exact h.regular g hg hused
  unused := h.unused
  once := h.once

/-- A user leaves a resource and drops its reference. -/
theorem Exact.leave (h : Exact managed apart ref users free) (hf : managed f)
    (hused : 0 < users f)
    (husers : ∀ g, managed g → users' g + (if g = f then 1 else 0) = users g) :
    Exact managed apart (Function.update ref f (ref f - 1)) users' (relisted ref f free) := by
  have hcount := h.counted f hf hused
  have hnot := h.not_listed hf hused
  refine ⟨fun g hg hused' => ?_, fun g hg hused' => ?_, fun q hq hapart => ?_, fun q hapart => ?_⟩
  · have hg' := husers g hg
    by_cases hgf : g = f
    · subst hgf
      rw [if_pos rfl] at hg'
      rw [Function.update_self]
      omega
    · rw [if_neg hgf, Nat.add_zero] at hg'
      rw [Function.update_of_ne hgf, hg']
      exact h.counted g hg (hg' ▸ hused')
  · have hg' := husers g hg
    exact h.regular g hg (by omega)
  · by_cases hqf : q = f
    · subst hqf
      rw [Function.update_self]
      unfold relisted at hq
      split at hq
      · omega
      · exact absurd hq hnot
    · rw [Function.update_of_ne hqf]
      have hq' : q ∈ free := by
        unfold relisted at hq
        split at hq
        · exact (List.mem_cons.mp hq).resolve_left hqf
        · exact hq
      exact h.unused q hq' hapart
  · unfold relisted
    split
    · by_cases hqf : q = f
      · subst hqf
        have hzero : free.count q = 0 := List.count_eq_zero.mpr hnot
        rw [List.count_cons_self]
        omega
      · rw [List.count_cons_of_ne (Ne.symm hqf)]
        exact h.once q hapart
    · exact h.once q hapart

end Census
