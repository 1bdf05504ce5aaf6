import Mathlib.Logic.Function.Basic

/-! # Loops with an Early Exit

    A loop runs a body on the items of a list, one after another, and stops
    at the first result that is not the good one. This is the shape of C
    loops whose body ends with `if (ret) return ret;`.

    * `sweep_invariant` is the invariant rule, `sweep_progress` the one for
      invariants that speak about the items still to come;
    * `sweep_flatMap` replaces the body by a loop of its own: nested loops
      are one loop over the concatenated items.
-/

namespace Sweep

variable {α β S R : Type} [DecidableEq R] (ok : R)

/-- The loop over a list of items. -/
def sweep (body : α → S → S × R) : List α → S → S × R
  | [], s => (s, ok)
  | a :: rest, s =>
      let r := body a s
      if r.2 = ok then sweep body rest r.1 else r

variable {ok} {body : α → S → S × R} {a : α} {s : S} {xs ys : List α}

@[simp] theorem sweep_nil : sweep ok body [] s = (s, ok) := rfl

theorem sweep_cons : sweep ok body (a :: xs) s =
    if (body a s).2 = ok then sweep ok body xs (body a s).1 else body a s := rfl

@[simp] theorem sweep_singleton : sweep ok body [a] s = body a s := by
  rw [sweep_cons]
  split
  · rename_i h
    rw [sweep_nil, ← h]
  · rfl

/-- A loop over two lists goes on to the second one if the first has not
    stopped it. -/
theorem sweep_append : ∀ s, sweep ok body (xs ++ ys) s =
    if (sweep ok body xs s).2 = ok then sweep ok body ys (sweep ok body xs s).1
    else sweep ok body xs s := by
  induction xs with
  | nil =>
    intro s
    simp
  | cons a xs ih =>
    intro s
    rw [List.cons_append, sweep_cons, sweep_cons]
    by_cases h : (body a s).2 = ok
    · rw [if_pos h, if_pos h, ih]
    · rw [if_neg h, if_neg h, if_neg h]

/-- **Invariant rule**: what the body keeps for every item, the loop keeps. -/
theorem sweep_invariant {Inv : S → Prop} (hbody : ∀ a ∈ xs, ∀ s, Inv s → Inv (body a s).1) :
    ∀ s, Inv s → Inv (sweep ok body xs s).1 := by
  induction xs with
  | nil =>
    intro s h
    exact h
  | cons a xs ih =>
    intro s h
    have hone := hbody a List.mem_cons_self s h
    rw [sweep_cons]
    split
    · exact ih (fun b hb => hbody b (List.mem_cons_of_mem a hb)) _ hone
    · exact hone

/-- A result is the good one, in a state with `Good`, or `Stop` holds of it. -/
def Ends (ok : R) (Good : S → Prop) (Stop : S × R → Prop) (r : S × R) : Prop :=
  if r.2 = ok then Good r.1 else Stop r

theorem Ends.good {Good : S → Prop} {Stop : S × R → Prop} {r : S × R} (h : Ends ok Good Stop r)
    (hok : r.2 = ok) : Good r.1 := by
  rwa [Ends, if_pos hok] at h

theorem Ends.imp {Good Good' : S → Prop} {Stop Stop' : S × R → Prop} {r : S × R}
    (h : Ends ok Good Stop r) (hgood : ∀ s, Good s → Good' s) (hstop : ∀ r, Stop r → Stop' r) :
    Ends ok Good' Stop' r := by
  unfold Ends at h ⊢
  by_cases hok : r.2 = ok
  · rw [if_pos hok] at h ⊢
    exact hgood _ h
  · rw [if_neg hok] at h ⊢
    exact hstop _ h

/-- The same result in another form of the state. -/
theorem Ends.map {S' : Type} {Good : S → Prop} {Good' : S' → Prop} {Stop : S × R → Prop}
    {Stop' : S' × R → Prop} {r : S × R} {f : S → S'} (h : Ends ok Good Stop r)
    (hgood : ∀ s, Good s → Good' (f s)) (hstop : ∀ r, Stop r → Stop' (f r.1, r.2)) :
    Ends ok Good' Stop' (f r.1, r.2) := by
  unfold Ends at h ⊢
  by_cases hok : r.2 = ok
  · rw [if_pos hok] at h ⊢
    exact hgood _ h
  · rw [if_neg hok] at h ⊢
    exact hstop _ h

theorem Ends.and_left {Good : S → Prop} {More : S → Prop} {Stop : S × R → Prop} {r : S × R}
    (h : Ends ok Good Stop r) (hmore : More r.1) : Ends ok (fun s => Good s ∧ More s) Stop r := by
  unfold Ends at h ⊢
  by_cases hok : r.2 = ok
  · rw [if_pos hok] at h ⊢
    exact ⟨h, hmore⟩
  · rw [if_neg hok] at h ⊢
    exact h

/-- Going on after a good result. -/
theorem Ends.andThen {Good Good' : S → Prop} {Stop : S × R → Prop} {r : S × R} {next : S → S × R}
    (h : Ends ok Good Stop r) (hnext : ∀ s, Good s → Ends ok Good' Stop (next s)) :
    Ends ok Good' Stop (if r.2 = ok then next r.1 else r) := by
  unfold Ends at h
  by_cases hok : r.2 = ok
  · rw [if_pos hok] at h ⊢
    exact hnext _ h
  · rw [if_neg hok] at h ⊢
    rw [Ends, if_neg hok]
    exact h

/-- The rule for invariants over the items that are left. -/
theorem sweep_progress {Inv : List α → S → Prop} {Stop : S × R → Prop}
    (hbody : ∀ a rest s, Inv (a :: rest) s → Ends ok (Inv rest) Stop (body a s)) :
    ∀ xs s, Inv xs s → Ends ok (Inv []) Stop (sweep ok body xs s) := by
  intro xs
  induction xs with
  | nil =>
    intro s h
    rw [sweep_nil, Ends, if_pos rfl]
    exact h
  | cons a xs ih =>
    intro s h
    rw [sweep_cons]
    exact (hbody a xs s h).andThen ih

/-- The rule for loops over consecutive numbers. -/
theorem sweep_range {body : Nat → S → S × R} {Inv : Nat → S → Prop} {Stop : S × R → Prop}
    {n : Nat} (hbody : ∀ i s, i < n → Inv i s → Ends ok (Inv (i + 1)) Stop (body i s)) :
    ∀ m a s, a + m = n → Inv a s → Ends ok (Inv n) Stop (sweep ok body (List.range' a m) s) := by
  intro m
  induction m with
  | zero =>
    intro a s ha h
    rw [List.range'_zero, sweep_nil, Ends, if_pos rfl, ← ha]
    exact h
  | succ m ih =>
    intro a s ha h
    rw [List.range'_succ, sweep_cons]
    exact (hbody a s (by omega) h).andThen fun s' => ih (a + 1) s' (by omega)

/-- **Nested loops are one loop**: a body that is itself a loop over the items
    `f a` may be replaced by it. The invariant says what is known about the
    items still to come. -/
theorem sweep_flatMap {body' : β → S → S × R} {f : α → List β} {Inv : List α → S → Prop}
    (hbody : ∀ a rest s, Inv (a :: rest) s → body a s = sweep ok body' (f a) s ∧
      ((body a s).2 = ok → Inv rest (body a s).1)) :
    ∀ xs s, Inv xs s → sweep ok body xs s = sweep ok body' (xs.flatMap f) s := by
  intro xs
  induction xs with
  | nil =>
    intro s _
    rfl
  | cons a xs ih =>
    intro s h
    obtain ⟨heq, hrest⟩ := hbody a xs s h
    rw [List.flatMap_cons, sweep_append, sweep_cons, ← heq]
    split
    · rename_i hok
      exact ih _ (hrest hok)
    · rfl

end Sweep
