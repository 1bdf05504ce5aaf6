import Libdbos.Framework.Radix

/-! # Radix Tables that Grow

    A new table is hung into a tree: a page that the tree does not have is
    filled with empty entries, and an empty entry where a walk has ended is
    made to refer to it. The tree has one page more, and walks lead where they
    led before.

    Paths are the ways down to a level. A write to a table leaves the paths
    that end above its entries as they are (`descend_write_low`).
-/

namespace Radix

variable {E : Type} {sh : Shape E} {mem : Mem E} {idx : Nat → Nat} {l t k u c : Nat}

/-! ## Rows without entries -/

section

variable {row : Nat → E}

/-- A table whose entries are all empty weighs what its page weighs. -/
theorem weight_row (wt : Nat → Nat) (wl : E → Nat) (h : mem c = row)
    (hrow : ∀ j, sh.kind k (row j) = .empty) : weight sh mem wt wl k c = wt c := by
  rw [weight_eq, h, Finset.sum_eq_zero fun j _ => entryWeight_empty (hrow j), Nat.add_zero]

/-- No walk goes on from it. -/
theorem leafAt_row (h : mem c = row) (hrow : ∀ j, sh.kind k (row j) = .empty) :
    leafAt sh mem idx k c = none := by
  rw [leafAt_eq, h, entryLeaf_empty (hrow _)]

end

/-! ## Paths -/

/-- A write to a table where a walk has ended leaves the paths alone that end
    at its level or above it. -/
theorem descend_write_low {idx' : Nat → Nat} {stop stop' x : Nat} {e : E}
    (hidx : ∀ j, idx j < sh.fan) (hidx' : ∀ j, idx' j < sh.fan) (hstop : k ≤ stop') :
    ∀ l t, descend sh mem idx stop l t = (k, u) → Tree sh mem l t →
      descend sh (write mem u x e) idx' stop' l t = descend sh mem idx' stop' l t := by
  refine descend_induct ?_ ?_
  · -- The write is to the table itself: such a path has ended here.
    intro _
    rw [descend_of_le idx' hstop, descend_of_le idx' hstop]
  · intro l t c _ hc hdown ih htree
    unfold descend
    rw [write_page_ne (htree.left hidx hc hdown)]
    split
    · rfl
    · split
      · rename_i d hd
        by_cases hsame : idx' (l + 1) = idx (l + 1)
        · rw [hsame, hc] at hd
          cases hd
          exact ih (htree.child (hidx (l + 1)) hc)
        · -- The path is in another part of the tree.
          exact descend_frame hidx' l d (write_frame (htree.disjoint (hidx (l + 1))
            (hidx' (l + 1)) (Ne.symm hsame) hc hd (descend_below hidx l c hdown).1))
      · rfl

/-- A path depends on the indices above its end. -/
theorem descend_agree {idx' : Nat → Nat} {stop : Nat} :
    ∀ l t, (∀ j, stop < j → j ≤ l → idx' j = idx j) →
      descend sh mem idx' stop l t = descend sh mem idx stop l t := by
  intro l
  induction l with
  | zero =>
    intro t _
    simp only [descend]
  | succ l ih =>
    intro t hagree
    unfold descend
    split
    · rfl
    · rename_i hstop
      rw [hagree (l + 1) (by omega) (Nat.le_refl _)]
      split
      · exact ih _ fun j hj hjl => hagree j hj (by omega)
      · rfl

/-! ## A new table -/

/-- Page `c` with entries `row` is hung into entry `i` of table `u` by `e`. -/
def grow (mem : Mem E) (u i c : Nat) (row : Nat → E) (e : E) : Mem E :=
  write (Function.update mem c row) u i e

/-- The conditions for it: the walk has ended at an empty entry, the page is
    not in the tree, and has no entries. -/
structure Grows (sh : Shape E) (mem : Mem E) (idx : Nat → Nat) (l t k u c : Nat) (row : Nat → E)
    (e : E) : Prop where
  digits : ∀ j, idx j < sh.fan
  tree : Tree sh mem l t
  path : descend sh mem idx (k + 1) l t = (k + 1, u)
  empty : sh.kind (k + 1) (mem u (idx (k + 1))) = .empty
  fresh : count sh mem c l t = 0
  row : ∀ j, sh.kind k (row j) = .empty
  entry : sh.kind (k + 1) e = .table c

namespace Grows

variable {row : Nat → E} {e : E} (h : Grows sh mem idx l t k u c row e)

include h

/-- Filling the page changes nothing in the tree. -/
theorem frame : ∀ p, 0 < count sh mem p l t → Function.update mem c row p = mem p := by
  intro p hp
  refine Function.update_of_ne ?_ _ _
  rintro rfl
  have hzero := h.fresh
  omega

theorem filled_tree : Tree sh (Function.update mem c row) l t := by
  intro p
  rw [count, weight_frame _ _ l t h.frame]
  exact h.tree p

theorem filled_path : descend sh (Function.update mem c row) idx (k + 1) l t = (k + 1, u) := by
  rw [descend_frame h.digits l t h.frame]
  exact h.path

theorem page_ne : u ≠ c := by
  rintro rfl
  have hzero := h.fresh
  have hpos := (descend_below h.digits l t h.path).1
  omega

theorem old_entry : Function.update mem c row u (idx (k + 1)) = mem u (idx (k + 1)) := by
  rw [Function.update_of_ne h.page_ne]

theorem new_row : grow mem u (idx (k + 1)) c row e c = row := by
  rw [grow, write_page_ne h.page_ne.symm, Function.update_self]

/-- The tree has one page more. -/
theorem weight (wt : Nat → Nat) (wl : E → Nat) :
    Radix.weight sh (grow mem u (idx (k + 1)) c row e) wt wl l t =
      Radix.weight sh mem wt wl l t + wt c := by
  have hw := weight_write wt wl h.digits e l t h.filled_path h.filled_tree
  rw [h.old_entry, entryWeight_empty h.empty, entryWeight_table h.entry,
    weight_frame wt wl l t h.frame, Nat.add_zero] at hw
  have hnew := weight_row wt wl h.new_row h.row
  unfold grow at hnew ⊢
  rw [hw, hnew]

theorem count_eq (p : Nat) : count sh (grow mem u (idx (k + 1)) c row e) p l t =
    count sh mem p l t + if c = p then 1 else 0 :=
  h.weight _ _

theorem grown_tree : Tree sh (grow mem u (idx (k + 1)) c row e) l t := by
  intro p
  have hp := h.tree p
  rw [h.count_eq]
  split
  · subst_vars
    rw [h.fresh]
  · exact hp

/-- Walks lead where they led before. -/
theorem leafAt {idx' : Nat → Nat} (hidx' : ∀ j, idx' j < sh.fan) :
    Radix.leafAt sh (grow mem u (idx (k + 1)) c row e) idx' l t =
      Radix.leafAt sh mem idx' l t := by
  have hframe := leafAt_frame hidx' l t h.frame
  by_cases hagree : Agree (k + 1) l idx idx'
  · have hnew := leafAt_write_agree h.digits e l t h.filled_path h.filled_tree hagree
    have hold := leafAt_of_agree h.digits h.filled_tree h.filled_path hagree
    rw [h.old_entry, entryLeaf_empty h.empty] at hold
    rw [entryLeaf_table h.entry] at hnew
    have hnone := @leafAt_row _ _ _ idx' _ _ _ h.new_row h.row
    rw [← hframe, hold]
    exact hnew.trans hnone
  · rw [← hframe]
    exact leafAt_write_ne h.digits hidx' e l t h.filled_path h.filled_tree hagree

/-- The walk goes on to the new table. -/
theorem descend_new : descend sh (grow mem u (idx (k + 1)) c row e) idx k l t = (k, c) := by
  have hwrite := descend_write h.digits (x := idx (k + 1)) (e := e) (Nat.le_refl _) l t
    h.filled_path h.filled_tree
  refine descend_succ ?_ l t hwrite
  rw [grow, write_same]
  exact h.entry

/-- Other paths that end above are as they were. -/
theorem descend_low {idx' : Nat → Nat} {stop' : Nat} (hidx' : ∀ j, idx' j < sh.fan)
    (hstop : k + 1 ≤ stop') : descend sh (grow mem u (idx (k + 1)) c row e) idx' stop' l t =
      descend sh mem idx' stop' l t := by
  rw [grow, descend_write_low h.digits hidx' hstop l t h.filled_path h.filled_tree,
    descend_frame hidx' l t h.frame]

end Grows

end Radix
