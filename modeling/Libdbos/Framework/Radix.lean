import Mathlib.Algebra.BigOperators.Group.Finset.Basic
import Mathlib.Algebra.Order.BigOperators.Group.Finset
import Mathlib.Logic.Function.Basic

/-! # Radix Tables in Memory

    Trees of tables as processors walk them: memory holds, for each page, an
    array of entries; an entry is empty, a leaf, or refers to the page of a
    table one level below. What an entry is depends on its level.

    * `weight` adds up what is in the tree below a table; `count p` is how
      often page `p` occurs in it, and a `Tree` has every page once at most;
    * `leafAt` is the leaf to which a walk leads, `descend` the place where a
      walk down to some level ends;
    * a write to the entry where a walk has ended changes the weight by the
      weights of the two entries (`weight_write`), and the leaves of those
      walks only that pass this entry (`leafAt_write_ne`).
-/

namespace Radix

/-! ## Tables -/

inductive Kind where
  | empty
  | leaf
  | table (page : Nat)
  deriving DecidableEq, Repr

/-- The number of entries of a table, and what an entry is at a level. -/
structure Shape (E : Type) where
  fan : Nat
  kind : Nat → E → Kind
  bottom : ∀ e c, kind 0 e ≠ .table c

abbrev Mem (E : Type) := Nat → Nat → E

section

variable {E : Type} (sh : Shape E) (mem : Mem E)

/-- A write to entry `i` of page `t`. -/
def write (t i : Nat) (e : E) : Mem E :=
  Function.update mem t (Function.update (mem t) i e)

/-- The weight of an entry, when `below` gives that of tables. -/
def Kind.weight (below : Nat → Nat) (leaf : Nat) : Kind → Nat
  | .empty => 0
  | .leaf => leaf
  | .table c => below c

/-- The weight of table `t` of level `l` with all that is below it: `wt` is
    that of a page, `wl` that of a leaf. -/
def weight (wt : Nat → Nat) (wl : E → Nat) : Nat → Nat → Nat
  | 0, t => wt t + ∑ i ∈ Finset.range sh.fan, (sh.kind 0 (mem t i)).weight (fun _ => 0) (wl (mem t i))
  | l + 1, t => wt t + ∑ i ∈ Finset.range sh.fan,
      (sh.kind (l + 1) (mem t i)).weight (weight wt wl l) (wl (mem t i))

/-- The weight of an entry of level `l`. -/
def entryWeight (wt : Nat → Nat) (wl : E → Nat) : Nat → E → Nat
  | 0, e => (sh.kind 0 e).weight (fun _ => 0) (wl e)
  | l + 1, e => (sh.kind (l + 1) e).weight (weight sh mem wt wl l) (wl e)

theorem weight_eq (wt : Nat → Nat) (wl : E → Nat) (l t : Nat) :
    weight sh mem wt wl l t =
      wt t + ∑ i ∈ Finset.range sh.fan, entryWeight sh mem wt wl l (mem t i) := by
  cases l <;> rfl

/-- How often page `p` occurs in the tree below table `t` of level `l`. -/
def count (p : Nat) : Nat → Nat → Nat :=
  weight sh mem (fun t => if t = p then 1 else 0) fun _ => 0

/-- No page occurs twice below table `t` of level `l`. -/
def Tree (l t : Nat) : Prop := ∀ p, count sh mem p l t ≤ 1

/-- The leaf to which a walk from table `t` of level `l` leads, with its level. -/
def leafAt (idx : Nat → Nat) : Nat → Nat → Option (Nat × E)
  | 0, t =>
      match sh.kind 0 (mem t (idx 0)) with
      | .leaf => some (0, mem t (idx 0))
      | _ => none
  | l + 1, t =>
      match sh.kind (l + 1) (mem t (idx (l + 1))) with
      | .empty => none
      | .leaf => some (l + 1, mem t (idx (l + 1)))
      | .table c => leafAt idx l c

/-- The level and the table at which a walk down to level `stop` ends. -/
def descend (idx : Nat → Nat) (stop : Nat) : Nat → Nat → Nat × Nat
  | 0, t => (0, t)
  | l + 1, t =>
      if l + 1 ≤ stop then (l + 1, t)
      else
        match sh.kind (l + 1) (mem t (idx (l + 1))) with
        | .table c => descend idx stop l c
        | _ => (l + 1, t)

/-- The leaf to which a walk leads that has come to entry `e` of level `l`. -/
def entryLeaf (idx : Nat → Nat) : Nat → E → Option (Nat × E)
  | 0, e =>
      match sh.kind 0 e with
      | .leaf => some (0, e)
      | _ => none
  | l + 1, e =>
      match sh.kind (l + 1) e with
      | .empty => none
      | .leaf => some (l + 1, e)
      | .table c => leafAt sh mem idx l c

theorem leafAt_eq (idx : Nat → Nat) (l t : Nat) :
    leafAt sh mem idx l t = entryLeaf sh mem idx l (mem t (idx l)) := by
  cases l <;> rfl

/-- An entry refers to a table above the lowest level only. -/
theorem Shape.cases (l : Nat) (e : E) : sh.kind l e = .empty ∨ sh.kind l e = .leaf ∨
    ∃ k c, l = k + 1 ∧ sh.kind l e = .table c := by
  cases hk : sh.kind l e with
  | empty => exact .inl rfl
  | leaf => exact .inr (.inl rfl)
  | table c =>
    cases l with
    | zero => exact absurd hk (sh.bottom e c)
    | succ k => exact .inr (.inr ⟨k, c, rfl, rfl⟩)

end

/-! ## Pages of a tree -/

section

variable {E : Type} {sh : Shape E} {mem mem' : Mem E} {l t c i j p : Nat}

variable {e : E}

theorem count_self (l t : Nat) : 1 ≤ count sh mem t l t := by
  rw [count, weight_eq, if_pos rfl]
  exact Nat.le_add_right _ _

theorem entryWeight_empty {wt : Nat → Nat} {wl : E → Nat} (h : sh.kind l e = .empty) :
    entryWeight sh mem wt wl l e = 0 := by
  cases l <;> simp only [entryWeight, h, Kind.weight]

theorem entryWeight_table {wt : Nat → Nat} {wl : E → Nat} (h : sh.kind (l + 1) e = .table c) :
    entryWeight sh mem wt wl (l + 1) e = weight sh mem wt wl l c := by
  simp only [entryWeight, h, Kind.weight]

theorem entryWeight_leaf {wt : Nat → Nat} {wl : E → Nat} (h : sh.kind l e = .leaf) :
    entryWeight sh mem wt wl l e = wl e := by
  cases l <;> simp only [entryWeight, h, Kind.weight]

theorem entryLeaf_empty {idx : Nat → Nat} (h : sh.kind l e = .empty) :
    entryLeaf sh mem idx l e = none := by
  cases l <;> simp only [entryLeaf, h]

theorem entryLeaf_leaf {idx : Nat → Nat} (h : sh.kind l e = .leaf) :
    entryLeaf sh mem idx l e = some (l, e) := by
  cases l <;> simp only [entryLeaf, h]

theorem entryLeaf_table {idx : Nat → Nat} (h : sh.kind (l + 1) e = .table c) :
    entryLeaf sh mem idx (l + 1) e = leafAt sh mem idx l c := by
  simp only [entryLeaf, h]

/-- A table has the weight of each of its entries. -/
theorem entryWeight_le (mem : Mem E) (wt : Nat → Nat) (wl : E → Nat) (hi : i < sh.fan) :
    wt t + entryWeight sh mem wt wl l (mem t i) ≤ weight sh mem wt wl l t := by
  have hle := Finset.single_le_sum (f := fun i => entryWeight sh mem wt wl l (mem t i))
    (fun _ _ => Nat.zero_le _) (Finset.mem_range.2 hi)
  rw [weight_eq]
  exact Nat.add_le_add_left hle _

/-- What is in a table below, is below. -/
theorem count_child (hi : i < sh.fan) (h : sh.kind (l + 1) (mem t i) = .table c) :
    (if t = p then 1 else 0) + count sh mem p l c ≤ count sh mem p (l + 1) t := by
  have hle := entryWeight_le mem (fun t => if t = p then 1 else 0) (fun _ => 0) hi
    (l := l + 1) (t := t)
  rwa [entryWeight_table h] at hle

theorem count_children (hi : i < sh.fan) (hj : j < sh.fan) (hne : i ≠ j) {d : Nat}
    (h : sh.kind (l + 1) (mem t i) = .table c) (h' : sh.kind (l + 1) (mem t j) = .table d) :
    count sh mem p l c + count sh mem p l d ≤ count sh mem p (l + 1) t := by
  have hsub : ({i, j} : Finset Nat) ⊆ Finset.range sh.fan := by
    intro x hx
    rcases Finset.mem_insert.1 hx with rfl | hx
    · exact Finset.mem_range.2 hi
    · rw [Finset.mem_singleton.1 hx]
      exact Finset.mem_range.2 hj
  have hle := Finset.sum_le_sum_of_subset (f := fun i => entryWeight sh mem
    (fun t => if t = p then 1 else 0) (fun _ => 0) (l + 1) (mem t i)) hsub
  rw [Finset.sum_pair hne, entryWeight_table h, entryWeight_table h'] at hle
  rw [count, weight_eq _ _ _ _ (l + 1)]
  exact Nat.le_trans hle (Nat.le_add_left _ _)

theorem Tree.child (htree : Tree sh mem (l + 1) t) (hi : i < sh.fan)
    (h : sh.kind (l + 1) (mem t i) = .table c) : Tree sh mem l c := by
  intro p
  have hle := count_child (p := p) hi h
  have := htree p
  omega

/-- A table is not below itself. -/
theorem Tree.not_below (htree : Tree sh mem (l + 1) t) (hi : i < sh.fan)
    (h : sh.kind (l + 1) (mem t i) = .table c) : count sh mem t l c = 0 := by
  have hle := count_child (p := t) hi h
  rw [if_pos rfl] at hle
  have := htree t
  omega

/-- What is below one entry is not below another one. -/
theorem Tree.disjoint (htree : Tree sh mem (l + 1) t) (hi : i < sh.fan) (hj : j < sh.fan)
    (hne : i ≠ j) {d : Nat} (h : sh.kind (l + 1) (mem t i) = .table c)
    (h' : sh.kind (l + 1) (mem t j) = .table d) (hp : 0 < count sh mem p l c) :
    count sh mem p l d = 0 := by
  have hle := count_children (p := p) hi hj hne h h'
  have := htree p
  omega

/-! ## Frames -/

theorem entryWeight_congr {wt : Nat → Nat} {wl : E → Nat}
    (h : ∀ k c, l = k + 1 → sh.kind l e = .table c →
      weight sh mem' wt wl k c = weight sh mem wt wl k c) :
    entryWeight sh mem' wt wl l e = entryWeight sh mem wt wl l e := by
  rcases sh.cases l e with hk | hk | ⟨k, c, rfl, hk⟩
  · rw [entryWeight_empty hk, entryWeight_empty hk]
  · rw [entryWeight_leaf hk, entryWeight_leaf hk]
  · rw [entryWeight_table hk, entryWeight_table hk]
    exact h k c rfl hk

theorem entryLeaf_congr {idx : Nat → Nat} (h : ∀ k c, l = k + 1 → sh.kind l e = .table c →
      leafAt sh mem' idx k c = leafAt sh mem idx k c) :
    entryLeaf sh mem' idx l e = entryLeaf sh mem idx l e := by
  rcases sh.cases l e with hk | hk | ⟨k, c, rfl, hk⟩
  · rw [entryLeaf_empty hk, entryLeaf_empty hk]
  · rw [entryLeaf_leaf hk, entryLeaf_leaf hk]
  · rw [entryLeaf_table hk, entryLeaf_table hk]
    exact h k c rfl hk

/-- Only the pages of a tree matter to its weight. -/
theorem weight_frame (wt : Nat → Nat) (wl : E → Nat) (l : Nat) :
    ∀ t, (∀ p, 0 < count sh mem p l t → mem' p = mem p) →
      weight sh mem' wt wl l t = weight sh mem wt wl l t := by
  induction l using Nat.strongRecOn with
  | ind l ih =>
    intro t hsame
    rw [weight_eq, weight_eq, hsame t (count_self l t)]
    congr 1
    refine Finset.sum_congr rfl fun i hi => entryWeight_congr ?_
    rintro k c rfl hk
    refine ih k (Nat.lt_succ_self k) c fun p hp => ?_
    have hle := count_child (p := p) (Finset.mem_range.1 hi) hk
    exact hsame p (by omega)

/-- Only the pages of a tree matter to the walks through it. -/
theorem leafAt_frame {idx : Nat → Nat} (hidx : ∀ j, idx j < sh.fan) (l : Nat) :
    ∀ t, (∀ p, 0 < count sh mem p l t → mem' p = mem p) →
      leafAt sh mem' idx l t = leafAt sh mem idx l t := by
  induction l using Nat.strongRecOn with
  | ind l ih =>
    intro t hsame
    rw [leafAt_eq, leafAt_eq, hsame t (count_self l t)]
    refine entryLeaf_congr ?_
    rintro k c rfl hk
    refine ih k (Nat.lt_succ_self k) c fun p hp => ?_
    have hle := count_child (p := p) (hidx (k + 1)) hk
    exact hsame p (by omega)

/-- A write to page `u` does not matter to a tree that does not have it. -/
theorem write_frame {u x : Nat} {e' : E} (hnot : count sh mem u l t = 0) :
    ∀ p, 0 < count sh mem p l t → write mem u x e' p = mem p := by
  intro p hp
  refine Function.update_of_ne ?_ _ _
  rintro rfl
  omega

/-- An entry with nothing of page `u` below it does not change with `u`. -/
theorem entryWeight_write {wt : Nat → Nat} {wl : E → Nat} {u x : Nat} {e' : E}
    (hnot : ∀ k c, l = k + 1 → sh.kind l e = .table c → count sh mem u k c = 0) :
    entryWeight sh (write mem u x e') wt wl l e = entryWeight sh mem wt wl l e :=
  entryWeight_congr fun k c hl hk => weight_frame wt wl k c (write_frame (hnot k c hl hk))

theorem entryLeaf_write {idx : Nat → Nat} (hidx : ∀ j, idx j < sh.fan) {u x : Nat} {e' : E}
    (hnot : ∀ k c, l = k + 1 → sh.kind l e = .table c → count sh mem u k c = 0) :
    entryLeaf sh (write mem u x e') idx l e = entryLeaf sh mem idx l e :=
  entryLeaf_congr fun k c hl hk => leafAt_frame hidx k c (write_frame (hnot k c hl hk))

theorem write_same (mem : Mem E) (t i : Nat) (e : E) : write mem t i e t i = e := by
  simp [write]

theorem write_index_ne (hne : j ≠ i) (e : E) : write mem t i e t j = mem t j := by
  simp [write, hne]

theorem write_page_ne (hne : p ≠ t) (e : E) : write mem t i e p = mem p :=
  Function.update_of_ne hne _ _

/-! ## Walks -/

variable {idx : Nat → Nat} {stop k u : Nat}

/-- A walk down has ended where it is, or goes on from a table. -/
theorem descend_cases (h : descend sh mem idx stop (l + 1) t = (k, u)) :
    (k = l + 1 ∧ u = t) ∨ ∃ c, ¬ l + 1 ≤ stop ∧ sh.kind (l + 1) (mem t (idx (l + 1))) = .table c ∧
      descend sh mem idx stop l c = (k, u) := by
  unfold descend at h
  split at h
  · cases h
    exact .inl ⟨rfl, rfl⟩
  · rename_i hle
    split at h
    · rename_i c hk
      exact .inr ⟨c, hle, hk, h⟩
    · cases h
      exact .inl ⟨rfl, rfl⟩

/-- **Induction on a walk** that ends at table `u` of level `k`. -/
theorem descend_induct {P : Nat → Nat → Prop} (hhere : P k u)
    (hdown : ∀ l t c, ¬ l + 1 ≤ stop → sh.kind (l + 1) (mem t (idx (l + 1))) = .table c →
      descend sh mem idx stop l c = (k, u) → P l c → P (l + 1) t) :
    ∀ l t, descend sh mem idx stop l t = (k, u) → P l t := by
  intro l
  induction l with
  | zero =>
    intro t h
    cases h
    exact hhere
  | succ l ih =>
    intro t h
    rcases descend_cases h with ⟨rfl, rfl⟩ | ⟨c, hle, hk, hc⟩
    · exact hhere
    · exact hdown l t c hle hk hc (ih c hc)

theorem descend_table (hle : ¬ l + 1 ≤ stop)
    (hk : sh.kind (l + 1) (mem t (idx (l + 1))) = .table c) :
    descend sh mem idx stop (l + 1) t = descend sh mem idx stop l c := by
  simp only [descend, if_neg hle, hk]

/-- A walk down to the level where it is has ended. -/
theorem descend_of_le (idx : Nat → Nat) (hle : l ≤ stop) (t : Nat) :
    descend sh mem idx stop l t = (l, t) := by
  cases l with
  | zero => rfl
  | succ l => simp only [descend, if_pos hle]

theorem descend_here (idx : Nat → Nat) (l t : Nat) : descend sh mem idx l l t = (l, t) :=
  descend_of_le idx (Nat.le_refl l) t

/-- A walk ends in the tree, on its way down. -/
theorem descend_below (hidx : ∀ j, idx j < sh.fan) :
    ∀ l t, descend sh mem idx stop l t = (k, u) → 0 < count sh mem u l t ∧ k ≤ l := by
  refine descend_induct ⟨count_self k u, Nat.le_refl k⟩ ?_
  rintro l t c _ hk _ ⟨hc, hle⟩
  have := count_child (p := u) (hidx (l + 1)) hk
  exact ⟨by omega, by omega⟩

/-- A walk that has left a table does not come back to it. -/
theorem Tree.left (htree : Tree sh mem (l + 1) t) (hidx : ∀ j, idx j < sh.fan)
    (hk : sh.kind (l + 1) (mem t (idx (l + 1))) = .table c)
    (h : descend sh mem idx stop l c = (k, u)) : t ≠ u := by
  rintro rfl
  have hzero := htree.not_below (hidx (l + 1)) hk
  have hpos := (descend_below hidx l c h).1
  omega

theorem descend_self (hidx : ∀ j, idx j < sh.fan) (htree : Tree sh mem l t)
    (h : descend sh mem idx stop l t = (k, t)) : k = l := by
  cases l with
  | zero =>
    cases h
    rfl
  | succ l =>
    rcases descend_cases h with ⟨hk, _⟩ | ⟨c, _, hk, hc⟩
    · exact hk
    · exact absurd rfl (htree.left hidx hk hc)

/-- Only the pages of a tree matter to where walks end. -/
theorem descend_frame (hidx : ∀ j, idx j < sh.fan) :
    ∀ l t, (∀ p, 0 < count sh mem p l t → mem' p = mem p) →
      descend sh mem' idx stop l t = descend sh mem idx stop l t := by
  intro l
  induction l with
  | zero =>
    intro t _
    rfl
  | succ l ih =>
    intro t hsame
    have ht : mem' t = mem t := hsame t (count_self (l + 1) t)
    simp only [descend, ht]
    split
    · rfl
    · cases hk : sh.kind (l + 1) (mem t (idx (l + 1))) with
      | empty => rfl
      | leaf => rfl
      | table c =>
        refine ih c ?_
        intro p hp
        have := count_child (p := p) (hidx (l + 1)) hk
        exact hsame p (by omega)

/-- A walk that has come to level `k + 1` goes on to the table of its entry. -/
theorem descend_succ (hk : sh.kind (k + 1) (mem u (idx (k + 1))) = .table c) :
    ∀ l t, descend sh mem idx (k + 1) l t = (k + 1, u) → descend sh mem idx k l t = (k, c) := by
  refine descend_induct ?_ ?_
  · rw [descend_table (by omega) hk]
    exact descend_here idx k c
  · intro l t d hle hd _ ih
    rw [descend_table (by omega) hd]
    exact ih

/-- A write to the table where a walk ends does not change its way. -/
theorem descend_write (hidx : ∀ j, idx j < sh.fan) {x : Nat} (hstop : k ≤ stop) :
    ∀ l t, descend sh mem idx stop l t = (k, u) → Tree sh mem l t →
      descend sh (write mem u x e) idx stop l t = (k, u) := by
  refine descend_induct (fun _ => descend_of_le idx hstop u) ?_
  intro l t c hle hk hc ih htree
  have hut := htree.left hidx hk hc
  rw [descend_table hle (by rw [write_page_ne hut]; exact hk)]
  exact ih (htree.child (hidx (l + 1)) hk)

/-- A walk goes on from where it has ended. -/
theorem leafAt_descend : ∀ l t, descend sh mem idx stop l t = (k, u) →
    leafAt sh mem idx l t = entryLeaf sh mem idx k (mem u (idx k)) := by
  refine descend_induct (leafAt_eq sh mem idx k u) ?_
  intro l t c _ hk _ ih
  rw [leafAt_eq, entryLeaf_table hk]
  exact ih

/-- Sums that differ in one place. -/
theorem sum_change {n : Nat} {f g : Nat → Nat} (hi : i < n) (hsame : ∀ j < n, j ≠ i → f j = g j) :
    (∑ j ∈ Finset.range n, f j) + g i = (∑ j ∈ Finset.range n, g j) + f i := by
  rw [← Finset.add_sum_erase _ f (Finset.mem_range.2 hi),
    ← Finset.add_sum_erase _ g (Finset.mem_range.2 hi)]
  have hrest : ∑ j ∈ (Finset.range n).erase i, f j = ∑ j ∈ (Finset.range n).erase i, g j := by
    refine Finset.sum_congr rfl ?_
    intro j hj
    obtain ⟨hne, hj⟩ := Finset.mem_erase.1 hj
    exact hsame j (Finset.mem_range.1 hj) hne
  omega

/-- The entries of table `t` itself are the place where the walk ends. -/
theorem weight_write_here (wt : Nat → Nat) (wl : E → Nat) (hi : i < sh.fan)
    (htree : Tree sh mem l t) (e : E) :
    weight sh (write mem t i e) wt wl l t + entryWeight sh mem wt wl l (mem t i) =
      weight sh mem wt wl l t + entryWeight sh (write mem t i e) wt wl l e := by
  rw [weight_eq, weight_eq]
  have hsum := sum_change (f := fun j => entryWeight sh (write mem t i e) wt wl l
    (write mem t i e t j)) (g := fun j => entryWeight sh mem wt wl l (mem t j)) hi ?_
  · simp only [write_same] at hsum
    omega
  · intro j hj hne
    simp only [write_index_ne hne]
    refine entryWeight_write ?_
    rintro k c rfl hk
    exact htree.not_below hj hk

/-- **The weight after a write** where a walk has ended: the weight of the old
    entry makes room for that of the new one. -/
theorem weight_write (wt : Nat → Nat) (wl : E → Nat) (hidx : ∀ j, idx j < sh.fan) (e : E) :
    ∀ l t, descend sh mem idx stop l t = (k, u) → Tree sh mem l t →
      weight sh (write mem u (idx k) e) wt wl l t + entryWeight sh mem wt wl k (mem u (idx k)) =
        weight sh mem wt wl l t + entryWeight sh (write mem u (idx k) e) wt wl k e := by
  refine descend_induct (fun htree => weight_write_here wt wl (hidx k) htree e) ?_
  intro l t c _ hk hdown ih htree
  have hc := ih (htree.child (hidx (l + 1)) hk)
  -- The page that is written is below this entry, and so nowhere else.
  have hu := (descend_below hidx l c hdown).1
  have hrow : write mem u (idx k) e t = mem t := write_page_ne (htree.left hidx hk hdown) e
  have hsum := sum_change
    (f := fun j => entryWeight sh (write mem u (idx k) e) wt wl (l + 1) (mem t j))
    (g := fun j => entryWeight sh mem wt wl (l + 1) (mem t j)) (hidx (l + 1)) ?_
  · simp only [entryWeight_table hk] at hsum
    rw [weight_eq _ _ _ _ (l + 1) t, weight_eq _ _ _ _ (l + 1) t, hrow]
    omega
  · intro j hj hne
    refine entryWeight_write ?_
    rintro k' d heq hd
    cases heq
    exact htree.disjoint (hidx (l + 1)) hj hne.symm hk hd hu

/-- Two walks pass the same entries from level `l` down to level `k`. -/
def Agree (k l : Nat) (idx idx' : Nat → Nat) : Prop := ∀ j, k ≤ j → j ≤ l → idx' j = idx j

/-- A walk leads to a leaf here, or to one below. -/
theorem leafAt_cases (h : leafAt sh mem idx l t = some (k, e)) :
    (k = l ∧ e = mem t (idx l) ∧ sh.kind l e = .leaf) ∨ ∃ m c, l = m + 1 ∧
      sh.kind l (mem t (idx l)) = .table c ∧ leafAt sh mem idx m c = some (k, e) := by
  rw [leafAt_eq] at h
  rcases sh.cases l (mem t (idx l)) with hk | hk | ⟨m, c, rfl, hk⟩
  · rw [entryLeaf_empty hk] at h
    cases h
  · rw [entryLeaf_leaf hk] at h
    cases h
    exact .inl ⟨rfl, rfl, hk⟩
  · rw [entryLeaf_table hk] at h
    exact .inr ⟨m, c, rfl, hk, h⟩

/-- **Induction on a walk** that leads to a leaf. -/
theorem leafAt_induct {P : Nat → Nat → Prop}
    (hhere : ∀ t, mem t (idx k) = e → sh.kind k e = .leaf → P k t)
    (hdown : ∀ l t c, sh.kind (l + 1) (mem t (idx (l + 1))) = .table c →
      leafAt sh mem idx l c = some (k, e) → P l c → P (l + 1) t) :
    ∀ l t, leafAt sh mem idx l t = some (k, e) → P l t := by
  intro l
  induction l using Nat.strongRecOn with
  | ind l ih =>
    intro t h
    rcases leafAt_cases h with ⟨rfl, rfl, hk⟩ | ⟨m, c, rfl, hk, hc⟩
    · exact hhere t rfl hk
    · exact hdown m t c hk hc (ih m (Nat.lt_succ_self m) c hc)

theorem leafAt_level : ∀ l t, leafAt sh mem idx l t = some (k, e) → k ≤ l :=
  leafAt_induct (fun _ _ _ => Nat.le_refl k) fun _ _ _ _ _ ih => Nat.le_succ_of_le ih

theorem leafAt_kind : ∀ l t, leafAt sh mem idx l t = some (k, e) → sh.kind k e = .leaf :=
  leafAt_induct (fun _ _ hk => hk) fun _ _ _ _ _ ih => ih

/-- Walks that pass a leaf lead to it. -/
theorem leafAt_agree {idx' : Nat → Nat} :
    ∀ l t, leafAt sh mem idx l t = some (k, e) → Agree k l idx idx' →
      leafAt sh mem idx' l t = some (k, e) := by
  refine leafAt_induct ?_ ?_
  · intro t hent hk hagree
    rw [leafAt_eq, hagree k (Nat.le_refl k) (Nat.le_refl k), hent, entryLeaf_leaf hk]
  · intro l t c hk hc ih hagree
    have hle := leafAt_level l c hc
    rw [leafAt_eq, hagree (l + 1) (by omega) (Nat.le_refl _), entryLeaf_table hk]
    exact ih fun j hj hjl => hagree j hj (by omega)

theorem leafAt_write_here {idx' : Nat → Nat} (hidx' : ∀ j, idx' j < sh.fan)
    (htree : Tree sh mem l t) (e : E) (hne : idx' l ≠ i) :
    leafAt sh (write mem t i e) idx' l t = leafAt sh mem idx' l t := by
  rw [leafAt_eq, leafAt_eq, write_index_ne hne]
  refine entryLeaf_write hidx' ?_
  rintro k c rfl hk
  exact htree.not_below (hidx' (k + 1)) hk

/-- **Walks after a write** where a walk has ended: those that pass the entry
    go on from the new one. -/
theorem leafAt_write_agree {idx' : Nat → Nat} (hidx : ∀ j, idx j < sh.fan) (e : E) :
    ∀ l t, descend sh mem idx stop l t = (k, u) → Tree sh mem l t → Agree k l idx idx' →
      leafAt sh (write mem u (idx k) e) idx' l t =
        entryLeaf sh (write mem u (idx k) e) idx' k e := by
  refine descend_induct ?_ ?_
  · intro _ hagree
    rw [leafAt_eq, hagree k (Nat.le_refl k) (Nat.le_refl k), write_same]
  · intro l t c _ hk hc ih htree hagree
    have hle := (descend_below hidx l c hc).2
    have hsame := hagree (l + 1) (by omega) (Nat.le_refl _)
    rw [leafAt_eq, write_page_ne (htree.left hidx hk hc), hsame, entryLeaf_table hk]
    exact ih (htree.child (hidx (l + 1)) hk) fun j hj hjl => hagree j hj (by omega)

theorem write_eq_self (mem : Mem E) (t i : Nat) : write mem t i (mem t i) = mem := by
  rw [write, Function.update_eq_self, Function.update_eq_self]

/-- Walks that pass an entry go on from it. -/
theorem leafAt_of_agree {idx' : Nat → Nat} (hidx : ∀ j, idx j < sh.fan)
    (htree : Tree sh mem l t) (h : descend sh mem idx stop l t = (k, u))
    (hagree : Agree k l idx idx') :
    leafAt sh mem idx' l t = entryLeaf sh mem idx' k (mem u (idx k)) := by
  have hself := leafAt_write_agree hidx (mem u (idx k)) l t h htree hagree
  rwa [write_eq_self] at hself

/-- One level more to agree on. -/
theorem Agree.succ {idx' : Nat → Nat} (h : Agree k l idx idx') (hl : idx' (l + 1) = idx (l + 1)) :
    Agree k (l + 1) idx idx' := by
  intro j hj hjl
  rcases Nat.le_succ_iff.1 hjl with hle | rfl
  · exact h j hj hle
  · exact hl

/-- The others lead where they led before. -/
theorem leafAt_write_ne {idx' : Nat → Nat} (hidx : ∀ j, idx j < sh.fan)
    (hidx' : ∀ j, idx' j < sh.fan) (e : E) :
    ∀ l t, descend sh mem idx stop l t = (k, u) → Tree sh mem l t → ¬ Agree k l idx idx' →
      leafAt sh (write mem u (idx k) e) idx' l t = leafAt sh mem idx' l t := by
  refine descend_induct ?_ ?_
  · intro htree hne
    refine leafAt_write_here hidx' htree e fun heq => hne ?_
    intro j hj hj'
    rw [Nat.le_antisymm hj' hj, heq]
  · intro l t c _ hk hc ih htree hne
    have hu := (descend_below hidx l c hc).1
    rw [leafAt_eq, leafAt_eq, write_page_ne (htree.left hidx hk hc)]
    by_cases hsame : idx' (l + 1) = idx (l + 1)
    · rw [hsame, entryLeaf_table hk, entryLeaf_table hk]
      exact ih (htree.child (hidx (l + 1)) hk) fun hagree => hne (hagree.succ hsame)
    · refine entryLeaf_write hidx' ?_
      rintro k' d heq hd
      cases heq
      exact htree.disjoint (hidx (l + 1)) (hidx' (l + 1)) (Ne.symm hsame) hk hd hu

/-- A leaf to which a walk leads is in the tree. -/
theorem leafAt_weight (wt : Nat → Nat) (wl : E → Nat) (hidx : ∀ j, idx j < sh.fan) :
    ∀ l t, leafAt sh mem idx l t = some (k, e) → wl e ≤ weight sh mem wt wl l t := by
  refine leafAt_induct ?_ ?_
  · intro t hent hk
    have hle := entryWeight_le mem wt wl (hidx k) (l := k) (t := t)
    rw [hent, entryWeight_leaf hk] at hle
    omega
  · intro l t c hk _ ih
    have hle := entryWeight_le mem wt wl (hidx (l + 1)) (l := l + 1) (t := t)
    rw [entryWeight_table hk] at hle
    omega

end

attribute [irreducible] weight leafAt descend

end Radix
