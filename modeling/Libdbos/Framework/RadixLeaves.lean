import Libdbos.Framework.Radix
import Mathlib.Algebra.GroupWithZero.Nat
import Mathlib.Data.List.Pairwise

/-! # The Leaves of a Radix Table in Order

    Slots are counted in entries of the lowest level: an entry of level `l`
    takes `fan ^ l` slots, and a table of level `l` takes `fan ^ (l + 1)`.

    * `LeafBelow` says which entries are leaves of a tree, by the way down to
      them; `leaves` lists them from left to right (`mem_leaves`,
      `leaves_sorted`);
    * only the pages of a tree matter to its leaves (`leaves_frame`);
    * `slot` gives the index of a slot at each level: the walk by these leads
      to a leaf of the tree that covers the slot (`leafBelow_of_leafAt`).
-/

namespace Radix

/-- An entry of a tree, with the first slot that it takes. -/
structure Place where
  level : Nat
  table : Nat
  index : Nat
  base : Nat
  deriving DecidableEq, Repr

section

variable {E : Type} (sh : Shape E) (mem : Mem E)

/-! ## Leaves -/

/-- The leaves of entry `i` of table `t`, when `below` gives those of tables. -/
def Kind.leaves (below : Nat → List Place) (here : Place) : Kind → List Place
  | .empty => []
  | .leaf => [here]
  | .table c => below c

/-- The leaves below table `t` of level `l`, which begins at slot `b`. -/
def leaves : Nat → Nat → Nat → List Place
  | 0, t, b => (List.range sh.fan).flatMap fun i =>
      (sh.kind 0 (mem t i)).leaves (fun _ => []) ⟨0, t, i, b + i⟩
  | l + 1, t, b => (List.range sh.fan).flatMap fun i =>
      (sh.kind (l + 1) (mem t i)).leaves (fun c => leaves l c (b + i * sh.fan ^ (l + 1)))
        ⟨l + 1, t, i, b + i * sh.fan ^ (l + 1)⟩

/-- The leaves that entry `i` of table `t` contributes. -/
def entryLeaves (l t b i : Nat) : List Place :=
  match l with
  | 0 => (sh.kind 0 (mem t i)).leaves (fun _ => []) ⟨0, t, i, b + i⟩
  | k + 1 => (sh.kind (k + 1) (mem t i)).leaves
      (fun c => leaves sh mem k c (b + i * sh.fan ^ (k + 1)))
      ⟨k + 1, t, i, b + i * sh.fan ^ (k + 1)⟩

theorem leaves_eq (l t b : Nat) :
    leaves sh mem l t b = (List.range sh.fan).flatMap (entryLeaves sh mem l t b) := by
  cases l <;> rfl

/-- The way down to a leaf. -/
inductive LeafBelow : Nat → Nat → Nat → Place → Prop where
  | here {l t b i : Nat} (hi : i < sh.fan) (h : sh.kind l (mem t i) = .leaf) :
      LeafBelow l t b ⟨l, t, i, b + i * sh.fan ^ l⟩
  | down {l t b i c : Nat} {p : Place} (hi : i < sh.fan)
      (h : sh.kind (l + 1) (mem t i) = .table c)
      (hp : LeafBelow l c (b + i * sh.fan ^ (l + 1)) p) : LeafBelow (l + 1) t b p

/-- A slot is one of those that an entry takes. -/
def Place.covers (p : Place) (a : Nat) : Prop := p.base ≤ a ∧ a < p.base + sh.fan ^ p.level

end

variable {E : Type} {sh : Shape E} {mem mem' : Mem E} {l t b i : Nat} {p q : Place}

/-- The leaves of an entry, by what it is. -/
theorem entryLeaves_empty (h : sh.kind l (mem t i) = .empty) : entryLeaves sh mem l t b i = [] := by
  cases l <;> simp [entryLeaves, h, Kind.leaves]

theorem entryLeaves_leaf (h : sh.kind l (mem t i) = .leaf) :
    entryLeaves sh mem l t b i = [⟨l, t, i, b + i * sh.fan ^ l⟩] := by
  cases l <;> simp [entryLeaves, h, Kind.leaves]

theorem entryLeaves_table {c : Nat} (h : sh.kind (l + 1) (mem t i) = .table c) :
    entryLeaves sh mem (l + 1) t b i = leaves sh mem l c (b + i * sh.fan ^ (l + 1)) := by
  simp [entryLeaves, h, Kind.leaves]

theorem mem_entryLeaves (hi : i < sh.fan) (hbelow : ∀ k c, l = k + 1 →
      ∀ b, p ∈ leaves sh mem k c b ↔ LeafBelow sh mem k c b p)
    (hp : p ∈ entryLeaves sh mem l t b i) : LeafBelow sh mem l t b p := by
  rcases sh.cases l (mem t i) with hk | hk | ⟨k, c, rfl, hk⟩
  · simp [entryLeaves_empty hk] at hp
  · rw [entryLeaves_leaf hk, List.mem_singleton] at hp
    exact hp ▸ .here hi hk
  · rw [entryLeaves_table hk, hbelow k c rfl] at hp
    exact .down hi hk hp

/-- The list has the leaves of the tree and no others. -/
theorem mem_leaves (l : Nat) : ∀ t b, p ∈ leaves sh mem l t b ↔ LeafBelow sh mem l t b p := by
  induction l using Nat.strongRecOn with
  | ind l ih =>
    intro t b
    rw [leaves_eq, List.mem_flatMap]
    constructor
    · rintro ⟨i, hi, hp⟩
      refine mem_entryLeaves (List.mem_range.mp hi) ?_ hp
      rintro k c rfl b
      exact ih k (Nat.lt_succ_self k) c b
    · intro h
      cases h with
      | here hi hk => exact ⟨_, List.mem_range.mpr hi, by simp [entryLeaves_leaf hk]⟩
      | @down l _ _ i c _ hi hk hp =>
        refine ⟨i, List.mem_range.mpr hi, ?_⟩
        rw [entryLeaves_table hk, ih l (Nat.lt_succ_self l)]
        exact hp

/-! ## Where leaves are -/

theorem fan_step (l : Nat) {i : Nat} (hi : i < sh.fan) :
    i * sh.fan ^ l + sh.fan ^ l ≤ sh.fan ^ (l + 1) := by
  have hle : (i + 1) * sh.fan ^ l ≤ sh.fan * sh.fan ^ l := Nat.mul_le_mul_right _ hi
  rw [Nat.add_mul, Nat.one_mul] at hle
  rwa [Nat.pow_succ, Nat.mul_comm (sh.fan ^ l)]

/-- A leaf takes slots of its table. -/
theorem LeafBelow.bounds (h : LeafBelow sh mem l t b p) :
    b ≤ p.base ∧ p.base + sh.fan ^ p.level ≤ b + sh.fan ^ (l + 1) ∧ p.level ≤ l := by
  induction h with
  | @here l t b i hi _ =>
    have hstep := fan_step l hi
    exact ⟨Nat.le_add_right _ _, by dsimp only; omega, Nat.le_refl _⟩
  | @down l t b i c p hi _ _ ih =>
    have hstep := fan_step (l + 1) hi
    obtain ⟨hlow, hhigh, hlevel⟩ := ih
    exact ⟨by omega, by omega, by omega⟩

/-- A leaf is in a page of the tree. -/
theorem LeafBelow.page (h : LeafBelow sh mem l t b p) : 0 < count sh mem p.table l t := by
  induction h with
  | @here l t _ _ _ _ => exact count_self l t
  | @down l t b i c p hi hk _ ih =>
    have hle := count_child (p := p.table) hi hk
    omega

theorem LeafBelow.kind (h : LeafBelow sh mem l t b p) :
    sh.kind p.level (mem p.table p.index) = .leaf ∧ p.index < sh.fan := by
  induction h with
  | here hi hk => exact ⟨hk, hi⟩
  | down _ _ _ ih => exact ih

/-- The leaves of an entry take slots of the entry. -/
theorem entryLeaves_bounds (hp : p ∈ entryLeaves sh mem l t b i) :
    b + i * sh.fan ^ l ≤ p.base ∧ p.base + sh.fan ^ p.level ≤ b + i * sh.fan ^ l + sh.fan ^ l := by
  rcases sh.cases l (mem t i) with hk | hk | ⟨k, c, rfl, hk⟩
  · simp [entryLeaves_empty hk] at hp
  · rw [entryLeaves_leaf hk, List.mem_singleton] at hp
    subst hp
    exact ⟨Nat.le_refl _, Nat.le_refl _⟩
  · rw [entryLeaves_table hk, mem_leaves] at hp
    obtain ⟨hlow, hhigh, _⟩ := hp.bounds
    exact ⟨hlow, hhigh⟩

theorem entryLeaves_mem (hi : i < sh.fan) (hp : p ∈ entryLeaves sh mem l t b i) :
    p ∈ leaves sh mem l t b := by
  rw [leaves_eq, List.mem_flatMap]
  exact ⟨i, List.mem_range.mpr hi, hp⟩

/-- Lists of leaves are in order if those of the entries are. -/
theorem leaves_sorted_of_entries (l t b : Nat) (hentry : ∀ i,
      (entryLeaves sh mem l t b i).Pairwise fun p q => p.base + sh.fan ^ p.level ≤ q.base) :
    (leaves sh mem l t b).Pairwise fun p q => p.base + sh.fan ^ p.level ≤ q.base := by
  rw [leaves_eq, List.pairwise_flatMap]
  refine ⟨fun i _ => hentry i, ?_⟩
  refine List.Pairwise.imp_of_mem ?_ List.pairwise_lt_range
  intro i j _ _ hij p hp q hq
  obtain ⟨_, hpi⟩ := entryLeaves_bounds hp
  obtain ⟨hqj, _⟩ := entryLeaves_bounds hq
  have hstep : (i + 1) * sh.fan ^ l ≤ j * sh.fan ^ l := Nat.mul_le_mul_right _ hij
  rw [Nat.add_mul, Nat.one_mul] at hstep
  omega

/-- The leaves of an entry come from left to right. -/
theorem entryLeaves_sorted (l : Nat) : ∀ t b i,
    (entryLeaves sh mem l t b i).Pairwise fun p q => p.base + sh.fan ^ p.level ≤ q.base := by
  induction l using Nat.strongRecOn with
  | ind l ih =>
    intro t b i
    rcases sh.cases l (mem t i) with hk | hk | ⟨k, c, rfl, hk⟩
    · simp [entryLeaves_empty hk]
    · simp [entryLeaves_leaf hk]
    · rw [entryLeaves_table hk]
      exact leaves_sorted_of_entries k c _ (ih k (Nat.lt_succ_self k) c _)

/-- The leaves come from left to right. -/
theorem leaves_sorted (l t b : Nat) :
    (leaves sh mem l t b).Pairwise fun p q => p.base + sh.fan ^ p.level ≤ q.base :=
  leaves_sorted_of_entries l t b (entryLeaves_sorted l t b)

/-- The leaves of one entry are apart from another entry and from what is
    below that one. -/
theorem entryLeaves_apart (htree : Tree sh mem l t) {j : Nat} (hi : i < sh.fan) (hj : j < sh.fan)
    (hne : j ≠ i) (hp : p ∈ entryLeaves sh mem l t b i) :
    (t ≠ p.table ∨ j ≠ p.index) ∧ ∀ k d x, l = k + 1 → sh.kind l (mem t j) = .table d →
      0 < count sh mem x k d → x ≠ p.table := by
  rcases sh.cases l (mem t i) with hk | hk | ⟨k, c, rfl, hk⟩
  · simp [entryLeaves_empty hk] at hp
  · rw [entryLeaves_leaf hk, List.mem_singleton] at hp
    subst hp
    refine ⟨.inr hne, ?_⟩
    rintro k d x rfl hd hx rfl
    have hzero := htree.not_below hj hd
    omega
  · rw [entryLeaves_table hk, mem_leaves] at hp
    have hpage := hp.page
    refine ⟨.inl ?_, ?_⟩
    · rintro rfl
      have hzero := htree.not_below hi hk
      omega
    · rintro k' d x heq hd hx rfl
      cases heq
      have hzero := htree.disjoint hi hj (Ne.symm hne) hk hd hpage
      omega

/-- Only the pages of a tree matter to its leaves. -/
theorem leaves_frame (l : Nat) : ∀ t b, (∀ p, 0 < count sh mem p l t → mem' p = mem p) →
    leaves sh mem' l t b = leaves sh mem l t b := by
  induction l using Nat.strongRecOn with
  | ind l ih =>
    intro t b hsame
    have ht : mem' t = mem t := hsame t (count_self l t)
    rw [leaves_eq, leaves_eq]
    refine List.flatMap_congr fun i hi => ?_
    rcases sh.cases l (mem t i) with hk | hk | ⟨k, c, rfl, hk⟩
    · rw [entryLeaves_empty hk, entryLeaves_empty (by rw [ht]; exact hk)]
    · rw [entryLeaves_leaf hk, entryLeaves_leaf (by rw [ht]; exact hk)]
    · rw [entryLeaves_table hk, entryLeaves_table (by rw [ht]; exact hk)]
      refine ih k (Nat.lt_succ_self k) c _ fun p hp => ?_
      have hle := count_child (p := p) (List.mem_range.mp hi) hk
      exact hsame p (by omega)

/-! ## Slots and leaves -/

/-- The index of slot `a` at level `n`. -/
def slot (sh : Shape E) (a n : Nat) : Nat := a / sh.fan ^ n % sh.fan

variable {a : Nat}

theorem slot_lt (hfan : 0 < sh.fan) (a n : Nat) : slot sh a n < sh.fan := Nat.mod_lt _ hfan

/-- The index of a slot of entry `i`. -/
theorem slot_entry (hi : i < sh.fan) (hb : sh.fan ^ (l + 1) ∣ b)
    (hlo : b + i * sh.fan ^ l ≤ a) (hhi : a < b + i * sh.fan ^ l + sh.fan ^ l) :
    slot sh a l = i := by
  obtain ⟨c, rfl⟩ := hb
  have hpos : 0 < sh.fan ^ l := Nat.pow_pos (by omega)
  have hpow : sh.fan * sh.fan ^ l = sh.fan ^ (l + 1) := Nat.pow_succ'.symm
  have hdiv : a / sh.fan ^ l = i + c * sh.fan := by
    rw [Nat.div_eq_iff hpos, Nat.add_mul, Nat.mul_assoc, hpow, Nat.mul_comm c]
    omega
  rw [slot, hdiv, Nat.add_mul_mod_self_right, Nat.mod_eq_of_lt hi]

/-- Leaves are aligned. -/
theorem LeafBelow.base_dvd (h : LeafBelow sh mem l t b p) (hb : sh.fan ^ (l + 1) ∣ b) :
    sh.fan ^ p.level ∣ p.base := by
  induction h with
  | here _ _ =>
    exact Nat.dvd_add (Nat.dvd_trans (Nat.pow_dvd_pow _ (Nat.le_succ _)) hb) (Nat.dvd_mul_left _ _)
  | down _ _ _ ih =>
    exact ih (Nat.dvd_add (Nat.dvd_trans (Nat.pow_dvd_pow _ (Nat.le_succ _)) hb)
      (Nat.dvd_mul_left _ _))

/-- Every leaf that a walk finds is the leaf of some place. -/
theorem leafBelow_of_leafAt (hfan : 0 < sh.fan) {k : Nat} {e : E} (l : Nat) :
    ∀ t b, sh.fan ^ (l + 1) ∣ b → b ≤ a → a < b + sh.fan ^ (l + 1) →
      Radix.leafAt sh mem (slot sh a) l t = some (k, e) → ∃ p, LeafBelow sh mem l t b p ∧
        p.covers sh a ∧ p.level = k ∧ mem p.table p.index = e := by
  have hentry : ∀ l b, sh.fan ^ (l + 1) ∣ b → b ≤ a → a < b + sh.fan ^ (l + 1) →
      b + slot sh a l * sh.fan ^ l ≤ a ∧ a < b + slot sh a l * sh.fan ^ l + sh.fan ^ l := by
    rintro l _ ⟨c, rfl⟩ hlo hhi
    have hpos : 0 < sh.fan ^ l := Nat.pow_pos hfan
    have hdiv := Nat.div_add_mod a (sh.fan ^ l)
    have hlt := Nat.mod_lt a hpos
    have hpow : sh.fan ^ l * sh.fan = sh.fan ^ (l + 1) := (Nat.pow_succ ..).symm
    have hquot : a / sh.fan ^ l / sh.fan = c := by
      rw [Nat.div_div_eq_div_mul, hpow, Nat.div_eq_iff (Nat.pow_pos hfan), Nat.mul_comm c]
      omega
    have hsplit := Nat.div_add_mod (a / sh.fan ^ l) sh.fan
    rw [hquot] at hsplit
    have hmul : sh.fan ^ l * (a / sh.fan ^ l) =
        sh.fan ^ (l + 1) * c + slot sh a l * sh.fan ^ l := by
      rw [slot, Nat.mul_comm (_ % _), ← hpow, Nat.mul_assoc, ← Nat.mul_add, hsplit]
    generalize a % sh.fan ^ l = r at hdiv hlt
    omega
  induction l using Nat.strongRecOn with
  | ind l ih =>
    intro t b hb hlo hhi h
    obtain ⟨h1, h2⟩ := hentry l b hb hlo hhi
    rcases leafAt_cases h with ⟨rfl, rfl, hk⟩ | ⟨m, c, rfl, hk, hc⟩
    · exact ⟨_, .here (slot_lt hfan a k) hk, ⟨h1, h2⟩, rfl, rfl⟩
    · obtain ⟨p, hp, hcovers, hlevel, hent⟩ := ih m (Nat.lt_succ_self m) c _ (Nat.dvd_add
        (Nat.dvd_trans (Nat.pow_dvd_pow _ (Nat.le_succ _)) hb) (Nat.dvd_mul_left _ _)) h1 h2 hc
      exact ⟨p, .down (slot_lt hfan a (m + 1)) hk hp, hcovers, hlevel, hent⟩

/-! ## New words for leaves -/

/-- The entries of different leaves are different. -/
theorem leaves_apart (l : Nat) : ∀ t b, Tree sh mem l t → (leaves sh mem l t b).Pairwise
    fun p q => p.table ≠ q.table ∨ p.index ≠ q.index := by
  have hrow : ∀ l t b, Tree sh mem l t → (∀ i < sh.fan, (entryLeaves sh mem l t b i).Pairwise
      fun p q => p.table ≠ q.table ∨ p.index ≠ q.index) →
      (leaves sh mem l t b).Pairwise fun p q => p.table ≠ q.table ∨ p.index ≠ q.index := by
    intro l t b htree hentry
    rw [leaves_eq, List.pairwise_flatMap]
    refine ⟨fun i hi => hentry i (List.mem_range.mp hi), ?_⟩
    refine List.Pairwise.imp_of_mem ?_ List.pairwise_lt_range
    intro i j hi hj hij p hp q hq
    have hi' := List.mem_range.mp hi
    have hj' := List.mem_range.mp hj
    obtain ⟨hhere, hbelow⟩ := entryLeaves_apart htree hi' hj' (Nat.ne_of_gt hij) hp
    rcases sh.cases l (mem t j) with hk | hk | ⟨k, d, rfl, hk⟩
    · simp [entryLeaves_empty hk] at hq
    · rw [entryLeaves_leaf hk, List.mem_singleton] at hq
      subst hq
      exact hhere.imp Ne.symm Ne.symm
    · rw [entryLeaves_table hk, mem_leaves] at hq
      exact .inl (hbelow k d q.table rfl hk hq.page).symm
  induction l using Nat.strongRecOn with
  | ind l ih =>
    intro t b htree
    refine hrow l t b htree fun i hi => ?_
    rcases sh.cases l (mem t i) with hk | hk | ⟨k, c, rfl, hk⟩
    · simp [entryLeaves_empty hk]
    · simp [entryLeaves_leaf hk]
    · rw [entryLeaves_table hk]
      exact ih k (Nat.lt_succ_self k) c _ (htree.child hi hk)

/-- In the pages of the tree, `mem'` differs from `mem` at leaves only. -/
def Relabels (sh : Shape E) (mem mem' : Mem E) (l t b : Nat) : Prop :=
  ∀ u i, 0 < count sh mem u l t →
    (∀ p, LeafBelow sh mem l t b p → p.table = u → p.index ≠ i) → mem' u i = mem u i

/-- An entry of the table that is no leaf is the same. -/
theorem Relabels.entry (h : Relabels sh mem mem' l t b) (htree : Tree sh mem l t)
    (hk : sh.kind l (mem t i) ≠ .leaf) : mem' t i = mem t i := by
  refine h t i (count_self l t) ?_
  rintro p hp htable rfl
  cases hp with
  | here _ hleaf => exact hk hleaf
  | down hi hc hp =>
    have hzero := htree.not_below hi hc
    have hpage := hp.page
    rw [htable] at hpage
    omega

/-- The leaves in a page of a subtree are leaves of the subtree. -/
theorem LeafBelow.of_page {c : Nat} (htree : Tree sh mem (l + 1) t) (hi : i < sh.fan)
    (hc : sh.kind (l + 1) (mem t i) = .table c) (hp : LeafBelow sh mem (l + 1) t b p)
    (hpage : 0 < count sh mem p.table l c) : LeafBelow sh mem l c (b + i * sh.fan ^ (l + 1)) p := by
  cases hp with
  | here _ _ =>
    have hzero := htree.not_below hi hc
    dsimp only at hpage
    omega
  | @down _ _ _ j d _ hj hd hp =>
    by_cases hij : i = j
    · subst hij
      rw [hc] at hd
      cases hd
      exact hp
    · have hzero := htree.disjoint hi hj hij hc hd hpage
      have hpos := hp.page
      omega

theorem Relabels.child {c : Nat} (h : Relabels sh mem mem' (l + 1) t b)
    (htree : Tree sh mem (l + 1) t) (hi : i < sh.fan)
    (hc : sh.kind (l + 1) (mem t i) = .table c) :
    Relabels sh mem mem' l c (b + i * sh.fan ^ (l + 1)) := by
  intro u j hu hnot
  have hle := count_child (p := u) hi hc
  refine h u j (by omega) ?_
  rintro p hp rfl
  exact hnot p (hp.of_page htree hi hc hu) rfl

/-- Where there was no leaf there is none. -/
theorem Relabels.leafAt_none {idx : Nat → Nat} (hidx : ∀ j, idx j < sh.fan) (l : Nat) :
    ∀ t b, Relabels sh mem mem' l t b → Tree sh mem l t → leafAt sh mem idx l t = none →
      leafAt sh mem' idx l t = none := by
  induction l using Nat.strongRecOn with
  | ind l ih =>
    intro t b h htree hnone
    rw [leafAt_eq] at hnone ⊢
    rcases sh.cases l (mem t (idx l)) with hk | hk | ⟨k, c, rfl, hk⟩
    · rw [h.entry htree (by rw [hk]; exact Kind.noConfusion), entryLeaf_empty hk]
    · rw [entryLeaf_leaf hk] at hnone
      cases hnone
    · rw [entryLeaf_table hk] at hnone
      rw [h.entry htree (by rw [hk]; exact Kind.noConfusion), entryLeaf_table hk]
      exact ih k (Nat.lt_succ_self k) c _ (h.child htree (hidx (k + 1)) hk)
        (htree.child (hidx (k + 1)) hk) hnone

/-- Where there was a leaf, there is its new word. -/
theorem Relabels.leafAt (hp : LeafBelow sh mem l t b p) (h : Relabels sh mem mem' l t b)
    (htree : Tree sh mem l t) (hb : sh.fan ^ (l + 1) ∣ b) (ha : p.covers sh a) :
    leafAt sh mem' (slot sh a) l t =
      entryLeaf sh mem' (slot sh a) p.level (mem' p.table p.index) := by
  induction hp with
  | @here l t b i hi hk =>
    rw [leafAt_eq, slot_entry hi hb ha.1 ha.2]
  | @down l t b i c p hi hk hp ih =>
    obtain ⟨hlow, hhigh, _⟩ := hp.bounds
    have hslot := slot_entry hi hb (Nat.le_trans hlow ha.1) (Nat.lt_of_lt_of_le ha.2 hhigh)
    have hentry := h.entry htree (i := i) (by rw [hk]; exact Kind.noConfusion)
    rw [leafAt_eq, hslot, hentry, entryLeaf_table hk]
    exact ih (h.child htree hi hk) (htree.child hi hk) (Nat.dvd_add (Nat.dvd_trans
      (Nat.pow_dvd_pow _ (Nat.le_succ _)) hb) (Nat.dvd_mul_left _ _)) ha

/-- New words that are no tables leave the tables of the tree as they were. -/
theorem Relabels.tables (wt : Nat → Nat) (l : Nat) : ∀ t b, Relabels sh mem mem' l t b →
    Tree sh mem l t →
    (∀ p, LeafBelow sh mem l t b p → ∀ c, sh.kind p.level (mem' p.table p.index) ≠ .table c) →
    weight sh mem' wt (fun _ => 0) l t = weight sh mem wt (fun _ => 0) l t := by
  induction l using Nat.strongRecOn with
  | ind l ih =>
    intro t b h htree hnot
    rw [weight_eq, weight_eq]
    congr 1
    refine Finset.sum_congr rfl fun i hi => ?_
    have hi' := Finset.mem_range.mp hi
    rcases sh.cases l (mem t i) with hk | hk | ⟨k, c, rfl, hk⟩
    · rw [h.entry htree (by rw [hk]; exact Kind.noConfusion), entryWeight_empty hk,
        entryWeight_empty hk]
    · rw [entryWeight_leaf hk]
      rcases sh.cases l (mem' t i) with hk' | hk' | ⟨k, c, rfl, hk'⟩
      · rw [entryWeight_empty hk']
      · rw [entryWeight_leaf hk']
      · exact absurd hk' (hnot _ (.here hi' hk) c)
    · rw [h.entry htree (by rw [hk]; exact Kind.noConfusion), entryWeight_table hk,
        entryWeight_table hk]
      exact ih k (Nat.lt_succ_self k) c _ (h.child htree hi' hk) (htree.child hi' hk)
        fun p hp => hnot p (.down hi' hk hp)

end Radix
