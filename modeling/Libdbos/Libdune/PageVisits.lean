import Libdbos.Libdune.MapPhys

/-! # What a Walk Visits

    A walk without creation calls back once for every leaf that meets its
    range, in the order of their addresses (`vmPageWalk_visits`).

    For callbacks that replace the word of their entry by a function of it, the
    effect of a walk is a new word for these leaves, and the same translation
    for all other pages (`Rewrites.walk`).
-/

namespace Dune

open Pte Radix Sweep

section

variable {σ : Type}

/-! ## The visits -/

/-- The ranges in question: in one block of 2^48 bytes, or everything. -/
def WalkRange (start last : Nat) : Prop :=
  (start ≤ last ∧ last < 2 ^ 64 ∧ start / 2 ^ 48 = last / 2 ^ 48) ∨
    (start = 0 ∧ last = 2 ^ 64 - 1)

theorem InBlock.walkRange {va len : Nat} (h : InBlock va len) : WalkRange va (va + len - 1) := by
  obtain ⟨hpos, hlt, hblock⟩ := h
  exact .inl ⟨by omega, by omega, hblock⟩

theorem WalkRange.le {start last : Nat} (h : WalkRange start last) :
    start % span 4 ≤ last % span 4 := by
  rw [span_four]
  rcases h with ⟨hle, _, hblock⟩ | ⟨rfl, rfl⟩ <;> omega

/-- A place meets the range of addresses. -/
theorem meets_iff {start last b : Nat} {p : Place} (hrange : WalkRange start last)
    (hb : b = firstPage 3 start) (hhigh : p.base + 512 ^ p.level ≤ b + 512 ^ 4) :
    meets (start / 4096) (lastPage 3 start last) p = true ↔
      4096 * p.base ≤ last ∧ start < 4096 * p.base + span p.level := by
  have hpos : 0 < 512 ^ p.level := Nat.pow_pos (by decide)
  rw [meets, Bool.and_eq_true, decide_eq_true_eq, decide_eq_true_eq, span]
  rcases hrange with ⟨hle, _, hblock⟩ | ⟨rfl, rfl⟩
  · rw [lastPage_block hblock]
    omega
  · have hend : lastPage 3 0 (2 ^ 64 - 1) = 2 ^ 36 - 1 := by decide
    have hfirst : firstPage 3 0 = 0 := by decide
    rw [hend]
    rw [hb, hfirst] at hhigh
    omega

/-- The leaves of the block with address `start`, as the walk takes them. -/
theorem leafBelow_of_leafOf {mem : Mem Word} {root start a k : Nat} {w : Word}
    (hblock : SameBlock (start / 4096) a) (h : leafOf mem root a = some (k, w)) :
    ∃ p, LeafBelow shape mem 3 root (firstPage 3 start) p ∧ p.covers shape a ∧ p.level = k ∧
      p.base = unitOf k a ∧ mem p.table p.index = w := by
  have hfirst : firstPage 3 start = a / 512 ^ 4 * 512 ^ 4 := by
    rw [firstPage, span_four]
    unfold SameBlock at hblock
    rw [show 512 ^ (3 + 1) = 2 ^ 36 by decide]
    omega
  have hlo := Nat.div_mul_le_self a (512 ^ 4)
  have hhi := Nat.lt_div_mul_add (a := a) (b := 512 ^ 4) (by decide)
  obtain ⟨p, hp, hcovers, hlevel, hentry⟩ := @leafBelow_of_leafAt _ shape _ _ (by decide) _ _ 3 root
    (firstPage 3 start) (firstPage_dvd 3 start) (by rw [hfirst]; exact hlo)
      (by rw [hfirst]; exact hhi) h
  refine ⟨p, hp, hcovers, hlevel, ?_, hentry⟩
  obtain ⟨c, hc⟩ := hp.base_dvd (firstPage_dvd 3 start)
  obtain ⟨hge, hlt⟩ := hcovers
  rw [← hlevel, unitOf]
  have hpos : 0 < 512 ^ p.level := Nat.pow_pos (by decide)
  rw [shape_fan] at hc hlt
  have hdiv : a / 512 ^ p.level = c := by
    rw [Nat.div_eq_iff hpos, Nat.mul_comm c]
    omega
  rw [hdiv, Nat.mul_comm, hc]

/-- **The page walk visits exactly the right entries**: the leaves that meet
    the range, each of them once, in the order of their addresses. -/
theorem vmPageWalk_visits (cb : Callback σ) {root start last : Nat} {s : Vm σ}
    (htree : Tree shape s.mem 3 root) (hrange : WalkRange start last)
    (hcb : ∀ dir i va level s, ∃ w, (cb dir i va level s).1.mem = write s.mem dir i w) :
    ∃ visits : List Place,
      vmPageWalk cb root start last s = sweep .ok (visit cb) visits s ∧
      (∀ p, p ∈ visits ↔ LeafBelow shape s.mem 3 root (start / 2 ^ 48 * 2 ^ 36) p ∧
        4096 * p.base ≤ last ∧ start < 4096 * p.base + span p.level) ∧
      visits.Pairwise (fun p q => 4096 * p.base + span p.level ≤ 4096 * q.base) ∧
      ∀ p ∈ visits, 4096 * p.base % 2 ^ 48 = 4096 * (p.base - start / 2 ^ 48 * 2 ^ 36) := by
  have hlocal : Local cb (fun _ _ => True) (fun _ => True) fun _ => True := by
    refine ⟨fun _ _ _ _ _ _ _ => trivial, ?_⟩
    intro p s n t j _ _ _ _ _ hne
    obtain ⟨w, hw⟩ := hcb p.table p.index (4096 * p.base) p.level s
    rw [visit, hw]
    by_cases ht : t = p.table
    · subst ht
      exact write_index_ne (hne.resolve_left fun h => h rfl) w
    · rw [write_page_ne ht]
  have hfirst : firstPage 3 start = start / 2 ^ 48 * 2 ^ 36 := by
    rw [firstPage, span_four, show 512 ^ (3 + 1) = 2 ^ 36 by decide]
  have hwalk := pageWalk_none hlocal 3 root start last s _ htree (fun _ _ => trivial)
    (fun _ _ => trivial) (Nat.le_refl _) trivial hrange.le
  have hbounds : ∀ p, LeafBelow shape s.mem 3 root (firstPage 3 start) p →
      firstPage 3 start ≤ p.base ∧ p.base + 512 ^ p.level ≤ firstPage 3 start + 512 ^ 4 :=
    fun p hp => ⟨hp.bounds.1, hp.bounds.2.1⟩
  refine ⟨_, hwalk, ?_, ?_, ?_⟩
  · intro p
    rw [List.mem_filter, mem_leaves, ← hfirst]
    constructor
    · rintro ⟨hp, hmeets⟩
      exact ⟨hp, (meets_iff hrange rfl (hbounds p hp).2).mp hmeets⟩
    · rintro ⟨hp, hmeets⟩
      exact ⟨hp, (meets_iff hrange rfl (hbounds p hp).2).mpr hmeets⟩
  · refine List.Pairwise.filter _ ((leaves_sorted 3 root (firstPage 3 start)).imp ?_)
    intro p q hpq
    rw [shape_fan] at hpq
    rw [span]
    omega
  · intro p hp
    rw [List.mem_filter, mem_leaves] at hp
    obtain ⟨hlow, hhigh⟩ := hbounds p hp.1
    have hpos : 0 < 512 ^ p.level := Nat.pow_pos (by decide)
    rw [hfirst] at hlow hhigh
    omega

/-- A callback that clears its entry. -/
def clearEntry : Callback Unit := fun dir i _ _ s =>
  ({ s with mem := write s.mem dir i 0#64 }, .ok)

/-- Three pages. -/
def threePages : Vm Unit := (mapPhys 0x1000 0x5000 0x3000 0x8000 (permR ||| permW) bootVm).1

/-- A walk over all of the address space visits each of them. -/
theorem vmPageWalk_visits_three : ∃ visits : List Place,
    vmPageWalk clearEntry 0x1000 0 (2 ^ 64 - 1) threePages =
        sweep .ok (visit clearEntry) visits threePages ∧
      ∀ a ∈ [5, 6, 7], ∃ p ∈ visits, p.base = a := by
  have hwf := @mapPhys_boot 0x5000 0x3000 0x8000 (permR ||| permW)
    ⟨by decide, by decide, by decide⟩ (by decide +kernel)
  obtain ⟨visits, hwalk, hmem, _⟩ := vmPageWalk_visits clearEntry hwf.1.tree
    (.inr ⟨rfl, rfl⟩ : WalkRange 0 (2 ^ 64 - 1)) fun _ _ _ _ _ => ⟨_, rfl⟩
  refine ⟨visits, hwalk, fun a ha => ?_⟩
  have hleaf : ∀ a ∈ [5, 6, 7], (leafOf threePages.mem 0x1000 a).map Prod.fst = some 0 ∧
      0 < a ∧ a < 8 := by decide +kernel
  obtain ⟨hlevel, hpos, hlt⟩ := hleaf a ha
  obtain ⟨⟨_, w⟩, hw, rfl⟩ := Option.map_eq_some_iff.1 hlevel
  have hblock : SameBlock (0 / 4096) a := by
    unfold SameBlock
    omega
  obtain ⟨p, hp, _, _, hbase, _⟩ := leafBelow_of_leafOf hblock hw
  rw [unitOf_zero] at hbase
  exact ⟨p, (hmem p).2 ⟨hp, by omega, by omega⟩, hbase⟩

/-! ## Callbacks that rewrite their entry -/

/-- The callback writes no entry but its own. If it goes on, it has replaced the
    word of its entry by `f` of its level and of the word. -/
structure MayRewrite (cb : Callback σ) (f : Nat → Word → Word) : Prop where
  writes : ∀ dir i va level s, ∃ w, (cb dir i va level s).1.mem = write s.mem dir i w
  word : ∀ dir i va level s, (cb dir i va level s).2 = .ok →
    (cb dir i va level s).1.mem = write s.mem dir i (f level (s.mem dir i))

/-- The callback rewrites its entry, and always goes on. -/
def Rewrites (cb : Callback σ) (f : Nat → Word → Word) : Prop :=
  ∀ dir i va level s, (cb dir i va level s).1.mem = write s.mem dir i (f level (s.mem dir i)) ∧
    (cb dir i va level s).2 = .ok

variable {cb : Callback σ} {f : Nat → Word → Word}

theorem Rewrites.may (h : Rewrites cb f) : MayRewrite cb f :=
  ⟨fun dir i va level s => ⟨_, (h dir i va level s).1⟩, fun dir i va level s _ =>
    (h dir i va level s).1⟩

theorem MayRewrite.local (h : MayRewrite cb f) : Local cb (fun _ _ => True) (fun _ => True)
    fun _ => True := by
  refine ⟨fun _ _ _ _ _ _ _ => trivial, ?_⟩
  intro p s n t j _ _ _ _ _ hne
  obtain ⟨w, hw⟩ := h.writes p.table p.index (4096 * p.base) p.level s
  rw [visit, hw]
  by_cases ht : t = p.table
  · subst ht
    exact write_index_ne (hne.resolve_left fun h => h rfl) w
  · rw [write_page_ne ht]

/-- The loop over some leaves gives these leaves their new words. -/
theorem MayRewrite.sweep (h : MayRewrite cb f) {ps : List Place}
    (hps : ps.Pairwise fun p q => p.table ≠ q.table ∨ p.index ≠ q.index) :
    ∀ s, (Sweep.sweep .ok (visit cb) ps s).2 = .ok →
      (∀ p ∈ ps, (Sweep.sweep .ok (visit cb) ps s).1.mem p.table p.index =
        f p.level (s.mem p.table p.index)) ∧
      ∀ t i, (∀ p ∈ ps, t ≠ p.table ∨ i ≠ p.index) →
        (Sweep.sweep .ok (visit cb) ps s).1.mem t i = s.mem t i := by
  induction ps with
  | nil =>
    intro s _
    exact ⟨by simp, fun _ _ _ => rfl⟩
  | cons p ps ih =>
    intro s hend
    obtain ⟨hfirst, hrest⟩ := List.pairwise_cons.mp hps
    rw [sweep_cons] at hend ⊢
    split at hend
    · rename_i hok
      rw [if_pos hok]
      obtain ⟨hnew, hold⟩ := ih hrest (visit cb p s).1 hend
      have hmem := h.word p.table p.index (4096 * p.base) p.level s hok
      have hother : ∀ t i, t ≠ p.table ∨ i ≠ p.index → (visit cb p s).1.mem t i = s.mem t i :=
        fun t i hne => h.local.frame p s _ t i trivial (Nat.le_refl _) trivial hok trivial hne
      refine ⟨?_, ?_⟩
      · intro q hq
        rcases List.mem_cons.mp hq with rfl | hq
        · rw [hold q.table q.index fun r hr => hfirst r hr, visit, hmem, write_same]
        · rw [hnew q hq, hother q.table q.index ((hfirst q hq).imp Ne.symm Ne.symm)]
      · intro t i hne
        rw [hold t i fun q hq => hne q (List.mem_cons_of_mem p hq),
          hother t i (hne p List.mem_cons_self)]
    · rename_i hok
      exact absurd hend hok

theorem Rewrites.sweep_ok (h : Rewrites cb f) (ps : List Place) :
    ∀ s, (Sweep.sweep .ok (visit cb) ps s).2 = .ok := by
  induction ps with
  | nil =>
    intro s
    rfl
  | cons p ps ih =>
    intro s
    have hok := (h p.table p.index (4096 * p.base) p.level s).2
    rw [sweep_cons, if_pos (show (visit cb p s).2 = .ok from hok)]
    exact ih _

/-- The leaf of level `k` that maps page `a` meets the range. -/
def leafMeets (start last k a : Nat) : Bool :=
  4096 * unitOf k a ≤ last && start < 4096 * unitOf k a + span k

/-- What a walk makes of the translation of a page. -/
def rewritten (f : Nat → Word → Word) (start last a : Nat) : Option (Nat × Word) → Option (Nat × Word)
  | none => none
  | some (k, w) => if leafMeets start last k a then leafWord k (f k w) else some (k, w)

/-- The leaves that a walk visits. -/
def visitsOf (mem : Mem Word) (root start last : Nat) : List Place :=
  (leaves shape mem 3 root (firstPage 3 start)).filter
    (meets (start / 4096) (lastPage 3 start last))

theorem visitsOf_apart {mem : Mem Word} {root : Nat} (htree : Tree shape mem 3 root)
    (start last : Nat) : (visitsOf mem root start last).Pairwise
      fun p q => p.table ≠ q.table ∨ p.index ≠ q.index :=
  (leaves_apart 3 root (firstPage 3 start) htree).filter _

/-- A leaf meets the range if and only if it maps a page of it. -/
theorem visitsOf_eq_nil {mem : Mem Word} {root va len : Nat} (htree : Tree shape mem 3 root)
    (hin : InBlock va len) : visitsOf mem root va (va + len - 1) = [] ↔
      ∀ a, va / 4096 ≤ a → a ≤ (va + len - 1) / 4096 → leafOf mem root a = none := by
  have hrange := hin.walkRange
  obtain ⟨hpos, hlt, hblock⟩ := hin
  rw [List.eq_nil_iff_forall_not_mem]
  constructor
  · intro hnone a hge hend
    by_contra hsome
    obtain ⟨⟨k, w⟩, hleaf⟩ := Option.ne_none_iff_exists'.mp hsome
    have hsame : SameBlock (va / 4096) a := by unfold SameBlock; omega
    obtain ⟨p, hp, hcovers, -⟩ := leafBelow_of_leafOf hsame hleaf
    refine hnone p (List.mem_filter.mpr ⟨(mem_leaves 3 root _).mpr hp, ?_⟩)
    rw [meets_iff hrange rfl hp.bounds.2.1, span]
    unfold Place.covers at hcovers
    rw [shape_fan] at hcovers
    omega
  · intro hnone p hp
    obtain ⟨hleaf, hmeets⟩ := List.mem_filter.mp hp
    have hbelow := (mem_leaves 3 root _).mp hleaf
    rw [meets_iff hrange rfl hbelow.bounds.2.1, span] at hmeets
    -- the first page of the range that the leaf maps
    have hcovers : p.covers shape (max p.base (va / 4096)) := by
      unfold Place.covers
      rw [shape_fan]
      have : 0 < 512 ^ p.level := Nat.pow_pos (by decide)
      omega
    have hfound : leafOf mem root (max p.base (va / 4096)) = _ :=
      Relabels.leafAt hbelow (fun _ _ _ _ => rfl) htree (firstPage_dvd 3 va) hcovers
    rw [entryLeaf_leaf hbelow.kind.1, hnone _ (by omega) (by omega)] at hfound
    cases hfound

theorem MayRewrite.walk_eq (h : MayRewrite cb f) {root start last : Nat} {s : Vm σ}
    (htree : Tree shape s.mem 3 root) (hrange : WalkRange start last) :
    vmPageWalk cb root start last s =
      Sweep.sweep .ok (visit cb) (visitsOf s.mem root start last) s :=
  pageWalk_none h.local 3 root start last s _ htree (fun _ _ => trivial) (fun _ _ => trivial)
    (Nat.le_refl _) trivial hrange.le

/-- The translations after a walk that has given the leaves that meet the range
    their new words, and has changed nothing else. -/
theorem leafOf_rewritten {mem mem' : Mem Word} {root start last : Nat}
    (hkind : ∀ k w c, shape.kind k w = .leaf → shape.kind k (f k w) ≠ .table c)
    (htree : Tree shape mem 3 root) (hrange : WalkRange start last)
    (hnew : ∀ p ∈ visitsOf mem root start last,
      mem' p.table p.index = f p.level (mem p.table p.index))
    (hold : ∀ t i, (∀ p ∈ visitsOf mem root start last, t ≠ p.table ∨ i ≠ p.index) →
      mem' t i = mem t i) :
    (∀ a, SameBlock (start / 4096) a →
      leafOf mem' root a = rewritten f start last a (leafOf mem root a)) ∧
    ∀ x, count shape mem' x 3 root = count shape mem x 3 root := by
  have hmeets : ∀ p, LeafBelow shape mem 3 root (firstPage 3 start) p →
      (meets (start / 4096) (lastPage 3 start last) p = leafMeets start last p.level p.base) := by
    intro p hp
    have hunit := unitOf_of_dvd (hp.base_dvd (firstPage_dvd 3 start))
    rw [Bool.eq_iff_iff, meets_iff hrange rfl hp.bounds.2.1, leafMeets, hunit,
      Bool.and_eq_true, decide_eq_true_eq, decide_eq_true_eq]
  -- The words of the leaves after the walk.
  have hentry : ∀ p, LeafBelow shape mem 3 root (firstPage 3 start) p →
      mem' p.table p.index = if leafMeets start last p.level p.base
        then f p.level (mem p.table p.index) else mem p.table p.index := by
    intro p hp
    have hmem := (mem_leaves 3 root (firstPage 3 start)).mpr hp
    rw [← hmeets p hp]
    split
    · rename_i hin
      exact hnew p (List.mem_filter.mpr ⟨hmem, hin⟩)
    · rename_i hout
      refine hold p.table p.index fun q hq => ?_
      obtain ⟨hq, hin⟩ := List.mem_filter.mp hq
      have : Std.Symm fun p q : Place => p.table ≠ q.table ∨ p.index ≠ q.index :=
        ⟨fun _ _ h => h.imp Ne.symm Ne.symm⟩
      refine (leaves_apart 3 root (firstPage 3 start) htree).forall hmem hq ?_
      rintro rfl
      exact hout hin
  have hrelabels : Relabels shape mem mem' 3 root (firstPage 3 start) := by
    intro u i _ hnot
    refine hold u i fun q hq => ?_
    have hleaf := (mem_leaves 3 root _).mp (List.mem_filter.mp hq).1
    by_cases hu : q.table = u
    · exact .inr (hnot q hleaf hu).symm
    · exact .inl (Ne.symm hu)
  have hnot : ∀ p, LeafBelow shape mem 3 root (firstPage 3 start) p →
      ∀ c, shape.kind p.level (mem' p.table p.index) ≠ .table c := by
    intro p hp c
    rw [hentry p hp]
    split
    · exact hkind p.level _ c hp.kind.1
    · rw [hp.kind.1]
      exact Kind.noConfusion
  refine ⟨?_, fun x => hrelabels.tables _ 3 root _ htree hnot⟩
  intro a hblock
  cases hleaf : leafOf mem root a with
  | none => exact hrelabels.leafAt_none (digit_lt a) 3 root _ htree hleaf
  | some kw =>
    obtain ⟨k, w⟩ := kw
    obtain ⟨p, hp, hcovers, rfl, hbase, rfl⟩ := leafBelow_of_leafOf hblock hleaf
    have hunit : unitOf p.level p.base = unitOf p.level a := by
      rw [hbase]
      exact unitOf_of_dvd (Nat.dvd_mul_left _ _)
    have hsame : leafMeets start last p.level p.base = leafMeets start last p.level a := by
      rw [leafMeets, leafMeets, hunit]
    have hafter := hrelabels.leafAt hp htree (firstPage_dvd 3 start) hcovers
    rw [entryLeaf_eq_leafWord (hnot p hp), hentry p hp, hsame] at hafter
    refine hafter.trans ?_
    rw [rewritten]
    split
    · rfl
    · rw [leafWord, if_pos hp.kind.1]

/-- **Walks that rewrite entries** give the leaves that meet the range their
    new words, and change nothing else. -/
theorem Rewrites.walk (h : Rewrites cb f)
    (hkind : ∀ k w c, shape.kind k w = .leaf → shape.kind k (f k w) ≠ .table c)
    {root start last : Nat} {s : Vm σ} (htree : Tree shape s.mem 3 root)
    (hrange : WalkRange start last) :
    (vmPageWalk cb root start last s).2 = .ok ∧
    (∀ a, SameBlock (start / 4096) a → leafOf (vmPageWalk cb root start last s).1.mem root a =
      rewritten f start last a (leafOf s.mem root a)) ∧
    ∀ x, count shape (vmPageWalk cb root start last s).1.mem x 3 root =
      count shape s.mem x 3 root := by
  rw [h.may.walk_eq htree hrange]
  have hok := h.sweep_ok (visitsOf s.mem root start last) s
  obtain ⟨hnew, hold⟩ := h.may.sweep (visitsOf_apart htree start last) s hok
  exact ⟨hok, leafOf_rewritten hkind htree hrange hnew hold⟩

end

end Dune
