import Libdbos.Libdune.PagePool
import Mathlib.Logic.Function.Iterate

/-! # The Search for a Free Page

    `dune_page_alloc` for every core count that `dune_set_max_cores` accepts. The
    lists of the cores are below that count, the others are for stealing; the
    modulus of the random numbers is the number of the latter. Whatever can go
    wrong is a `Fault`. The thread is alone, so that every lock is free.

    The pool of `PagePool` is the case of a core count below the number of lists
    and a pool that cannot grow (`allocLoop_ofPool`).

    A page on the thread's own list is returned at once. Otherwise lists to steal
    from are picked, which has no fault if there is a core and such a list
    (`Fits`); pages on the lists of other cores are never found (`search_fails`).
    `CanSearch` is the exact condition (`free_page_found`).
-/

namespace Dune.PageSearch

/-! ## The allocator -/

inductive Fault where
  | divByZero
  | assertion
  /-- A list that does not exist. -/
  | index
  /-- The first page of an empty list. -/
  | null
  deriving DecidableEq

/-- The variables `max_n_cores` and `cpu_id`. -/
structure Cores where
  max : Int
  id : Int
  accepted : max ≤ 128
  below : id < max

/-- The list of the thread. -/
def Cores.list (c : Cores) : Int := if c.id = -1 then 0 else c.id

structure State where
  lists : Nat → List Nat
  numPages : Nat
  /-- The variable `last_stealed`, `none` for `-1`. -/
  lastStealed : Option Int
  /-- What `rand_number` is going to return. -/
  rands : Nat → BitVec 32

section

variable (c : Cores) (maps : Nat → Bool) (own : Nat)

/-- The function `grow_size`; `maps` says from which page on memory can be mapped. -/
def grow (s : State) : State × Bool :=
  if maxPages ≤ s.numPages then (s, false)
  else if maxPages < s.numPages + growSize then (s, false)
  else if !maps s.numPages then ({ s with numPages := s.numPages + growSize }, false)
  else
    ({ s with
      numPages := s.numPages + growSize
      lists := Function.update s.lists own
        ((List.range' s.numPages growSize).reverse ++ s.lists own) }, true)

/-- The list to steal from. The arithmetic is that of `uint32_t`. -/
def pick (rand : BitVec 32) : Except Fault Int :=
  let lists := BitVec.ofInt 32 (numGlobalLists - c.max)
  if lists = 0#32 then .error .divByZero
  else
    let victim := (rand % lists + BitVec.ofInt 32 c.max).toInt
    if victim < numGlobalLists then .ok victim else .error .assertion

/-- The function `dune_try_steal_pages`. -/
def trySteal (s : State) (victim : Int) : Except Fault State :=
  if victim ≤ own then .error .assertion
  else if numGlobalLists ≤ victim then .error .index
  else if (s.lists victim.toNat).isEmpty then .ok { s with lastStealed := none }
  else
    .ok { s with
      lastStealed := some victim
      lists := stealPages victim.toNat own growSize s.lists }

def steal (s : State) : Except Fault State :=
  match s.lastStealed with
  | some victim => trySteal own s victim
  | none => (pick c (s.rands 0)).bind fun victim =>
      trySteal own { s with rands := fun i => s.rands (i + 1) } victim

/-- The first page of the list is taken. -/
def pop (s : State) : Except Fault (State × Option Nat) :=
  match s.lists own with
  | [] => .error .null
  | pg :: rest => .ok ({ s with lists := Function.update s.lists own rest }, some pg)

/-- The loop at `retry`, with the attempts that are left. -/
def allocLoop : Nat → State → Except Fault (State × Option Nat)
  | 0, s => .ok (s, none)
  | n + 1, s =>
    if (s.lists own).isEmpty then
      if (grow maps own s).2 then pop own (grow maps own s).1
      else (steal c own (grow maps own s).1).bind (allocLoop n)
    else pop own s

end

def pageAlloc (c : Cores) (maps : Nat → Bool) (s : State) : Except Fault (State × Option Nat) :=
  if 0 ≤ c.list ∧ c.list < numGlobalLists then allocLoop c maps c.list.toNat 100001 s
  else .error .index

/-! ## Steps -/

/-- There are cores, and lists to steal from. -/
structure Cores.Fits (c : Cores) : Prop where
  pos : 0 < c.max
  lt : c.max < numGlobalLists
  known : -1 ≤ c.id

/-- The last list stolen from exists and comes after the thread's own. -/
def State.Ready (own : Nat) (s : State) : Prop :=
  ∀ v, s.lastStealed = some v → own < v ∧ v < numGlobalLists

variable {c : Cores} {maps : Nat → Bool} {own : Nat} {s s' : State}

theorem Cores.Fits.list_bounds (h : c.Fits) : 0 ≤ c.list ∧ c.list < c.max := by
  have hid := c.below
  obtain ⟨hpos, _, hknown⟩ := h
  unfold Cores.list
  split <;> omega

/-- The number of the list that a random number picks. -/
def victimOf (c : Cores) (rand : BitVec 32) : Nat :=
  rand.toNat % (numGlobalLists - c.max.toNat) + c.max.toNat

theorem pick_eq (h : c.Fits) (rand : BitVec 32) : pick c rand = .ok (victimOf c rand) := by
  obtain ⟨hpos, hlt, _⟩ := h
  obtain ⟨m, hm⟩ : ∃ m : Nat, c.max = m := ⟨c.max.toNat, by omega⟩
  rw [hm] at hpos hlt
  unfold pick victimOf
  rw [hm, Int.toNat_natCast]
  unfold numGlobalLists at hlt ⊢
  have hlists : (BitVec.ofInt 32 ((104 : Nat) - (m : Int))).toNat = 104 - m := by
    rw [BitVec.toNat_ofInt]
    omega
  have hcores : (BitVec.ofInt 32 (m : Int)).toNat = m := by
    rw [BitVec.toNat_ofInt]
    omega
  have hmod : rand.toNat % (104 - m) < 104 - m := Nat.mod_lt _ (by omega)
  have hsum : (rand % BitVec.ofInt 32 ((104 : Nat) - (m : Int)) + BitVec.ofInt 32 m).toNat =
      rand.toNat % (104 - m) + m := by
    rw [BitVec.toNat_add, BitVec.toNat_umod, hlists, hcores]
    omega
  have hint : (rand % BitVec.ofInt 32 ((104 : Nat) - (m : Int)) + BitVec.ofInt 32 m).toInt =
      (rand.toNat % (104 - m) + m : Nat) := by
    rw [BitVec.toInt_eq_toNat_of_lt (by rw [hsum]; omega), hsum]
  have hne : BitVec.ofInt 32 ((104 : Nat) - (m : Int)) ≠ 0#32 := by
    intro hzero
    rw [hzero] at hlists
    have hlists : 0 = 104 - m := hlists
    omega
  dsimp only
  rw [if_neg hne, hint, if_pos (by omega)]

theorem victimOf_bounds (h : c.Fits) (rand : BitVec 32) :
    c.max ≤ victimOf c rand ∧ (victimOf c rand : Int) < numGlobalLists := by
  obtain ⟨hpos, hlt, _⟩ := h
  have hmod : rand.toNat % (numGlobalLists - c.max.toNat) < numGlobalLists - c.max.toNat :=
    Nat.mod_lt _ (by omega)
  unfold victimOf
  omega

/-- Pages are only added to the list that steals. -/
theorem length_le_stealPages (victim dst n : Nat) :
    ∀ lists, (lists dst).length ≤ (stealPages victim dst n lists dst).length ∨ dst = victim := by
  induction n with
  | zero => exact fun _ => .inl (Nat.le_refl _)
  | succ n ih =>
    intro lists
    rw [stealPages]
    cases lists victim with
    | nil => exact .inl (Nat.le_refl _)
    | cons pg rest =>
      have hnext := ih (Function.update (Function.update lists victim rest) dst (pg :: lists dst))
      rw [Function.update_self, List.length_cons] at hnext
      exact hnext.imp (Nat.le_trans (Nat.le_succ _)) id

theorem stealPages_ne_nil {victim dst n : Nat} {lists : Nat → List Nat} (hne : dst ≠ victim)
    (hpages : lists victim ≠ []) : stealPages victim dst (n + 1) lists dst ≠ [] := by
  obtain ⟨pg, rest, hlist⟩ := List.exists_cons_of_ne_nil hpages
  have hnext := (length_le_stealPages victim dst n
    (Function.update (Function.update lists victim rest) dst (pg :: lists dst))).resolve_right hne
  rw [Function.update_self, List.length_cons] at hnext
  rw [stealPages, hlist]
  exact List.ne_nil_of_length_pos (Nat.lt_of_lt_of_le (Nat.succ_pos _) hnext)

theorem grow_fails (h : (grow maps own s).2 = false) :
    (grow maps own s).1.lists = s.lists ∧ (grow maps own s).1.lastStealed = s.lastStealed ∧
      (grow maps own s).1.rands = s.rands := by
  unfold grow at h ⊢
  split
  · exact ⟨rfl, rfl, rfl⟩
  · split
    · exact ⟨rfl, rfl, rfl⟩
    · split
      · exact ⟨rfl, rfl, rfl⟩
      next hfull hroom hmaps =>
        rw [if_neg hfull, if_neg hroom, if_neg hmaps] at h
        cases h

theorem grow_succeeds (h : (grow maps own s).2 = true) : (grow maps own s).1.lists own ≠ [] := by
  unfold grow at h ⊢
  split
  next hfull => rw [if_pos hfull] at h; cases h
  next hfull =>
    split
    next hroom => rw [if_neg hfull, if_pos hroom] at h; cases h
    next hroom =>
      split
      next hmaps => rw [if_neg hfull, if_neg hroom, if_pos hmaps] at h; cases h
      next =>
        dsimp only
        rw [Function.update_self]
        refine List.append_ne_nil_of_left_ne_nil (List.ne_nil_of_length_pos ?_) _
        rw [List.length_reverse, List.length_range']
        decide

theorem pop_ok (h : s.lists own ≠ []) : ∃ s' pg, pop own s = .ok (s', some pg) := by
  obtain ⟨pg, rest, hlist⟩ := List.exists_cons_of_ne_nil h
  unfold pop
  rw [hlist]
  exact ⟨_, pg, rfl⟩

/-- An attempt to steal from a list after the thread's own. -/
theorem trySteal_ok (s : State) {v : Nat} (hv : (own : Int) < v)
    (hlt : (v : Int) < numGlobalLists) : ∃ s', trySteal own s v = .ok s' ∧ s'.Ready own ∧
      (s.lists v ≠ [] ∧ s'.lists own ≠ [] ∨ s.lists v = [] ∧
        s' = { s with lastStealed := none }) := by
  unfold trySteal
  rw [if_neg (by omega), if_neg (by omega), Int.toNat_natCast]
  split
  next hempty =>
    rw [List.isEmpty_iff] at hempty
    refine ⟨_, rfl, ?_, .inr ⟨hempty, rfl⟩⟩
    intro w hw
    cases hw
  next hpages =>
    rw [List.isEmpty_iff] at hpages
    refine ⟨_, rfl, ?_, .inl ⟨hpages, stealPages_ne_nil (by omega) hpages⟩⟩
    intro w hw
    obtain rfl := Option.some.inj hw
    exact ⟨hv, hlt⟩

/-- An attempt to steal that got nothing: a list that was picked had no page, and the next
    list is picked by the next number that has not been used. -/
structure InVain (c : Cores) (s s' : State) : Prop where
  lists : s'.lists = s.lists
  last : s'.lastStealed = none
  first : s.lastStealed = none → s.lists (victimOf c (s.rands 0)) = []
  next : s.lastStealed = none → s'.rands = fun i => s.rands (i + 1)
  rest : s.lastStealed ≠ none → s'.rands = s.rands

/-- The list of the last attempt is tried again, for every number of cores. -/
theorem steal_last (hready : s.Ready own) {v : Int} (hlast : s.lastStealed = some v) :
    ∃ s', steal c own s = .ok s' ∧ s'.Ready own ∧
      (s.lists v.toNat ≠ [] ∧ s'.lists own ≠ [] ∨ s.lists v.toNat = [] ∧
        s' = { s with lastStealed := none }) := by
  obtain ⟨hle, hlt⟩ := hready v hlast
  obtain ⟨v, rfl⟩ := Int.eq_ofNat_of_zero_le (show 0 ≤ v by omega)
  rw [steal, hlast]
  exact trySteal_ok s hle hlt

theorem steal_ok (hfits : c.Fits) (hown : own < c.max) (hready : s.Ready own) :
    ∃ s', steal c own s = .ok s' ∧ s'.Ready own ∧ (s'.lists own ≠ [] ∨ InVain c s s') := by
  cases hlast : s.lastStealed with
  | some v =>
    obtain ⟨s', hs', hready', hpages⟩ := @steal_last c _ _ hready v hlast
    refine ⟨s', hs', hready', hpages.imp And.right ?_⟩
    rintro ⟨_, rfl⟩
    exact ⟨rfl, rfl, by simp [hlast], by simp [hlast], fun _ => rfl⟩
  | none =>
    obtain ⟨hle, hlt⟩ := victimOf_bounds hfits (s.rands 0)
    obtain ⟨s', hs', hready', hpages⟩ := trySteal_ok { s with rands := fun i => s.rands (i + 1) }
      (Int.lt_of_lt_of_le hown hle) hlt
    refine ⟨s', ?_, hready', hpages.imp And.right ?_⟩
    · rw [steal, hlast]
      dsimp only
      rw [pick_eq hfits, ← hlast]
      exact hs'
    · rintro ⟨hempty, rfl⟩
      exact ⟨rfl, rfl, fun _ => hempty, fun _ => rfl, fun h => absurd hlast h⟩

/-! ## The search -/

/-- A page is returned at once when the list has one. -/
theorem allocLoop_of_pages {n : Nat} (h : s.lists own ≠ []) :
    ∃ s' pg, allocLoop c maps own (n + 1) s = .ok (s', some pg) := by
  obtain ⟨s', pg, hpop⟩ := pop_ok h
  refine ⟨s', pg, ?_⟩
  rw [allocLoop, if_neg (by rwa [List.isEmpty_iff]), hpop]

/-- Without a page and without growth, pages are to be stolen. -/
theorem allocLoop_steals (n : Nat) (hempty : s.lists own = [])
    (hgrow : (grow maps own s).2 = false) :
    ∃ t : State, t.lists = s.lists ∧ t.lastStealed = s.lastStealed ∧ t.rands = s.rands ∧
      allocLoop c maps own (n + 1) s = (steal c own t).bind (allocLoop c maps own n) := by
  obtain ⟨hlists, hlast, hrands⟩ := grow_fails hgrow
  refine ⟨_, hlists, hlast, hrands, ?_⟩
  rw [allocLoop, if_pos (by rwa [List.isEmpty_iff]), if_neg (by rw [hgrow]; decide)]

/-- One attempt: a page is found, or the search goes on after the attempt to steal. -/
theorem allocLoop_step (n : Nat) :
    (∃ s' pg, allocLoop c maps own (n + 1) s = .ok (s', some pg)) ∨
    ∃ t : State, t.lists = s.lists ∧ t.lastStealed = s.lastStealed ∧ t.rands = s.rands ∧
      allocLoop c maps own (n + 1) s = (steal c own t).bind (allocLoop c maps own n) := by
  by_cases hempty : s.lists own = []
  · cases hgrow : (grow maps own s).2 with
    | true =>
      obtain ⟨s', pg, hpop⟩ := pop_ok (grow_succeeds hgrow)
      refine .inl ⟨s', pg, ?_⟩
      rw [allocLoop, if_pos (by rwa [List.isEmpty_iff]), if_pos hgrow, hpop]
    | false => exact .inr (allocLoop_steals n hempty hgrow)
  · exact .inl (allocLoop_of_pages hempty)

/-- The search always ends without a fault. -/
theorem allocLoop_ok (hfits : c.Fits) (hown : own < c.max) (n : Nat) :
    ∀ s : State, s.Ready own → ∃ s' r, allocLoop c maps own n s = .ok (s', r) := by
  induction n with
  | zero => exact fun s _ => ⟨s, none, rfl⟩
  | succ n ih =>
    intro s hready
    obtain ⟨s', pg, hfound⟩ | ⟨t, _, hlast, _, hstep⟩ := @allocLoop_step c maps own s n
    · exact ⟨s', some pg, hfound⟩
    · obtain ⟨s', hsteal, hready', _⟩ := steal_ok hfits hown
        (show t.Ready own from fun v hv => hready v (hlast ▸ hv))
      rw [hstep, hsteal]
      exact ih s' hready'

/-- One attempt out of two or more: a page is found, or it was in vain. -/
theorem allocLoop_attempt (hfits : c.Fits) (hown : own < c.max) (n : Nat)
    (hready : s.Ready own) :
    (∃ s' pg, allocLoop c maps own (n + 2) s = .ok (s', some pg)) ∨
    ∃ s', InVain c s s' ∧ allocLoop c maps own (n + 2) s = allocLoop c maps own (n + 1) s' := by
  obtain hfound | ⟨t, hlists, hlast, hrands, hstep⟩ := @allocLoop_step c maps own s (n + 1)
  · exact .inl hfound
  · obtain ⟨s', hsteal, hready', hown' | hvain⟩ := steal_ok hfits hown
      (show t.Ready own from fun v hv => hready v (hlast ▸ hv))
    · obtain ⟨s'', pg, hfound⟩ := allocLoop_of_pages hown'
      refine .inl ⟨s'', pg, ?_⟩
      rw [hstep, hsteal]
      exact hfound
    · obtain ⟨h1, h2, h3, h4, h5⟩ := hvain
      rw [hlists] at h1 h3
      rw [hlast] at h3 h4 h5
      rw [hrands] at h3 h4 h5
      refine .inr ⟨s', ⟨h1, h2, h3, h4, h5⟩, ?_⟩
      rw [hstep, hsteal]
      rfl

/-- If the `i`-th random number picks a list with pages, the search ends with a page. -/
theorem allocLoop_found (hfits : c.Fits) (hown : own < c.max) (i : Nat) :
    ∀ (s : State) (n : Nat), s.lastStealed = none → s.lists (victimOf c (s.rands i)) ≠ [] →
      i + 2 ≤ n → ∃ s' pg, allocLoop c maps own n s = .ok (s', some pg) := by
  induction i with
  | zero =>
    intro s n hnone hpages hn
    have hready : s.Ready own := fun v hv => by rw [hnone] at hv; cases hv
    obtain ⟨n, rfl⟩ : ∃ k, n = k + 2 := ⟨n - 2, by omega⟩
    obtain hfound | ⟨s', hvain, _⟩ := allocLoop_attempt hfits hown n hready
    · exact hfound
    · exact absurd (hvain.first hnone) hpages
  | succ i ih =>
    intro s n hnone hpages hn
    have hready : s.Ready own := fun v hv => by rw [hnone] at hv; cases hv
    obtain ⟨n, rfl⟩ : ∃ k, n = k + 2 := ⟨n - 2, by omega⟩
    obtain hfound | ⟨s', hvain, hnext⟩ := allocLoop_attempt hfits hown n hready
    · exact hfound
    · rw [hnext]
      refine ih s' (n + 1) hvain.last ?_ (by omega)
      rw [hvain.lists, hvain.next hnone]
      exact hpages

/-- Every list for stealing is picked by one of the first numbers, all of which are used
    if nothing is found before. -/
def ReachesAll (c : Cores) (rands : Nat → BitVec 32) : Prop :=
  ∀ v : Nat, c.max ≤ v → v < numGlobalLists → ∃ i < 99999, victimOf c (rands i) = v

/-- With a page on a list for stealing, the search ends with a page. -/
theorem allocLoop_spare (hfits : c.Fits) (hown : own < c.max) (hready : s.Ready own)
    (hall : ReachesAll c s.rands) {v : Nat} (hv : c.max ≤ v) (hlt : v < numGlobalLists)
    (hpages : s.lists v ≠ []) : ∃ s' pg, allocLoop c maps own 100001 s = .ok (s', some pg) := by
  obtain ⟨i, hi, rfl⟩ := hall v hv hlt
  cases hlast : s.lastStealed with
  | none => exact allocLoop_found hfits hown i s _ hlast hpages (by omega)
  | some v =>
    -- The list of the last call is tried first.
    obtain hfound | ⟨t, hvain, hnext⟩ := allocLoop_attempt hfits hown 99999 hready
    · exact hfound
    · rw [hnext]
      refine allocLoop_found hfits hown i t _ hvain.last ?_ (by omega)
      rwa [hvain.lists, hvain.rest (by rw [hlast]; exact Option.some_ne_none v)]

/-- With a page on the list stolen from last, no list is picked. -/
theorem allocLoop_last {n : Nat} (hready : s.Ready own) {v : Int}
    (hlast : s.lastStealed = some v) (hpages : s.lists v.toNat ≠ []) :
    ∃ s' pg, allocLoop c maps own (n + 2) s = .ok (s', some pg) := by
  obtain hfound | ⟨t, hlists, hsame, _, hstep⟩ := @allocLoop_step c maps own s (n + 1)
  · exact hfound
  · obtain ⟨s', hsteal, _, ⟨_, hown⟩ | ⟨hempty, _⟩⟩ := @steal_last c own t
      (fun w hw => hready w (hsame ▸ hw)) v (hsame.trans hlast)
    · rw [hstep, hsteal]
      exact allocLoop_of_pages hown
    · rw [hlists] at hempty
      exact absurd hempty hpages

/-! ## Where it fails -/

theorem grow_unmapped (own : Nat) (s : State) : (grow (fun _ => false) own s).2 = false := by
  unfold grow
  split
  · rfl
  · split <;> rfl

/-- A list of the last call without pages is given up. -/
theorem allocLoop_drops {n : Nat} (hready : s.Ready own) (hempty : s.lists own = [])
    (hlast : ∀ v, s.lastStealed = some v → s.lists v.toNat = []) :
    ∃ (m : Nat) (t : State), t.lists = s.lists ∧ t.rands = s.rands ∧ t.lastStealed = none ∧
      allocLoop c (fun _ => false) own (n + 2) s =
        allocLoop c (fun _ => false) own (m + 1) t := by
  cases hv : s.lastStealed with
  | none => exact ⟨n + 1, s, rfl, rfl, hv, rfl⟩
  | some v =>
    obtain ⟨t, hlists, hsame, hrands, hstep⟩ :=
      @allocLoop_steals c _ _ _ (n + 1) hempty (grow_unmapped own s)
    obtain ⟨_, hsteal, _, ⟨hpages, _⟩ | ⟨_, rfl⟩⟩ := @steal_last c own t
      (fun w hw => hready w (hsame ▸ hw)) v (hsame.trans hv)
    · rw [hlists] at hpages
      exact absurd (hlast v hv) hpages
    · refine ⟨n, { t with lastStealed := none }, hlists, hrands, rfl, ?_⟩
      rw [hstep, hsteal]
      rfl

/-- A list that does not come after the thread's own, or does not exist. -/
theorem steal_fault {v : Int} (hlast : s.lastStealed = some v)
    (hbad : ¬ (own < v ∧ v < numGlobalLists)) : ∃ e, steal c own s = .error e := by
  rw [steal, hlast]
  dsimp only
  rw [trySteal]
  by_cases hle : v ≤ own
  · exact ⟨_, if_pos hle⟩
  · exact ⟨_, (if_neg hle).trans (if_pos (by omega))⟩

/-- The number 0 picks the first list after those of the cores. -/
theorem pick_zero (hmax : 0 ≤ c.max) :
    (∃ e, pick c 0#32 = .error e) ∨ pick c 0#32 = .ok c.max ∧ c.max < numGlobalLists := by
  have hint : (0#32 % BitVec.ofInt 32 (numGlobalLists - c.max) + BitVec.ofInt 32 c.max).toInt =
      c.max := by
    have hle := c.accepted
    rw [BitVec.zero_umod, BitVec.zero_add, BitVec.toInt_ofInt]
    exact Int.bmod_eq_of_le (by omega) (by omega)
  unfold pick
  dsimp only
  split
  · exact .inl ⟨_, rfl⟩
  · rw [hint]
    split
    next hlt => exact .inr ⟨rfl, hlt⟩
    next => exact .inl ⟨_, rfl⟩

/-- Without cores or without a list to steal from, the number 0 leads to a fault. -/
theorem steal_unfit (hown : c.list = own) (hfits : ¬ c.Fits) (hlast : s.lastStealed = none)
    (hzero : s.rands 0 = 0#32) : ∃ e, steal c own s = .error e := by
  have hbelow := c.below
  have hknown : -1 ≤ c.id := by
    unfold Cores.list at hown
    split at hown <;> omega
  rw [steal, hlast, hzero]
  dsimp only
  obtain ⟨e, hpick⟩ | ⟨hpick, hlt⟩ := pick_zero (show 0 ≤ c.max by omega)
  · exact ⟨e, by rw [hpick]; rfl⟩
  · have hpos : ¬ 0 < c.max := fun hpos => hfits ⟨hpos, hlt, hknown⟩
    rw [hpick]
    show ∃ e, trySteal own _ c.max = .error e
    rw [trySteal, if_pos (by omega)]
    exact ⟨_, rfl⟩

/-- Pages on the lists of other cores are never found. -/
theorem allocLoop_none (hfits : c.Fits) (hown : own < c.max) (n : Nat) :
    ∀ s : State, s.lastStealed = none → s.lists own = [] →
      (∀ v : Nat, c.max ≤ v → v < numGlobalLists → s.lists v = []) →
      ∃ s', allocLoop c (fun _ => false) own n s = .ok (s', none) := by
  induction n with
  | zero => exact fun s _ _ _ => ⟨s, rfl⟩
  | succ n ih =>
    intro s hlast hempty hspare
    obtain ⟨t, hlists, hsame, _, hstep⟩ :=
      @allocLoop_steals c _ _ _ n hempty (grow_unmapped own s)
    rw [hlast] at hsame
    obtain ⟨hle, hlt⟩ := victimOf_bounds hfits (t.rands 0)
    have hsteal : steal c own t = .ok { t with rands := fun i => t.rands (i + 1) } := by
      rw [steal, hsame]
      dsimp only
      rw [pick_eq hfits]
      show trySteal own _ _ = _
      rw [trySteal, if_neg (by omega), if_neg (by omega), Int.toNat_natCast,
        if_pos (by rw [List.isEmpty_iff, hlists]; exact hspare _ hle (by omega)), ← hsame]
    rw [hstep, hsteal]
    refine ih _ hsame ?_ ?_
    · exact hlists ▸ hempty
    · exact hlists ▸ hspare

/-- All lists for stealing are picked in turn. -/
theorem reachesAll_ofNat (hfits : c.Fits) : ReachesAll c fun i => BitVec.ofNat 32 i := by
  obtain ⟨hpos, hlt, _⟩ := hfits
  intro v hv hlt
  unfold numGlobalLists at *
  refine ⟨v - c.max.toNat, by omega, ?_⟩
  show (BitVec.ofNat 32 (v - c.max.toNat)).toNat % (104 - c.max.toNat) + c.max.toNat = v
  rw [BitVec.toNat_ofNat, Nat.mod_eq_of_lt (by omega), Nat.mod_eq_of_lt (by omega)]
  omega

/-! ## The exact condition -/

/-- What is expected of the allocator: whatever the random numbers are and however the pool
    grows, there is no fault, and a page is returned if one is free and the numbers lead to
    every list for stealing. -/
def Finds (c : Cores) (s : State) : Prop :=
  ∀ maps rands, ∃ s' r, pageAlloc c maps { s with rands := rands } = .ok (s', r) ∧
    (ReachesAll c rands → (∃ l < numGlobalLists, s.lists l ≠ []) → ∃ pg, r = some pg)

/-- The thread's list exists, and it has a page or others can be stolen from: the list stolen
    from last is one to steal from, and it has a page or a list can be picked, with a page on
    one of those unless no list has one. -/
def CanSearch (c : Cores) (s : State) : Prop :=
  (0 ≤ c.list ∧ c.list < numGlobalLists) ∧
  (s.lists c.list.toNat ≠ [] ∨ s.Ready c.list.toNat ∧
    ((∃ v, s.lastStealed = some v ∧ s.lists v.toNat ≠ []) ∨
      c.Fits ∧ ((∃ v : Nat, c.max ≤ v ∧ v < numGlobalLists ∧ s.lists v ≠ []) ∨
        ∀ l < numGlobalLists, s.lists l = [])))

theorem finds_of_canSearch (h : CanSearch c s) : Finds c s := by
  intro maps rands
  obtain ⟨hvalid, hcase⟩ := h
  rw [pageAlloc, if_pos hvalid]
  have hpage (hfound : ∃ s' pg, allocLoop c maps c.list.toNat 100001 { s with rands := rands } =
      .ok (s', some pg)) : ∃ s' r, allocLoop c maps c.list.toNat 100001 { s with rands := rands } =
        .ok (s', r) ∧
      (ReachesAll c rands → (∃ l < numGlobalLists, s.lists l ≠ []) → ∃ pg, r = some pg) := by
    obtain ⟨s', pg, hfound⟩ := hfound
    exact ⟨s', some pg, hfound, fun _ _ => ⟨pg, rfl⟩⟩
  obtain hown | ⟨hready, ⟨v, hlast, hpages⟩ | ⟨hfits, hspare⟩⟩ := hcase
  · exact hpage (allocLoop_of_pages hown)
  · exact hpage (@allocLoop_last c maps _ { s with rands := rands } 99999 hready v hlast hpages)
  · have hown : (c.list.toNat : Int) < c.max := by
      have := hfits.list_bounds
      omega
    obtain ⟨s', r, hrun⟩ :=
      @allocLoop_ok c maps c.list.toNat hfits hown 100001 { s with rands := rands } hready
    refine ⟨s', r, hrun, fun hall hsome => ?_⟩
    obtain ⟨v, hv, hlt, hpages⟩ | hnone := hspare
    · obtain ⟨t, pg, hfound⟩ := @allocLoop_spare c maps _ { s with rands := rands } hfits hown
        hready hall v hv hlt hpages
      rw [hrun] at hfound
      exact ⟨pg, congrArg Prod.snd (Except.ok.inj hfound)⟩
    · obtain ⟨l, hl, hpages⟩ := hsome
      exact absurd (hnone l hl) hpages

theorem canSearch_of_finds (h : Finds c s) : CanSearch c s := by
  have hvalid : 0 ≤ c.list ∧ c.list < numGlobalLists := by
    by_contra hnot
    obtain ⟨_, _, hrun, _⟩ := h (fun _ => false) s.rands
    rw [pageAlloc, if_neg hnot] at hrun
    cases hrun
  refine ⟨hvalid, or_iff_not_imp_left.mpr fun hempty => ?_⟩
  rw [not_not] at hempty
  obtain ⟨own, hown⟩ := Int.eq_ofNat_of_zero_le hvalid.1
  rw [hown, Int.toNat_natCast] at hempty ⊢
  have hrun (rands : Nat → BitVec 32) :
      pageAlloc c (fun _ => false) { s with rands := rands } =
        allocLoop c (fun _ => false) own 100001 { s with rands := rands } := by
    rw [pageAlloc, if_pos hvalid, hown, Int.toNat_natCast]
  have hready : s.Ready own := by
    intro v hlast
    by_contra hbad
    obtain ⟨_, _, hok, _⟩ := h (fun _ => false) s.rands
    obtain ⟨t, _, hsame, _, hstep⟩ := @allocLoop_steals c _ _ _ 100000 hempty (grow_unmapped own s)
    obtain ⟨e, hfault⟩ := @steal_fault c own t v (hsame.trans hlast) hbad
    rw [hrun, hstep, hfault] at hok
    cases hok
  refine ⟨hready, or_iff_not_imp_left.mpr fun hlast => ?_⟩
  have hlast (v : Int) (hv : s.lastStealed = some v) : s.lists v.toNat = [] := by
    by_contra hpages
    exact hlast ⟨v, hv, hpages⟩
  have hfits : c.Fits := by
    by_contra hnot
    obtain ⟨_, _, hok, _⟩ := h (fun _ => false) fun _ => 0#32
    obtain ⟨m, t, hlists, hrands, hnone, hdrop⟩ :=
      @allocLoop_drops c own { s with rands := fun _ => 0#32 } 99999 hready hempty hlast
    obtain ⟨t', _, hsame, hrands', hstep⟩ := @allocLoop_steals c _ _ _ m
      ((congrFun hlists own).trans hempty) (grow_unmapped own t)
    obtain ⟨e, hfault⟩ := steal_unfit hown hnot (hsame.trans hnone) (by rw [hrands', hrands])
    rw [hrun, hdrop, hstep, hfault] at hok
    cases hok
  refine ⟨hfits, or_iff_not_imp_left.mpr fun hspare l hl => ?_⟩
  by_contra hpages
  obtain ⟨_, _, hok, hfound⟩ := h (fun _ => false) fun i => BitVec.ofNat 32 i
  obtain ⟨pg, rfl⟩ := hfound (reachesAll_ofNat hfits) ⟨l, hl, hpages⟩
  obtain ⟨m, t, hlists, _, hnone, hdrop⟩ :=
    @allocLoop_drops c own { s with rands := fun i => BitVec.ofNat 32 i } 99999 hready hempty hlast
  obtain ⟨s', hnopage⟩ := allocLoop_none hfits (hown ▸ hfits.list_bounds.2) (m + 1) t hnone
    ((congrFun hlists own).trans hempty) fun v hv hlt => by
      by_contra hv'
      exact hspare ⟨v, hv, hlt, by rwa [hlists] at hv'⟩
  rw [hrun, hdrop, hnopage] at hok
  cases hok

/-- **A free page is found** for exactly the core counts and distributions of the free pages
    where the thread's own list has one, or where lists can be stolen from and not all the
    free pages are on the lists of other cores. -/
theorem free_page_found (c : Cores) (s : State) : Finds c s ↔ CanSearch c s :=
  ⟨canSearch_of_finds, finds_of_canSearch⟩

/-- A full pool whose only free page is on list `l`. -/
def onePage (l : Nat) : State where
  lists := Function.update (fun _ => []) l [0]
  numPages := maxPages
  lastStealed := none
  rands := fun i => BitVec.ofNat 32 i

theorem onePage_lists {l v : Nat} (h : v ≠ l) : (onePage l).lists v = [] := by
  show Function.update (fun _ => []) l [0] v = []
  rw [Function.update_of_ne h]

/-- The default count of 32 cores. -/
def defaultCores : Cores := ⟨32, 0, by decide, by decide⟩

/-- With 104 cores, the number of lists to steal from is the divisor 0. With the default
    count, the only free page is on the list of core 1, and core 0 gets none. -/
theorem search_fails :
    pageAlloc ⟨104, 0, by decide, by decide⟩ (fun _ => false) (onePage 1) = .error .divByZero ∧
    ReachesAll defaultCores (onePage 1).rands ∧
    ∃ s', pageAlloc defaultCores (fun _ => false) (onePage 1) = .ok (s', none) := by
  have hfits : defaultCores.Fits := ⟨by decide, by decide, by decide⟩
  refine ⟨rfl, reachesAll_ofNat hfits, ?_⟩
  have hmax : defaultCores.max = 32 := rfl
  rw [pageAlloc, if_pos (by decide)]
  exact allocLoop_none hfits (by decide) _ (onePage 1) rfl (onePage_lists (by decide))
    fun v hv _ => onePage_lists (by omega)

/-! ## The pool that cannot grow -/

/-- A pool with the random numbers that it is going to use. -/
def ofPool (p : Pool) : State where
  lists := p.localLists
  numPages := maxPages
  lastStealed := p.lastStealed.map Int.ofNat
  rands := fun i => (randNumber p.cpu)^[i + 1] p.seed

def Cores.ofCpu (c : Cpu) : Cores :=
  ⟨c.maxCores, c.id, by have := c.cores_lt; unfold numGlobalLists at this; omega, c.id_lt⟩

theorem fits_ofCpu (c : Cpu) : (Cores.ofCpu c).Fits :=
  ⟨Int.natCast_pos.mpr c.some_core, Int.ofNat_lt.mpr c.cores_lt, c.known⟩

theorem trySteal_ofPool (p : Pool) (rands : Nat → BitVec 32) :
    trySteal p.cpu.list { ofPool p with rands := rands } (chooseVictim p).2 =
      .ok { ofPool (Dune.steal p) with rands := rands } := by
  have hlist := p.cpu.list_lt
  obtain ⟨hle, hlt⟩ := chooseVictim_bounds p
  rw [trySteal, if_neg (by omega), if_neg (by omega), Int.toNat_natCast]
  show (if (p.localLists (chooseVictim p).2).isEmpty = true then _ else _) = _
  by_cases hempty : (p.localLists (chooseVictim p).2).isEmpty = true
  · rw [if_pos hempty, Dune.steal, if_pos hempty]
    rfl
  · rw [if_neg hempty, Dune.steal, if_neg hempty]
    rfl

theorem steal_ofPool (p : Pool) :
    steal (.ofCpu p.cpu) p.cpu.list (ofPool p) = .ok (ofPool (Dune.steal p)) := by
  have hseed : (Dune.steal p).seed = (chooseVictim p).1 := by
    unfold Dune.steal
    split <;> rfl
  have hrands : (ofPool (Dune.steal p)).rands =
      fun i => (randNumber p.cpu)^[i + 1] (chooseVictim p).1 := by
    show (fun i => (randNumber (Dune.steal p).cpu)^[i + 1] (Dune.steal p).seed) = _
    rw [hseed, (steal_rest p).2]
  have htry := trySteal_ofPool p (ofPool (Dune.steal p)).rands
  have hwith {rands : Nat → BitVec 32} (h : (ofPool (Dune.steal p)).rands = rands) :
      (.ok { ofPool (Dune.steal p) with rands := rands } : Except Fault State) =
        .ok (ofPool (Dune.steal p)) := by
    subst h
    rfl
  have hlast' : (ofPool p).lastStealed = p.lastStealed.map Int.ofNat := rfl
  cases hlast : p.lastStealed with
  | some v =>
    have hvictim : chooseVictim p = (p.seed, v) := by rw [chooseVictim, hlast]
    have hsame : (ofPool (Dune.steal p)).rands = (ofPool p).rands := by
      rw [hrands, hvictim]
      rfl
    rw [steal, hlast', hlast]
    rw [hvictim, hsame] at htry
    exact htry.trans (hwith hsame)
  | none =>
    have hvictim : chooseVictim p =
        (randNumber p.cpu p.seed, pickVictim p.cpu (randNumber p.cpu p.seed)) := by
      rw [chooseVictim, hlast]
    have hnext : (ofPool (Dune.steal p)).rands = fun i => (ofPool p).rands (i + 1) := by
      rw [hrands, hvictim]
      funext i
      exact (Function.iterate_succ_apply (randNumber p.cpu) (i + 1) p.seed).symm
    have hpick : victimOf (.ofCpu p.cpu) ((ofPool p).rands 0) = (chooseVictim p).2 := by
      rw [hvictim]
      rfl
    rw [steal, hlast', hlast]
    rw [hnext] at htry
    dsimp only [Option.map_none]
    rw [pick_eq (fits_ofCpu p.cpu), hpick]
    exact htry.trans (hwith hnext)

/-- **The pool is a case of the search**: `PagePool`'s loop finds the same page and leaves the
    same lists. -/
theorem allocLoop_ofPool (maps : Nat → Bool) (n : Nat) : ∀ p : Pool,
    ∃ s', allocLoop (.ofCpu p.cpu) maps p.cpu.list n (ofPool p) =
      .ok (s', (pageAllocLoop n p).2) ∧ s'.lists = (pageAllocLoop n p).1.localLists := by
  induction n with
  | zero => exact fun p => ⟨_, rfl, rfl⟩
  | succ n ih =>
    intro p
    rw [allocLoop, pageAllocLoop]
    cases hlist : p.localLists p.cpu.list with
    | cons pg rest =>
      have hlist : (ofPool p).lists p.cpu.list = pg :: rest := hlist
      rw [if_neg (by rw [hlist]; exact Bool.false_ne_true), pop, hlist]
      exact ⟨_, rfl, rfl⟩
    | nil =>
      have hlist : (ofPool p).lists p.cpu.list = [] := hlist
      have hgrow : grow maps p.cpu.list (ofPool p) = (ofPool p, false) :=
        if_pos (Nat.le_refl maxPages)
      have hnext := ih (Dune.steal p)
      rw [(steal_rest p).2] at hnext
      rw [if_pos (by rw [hlist]; rfl), hgrow, if_neg Bool.false_ne_true, steal_ofPool]
      exact hnext

end Dune.PageSearch
