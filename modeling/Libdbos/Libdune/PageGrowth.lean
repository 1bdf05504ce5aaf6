import Libdbos.Libdune.PageThreads

/-! # Growths of the Pool that Fail

    `grow_size` adds to the counter of pages before it knows that there is room.
    A run is compared with the run where each growth that fails does no more
    than the first test of `grow_size`. Both end in the same state, but for
    growths that are still in progress, unless it is the mapping of memory that
    fails: then the counter stays too high.
-/

namespace PageThreads

open Dune LTS Places

variable {c : Cores}

/-! ### Runs where growths fail quietly -/

/-- The thread is in `grow_size`. -/
def Pc.grows : Pc → Bool
  | .growing _ | .adding _ | .undoing _ | .linking _ _ => true
  | _ => false

def State.isfrompool (s : State c) (pa : Nat) : Bool :=
  pageBase ≤ pa && pa < pageBase + s.numPages * 4096

/-- The position of a thread if a growth that has not been granted pages had not
    begun. -/
def Pc.settled : Pc → Pc
  | .adding k => .growing k
  | .undoing k => .growing k
  | pc => pc

/-- The state without the growths that have not been granted pages. -/
def State.settled (s : State c) : State c :=
  { s with numPages := s.committed, pc := fun t => (s.pc t).settled }

/-- Memory can be mapped, and a growth that fails does not touch the counter. -/
def FailsQuietly (s : State c) : Label c → Bool
  | .link _ mapped => mapped
  | .add _ => s.numPages + growSize ≤ maxPages
  | .sub _ => false
  | _ => true

/-- A step where a growth that fails does no more than the first test. -/
def quietly (s : State c) : Label c → List (Label c)
  | .load t => if s.numPages < maxPages then [] else [.load t]
  | .add t => if s.numPages + growSize ≤ maxPages then [.load t, .add t] else []
  | .sub t => [.load t]
  | l => [l]

/-- The same run, where growths that fail do no more than the first test. -/
def quietRun (s : State c) : List (Label c) → List (Label c)
  | [] => []
  | l :: ls =>
      quietly s l ++
        match step s l with
        | some s' => quietRun s' ls
        | none => []

/-! ### Settled states -/

section

variable {s s' : State c} {t : Fin c.threads}

theorem settled_goto (num : Nat) (pc : Pc) :
    ((s.setNum num).goto t pc).settled =
      (s.settled.setNum (num - growSize * (s.goto t pc).undoing)).goto t pc.settled := by
  have hpc : (fun u => ((s.goto t pc).pc u).settled) =
      Function.update (fun u => (s.pc u).settled) t pc.settled := by
    funext u
    by_cases hu : u = t
    · subst hu
      simp only [State.goto, Function.update_self]
    · simp only [State.goto, Function.update_of_ne hu]
  show ({ s with
      numPages := num - growSize * (s.goto t pc).undoing
      pc := fun u => ((s.goto t pc).pc u).settled } : State c) = _
  rw [hpc]
  rfl

/-- A thread that neither is nor gets about to undo a growth moves on. -/
theorem settled_goto_neutral {pc : Pc} (hpc : (s.pc t).undoes = false) (hpc' : pc.undoes = false) :
    (s.goto t pc).settled = s.settled.goto t pc.settled := by
  have hundoing := goto_undoing s t pc
  rw [hpc, hpc'] at hundoing
  refine (settled_goto s.numPages pc).trans ?_
  rw [show (s.goto t pc).undoing = s.undoing from hundoing]
  rfl

/-- The counter and the growths to undo change together. -/
theorem settled_goto_count {pc : Pc} {num : Nat}
    (hnum : num - growSize * (s.goto t pc).undoing = s.committed) :
    ((s.setNum num).goto t pc).settled = s.settled.goto t pc.settled := by
  rw [settled_goto, hnum]
  rfl

theorem goto_same {pc : Pc} (h : s.pc t = pc) : s.goto t pc = s := by
  rw [State.goto, ← h, Function.update_eq_self]

theorem attempts_settled (pc : Pc) : pc.settled.attempts = pc.attempts := by
  cases pc <;> rfl

theorem exec_quiet_one {l : Label c} (hok : FailsQuietly s l = true) (h : Moves s l s') :
    (pages c).execWhen FailsQuietly s [l] = some s' := by
  rw [System.execWhen, if_pos hok, show (pages c).step s l = some s' from step_of_moves h]
  rfl

/-! ### The steps of a growth -/

theorem quietly_over {k : Nat} (hpc : s.pc t = .adding k)
    (hnum : maxPages < s.numPages + growSize) :
    (pages c).execWhen FailsQuietly s.settled (quietly s (.add t)) =
      some ((s.setNum (s.numPages + growSize)).goto t (.undoing k)).settled := by
  have hundoing := goto_undoing s t (.undoing k)
  rw [hpc] at hundoing
  rw [settled_goto_count, goto_same (congrArg Pc.settled hpc), quietly,
    if_neg (Nat.not_le.mpr hnum), System.execWhen]
  rw [show (s.goto t (.undoing k)).undoing = s.undoing + 1 from hundoing, Nat.mul_add, Nat.mul_one,
    Nat.add_sub_add_right]
  rfl

theorem quietly_grant {k : Nat} (hinv : Inv s) (hpc : s.pc t = .adding k)
    (hnum : s.numPages + growSize ≤ maxPages) :
    (pages c).execWhen FailsQuietly s.settled (quietly s (.add t)) =
      some ((s.setNum (s.numPages + growSize)).goto t (.linking k s.numPages)).settled := by
  have hzero := hinv.growth.room hnum
  have hundoing := goto_undoing s t (.linking k s.numPages)
  rw [hpc, hzero] at hundoing
  have hsame : s.settled.numPages = s.numPages := by
    show s.numPages - growSize * s.undoing = s.numPages
    rw [hzero, Nat.mul_zero, Nat.sub_zero]
  have hroom : s.settled.numPages < maxPages := by
    rw [hsame]
    unfold growSize at hnum
    omega
  have hload : Moves s.settled (.load t) (s.settled.goto t (.adding k)) :=
    .room (congrArg Pc.settled hpc) hroom
  have hadd : Moves (s.settled.goto t (.adding k)) (.add t) _ :=
    .grant (Function.update_self ..) (hsame.symm ▸ hnum)
  have hok : FailsQuietly (s.settled.goto t (.adding k)) (.add t) = true := by
    show decide (s.settled.numPages + growSize ≤ maxPages) = true
    rw [hsame]
    exact decide_eq_true hnum
  rw [quietly, if_pos hnum, show [Label.load t, Label.add t] = [.load t] ++ [.add t] from rfl,
    System.execWhen_append (exec_quiet_one rfl hload),
    exec_quiet_one hok hadd, settled_goto,
    show (s.goto t (.linking k s.numPages)).undoing = 0 from hundoing, Nat.mul_zero, Nat.sub_zero]
  simp only [State.goto, State.setNum, Function.update_idem, hsame, Pc.settled]

theorem quietly_undo {k : Nat} (hinv : Inv s) (hpc : s.pc t = .undoing k) :
    (pages c).execWhen FailsQuietly s.settled (quietly s (.sub t)) =
      some ((s.setNum (s.numPages - growSize)).goto t (.stealing k)).settled := by
  have hundoing := goto_undoing s t (.stealing k)
  rw [hpc] at hundoing
  have hundoing : (s.goto t (.stealing k)).undoing + 1 = s.undoing := hundoing
  have hfull : maxPages ≤ s.settled.numPages :=
    Nat.le_of_eq (hinv.growth.full (hundoing ▸ Nat.succ_pos _)).symm
  rw [quietly, exec_quiet_one rfl (.full (congrArg Pc.settled hpc) hfull), settled_goto_count]
  · rfl
  · rw [State.committed, ← hundoing, Nat.mul_add, Nat.mul_one]
    omega

/-- **A growth that fails does no more than the first test**: step by step, the
    settled state is reached without it. -/
theorem quietly_exec {l : Label c} (hinv : Inv s) (h : Moves s l s') :
    (pages c).execWhen FailsQuietly s.settled (quietly s l) = some s'.settled := by
  cases h with
  | @pop t pg rest k hpc hk hlock hlist =>
    have hsame := @settled_goto_neutral c (s.setList (c.home t) rest) t (.popped pg)
      (attempts_neutral hpc).1.2 rfl
    rw [hsame]
    exact exec_quiet_one rfl (.pop ((attempts_settled _).trans hpc) hk hlock hlist)
  | @lock t k hpc hk hlock hlist =>
    have hsame := @settled_goto_neutral c (s.setLock (c.home t) true) t (.growing k)
      (attempts_neutral hpc).1.2 rfl
    rw [hsame]
    exact exec_quiet_one rfl (.lock ((attempts_settled _).trans hpc) hk hlock hlist)
  | fail hpc hk =>
    rw [settled_goto_neutral (attempts_neutral hpc).1.2 rfl]
    exact exec_quiet_one rfl (.fail ((attempts_settled _).trans hpc) hk)
  | full hpc hnum =>
    have hfull : maxPages ≤ s.settled.numPages := by
      refine Nat.le_of_eq (hinv.growth.exhausted ?_).symm
      unfold growSize
      omega
    rw [settled_goto_neutral (by rw [hpc]; rfl) rfl, quietly, if_neg (Nat.not_lt.mpr hnum)]
    exact exec_quiet_one rfl (.full (congrArg Pc.settled hpc) hfull)
  | room hpc hnum =>
    rw [settled_goto_neutral (by rw [hpc]; rfl) rfl, goto_same (congrArg Pc.settled hpc), quietly,
      if_pos hnum, System.execWhen]
  | beyond hpc hnum => exact quietly_over hpc hnum
  | grant hpc hnum => exact quietly_grant hinv hpc hnum
  | undo hpc => exact quietly_undo hinv hpc
  | @link t k first pg rest hpc hlist =>
    have hsame := @settled_goto_neutral c
      (((s.linkPages first).setList (c.home t) rest).setLock (c.home t) false) t (.popped pg)
      (by show (s.pc t).undoes = false; rw [hpc]; rfl) rfl
    rw [hsame]
    exact exec_quiet_one rfl (.link (congrArg Pc.settled hpc) hlist)
  | @steal t k victim busy lists hpc hcore hlt hlists =>
    have hsame := @settled_goto_neutral c
      (({ s with lists := lists } : State c).setLock (c.home t) false) t (.again (k + 1))
      (by show (s.pc t).undoes = false; rw [hpc]; rfl) rfl
    rw [hsame]
    exact exec_quiet_one rfl (.steal (congrArg Pc.settled hpc) hcore hlt hlists)
  | @take t pg hpc =>
    have hsame := @settled_goto_neutral c (s.setRef pg (s.ref pg + 1) (s.holders pg + 1)) t .idle
      (by show (s.pc t).undoes = false; rw [hpc]; rfl) rfl
    rw [hsame]
    exact exec_quiet_one rfl (.take (congrArg Pc.settled hpc))
  | get hpc hheld => exact exec_quiet_one rfl (.get (congrArg Pc.settled hpc) hheld)
  | put hpc hheld href => exact exec_quiet_one rfl (.put (congrArg Pc.settled hpc) hheld href)
  | @last t pg hpc hheld href =>
    have hsame := @settled_goto_neutral c (s.setRef pg (s.ref pg - 1) (s.holders pg - 1)) t
      (.released pg) (by show (s.pc t).undoes = false; rw [hpc]; rfl) rfl
    rw [hsame]
    exact exec_quiet_one rfl (.last (congrArg Pc.settled hpc) hheld href)
  | @free t pg hpc href hlock =>
    have hsame := @settled_goto_neutral c (s.setList (c.home t) (pg :: s.lists (c.home t))) t .idle
      (by show (s.pc t).undoes = false; rw [hpc]; rfl) rfl
    rw [hsame]
    exact exec_quiet_one rfl (.free (congrArg Pc.settled hpc) href hlock)

/-! ### Runs -/

theorem quietRun_exec {ls : List (Label c)} (hinv : Inv s)
    (h : (pages c).execWhen MappingSucceeds s ls = some s') :
    (pages c).execWhen FailsQuietly s.settled (quietRun s ls) = some s'.settled ∧ Inv s' := by
  induction ls generalizing s with
  | nil =>
    obtain rfl := Option.some.inj h
    exact ⟨rfl, hinv⟩
  | cons l ls ih =>
    simp only [System.execWhen] at h
    split at h
    · next hok =>
      obtain ⟨m, hm, h⟩ := Option.bind_eq_some_iff.mp h
      have hmoves := moves_of_step hok hm
      rw [quietRun, show step s l = some m from hm,
        System.execWhen_append (quietly_exec hinv hmoves)]
      exact ih (hinv.step hmoves) h
    · cases h

/-- Where no growth is in progress, the state is settled, and the counter is the
    number of linked pages. -/
theorem Inv.quiescent (h : Inv s) (hdone : ∀ t, (s.pc t).grows = false) :
    s.settled = s ∧ ∀ pg, s.linked pg = decide (pg < s.numPages) := by
  have hsettled : ∀ pc : Pc, pc.grows = false → pc.settled = pc ∧ pc.undoes = false ∧
      pc.granted = [] := by
    intro pc hpc
    cases pc <;> first | exact ⟨rfl, rfl, rfl⟩ | cases hpc
  have hundoing : s.undoing = 0 := by
    refine List.countP_eq_zero.mpr fun t _ => ?_
    rw [(hsettled _ (hdone t)).2.1]
    exact Bool.false_ne_true
  have hcommitted : s.committed = s.numPages := by
    rw [State.committed, hundoing, Nat.mul_zero, Nat.sub_zero]
  refine ⟨?_, fun pg => ?_⟩
  · rw [State.settled, hcommitted, funext fun t => (hsettled _ (hdone t)).1]
  · have hgranted : s.granted pg = 0 := by
      by_contra hpos
      obtain ⟨t, _, hmem⟩ := exists_of_total_pos (Nat.pos_of_ne_zero hpos)
      rw [Function.comp_apply, (hsettled _ (hdone t)).2.2] at hmem
      exact absurd hmem List.not_mem_nil
    have hgrants := h.growth.grants pg
    rw [hgranted, show s.numPages - growSize * s.undoing = s.numPages from hcommitted] at hgrants
    by_cases hlt : pg < s.numPages
    · rw [if_pos hlt] at hgrants
      rw [decide_eq_true hlt]
      by_contra hnot
      rw [if_neg hnot] at hgrants
      cases hgrants
    · rw [if_neg hlt] at hgrants
      rw [decide_eq_false hlt]
      by_contra hnot
      rw [if_pos (eq_true_of_ne_false hnot)] at hgrants
      cases hgrants

end

theorem Init.settled {s : State c} (h : Init s) : s.settled = s :=
  (h.inv.quiescent fun t => by rw [h.idle t]; rfl).1

/-- **A growth that fails leaves no trace**, if it is not the mapping of memory
    that fails. The run where each failing growth does no more than the first
    test, which changes neither the counter nor a list, ends in the same state,
    but for growths that have not been granted pages yet. Once all growths have
    returned, the states are equal, and an address counts as one of the pool if
    and only if its page has been linked. -/
theorem failed_growth_no_trace {s₀ s : State c} {ls : List (Label c)} (hinit : (pages c).init s₀)
    (h : (pages c).execWhen MappingSucceeds s₀ ls = some s) :
    (pages c).execWhen FailsQuietly s₀ (quietRun s₀ ls) = some s.settled ∧
      ((∀ t, (s.pc t).grows = false) → s.settled = s ∧ ∀ pa, s.isfrompool pa = true ↔
        ∃ pg, s.linked pg = true ∧ page2pa pg ≤ pa ∧ pa < page2pa (pg + 1)) := by
  have hsame : s₀.settled = s₀ := Init.settled hinit
  obtain ⟨hrun, hinv⟩ := quietRun_exec (Init.inv hinit) h
  rw [hsame] at hrun
  refine ⟨hrun, fun hdone => ?_⟩
  obtain ⟨hsettled, hlinked⟩ := hinv.quiescent hdone
  refine ⟨hsettled, fun pa => ?_⟩
  simp only [State.isfrompool, Bool.and_eq_true, decide_eq_true_eq, hlinked, page2pa]
  generalize pageBase = base
  constructor
  · intro hpa
    exact ⟨(pa - base) / 4096, by omega, by omega, by omega⟩
  · intro ⟨pg, hpg, hlo, hhi⟩
    have hle : base + (pg + 1) * 4096 ≤ base + s.numPages * 4096 :=
      Nat.add_le_add_left (Nat.mul_le_mul_right 4096 hpg) base
    exact ⟨Nat.le_trans (Nat.le_add_right _ _) hlo, Nat.lt_of_lt_of_le hhi hle⟩

/-- Two threads, each on a core of its own. -/
def twoCores : Cores where
  maxCores := 2
  threads := 2
  home := Fin.val
  cores_lt := by decide
  home_lt := Fin.isLt

/-- All pages that there are, are on the last list; one growth is left. -/
def nearlyFull : State twoCores :=
  { emptyPool with
    numPages := maxPages - growSize
    lists := Function.update (fun _ => []) 103 (List.range (maxPages - growSize))
    linked := fun pg => decide (pg < maxPages - growSize) }

theorem init_nearlyFull : (pages twoCores).init nearlyFull where
  grown := by decide
  le := Nat.sub_le _ _
  listed := fun pg => by
    -- The last list alone is not empty.
    have hlast : 103 ∈ List.range numGlobalLists := List.mem_range.mpr (by decide)
    have htotal := total_update List.nodup_range hlast (fun _ => [])
      (List.range (maxPages - growSize)) pg
    have hnone : total (List.range numGlobalLists) (fun _ => ([] : List Nat)) pg = 0 :=
      (@init_emptyPool twoCores).listed pg
    rw [hnone, List.count_nil, Nat.zero_add, Nat.add_zero, List.count_range] at htotal
    exact htotal
  linked := fun pg => rfl
  ref := fun _ => rfl
  holders := fun _ => rfl
  idle := fun _ => rfl
  unlocked := fun _ => rfl

/-- Both threads pass the first test. The growth of one of them is too much: it moves the
    counter and takes that back. -/
def race : List (Label twoCores) :=
  let a : Fin 2 := 0
  let b : Fin 2 := 1
  [.alloc a, .load a, .alloc b, .load b, .add a, .add b, .link a true, .sub b]

theorem failed_growth_no_trace_race : ∃ s : State twoCores,
    (pages twoCores).execWhen MappingSucceeds nearlyFull race = some s ∧
      s.numPages = maxPages ∧ s.settled = s := by
  obtain ⟨s, hrun, hnum, hdone⟩ := (pages twoCores).exists_execWhen MappingSucceeds nearlyFull race
    (fun s => s.numPages = maxPages ∧ ∀ t : Fin 2, (s.pc t).grows = false) (by decide +kernel)
  exact ⟨s, hrun, hnum, ((failed_growth_no_trace init_nearlyFull hrun).2 hdone).1⟩

/-- When no memory can be mapped, the counter stays too high: an address counts as
    one of the pool although no page has been linked. -/
theorem failed_mapping_moves_counter : ∃ s : State oneCore,
    (pages oneCore).exec emptyPool [.alloc only, .load only, .add only, .link only false] = some s ∧
      (∀ t, (s.pc t).grows = false) ∧ (@emptyPool oneCore).numPages = 0 ∧ s.numPages = 512 ∧
      s.isfrompool (page2pa 0) = true ∧ ∀ pg, s.linked pg = false := by
  refine ⟨_, rfl, fun t => ?_, rfl, rfl, by decide +kernel, fun pg => rfl⟩
  rw [eq_only t]
  rfl

end PageThreads
