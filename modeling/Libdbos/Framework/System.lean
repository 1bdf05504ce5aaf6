import Mathlib.Logic.Function.Basic

/-! # Labelled Transition Systems with Executable Steps

    A system is a set of initial states and a step *function*: a label
    names everything that is left open about a step (who moves, which
    value is written, which free resource is picked), so a label and a
    state determine the next state, or that the label is not enabled.

    * `System.RunsTo ok s`: some run from an initial state ends in `s`,
      and every step of it met the condition `ok` on the state it
      started from and on its label.
    * `System.Reachable s`: the same without a condition.
    * `System.exec`: a list of labels, run one after another.
    * `System.invariant`, `System.invariant_when`: the induction rules;
      `System.exec_simulation`: the same for a run next to an abstract one.
-/

namespace LTS

universe u v

/-- A transition system whose steps are computed. -/
structure System (State : Type u) (Label : Type v) where
  /-- The initial states. -/
  init : State → Prop
  /-- The state after a label, `none` where the label is not enabled. -/
  step : State → Label → Option State

namespace System

variable {State : Type u} {Label : Type v} (sys : System State Label)

/-! ## Runs -/

/-- The states that end a run each of whose steps meets `ok` in the
    state the step starts from. -/
inductive RunsTo (ok : State → Label → Prop) : State → Prop where
  | init {s} : sys.init s → RunsTo ok s
  | step {s l s'} : RunsTo ok s → ok s l → sys.step s l = some s' → RunsTo ok s'

/-- The states that end a run. -/
inductive Reachable : State → Prop where
  | init {s} : sys.init s → Reachable s
  | step {s l s'} : Reachable s → sys.step s l = some s' → Reachable s'

/-- The state after a list of labels. -/
def exec (s : State) : List Label → Option State
  | [] => some s
  | l :: ls => (sys.step s l).bind fun s' => exec s' ls

@[simp] theorem exec_nil (s : State) : sys.exec s [] = some s := rfl

@[simp] theorem exec_cons (s : State) (l : Label) (ls : List Label) :
    sys.exec s (l :: ls) = (sys.step s l).bind fun s' => sys.exec s' ls := rfl

/-! ## Relations between the notions of a run -/

variable {sys}

/-- A run under a condition is a run. -/
theorem RunsTo.reachable {ok : State → Label → Prop} {s : State}
    (h : sys.RunsTo ok s) : sys.Reachable s := by
  induction h with
  | init h => exact .init h
  | step _ _ hstep ih => exact .step ih hstep

/-- A weaker condition admits more runs. -/
theorem RunsTo.mono {ok ok' : State → Label → Prop} {s : State}
    (hle : ∀ s l, ok s l → ok' s l) (h : sys.RunsTo ok s) : sys.RunsTo ok' s := by
  induction h with
  | init h => exact .init h
  | step _ hok hstep ih => exact .step ih (hle _ _ hok) hstep

/-- What a list of labels leads to from a reachable state is reachable. -/
theorem Reachable.exec {s s' : State} {ls : List Label}
    (h : sys.Reachable s) (he : sys.exec s ls = some s') : sys.Reachable s' := by
  induction ls generalizing s with
  | nil =>
    simp only [exec_nil, Option.some.injEq] at he
    exact he ▸ h
  | cons l ls ih =>
    rw [exec_cons, Option.bind_eq_some_iff] at he
    obtain ⟨t, ht, he⟩ := he
    exact ih (.step h ht) he

/-- What a list of labels leads to from an initial state is reachable. -/
theorem reachable_of_exec {s s' : State} {ls : List Label}
    (h : sys.init s) (he : sys.exec s ls = some s') : sys.Reachable s' :=
  Reachable.exec (.init h) he

/-- Labels that always meet the condition. -/
theorem RunsTo.exec {ok : State → Label → Prop} {s s' : State} {ls : List Label}
    (h : sys.RunsTo ok s) (hok : ∀ l ∈ ls, ∀ s, ok s l) (he : sys.exec s ls = some s') :
    sys.RunsTo ok s' := by
  induction ls generalizing s with
  | nil =>
    simp only [exec_nil, Option.some.injEq] at he
    exact he ▸ h
  | cons l ls ih =>
    rw [exec_cons, Option.bind_eq_some_iff] at he
    obtain ⟨t, ht, he⟩ := he
    exact ih (.step h (hok l List.mem_cons_self s) ht)
      (fun l' hl' => hok l' (List.mem_cons_of_mem l hl')) he

/-- A run whose end passes a test has an end, which passes the test. -/
theorem exists_exec (sys : System State Label) (s : State) (ls : List Label) (p : State → Prop)
    [DecidablePred p] (h : (sys.exec s ls).any (fun s' => decide (p s')) = true) :
    ∃ s', sys.exec s ls = some s' ∧ p s' := by
  obtain ⟨s', he, hp⟩ := (Option.any_eq_true _ _).1 h
  exact ⟨s', he, of_decide_eq_true hp⟩

/-- The same for what follows from the test. -/
theorem exists_exec_of (sys : System State Label) {s : State} {ls : List Label} {q : State → Prop}
    (p : State → Prop) [DecidablePred p]
    (h : (sys.exec s ls).any (fun s' => decide (p s')) = true)
    (hq : ∀ s', sys.exec s ls = some s' → p s' → q s') : ∃ s', sys.exec s ls = some s' ∧ q s' := by
  obtain ⟨s', he, hp⟩ := sys.exists_exec s ls p h
  exact ⟨s', he, hq s' he hp⟩

/-- The state after a list of labels each of which passes a test where
    it is taken. -/
def execWhen (sys : System State Label) (ok : State → Label → Bool) (s : State) :
    List Label → Option State
  | [] => some s
  | l :: ls => if ok s l then (sys.step s l).bind fun s' => execWhen sys ok s' ls else none

/-- The same under a condition: a run whose end passes a test has an end. -/
theorem exists_execWhen (sys : System State Label) (ok : State → Label → Bool) (s : State)
    (ls : List Label) (p : State → Prop) [DecidablePred p]
    (h : (sys.execWhen ok s ls).any (fun s' => decide (p s')) = true) :
    ∃ s', sys.execWhen ok s ls = some s' ∧ p s' := by
  obtain ⟨s', he, hp⟩ := (Option.any_eq_true _ _).1 h
  exact ⟨s', he, of_decide_eq_true hp⟩

/-- One list of labels after another. -/
theorem execWhen_append {sys : System State Label} {ok : State → Label → Bool} {s t : State}
    {ls : List Label} (h : sys.execWhen ok s ls = some t) (ms : List Label) :
    sys.execWhen ok s (ls ++ ms) = sys.execWhen ok t ms := by
  induction ls generalizing s with
  | nil =>
    obtain rfl := Option.some.inj h
    rfl
  | cons l ls ih =>
    simp only [System.execWhen] at h
    split at h
    · rename_i hok
      obtain ⟨u, hu, h⟩ := Option.bind_eq_some_iff.mp h
      rw [List.cons_append, System.execWhen, if_pos hok, hu, Option.bind_some]
      exact ih h
    · cases h

/-- What a list of labels that passes the test leads to ends a run under
    the condition that the test decides. -/
theorem RunsTo.execWhen {ok : State → Label → Bool} {s s' : State} {ls : List Label}
    (h : sys.RunsTo (fun s l => ok s l = true) s) (he : sys.execWhen ok s ls = some s') :
    sys.RunsTo (fun s l => ok s l = true) s' := by
  induction ls generalizing s with
  | nil =>
    simp only [System.execWhen, Option.some.injEq] at he
    exact he ▸ h
  | cons l ls ih =>
    simp only [System.execWhen] at he
    split at he
    · rename_i hok
      rw [Option.bind_eq_some_iff] at he
      obtain ⟨t, ht, he⟩ := he
      exact ih (.step h hok ht) he
    · cases he

/-- A run under a condition whose end passes a test. -/
theorem exists_runsTo (sys : System State Label) (ok : State → Label → Bool) {s : State}
    (hinit : sys.init s) (ls : List Label) (p : State → Prop) [DecidablePred p]
    (h : (sys.execWhen ok s ls).any (fun s' => decide (p s')) = true) :
    ∃ s', sys.RunsTo (fun s l => ok s l = true) s' ∧ p s' := by
  obtain ⟨s', he, hp⟩ := sys.exists_execWhen ok s ls p h
  exact ⟨s', RunsTo.execWhen (.init hinit) he, hp⟩

/-! ## Induction rules -/

/-- **Invariant rule**: what holds initially and is kept by every step
    holds in every reachable state. -/
theorem invariant {Inv : State → Prop}
    (hinit : ∀ s, sys.init s → Inv s)
    (hstep : ∀ s l s', Inv s → sys.step s l = some s' → Inv s')
    {s : State} (h : sys.Reachable s) : Inv s := by
  induction h with
  | init h => exact hinit _ h
  | step _ hs ih => exact hstep _ _ _ ih hs

/-- **Invariant rule under a condition**: what holds initially and is
    kept by every step that meets the condition holds at the end of
    every run under the condition. -/
theorem invariant_when {ok : State → Label → Prop} {Inv : State → Prop}
    (hinit : ∀ s, sys.init s → Inv s)
    (hstep : ∀ s l s', Inv s → ok s l → sys.step s l = some s' → Inv s')
    {s : State} (h : sys.RunsTo ok s) : Inv s := by
  induction h with
  | init h => exact hinit _ h
  | step _ hok hs ih => exact hstep _ _ _ ih hok hs

/-- An invariant of all runs may be used in the step of another one. -/
theorem invariant_when_using {ok : State → Label → Prop} {Aux Inv : State → Prop}
    (haux : ∀ s, sys.RunsTo ok s → Aux s)
    (hinit : ∀ s, sys.init s → Inv s)
    (hstep : ∀ s l s', Aux s → Inv s → ok s l → sys.step s l = some s' → Inv s')
    {s : State} (h : sys.RunsTo ok s) : Inv s := by
  induction h with
  | init h => exact hinit _ h
  | step hr hok hs ih => exact hstep _ _ _ (haux _ hr) ih hok hs

/-- **Simulation rule**: a relation to a deterministic machine over the same
    labels that every step keeps holds at the end of every run. -/
theorem exec_simulation {Abs : Type v} {R : State → Abs → Prop} (apply : Abs → Label → Abs)
    (hstep : ∀ s a l s', R s a → sys.step s l = some s' → R s' (apply a l))
    {s s' : State} {a : Abs} {ls : List Label} (h : R s a) (he : sys.exec s ls = some s') :
    R s' (ls.foldl apply a) := by
  induction ls generalizing s a with
  | nil =>
    simp only [exec_nil, Option.some.injEq] at he
    exact he ▸ h
  | cons l ls ih =>
    rw [exec_cons, Option.bind_eq_some_iff] at he
    obtain ⟨t, ht, he⟩ := he
    exact ih (hstep s a l t h ht) he

end System

end LTS
