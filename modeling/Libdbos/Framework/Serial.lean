import Libdbos.Framework.System

/-! # Calls that Exclude Each Other

    Threads make calls that read and write a shared state, one access at a
    time. Some calls hold a lock from their first access to their last.

    * `Prog`: what a call still has to do; each access may also ask the
      environment (`read`, `write`, `ask`).
    * `Prog.Keeps`: what a call does when it runs alone.
    * `Spec.system`: the calls of all threads, interleaved.
    * `Spec.Exclusive`: the calls without the lock are made when no other call is
      in progress. Then an invariant that every call keeps when it runs alone
      holds in every state of a run (`Spec.invariant`).
-/

open LTS

namespace Serial

variable {σ ρ : Type}

/-- What a call has still to do: return, or access the state, with an answer of the
    environment, and go on with what the access finds. -/
inductive Prog (σ ρ : Type) where
  | ret (r : ρ)
  | access (put : σ → Bool → σ) (next : σ → Bool → Prog σ ρ)

namespace Prog

def read {α : Type} (f : σ → α) (k : α → Prog σ ρ) : Prog σ ρ :=
  .access (fun s _ => s) fun s _ => k (f s)

def write (f : σ → σ) (k : Prog σ ρ) : Prog σ ρ := .access (fun s _ => f s) fun _ _ => k

def ask (k : Bool → Prog σ ρ) : Prog σ ρ := .access (fun s _ => s) fun _ ok => k ok

/-- Run alone from a state, the call returns in states and with results for which `P` holds,
    and each state on the way meets `Q`. -/
def Keeps (Q : σ → Prop) (P : ρ → σ → Prop) : Prog σ ρ → σ → Prop
  | .ret r, s => P r s
  | .access put next, s => ∀ ok, Q (put s ok) ∧ (next s ok).Keeps Q P (put s ok)

variable {Q : σ → Prop} {P : ρ → σ → Prop} {s : σ}

theorem keeps_read {α : Type} {f : σ → α} {k : α → Prog σ ρ} (hs : Q s)
    (h : (k (f s)).Keeps Q P s) : (read f k).Keeps Q P s := fun _ => ⟨hs, h⟩

theorem keeps_write {f : σ → σ} {k : Prog σ ρ} (hs : Q (f s)) (h : k.Keeps Q P (f s)) :
    (write f k).Keeps Q P s := fun _ => ⟨hs, h⟩

theorem keeps_ask {k : Bool → Prog σ ρ} (hs : Q s) (h : ∀ ok, (k ok).Keeps Q P s) :
    (ask k).Keeps Q P s := fun ok => ⟨hs, h ok⟩

theorem Keeps.mono {Q' : σ → Prop} {P' : ρ → σ → Prop} (hQ : ∀ s, Q s → Q' s)
    (hP : ∀ r s, P r s → P' r s) {prog : Prog σ ρ} {s : σ} (h : prog.Keeps Q P s) :
    prog.Keeps Q' P' s := by
  induction prog generalizing s with
  | ret r => exact hP r s h
  | access put next ih => exact fun ok => ⟨hQ _ (h ok).1, ih s ok (h ok).2⟩

end Prog

/-! ## Interleavings -/

/-- The calls: their accesses, whether they hold the lock, and what is remembered of them. -/
structure Spec (σ ρ τ κ : Type) where
  prog : κ → Prog σ ρ
  locked : κ → Bool
  record : κ → ρ → τ → τ

variable {τ κ : Type}

inductive Pc (σ ρ κ : Type) where
  | idle
  /-- Before the lock is taken. -/
  | waiting (c : κ)
  | running (c : κ) (prog : Prog σ ρ)

/-- The call that a thread is in. -/
def Pc.call? : Pc σ ρ κ → Option κ
  | .idle => none
  | .waiting c | .running c _ => some c

structure State (σ ρ τ κ : Type) where
  shared : σ
  /-- What is remembered of the calls that have returned. -/
  history : τ
  /-- The thread that holds the lock. -/
  holder : Option Nat
  pc : Nat → Pc σ ρ κ

inductive Label (κ : Type) where
  | call (t : Nat) (c : κ)
  | lock (t : Nat)
  | access (t : Nat) (ok : Bool)
  /-- The lock is given back, and the call returns. -/
  | leave (t : Nat)

def State.goto (s : State σ ρ τ κ) (t : Nat) (p : Pc σ ρ κ) : State σ ρ τ κ :=
  { s with pc := Function.update s.pc t p }

theorem State.pc_goto_self (s : State σ ρ τ κ) (t : Nat) (q : Pc σ ρ κ) :
    (s.goto t q).pc t = q := Function.update_self ..

theorem State.pc_goto_ne (s : State σ ρ τ κ) {t u : Nat} (hut : u ≠ t) (q : Pc σ ρ κ) :
    (s.goto t q).pc u = s.pc u := Function.update_of_ne hut ..

/-- What the threads are in after one of them has moved. -/
theorem State.pc_goto {s : State σ ρ τ κ} {t u : Nat} {q q' : Pc σ ρ κ}
    (h : (s.goto t q).pc u = q') : u = t ∧ q = q' ∨ u ≠ t ∧ s.pc u = q' := by
  by_cases hut : u = t
  · subst hut
    rw [s.pc_goto_self] at h
    exact .inl ⟨rfl, h⟩
  · rw [s.pc_goto_ne hut] at h
    exact .inr ⟨hut, h⟩

namespace Spec

variable (spec : Spec σ ρ τ κ)

def step (s : State σ ρ τ κ) : Label κ → Option (State σ ρ τ κ)
  | .call t c =>
    match s.pc t with
    | .idle => some (s.goto t (if spec.locked c then .waiting c else .running c (spec.prog c)))
    | _ => none
  | .lock t =>
    match s.pc t, s.holder with
    | .waiting c, none => some ({ s with holder := some t }.goto t (.running c (spec.prog c)))
    | _, _ => none
  | .access t ok =>
    match s.pc t with
    | .running c (.access put next) =>
      some ({ s with shared := put s.shared ok }.goto t (.running c (next s.shared ok)))
    | _ => none
  | .leave t =>
    match s.pc t with
    | .running c (.ret r) =>
      some ({ s with
        holder := if spec.locked c then none else s.holder
        history := spec.record c r s.history }.goto t .idle)
    | _ => none

def system (shared : σ) (history : τ) : System (State σ ρ τ κ) (Label κ) where
  init s := s = ⟨shared, history, none, fun _ => .idle⟩
  step := spec.step

/-- A call without the lock is not in progress at the same time as another call. -/
def Exclusive (s : State σ ρ τ κ) : Label κ → Prop
  | .call _ c => ∀ u c', (s.pc u).call? = some c' → spec.locked c = true ∧ spec.locked c' = true
  | _ => True

variable {spec} {Inv : σ → τ → Prop}

/-- A call past its lock that runs alone and keeps the invariant. -/
structure Busy (spec : Spec σ ρ τ κ) (Inv : σ → τ → Prop) (s : State σ ρ τ κ) (t : Nat) (c : κ)
    (p : Prog σ ρ) : Prop where
  pc : s.pc t = .running c p
  others : ∀ u, u ≠ t → ∀ c' p', s.pc u ≠ .running c' p'
  holds : spec.locked c = true → s.holder = some t
  unlocked : spec.locked c = false → ∀ u, u ≠ t → s.pc u = .idle
  keeps : p.Keeps (fun s' => Inv s' s.history) (fun r s' => Inv s' (spec.record c r s.history))
    s.shared

/-- At most one call is past its lock. -/
structure Serialised (spec : Spec σ ρ τ κ) (Inv : σ → τ → Prop) (s : State σ ρ τ κ) : Prop where
  inv : Inv s.shared s.history
  waits : ∀ t c, s.pc t = .waiting c → spec.locked c = true
  busy : (∀ t c p, s.pc t ≠ .running c p) ∨ ∃ t c p, Busy spec Inv s t c p

theorem Busy.eq {s : State σ ρ τ κ} {t u : Nat} {c c' : κ} {p p' : Prog σ ρ}
    (h : Busy spec Inv s t c p) (hu : s.pc u = .running c' p') : u = t ∧ c' = c ∧ p' = p := by
  by_cases hut : u = t
  · subst hut
    rw [h.pc] at hu
    injection hu with hc hp
    exact ⟨rfl, hc.symm, hp.symm⟩
  · exact absurd hu (h.others u hut c' p')

/-- The thread past its lock, if a thread is. -/
theorem Serialised.of_running {s : State σ ρ τ κ} {t : Nat} {c : κ} {p : Prog σ ρ}
    (h : Serialised spec Inv s) (hpc : s.pc t = .running c p) : Busy spec Inv s t c p := by
  obtain hnone | ⟨u, c', p', hbusy⟩ := h.busy
  · exact absurd hpc (hnone t c p)
  · obtain ⟨rfl, rfl, rfl⟩ := hbusy.eq hpc
    exact hbusy

/-- Threads wait for the lock in calls that take it. -/
theorem waits_goto {s : State σ ρ τ κ} (h : ∀ u c, s.pc u = .waiting c → spec.locked c = true)
    {t : Nat} {q : Pc σ ρ κ} (hq : ∀ c, q = .waiting c → spec.locked c = true) (u : Nat) (c : κ)
    (hu : (s.goto t q).pc u = .waiting c) : spec.locked c = true := by
  obtain ⟨_, heq⟩ | ⟨_, hu⟩ := State.pc_goto hu
  · exact hq c heq
  · exact h u c hu

theorem Serialised.call {s : State σ ρ τ κ} {t : Nat} {c : κ}
    (hcall : (spec.prog c).Keeps (fun s' => Inv s' s.history)
      (fun r s' => Inv s' (spec.record c r s.history)) s.shared)
    (h : Serialised spec Inv s) (hexcl : spec.Exclusive s (.call t c)) (hidle : s.pc t = .idle) :
    Serialised spec Inv
      (s.goto t (if spec.locked c then .waiting c else .running c (spec.prog c))) := by
  cases hlocked : spec.locked c with
  | true =>
    rw [if_pos rfl]
    refine ⟨h.inv, waits_goto h.waits ?_, ?_⟩
    · intro c' heq
      injection heq with heq
      exact heq ▸ hlocked
    · obtain hnone | ⟨u, c', p, hbusy⟩ := h.busy
      · refine .inl fun u c' p hu => ?_
        obtain ⟨_, heq⟩ | ⟨_, hu⟩ := State.pc_goto hu
        · cases heq
        · exact hnone u c' p hu
      · have hut : u ≠ t := by
          rintro rfl
          have hpc := hbusy.pc
          rw [hidle] at hpc
          cases hpc
        refine .inr ⟨u, c', p, (s.pc_goto_ne hut _).trans hbusy.pc, ?_, hbusy.holds, ?_,
          hbusy.keeps⟩
        · intro v hv c'' p' hpc
          obtain ⟨_, heq⟩ | ⟨_, hpc⟩ := State.pc_goto hpc
          · cases heq
          · exact hbusy.others v hv c'' p' hpc
        · intro hfree
          have := (hexcl u c' (by rw [hbusy.pc]; rfl)).2
          rw [hfree] at this
          cases this
  | false =>
    rw [if_neg Bool.false_ne_true]
    -- No other call is in progress.
    have hnone : ∀ u, s.pc u = .idle := by
      intro u
      cases hu : s.pc u with
      | idle => rfl
      | waiting c' | running c' p =>
        have := (hexcl u c' (by rw [hu]; rfl)).1
        rw [hlocked] at this
        cases this
    refine ⟨h.inv, waits_goto h.waits (fun _ h => by cases h),
      .inr ⟨t, c, spec.prog c, s.pc_goto_self t _, ?_, ?_, ?_, hcall⟩⟩
    · intro u hut c' p' hu
      rw [s.pc_goto_ne hut, hnone u] at hu
      cases hu
    · intro hl
      rw [hlocked] at hl
      cases hl
    · intro _ u hut
      exact (s.pc_goto_ne hut _).trans (hnone u)

theorem Serialised.lock {s : State σ ρ τ κ} {t : Nat} {c : κ}
    (hcall : (spec.prog c).Keeps (fun s' => Inv s' s.history)
      (fun r s' => Inv s' (spec.record c r s.history)) s.shared)
    (h : Serialised spec Inv s) (hwait : s.pc t = .waiting c) (hfree : s.holder = none) :
    Serialised spec Inv ({ s with holder := some t }.goto t (.running c (spec.prog c))) := by
  have hlocked := h.waits t c hwait
  -- A thread past its lock would hold it, or would be alone.
  have hquiet : ∀ u c' p', s.pc u ≠ .running c' p' := by
    intro u c' p' hu
    have hbusy := h.of_running hu
    have hut : t ≠ u := by
      rintro rfl
      rw [hwait] at hu
      cases hu
    cases hl : spec.locked c' with
    | true =>
      have := hbusy.holds hl
      rw [hfree] at this
      cases this
    | false =>
      have := hbusy.unlocked hl t hut
      rw [hwait] at this
      cases this
  refine ⟨h.inv, waits_goto h.waits (fun _ h => by cases h),
    .inr ⟨t, c, spec.prog c, State.pc_goto_self _ t _, ?_, fun _ => rfl, ?_, hcall⟩⟩
  · intro u hut c' p' hu
    obtain ⟨rfl, _⟩ | ⟨_, hu⟩ := State.pc_goto hu
    · exact hut rfl
    · exact hquiet u c' p' hu
  · intro hl
    rw [hlocked] at hl
    cases hl

theorem Serialised.access {s : State σ ρ τ κ} {t : Nat} {c : κ} {put : σ → Bool → σ}
    {next : σ → Bool → Prog σ ρ} (h : Serialised spec Inv s)
    (hpc : s.pc t = .running c (.access put next)) (ok : Bool) :
    Serialised spec Inv
      ({ s with shared := put s.shared ok }.goto t (.running c (next s.shared ok))) := by
  have hbusy := h.of_running hpc
  obtain ⟨hinv, hkeeps⟩ := hbusy.keeps ok
  refine ⟨hinv, waits_goto h.waits (fun _ h => by cases h),
    .inr ⟨t, c, _, State.pc_goto_self _ t _, ?_, hbusy.holds, ?_, hkeeps⟩⟩
  · intro u hut c' p' hu
    rw [State.pc_goto_ne _ hut] at hu
    exact hbusy.others u hut c' p' hu
  · intro hl u hut
    exact (State.pc_goto_ne _ hut _).trans (hbusy.unlocked hl u hut)

theorem Serialised.leave {s : State σ ρ τ κ} {t : Nat} {c : κ} {r : ρ}
    (h : Serialised spec Inv s) (hpc : s.pc t = .running c (.ret r)) :
    Serialised spec Inv ({ s with
      holder := if spec.locked c then none else s.holder
      history := spec.record c r s.history }.goto t .idle) := by
  have hbusy := h.of_running hpc
  refine ⟨hbusy.keeps, waits_goto h.waits (fun _ h => by cases h), .inl ?_⟩
  intro u c' p' hu
  obtain ⟨_, heq⟩ | ⟨hut, hu⟩ := State.pc_goto hu
  · cases heq
  · exact hbusy.others u hut c' p' hu

/-- **Calls one at a time**: an invariant that every call keeps when it runs alone holds at
    the end of every run in which the calls exclude each other. -/
theorem invariant {shared : σ} {history : τ} (hinit : Inv shared history)
    (hcall : ∀ c s h, Inv s h → (spec.prog c).Keeps (fun s' => Inv s' h)
      (fun r s' => Inv s' (spec.record c r h)) s)
    {s : State σ ρ τ κ} (h : (spec.system shared history).RunsTo spec.Exclusive s) :
    Inv s.shared s.history := by
  have hs : Serialised spec Inv s := System.invariant_when ?_ ?_ h
  · exact hs.inv
  · rintro s rfl
    exact ⟨hinit, (fun _ _ h => by cases h), .inl fun _ _ _ h => by cases h⟩
  · intro s l s' hs hexcl hstep
    simp only [system, step] at hstep
    cases l with
    | call t c =>
      dsimp only at hstep
      split at hstep
      next hidle =>
        obtain rfl := Option.some.inj hstep
        exact hs.call (hcall c _ _ hs.inv) hexcl hidle
      next => cases hstep
    | lock t =>
      dsimp only at hstep
      split at hstep
      next c hwait hfree =>
        obtain rfl := Option.some.inj hstep
        exact hs.lock (hcall c _ _ hs.inv) hwait hfree
      next => cases hstep
    | access t ok =>
      dsimp only at hstep
      split at hstep
      next c put next hpc =>
        obtain rfl := Option.some.inj hstep
        exact hs.access hpc ok
      next => cases hstep
    | leave t =>
      dsimp only at hstep
      split at hstep
      next c r hpc =>
        obtain rfl := Option.some.inj hstep
        exact hs.leave hpc
      next => cases hstep

end Spec

end Serial
