import Libdbos.Framework.Rotation
import Libdbos.Framework.System
import Libdbos.Tabby.BufferManager

/-! # The Eviction Clock

    `FramesMemoryManager::iterateClockBatch` of `apps/tabby/tabby.cpp`: a thread
    claims the next `batch` frames by a compare-exchange on `clockPos` and then
    goes through them, without looking at the clock again. Any number of
    threads do so at once.

    The windows claimed so far follow each other in the ring of frames, whoever
    claimed them; what has been visited and what the claimed windows still have
    to visit make up these windows (`Claims`). So the visits are spread evenly
    as soon as no call is in progress. The sum `pos + batch` is computed in
    64 bits: where it wraps, a window does not start where the one before ended.
    The evictors of the buffer manager scan as this clock lets them (`scans_clocked`).
-/

open LTS

namespace Tabby.EvictionClock

open Rotation Finset

/-! ## Model -/

/-- The frames and the batch size, both of type `u64`. -/
structure Clock where
  physCount : Nat
  batch : Nat
  physCount_pos : 0 < physCount
  batch_pos : 0 < batch
  physCount_lt : physCount < 2 ^ 64
  batch_lt : batch < 2 ^ 64

/-- The step to the next frame does not wrap. -/
theorem Clock.next_eq (c : Clock) {pos : Nat} (hpos : pos < c.physCount) :
    (pos + 1) % 2 ^ 64 % c.physCount = (pos + 1) % c.physCount := by
  have hlt := c.physCount_lt
  rw [Nat.mod_eq_of_lt (show pos + 1 < 2 ^ 64 by omega)]

/-- Where a thread is in `iterateClockBatch`. -/
inductive Pc where
  | idle
  /-- Before `clockPos.load()`. -/
  | load
  /-- Before the compare-exchange, with `pos`. -/
  | exchange (pos : Nat)
  /-- At the head of the loop, with `pos` and `i`. -/
  | walk (pos i : Nat)
  deriving DecidableEq, Repr

structure State (threads : Nat) where
  clockPos : Nat
  pc : Fin threads → Pc
  /-- How often `fn` was called with each frame. -/
  visits : Nat → Nat
  /-- How many calls were made. -/
  calls : Nat

variable {threads : Nat}

def State.goto (s : State threads) (t : Fin threads) (p : Pc) : State threads :=
  { s with pc := Function.update s.pc t p }

/-- A step of the thread `t`. -/
def step (c : Clock) (s : State threads) (t : Fin threads) : Option (State threads) :=
  match s.pc t with
  | .idle => some ({ s with calls := s.calls + 1 }.goto t .load)
  | .load => some (s.goto t (.exchange s.clockPos))
  | .exchange pos =>
    if s.clockPos = pos then
      some ({ s with clockPos := (pos + c.batch) % 2 ^ 64 % c.physCount }.goto t (.walk pos 0))
    else some (s.goto t .load)
  | .walk pos i =>
    if i < c.batch then
      some ({ s with visits := Function.update s.visits pos (s.visits pos + 1) }.goto t
        (.walk ((pos + 1) % 2 ^ 64 % c.physCount) (i + 1)))
    else some (s.goto t .idle)

def boot (threads : Nat) : State threads where
  clockPos := 0
  pc _ := .idle
  visits _ := 0
  calls := 0

def system (c : Clock) (threads : Nat) : System (State threads) (Fin threads) where
  init s := s = boot threads
  step := step c

/-! ## The invariant -/

/-- How often a thread will still visit the frame `f`. -/
def Pc.left (c : Clock) (f : Nat) : Pc → Nat
  | .walk pos i => hits c.physCount f pos (c.batch - i)
  | _ => 0

/-- Whether a thread is in a call for which it has no window yet. -/
def Pc.unclaimed : Pc → Nat
  | .load | .exchange _ => 1
  | _ => 0

/-- A window starts at a frame. -/
def Pc.Fits (c : Clock) : Pc → Prop
  | .walk pos _ => pos < c.physCount
  | _ => True

/-- With `k` windows claimed, the clock stands behind the last of them, and their
    visits are those made and those still to make. -/
structure Claims (c : Clock) (s : State threads) (k : Nat) : Prop where
  clock : s.clockPos = k * c.batch % c.physCount
  fits : ∀ t, (s.pc t).Fits c
  calls : s.calls = k + ∑ t, (s.pc t).unclaimed
  visits : ∀ f < c.physCount,
    s.visits f + ∑ t, (s.pc t).left c f = hits c.physCount f 0 (k * c.batch)

/-- A step of one thread keeps the account when the thread's part of it changes as the rest
    of the state does. -/
theorem Claims.move {c : Clock} {s s' : State threads} {k k' : Nat} (h : Claims c s k)
    {t : Fin threads} {p : Pc} (hpc : s'.pc = Function.update s.pc t p) (hfits : p.Fits c)
    (hclock : s'.clockPos = k' * c.batch % c.physCount)
    (hcalls : s'.calls + k + (s.pc t).unclaimed = s.calls + k' + p.unclaimed)
    (hvisits : ∀ f < c.physCount,
      s'.visits f + p.left c f + hits c.physCount f 0 (k * c.batch) =
        s.visits f + (s.pc t).left c f + hits c.physCount f 0 (k' * c.batch)) :
    Claims c s' k' := by
  refine ⟨hclock, ?_, ?_, ?_⟩
  · intro u
    rw [hpc]
    by_cases hut : u = t
    · subst hut
      rwa [Function.update_self]
    · rw [Function.update_of_ne hut]
      exact h.fits u
  · have hsum := sum_update s.pc t p Pc.unclaimed
    have hold := h.calls
    rw [hpc]
    omega
  · intro f hf
    have hsum := sum_update s.pc t p (Pc.left c f)
    have hold := h.visits f hf
    have hnew := hvisits f hf
    rw [hpc]
    omega

/-- A window claimed where the clock stands follows the windows before. -/
theorem Claims.claim {c : Clock} (hfit : c.physCount + c.batch ≤ 2 ^ 64) {s : State threads}
    {k : Nat} (h : Claims c s k) {t : Fin threads} (hpc : s.pc t = .exchange s.clockPos) :
    Claims c ({ s with clockPos := (s.clockPos + c.batch) % 2 ^ 64 % c.physCount }.goto t
      (.walk s.clockPos 0)) (k + 1) := by
  have hlt : s.clockPos < c.physCount := by
    rw [h.clock]
    exact Nat.mod_lt _ c.physCount_pos
  have hwrap : (s.clockPos + c.batch) % 2 ^ 64 = s.clockPos + c.batch :=
    Nat.mod_eq_of_lt (by omega)
  refine h.move (t := t) (p := .walk s.clockPos 0) rfl hlt ?_ ?_ ?_
  · show (s.clockPos + c.batch) % 2 ^ 64 % c.physCount = _
    rw [hwrap, h.clock, Nat.mod_add_mod, Nat.succ_mul]
  · rw [hpc]
    show s.calls + k + 1 = s.calls + (k + 1) + 0
    omega
  · intro f hf
    rw [hpc, Nat.succ_mul, hits_add, Nat.zero_add, ← h.clock]
    show s.visits f + hits c.physCount f s.clockPos c.batch + _ = s.visits f + 0 + _
    omega

/-- A visit moves one frame from what is left to what is done. -/
theorem Claims.visit {c : Clock} {s : State threads} {k : Nat} (h : Claims c s k)
    {t : Fin threads} {pos i : Nat} (hpc : s.pc t = .walk pos i) (hi : i < c.batch) :
    Claims c ({ s with visits := Function.update s.visits pos (s.visits pos + 1) }.goto t
      (.walk ((pos + 1) % 2 ^ 64 % c.physCount) (i + 1))) k := by
  have hpos : pos < c.physCount := by
    have hfits := h.fits t
    rwa [hpc] at hfits
  refine h.move (t := t) (p := .walk ((pos + 1) % 2 ^ 64 % c.physCount) (i + 1)) rfl
    (Nat.mod_lt _ c.physCount_pos) h.clock ?_ ?_
  · rw [hpc]
    rfl
  · intro f hf
    have hfirst := hits_succ (n := c.physCount) f pos (c.batch - (i + 1))
    rw [Nat.mod_eq_of_lt hpos, show c.batch - (i + 1) + 1 = c.batch - i by omega] at hfirst
    rw [hpc, c.next_eq hpos]
    show Function.update s.visits pos (s.visits pos + 1) f +
      hits c.physCount f ((pos + 1) % c.physCount) (c.batch - (i + 1)) + _ =
        s.visits f + hits c.physCount f pos (c.batch - i) + _
    by_cases hfp : pos = f
    · subst hfp
      rw [if_pos rfl] at hfirst
      rw [Function.update_self]
      omega
    · rw [if_neg hfp] at hfirst
      rw [Function.update_of_ne (Ne.symm hfp)]
      omega

theorem claims_boot (c : Clock) : Claims c (boot threads) 0 where
  clock := by simp [boot]
  fits _ := trivial
  calls := by simp [boot, Pc.unclaimed]
  visits f _ := by simp [boot, Pc.left]

theorem step_claims {c : Clock} (hfit : c.physCount + c.batch ≤ 2 ^ 64) {s s' : State threads}
    {k : Nat} (h : Claims c s k) {t : Fin threads} (hstep : step c s t = some s') :
    ∃ k', Claims c s' k' := by
  unfold step at hstep
  split at hstep
  next hpc =>
    obtain rfl := Option.some.inj hstep
    refine ⟨k, h.move rfl trivial h.clock ?_ (fun f _ => by rw [hpc]; rfl)⟩
    rw [hpc]
    show s.calls + 1 + k + 0 = s.calls + k + 1
    omega
  next hpc =>
    obtain rfl := Option.some.inj hstep
    exact ⟨k, h.move rfl trivial h.clock (by rw [hpc]; rfl) (fun f _ => by rw [hpc]; rfl)⟩
  next pos hpc =>
    split at hstep
    next heq =>
      obtain rfl := Option.some.inj hstep
      subst heq
      exact ⟨k + 1, h.claim hfit hpc⟩
    next =>
      obtain rfl := Option.some.inj hstep
      exact ⟨k, h.move rfl trivial h.clock (by rw [hpc]; rfl) (fun f _ => by rw [hpc]; rfl)⟩
  next pos i hpc =>
    split at hstep
    next hi =>
      obtain rfl := Option.some.inj hstep
      exact ⟨k, h.visit hpc hi⟩
    next hi =>
      -- The window is used up, so nothing is left of it.
      have hnone : c.batch - i = 0 := by omega
      obtain rfl := Option.some.inj hstep
      exact ⟨k, h.move rfl trivial h.clock (by rw [hpc]; rfl)
        (fun f _ => by rw [hpc]; simp [Pc.left, State.goto, hnone])⟩

theorem reachable_claims {c : Clock} (hfit : c.physCount + c.batch ≤ 2 ^ 64) {s : State threads}
    (h : (system c threads).Reachable s) : ∃ k, Claims c s k := by
  refine @System.invariant _ _ _ (fun s => ∃ k, Claims c s k) ?_ ?_ _ h
  · rintro s rfl
    exact ⟨0, claims_boot c⟩
  · intro s t s' ⟨k, hk⟩ hstep
    exact step_claims hfit hk hstep

/-! ## Fairness -/

/-- The visits of a clock are fair when no two frames differ by more than one and all
    of them together are those of the calls made. -/
def Fair (c : Clock) (s : State threads) : Prop :=
  (∀ f < c.physCount, ∀ g < c.physCount, s.visits f ≤ s.visits g + 1) ∧
    ∑ f ∈ range c.physCount, s.visits f = s.calls * c.batch

/-- **The clock is fair**: where `pos + batch` does not wrap, in every state in which no call
    is in progress. -/
theorem clock_fair (c : Clock) (hfit : c.physCount + c.batch ≤ 2 ^ 64) (s : State threads)
    (h : (system c threads).Reachable s) (hidle : ∀ t, s.pc t = .idle) : Fair c s := by
  obtain ⟨k, hk⟩ := reachable_claims hfit h
  have hvisits : ∀ f < c.physCount, s.visits f = hits c.physCount f 0 (k * c.batch) := by
    intro f hf
    simpa [hidle, Pc.left] using hk.visits f hf
  have hcalls : s.calls = k := by
    simpa [hidle, Pc.unclaimed] using hk.calls
  constructor
  · intro f hf g hg
    rw [hvisits f hf, hvisits g hg]
    exact hits_le_hits_add_one hf hg _
  · rw [Finset.sum_congr rfl (fun f hf => hvisits f (Finset.mem_range.mp hf)),
      sum_hits c.physCount_pos, hcalls]

/-! ## A call from its start to its end -/

/-- The state after a call of a thread that no other thread disturbs. -/
def State.called (c : Clock) (s : State threads) : State threads :=
  { s with
    clockPos := (s.clockPos + c.batch) % 2 ^ 64 % c.physCount
    visits := fun f => s.visits f + hits c.physCount f s.clockPos c.batch
    calls := s.calls + 1 }

theorem State.called_visits (c : Clock) (s : State threads) (f : Nat) :
    (s.called c).visits f = s.visits f + hits c.physCount f s.clockPos c.batch := rfl

theorem State.goto_goto (s : State threads) (t : Fin threads) (p q : Pc) :
    (s.goto t p).goto t q = s.goto t q := by
  simp [State.goto]

section Call

variable {c : Clock} {s : State threads} {t : Fin threads} {pos i : Nat}

/-- An idle thread claims a window, undisturbed. -/
theorem reachable_claim (h : (system c threads).Reachable s) (hidle : s.pc t = .idle) :
    (system c threads).Reachable ({ s with
      clockPos := (s.clockPos + c.batch) % 2 ^ 64 % c.physCount
      calls := s.calls + 1 }.goto t (.walk s.clockPos 0)) := by
  have hcall : (system c threads).Reachable ({ s with calls := s.calls + 1 }.goto t .load) := by
    refine .step h (l := t) ?_
    simp [system, step, hidle]
  have hload : (system c threads).Reachable
      ({ s with calls := s.calls + 1 }.goto t (.exchange s.clockPos)) := by
    refine .step hcall (l := t) ?_
    simp [system, step, State.goto]
  refine .step hload (l := t) ?_
  simp [system, step, State.goto]

theorem reachable_visit (h : (system c threads).Reachable s) (hpc : s.pc t = .walk pos i)
    (hi : i < c.batch) : (system c threads).Reachable
      ({ s with visits := Function.update s.visits pos (s.visits pos + 1) }.goto t
        (.walk ((pos + 1) % 2 ^ 64 % c.physCount) (i + 1))) := by
  refine .step h (l := t) ?_
  simp [system, step, hpc, hi]

theorem reachable_return (h : (system c threads).Reachable s) (hpc : s.pc t = .walk pos i)
    (hi : c.batch ≤ i) : (system c threads).Reachable (s.goto t .idle) := by
  refine .step h (l := t) ?_
  simp [system, step, hpc, Nat.not_lt.2 hi]

theorem reachable_walk (k : Nat) : ∀ {s : State threads} {pos i : Nat},
    (system c threads).Reachable (s.goto t (.walk pos i)) → pos < c.physCount →
      i + k = c.batch → (system c threads).Reachable
        ({ s with visits := fun f => s.visits f + hits c.physCount f pos k }.goto t .idle) := by
  induction k with
  | zero =>
    intro s pos i h _ hi
    have hdone := reachable_return h (Function.update_self ..) (by omega)
    rwa [s.goto_goto] at hdone
  | succ k ih =>
    intro s pos i h hpos hi
    have hvisit := reachable_visit h (Function.update_self ..) (by omega)
    rw [c.next_eq hpos] at hvisit
    have hnext := @ih { s with visits := Function.update s.visits pos (s.visits pos + 1) }
      ((pos + 1) % c.physCount) (i + 1) (by simpa [State.goto] using hvisit)
      (Nat.mod_lt _ c.physCount_pos) (by omega)
    convert hnext using 3
    funext f
    rw [hits_succ, Nat.mod_eq_of_lt hpos]
    by_cases hfp : pos = f
    · subst hfp
      simp only [if_true, Function.update_self]
      omega
    · simp only [if_neg hfp, Function.update_of_ne (Ne.symm hfp)]
      omega

/-- A call can be made at any time by an idle thread. -/
theorem reachable_called (h : (system c threads).Reachable s) (hclock : s.clockPos < c.physCount)
    (hidle : s.pc t = .idle) : (system c threads).Reachable (s.called c) := by
  have hdone := reachable_walk c.batch (reachable_claim h hidle) hclock (Nat.zero_add _)
  convert hdone using 1
  unfold State.called State.goto
  congr 1
  rw [← hidle, Function.update_eq_self]

end Call

/-- Two threads, five frames and batches of seven. -/
theorem clock_fair_two_calls : ∃ (c : Clock) (s : State 2), c.physCount + c.batch ≤ 2 ^ 64 ∧
    (system c 2).Reachable s ∧ (∀ t, s.pc t = .idle) ∧ s.calls = 2 ∧ Fair c s := by
  let c : Clock := ⟨5, 7, by decide, by decide, by decide, by decide⟩
  have hone : (system c 2).Reachable ((boot 2).called c) :=
    reachable_called (t := 0) (.init rfl) (by decide) rfl
  have htwo : (system c 2).Reachable (((boot 2).called c).called c) :=
    reachable_called (t := 1) hone (by decide) rfl
  exact ⟨c, _, by decide, htwo, fun _ => rfl, rfl,
    clock_fair c (by decide) _ htwo (fun _ => rfl)⟩

/-- With three frames and batches of `2 ^ 64 - 2` the position wraps in the second call, and
    after the third one the first frame is two visits ahead of the last. -/
theorem wrapped_clock_unfair : ∃ (c : Clock) (s : State 1), (system c 1).Reachable s ∧
    (∀ t, s.pc t = .idle) ∧ ¬ Fair c s := by
  let c : Clock := ⟨3, 2 ^ 64 - 2, by decide, by decide, by decide, by decide⟩
  have hone : (system c 1).Reachable ((boot 1).called c) :=
    reachable_called (t := 0) (.init rfl) (by decide) rfl
  have hnext := reachable_called (t := 0) hone (by decide) rfl
  have hlast := reachable_called (t := 0) hnext (by decide) rfl
  refine ⟨c, _, hlast, fun _ => rfl, ?_⟩
  rintro ⟨hfair, -⟩
  have hahead := hfair 0 (by decide) 2 (by decide)
  -- The windows of the three calls start at 0, at 2 and, instead of 1, again at 0.
  have hsecond : ((boot 1).called c).clockPos = 2 := by decide
  have hthird : (((boot 1).called c).called c).clockPos = 0 := by decide
  rw [State.called_visits, State.called_visits, State.called_visits, State.called_visits,
    State.called_visits, State.called_visits, hsecond, hthird] at hahead
  change 0 + hits 3 0 0 (2 ^ 64 - 2) + hits 3 0 2 (2 ^ 64 - 2) + hits 3 0 0 (2 ^ 64 - 2) ≤
    0 + hits 3 2 0 (2 ^ 64 - 2) + hits 3 2 2 (2 ^ 64 - 2) + hits 3 2 0 (2 ^ 64 - 2) + 1 at hahead
  have hadd : ∀ f, hits 3 f 0 (2 + (2 ^ 64 - 2)) = hits 3 f 0 2 + hits 3 f 2 (2 ^ 64 - 2) :=
    fun f => hits_add f 0 2 _
  have hzero := hadd 0
  have htwo := hadd 2
  have hfirst : hits 3 0 0 (2 ^ 64 - 2) = hits 3 2 0 (2 ^ 64 - 2) + 1 := by
    rw [hits_zero_eq (by decide), hits_zero_eq (by decide), if_pos (by decide),
      if_neg (by decide)]
  rw [hits_zero_eq (by decide), if_pos (by decide), hits_zero_eq (by decide),
    if_pos (by decide)] at hzero
  rw [hits_zero_eq (by decide), if_neg (by decide), hits_zero_eq (by decide),
    if_neg (by decide)] at htwo
  omega

/-! ## The scans of `evict` -/

section Scans

variable {α : Type} {cfg : Config α} {c : Clock} {s s' : Tabby.State α} {e : Nat}

/-- Where an evictor is in `iterateClockBatch`, `idle` once the loop has ended. -/
def Pc.ofScan (cfg : Config α) (w : Scan) : Pc :=
  if w.i < cfg.batch then .walk w.pos w.i else .idle

def Pc.ofEvict (cfg : Config α) : EvictPc → Pc
  | .scan w => ofScan cfg w
  -- `fn` has been called.
  | .looked _ w | .dirty _ w | .lock _ w | .mark _ w => ofScan cfg (w.next cfg)
  | _ => .idle

/-- The clock can be where the buffer manager has it. -/
def Clocked (cfg : Config α) (c : Clock) (threads : Nat) (s : Tabby.State α) : Prop :=
  ∃ a : State threads, (system c threads).Reachable a ∧ a.clockPos = s.clockPos ∧
    ∀ e : Fin threads, a.pc e = .ofEvict cfg (s.evictors e)

/-- A step of evictor `e` along which the clock goes from `a` to `a'`. -/
theorem Clocked.move {a a' : State threads} {pc : EvictPc}
    (hpc : ∀ u : Fin threads, a.pc u = .ofEvict cfg (s.evictors u))
    (hreach : (system c threads).Reachable a') (hclock : a'.clockPos = s'.clockPos)
    (hevictors : s'.evictors = Function.update s.evictors e pc)
    (hmove : ∀ u : Fin threads, a'.pc u = if u = e then .ofEvict cfg pc else a.pc u) :
    Clocked cfg c threads s' := by
  refine ⟨a', hreach, hclock, ?_⟩
  intro u
  rw [hmove, hevictors, Function.update_apply, hpc]
  split <;> rfl

/-- A step outside of `iterateClockBatch`, or inside of `fn`. -/
theorem Clocked.stay (h : Clocked cfg c threads s) {pc : EvictPc}
    (hclock : s'.clockPos = s.clockPos)
    (hevictors : s'.evictors = Function.update s.evictors e pc)
    (hsame : Pc.ofEvict cfg (s.evictors e) = .ofEvict cfg pc) : Clocked cfg c threads s' := by
  obtain ⟨a, hreach, ha, hpc⟩ := h
  refine .move hpc hreach (ha.trans hclock.symm) hevictors ?_
  intro u
  split
  · rename_i hu
    rw [hpc, hu, hsame]
  · rfl

/-- `fn` is called on the next frame of the window. -/
theorem Clocked.look (hphys : cfg.physCount = c.physCount) (hbatch : cfg.batch = c.batch)
    (h : Clocked cfg c threads s) (he : e < threads) {w : Scan} (v : VmPageState)
    (hx : s.evictors e = .scan w) (hi : w.i < cfg.batch) :
    Clocked cfg c threads (s.setEvictor e (.looked v w)) := by
  obtain ⟨a, hreach, ha, hpc⟩ := h
  have hwalk : a.pc ⟨e, he⟩ = .walk w.pos w.i := by
    rw [hpc, hx]
    exact if_pos hi
  have hvisit := reachable_visit hreach hwalk (hbatch ▸ hi)
  rw [← hphys] at hvisit
  by_cases hlast : w.i + 1 < cfg.batch
  · refine .move hpc hvisit ha rfl ?_
    intro u
    simp [State.goto, Function.update_apply, Fin.ext_iff, Pc.ofEvict, Pc.ofScan, Scan.next, hlast]
  · -- The window is used up, and the call returns.
    refine .move hpc (reachable_return hvisit (Function.update_self ..) (by omega)) ha rfl ?_
    intro u
    simp [State.goto, Function.update_apply, Fin.ext_iff, Pc.ofEvict, Pc.ofScan, Scan.next, hlast]

/-- The evictor claims a window. -/
theorem Clocked.claim (hphys : cfg.physCount = c.physCount) (hbatch : cfg.batch = c.batch)
    (h : Clocked cfg c threads s) (he : e < threads) {w : Scan} (hx : s.evictors e = .scan w)
    (hi : ¬ w.i < cfg.batch) : Clocked cfg c threads
      ({ s with clockPos := (s.clockPos + cfg.batch) % 2 ^ 64 % cfg.physCount }.setEvictor e
        (.scan { w with i := 0, pos := s.clockPos })) := by
  obtain ⟨a, hreach, ha, hpc⟩ := h
  have hidle : a.pc ⟨e, he⟩ = .idle := by
    rw [hpc, hx]
    exact if_neg hi
  have hclaim := reachable_claim hreach hidle
  rw [ha, ← hphys, ← hbatch] at hclaim
  refine .move hpc hclaim rfl rfl ?_
  intro u
  have hpos : 0 < cfg.batch := hbatch ▸ c.batch_pos
  simp [State.goto, Function.update_apply, Fin.ext_iff, Pc.ofEvict, Pc.ofScan, hpos]

theorem evict_clocked (hphys : cfg.physCount = c.physCount) (hbatch : cfg.batch = c.batch)
    (h : Clocked cfg c threads s) (he : e < threads) (hstep : evictStep cfg s e = some s') :
    Clocked cfg c threads s' := by
  unfold evictStep at hstep
  cases hx : s.evictors e with rw [hx] at hstep
  | scan w =>
    simp only at hstep
    split at hstep
    · cases hstep
      exact h.look hphys hbatch he _ hx ‹_›
    · rename_i hi
      split at hstep
      · cases hstep
        exact h.claim hphys hbatch he hx hi
      · split at hstep <;> cases hstep
        exact h.stay rfl rfl (by rw [hx]; exact if_neg hi)
  | lock v w | mark v w | relock =>
    simp only at hstep
    split at hstep <;> cases hstep <;> exact h.stay rfl rfl (by rw [hx]; rfl)
  | clean todo | write todo | relook todo | inval todo =>
    cases todo <;> cases hstep
    all_goals repeat' split
    all_goals exact h.stay rfl rfl (by rw [hx]; rfl)
  | idle => cases hstep
  | _ =>
    cases hstep
    repeat' split
    all_goals exact h.stay rfl rfl (by rw [hx]; rfl)

/-- Threads leave the clock and the evictors alone. -/
def Quiet (s s' : Tabby.State α) : Prop := s'.clockPos = s.clockPos ∧ s'.evictors = s.evictors

theorem validate_quiet (s : Tabby.State α) (id : Nat) : Quiet s (s.validate id) := by
  unfold State.validate
  split <;> exact ⟨rfl, rfl⟩

theorem giveUp_quiet (s : Tabby.State α) (up : Option Upgrade) : Quiet s (s.giveUp up) := by
  cases up <;> exact ⟨rfl, rfl⟩

theorem upgraded_quiet (s : Tabby.State α) (up : Option Upgrade) : Quiet s (s.upgraded up) := by
  cases up with
  | none => exact ⟨rfl, rfl⟩
  | some u => exact validate_quiet s u.guard

theorem check_quiet (s : Tabby.State α) (g : Guard α) (v : VmPageState) :
    Quiet s (checkStep s g v) := by
  unfold checkStep
  repeat' split
  all_goals first
    | exact ⟨rfl, rfl⟩
    | exact validate_quiet s _

theorem thread_quiet {t : Nat} (hstep : threadStep cfg s t = some s') : Quiet s s' := by
  unfold threadStep at hstep
  cases hlast : (s.free (cfg.slot t)).getLast? <;>
    simp only [faultStep, lookStep, testedStep, State.tryLockX, State.tryLockS, State.tryClear,
      hlast] at hstep
  all_goals repeat' split at hstep
  all_goals cases hstep
  all_goals first
    | exact ⟨rfl, rfl⟩
    | exact upgraded_quiet s _
    | exact giveUp_quiet s _
    | exact validate_quiet s _

theorem Clocked.quiet (h : Clocked cfg c threads s) (hquiet : Quiet s s') :
    Clocked cfg c threads s' := by
  obtain ⟨a, hreach, ha, hpc⟩ := h
  obtain ⟨hclock, hevictors⟩ := hquiet
  exact ⟨a, hreach, ha.trans hclock.symm, by rw [hevictors]; exact hpc⟩

/-- **One step**, for the clock. -/
theorem step_clocked (hphys : cfg.physCount = c.physCount) (hbatch : cfg.batch = c.batch)
    (h : Clocked cfg c threads s) {l : Label α} (hl : ∀ e, l = .evict e → e < threads)
    (hstep : Tabby.step cfg s l = some s') : Clocked cfg c threads s' := by
  cases l with
  | evict e => exact evict_clocked hphys hbatch h (hl e rfl) hstep
  | thread t => exact h.quiet (thread_quiet hstep)
  | startEvict e =>
    simp only [Tabby.step] at hstep
    split at hstep <;> cases hstep
    rename_i hx
    exact h.stay rfl rfl (by rw [hx]; exact (if_neg (Nat.lt_irrefl _)).symm)
  | diskWrite e f p =>
    simp only [Tabby.step] at hstep
    repeat' split at hstep
    all_goals cases hstep
    rename_i hx _
    exact h.stay rfl rfl (by rw [hx]; rfl)
  | checkO id =>
    simp only [Tabby.step] at hstep
    repeat' split at hstep
    all_goals cases hstep
    exact h.quiet (check_quiet s _ _)
  | _ =>
    simp only [Tabby.step, upgradeStep] at hstep
    repeat' split at hstep
    all_goals cases hstep
    all_goals exact h.quiet ⟨rfl, rfl⟩

/-- **The scans of `evict` are calls of the clock**: in every run of the buffer manager from
    where the clock is 0, with evictors `0` to `threads - 1`. -/
theorem scans_clocked (hphys : cfg.physCount = c.physCount) (hbatch : cfg.batch = c.batch)
    (hinit : Init cfg s) (hclock : s.clockPos = 0) {ls : List (Label α)}
    (hls : ∀ l ∈ ls, ∀ e, l = .evict e → e < threads)
    (hexec : (Tabby.system cfg).exec s ls = some s') : Clocked cfg c threads s' := by
  have hstart : Clocked cfg c threads s :=
    ⟨boot threads, .init rfl, hclock.symm, fun e => by rw [hinit.evictors]; rfl⟩
  clear hinit hclock
  induction ls generalizing s with
  | nil => exact Option.some.inj hexec ▸ hstart
  | cons l ls ih =>
    obtain ⟨t, hstep, hexec⟩ := Option.bind_eq_some_iff.mp hexec
    exact ih (fun l' hl' => hls l' (List.mem_cons_of_mem l hl')) hexec
      (step_clocked hphys hbatch hstart (hls l List.mem_cons_self) hstep)

end Scans

end Tabby.EvictionClock
