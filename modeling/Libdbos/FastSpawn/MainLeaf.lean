import Libdbos.Framework.WordLock
import Libdbos.FastSpawn.CowMoves

/-! # The Leaves of the Main Table

    What happens to the live main table, whatever else goes on: its lock
    bit excludes, its frames never change, and a copy-on-write leaf can
    only become writable. Nothing here depends on what the snapshot table
    looks like, so these facts hold in every run.

    * `MainEffect`: a step either leaves the main table alone, or locks a
      leaf, or releases one;
    * `mainInv_reachable`: the invariant of the main table;
    * `main_evolves`: how a leaf changes in one step.
-/

open LTS

namespace CowFault

open Pte

variable {α : Type} {cfg : Config} {s s' : State α} {c : Nat} {l : Label α}

/-! ## Effects -/

@[simp] theorem claim_setPc (s : State α) (c : Nat) (p : Pc) :
    (s.setPc c p).claim c = claimAt c p := by
  simp [State.claim, State.setPc]

@[simp] theorem setPc_main (s : State α) (c : Nat) (p : Pc) : (s.setPc c p).main = s.main := rfl

theorem put_main (s : State α) (va : Va) (f : Word) : (s.put cfg va f).main = s.main :=
  put_field State.main (fun _ _ => rfl) va f

/-- What a step of core `c` does to the main table. -/
inductive MainEffect (s s' : State α) (c : Nat) : Prop where
  | keep (hmain : s'.main = s.main) (hclaim : (s'.claim c).main = (s.claim c).main)
      (hold : (s.claim c).main ≠ none → (s'.claim c).old = (s.claim c).old)
  | acquire (va : Va) (hcow : isCow (s.main va) = true) (hro : isW (s.main va) = false)
      (hunlocked : isLock (s.main va) = false) (hnone : (s.claim c).main = none)
      (hmain : s'.main = Function.update s.main va (locked (s.main va)))
      (hclaim : (s'.claim c).main = some va) (hold : (s'.claim c).old = s.main va)
  | release (va : Va) (w : Word) (hheld : (s.claim c).main = some va)
      (hw : w = unlocked (s.claim c).old ∨ w = restored (s.claim c).old)
      (hmain : s'.main = Function.update s.main va w) (hclaim : (s'.claim c).main = none)

theorem HandlerMove.mainEffect (h : HandlerMove cfg s c (s.pc c) s')
    (hp : Position cfg c (s.pc c)) : MainEffect s s' c := by
  generalize hpc : s.pc c = p at h hp
  have hclaim : s.claim c = claimAt c p := by rw [State.claim, hpc]
  have hmain := hp.main
  have hsnap := hp.snapshot
  cases h with
  | goto h =>
    have hsame := h.claim hp
    exact .keep rfl (by simp [hsame, hclaim]) (by simp [hsame, hclaim])
  | @lockMain va old hc heq =>
    obtain ⟨hcow, hro, hunlocked⟩ := hp.checked va old rfl
    rw [← heq] at hcow hro hunlocked
    refine .acquire va hcow hro hunlocked ?_ ?_ ?_ ?_
    · simp [hclaim, claimAt_main hc, mainClaim]
    · simp [State.setMain, heq]
    · simp [claimAt_main hc, mainClaim]
    · simp [claimAt_main hc, mainClaim, heq]
  | @ownMain va old hc =>
    exact .release va _ (by simp [hclaim, claimAt_main hc, mainClaim])
      (Or.inl (by simp [hclaim, claimAt_main hc, mainClaim])) rfl
        (by simp [claimAt_main hc, mainClaim])
  | @restore va old =>
    have hc := hmain rfl
    exact .release va _ (by simp [hclaim, claimAt_main hc, mainClaim])
      (Or.inr (by simp [hclaim, claimAt_main hc, mainClaim])) rfl
        (by simp [claimAt_main hc, mainClaim])
  | @unlockMain va old | @unlockAlone va old =>
    have hc := hmain rfl
    exact .release va _ (by simp [hclaim, claimAt_main hc, mainClaim])
      (Or.inl (by simp [hclaim, claimAt_main hc, mainClaim])) rfl
        (by simp [claimAt_main hc, mainClaim])
  | lockOwn hc _ | ownSnap hc | flushSnap hc =>
    exact .keep rfl (by simp [hclaim, claimAt_snap hc, snapClaim])
      (by simp [hclaim, claimAt_snap hc, snapClaim])
  | storeSnap =>
    have hc := hsnap rfl
    exact .keep rfl (by simp [hclaim, claimAt_snap hc, snapClaim])
      (by simp [hclaim, claimAt_snap hc, snapClaim])
  | putSnap =>
    have hc := hsnap rfl
    exact .keep (put_main s _ _) (by simp [hclaim, claimAt_snap hc, snapClaim])
      (by simp [hclaim, claimAt_snap hc, snapClaim])
  | putMain =>
    have hc := hmain rfl
    exact .keep (put_main s _ _) (by simp [hclaim, claimAt_main hc, mainClaim])
      (by simp [hclaim, claimAt_main hc, mainClaim])
  | _ =>
    have hc := hmain rfl
    exact .keep rfl (by simp [hclaim, claimAt_main hc, mainClaim])
      (by simp [hclaim, claimAt_main hc, mainClaim])

theorem MainEffect.of_same (hmain : s'.main = s.main) (hpc : s'.pc = s.pc) : MainEffect s s' c :=
  .keep hmain (by simp [State.claim, hpc]) (by simp [State.claim, hpc])

/-- **Every step on the main table** is the walker's or has the effect of
    one core, which is the only one to move. -/
theorem Move.mainEffect (h : Move cfg s l s') (hp : ∀ c, Position cfg c (s.pc c)) :
    (∃ c, (∀ d, d ≠ c → s'.pc d = s.pc d) ∧ MainEffect s s' c) ∨
    ∃ va w, Walked (s.main va) w ∧ s' = s.setMain va w := by
  -- Steps without an actor are charged to core 0.
  have hquiet : s'.main = s.main → s'.pc = s.pc →
      ∃ c, (∀ d, d ≠ c → s'.pc d = s.pc d) ∧ MainEffect s s' c :=
    fun hmain hpc => ⟨0, fun d _ => by rw [hpc], .of_same hmain hpc⟩
  cases h with
  | @fault c va write hidle _ _ =>
    refine Or.inl ⟨c, fun d hd => by simp [State.setPc, hd], .keep rfl ?_ ?_⟩ <;>
      simp [State.claim, State.setPc, hidle, claimAt_idle, claimAt_fetch]
  | @handler c t h => exact Or.inl ⟨c, fun d hd => h.pc_of_ne hd, h.mainEffect (hp c)⟩
  | @copySnap c page va old _ hpc =>
    have hc : c = snapshotCore := (hp c).snapshot (by rw [hpc]; rfl)
    refine Or.inl ⟨c, fun d hd => by simp [State.setPc, State.copyInto, hd], .keep rfl ?_ ?_⟩ <;>
      simp [State.claim, State.setPc, hpc, claimAt_snap hc, snapClaim]
  | @copyMain c page va old started sold _ hpc =>
    have hc : c ≠ snapshotCore := (hp c).main (by rw [hpc]; rfl)
    refine Or.inl ⟨c, fun d hd => by simp [State.setPc, State.copyInto, hd], .keep rfl ?_ ?_⟩ <;>
      simp [State.claim, State.setPc, hpc, claimAt_main hc, mainClaim]
  | @walkMain va write w hw => exact Or.inr ⟨va, w, hw, rfl⟩
  | walk h => exact Or.inl (hquiet (walkStep_frame h).main (walkStep_frame h).pc)
  | _ => exact Or.inl (hquiet rfl rfl)

/-! ## The invariant -/

/-- The lock bits of the main table and the cores that hold them. -/
def mainLocks (s : State α) : WordLock.Locks Nat Va Word where
  leaf := s.main
  holder := fun c => (s.claim c).main

structure MainInv (cfg : Config) (s : State α) : Prop where
  positions : ∀ c, Position cfg c (s.pc c)
  locks : WordLock.Inv isLock (mainLocks s)
  /-- A locked leaf is still the entry its holder read, up to flags. -/
  held : ∀ c va, (s.claim c).main = some va →
    SameMapping (s.main va) (s.claim c).old ∧ isCow (s.main va) = true
  readonly : ∀ va, isCow (s.main va) = true → isW (s.main va) = false
  unmapped : ∀ va, va ∉ cfg.vas → s.main va = 0#64

theorem position_idle : Position cfg c .idle where
  mapped := by simp [Pc.page]
  snapshot := by simp [Pc.onSnapshot]
  main := by simp [Pc.onMain]
  checked := by simp

theorem mainInv_init (h : Init cfg s) : MainInv cfg s where
  positions := fun c => by rw [h.idle c]; exact position_idle
  locks := .of_free (fun c => by simp [mainLocks, State.claim, h.idle c, claimAt_idle])
    (fun va => (h.leaves va).main_unlocked)
  held := fun c va hc => by simp [State.claim, h.idle c, claimAt_idle] at hc
  readonly := fun va => (h.leaves va).main_readonly
  unmapped := fun va hva => (h.unmapped va hva).1

theorem claim_of_pc {d : Nat} (h : s'.pc d = s.pc d) : s'.claim d = s.claim d := by
  rw [State.claim, h, State.claim]

/-- A part of the claims after a step of core `c`. -/
theorem claims_update (part : Claim → Option Va) (hother : ∀ d, d ≠ c → s'.pc d = s.pc d)
    {k : Option Va} (hc : part (s'.claim c) = k) :
    (fun d => part (s'.claim d)) = Function.update (fun d => part (s.claim d)) c k := by
  funext d
  by_cases hd : d = c
  · subst hd
    simpa using hc
  · simp [Function.update_of_ne hd, claim_of_pc (hother d hd)]

/-- The effect of a core on the main table respects the lock bits. -/
theorem MainEffect.lockStep (h : MainEffect s s' c) (hother : ∀ d, d ≠ c → s'.pc d = s.pc d) :
    WordLock.Step isLock Walked c (mainLocks s) (mainLocks s') := by
  cases h with
  | keep hmain hclaim _ =>
    have heq : mainLocks s' = mainLocks s := by
      simp only [mainLocks, hmain, claims_update Claim.main hother hclaim, Function.update_eq_self]
    rw [heq]
    exact .stay
  | acquire va _ _ hunlocked hnone hmain hclaim _ =>
    have hstep : WordLock.Step isLock Walked c (mainLocks s) _ :=
      .acquire va (locked (s.main va)) hnone hunlocked (locked_flags _).1
    simpa only [mainLocks, hmain, claims_update Claim.main hother hclaim] using hstep
  | release va w hheld hw hmain hclaim =>
    have hw' : isLock w = false := by
      rcases hw with rfl | rfl <;> simp
    have hstep : WordLock.Step isLock Walked c (mainLocks s) _ := .release va w hheld hw'
    simpa only [mainLocks, hmain, claims_update Claim.main hother hclaim] using hstep

/-- A leaf with a flag that an empty entry lacks belongs to a mapped page. -/
theorem MainInv.mapped (hinv : MainInv cfg s) {va : Va} (h : isCow (s.main va) = true) :
    va ∈ cfg.vas := by
  by_contra hva
  rw [hinv.unmapped va hva] at h
  simp at h

theorem mainInv_walk (hinv : MainInv cfg s) {va : Va} {w : Word} (hw : Walked (s.main va) w) :
    MainInv cfg (s.setMain va w) := by
  obtain ⟨hmap, hlock, hcow, hwr, hpres⟩ := hw.flags
  -- Every leaf keeps its mapping and the bits that the invariant mentions.
  have hleaf : ∀ va', SameMapping ((s.setMain va w).main va') (s.main va') ∧
      isCow ((s.setMain va w).main va') = isCow (s.main va') ∧
      isW ((s.setMain va w).main va') = isW (s.main va') := by
    intro va'
    by_cases h : va' = va
    · subst h
      simpa [State.setMain] using ⟨hmap, hcow, hwr⟩
    · simpa [State.setMain, Function.update_of_ne h] using SameMapping.refl _
  refine ⟨hinv.positions, hinv.locks.change hlock, ?_, ?_, ?_⟩
  · intro c va' hc
    obtain ⟨hsame, hc'⟩ := hinv.held c va' hc
    exact ⟨(hleaf va').1.trans hsame, by rw [(hleaf va').2.1]; exact hc'⟩
  · intro va' h
    rw [(hleaf va').2.1] at h
    rw [(hleaf va').2.2]
    exact hinv.readonly va' h
  · intro va' hva'
    have hne : va' ≠ va := by
      rintro rfl
      rw [hinv.unmapped _ hva'] at hpres
      simp at hpres
    simpa [State.setMain, Function.update_of_ne hne] using hinv.unmapped va' hva'

theorem mainInv_effect (hinv : MainInv cfg s) (hpos : ∀ d, Position cfg d (s'.pc d))
    (hother : ∀ d, d ≠ c → s'.pc d = s.pc d) (h : MainEffect s s' c) : MainInv cfg s' := by
  have hlock := h.lockStep hother
  refine ⟨hpos, hlock.inv (fun v w hw => hw.flags.2.1) hinv.locks, ?_, ?_, ?_⟩
  · intro d va hd
    by_cases hdc : d = c
    · subst hdc
      cases h with
      | keep hmain hclaim hold =>
        rw [hclaim] at hd
        rw [hmain, hold (by simp [hd])]
        exact hinv.held d va hd
      | acquire va' hcow _ _ _ hmain hclaim hold =>
        rw [hclaim] at hd
        cases hd
        rw [hmain, hold]
        simpa using ⟨sameMapping_locked _, hcow⟩
      | release va' w _ _ _ hclaim => simp [hclaim] at hd
    · -- Another core holds this leaf, so the step at most tweaked it.
      rw [claim_of_pc (hother d hdc)] at hd ⊢
      obtain ⟨hsame, hcow⟩ := hinv.held d va hd
      rcases hlock.leaf_of_held hinv.locks hd hdc with heq | hw
      · simp only [mainLocks] at heq
        rw [heq]
        exact ⟨hsame, hcow⟩
      · obtain ⟨hmap, _, hc, _⟩ := hw.flags
        exact ⟨hmap.trans hsame, hc.trans hcow⟩
  · intro va hcow
    cases h with
    | keep hmain _ _ => rw [hmain] at hcow ⊢; exact hinv.readonly va hcow
    | acquire va' _ hro _ _ hmain _ _ =>
      rw [hmain] at hcow ⊢
      by_cases hva : va = va'
      · simpa [hva] using hro
      · rw [Function.update_of_ne hva] at hcow ⊢
        exact hinv.readonly va hcow
    | release va' w _ hw hmain _ =>
      rw [hmain] at hcow ⊢
      by_cases hva : va = va'
      · rcases hw with rfl | rfl <;> simp [hva] at hcow ⊢
      · rw [Function.update_of_ne hva] at hcow ⊢
        exact hinv.readonly va hcow
  · intro va hva
    cases h with
    | keep hmain _ _ => rw [hmain]; exact hinv.unmapped va hva
    | acquire va' hcow _ _ _ hmain _ _ =>
      have hne : va ≠ va' := fun h => hva (h ▸ hinv.mapped hcow)
      rw [hmain, Function.update_of_ne hne]
      exact hinv.unmapped va hva
    | release va' w hheld _ hmain _ =>
      have hne : va ≠ va' := fun h => hva (h ▸ hinv.mapped (hinv.held c va' hheld).2)
      rw [hmain, Function.update_of_ne hne]
      exact hinv.unmapped va hva

theorem mainInv_step (hinv : MainInv cfg s) (hstep : step cfg s l = some s') : MainInv cfg s' := by
  have hmove := step_cases hstep
  rcases hmove.mainEffect hinv.positions with ⟨c, hother, heff⟩ | ⟨va, w, hw, rfl⟩
  · exact mainInv_effect hinv (hmove.position hinv.positions) hother heff
  · exact mainInv_walk hinv hw

/-- **The main table in every run.** -/
theorem mainInv_reachable (h : (system (α := α) cfg).Reachable s) : MainInv cfg s :=
  System.invariant (fun _ => mainInv_init) (fun _ _ _ => mainInv_step) h

/-! ## How a leaf evolves -/

/-- A leaf keeps its mapping. Its protection stays, or it goes from
    copy-on-write to writable. -/
def Evolves (v w : Word) : Prop :=
  SameMapping w v ∧
  ((isCow w = isCow v ∧ isW w = isW v) ∨
    (isCow v = true ∧ isW v = false ∧ isCow w = false ∧ isW w = true))

theorem Evolves.refl (w : Word) : Evolves w w := ⟨.refl w, Or.inl ⟨rfl, rfl⟩⟩

/-- **One step on a main leaf.** -/
theorem main_evolves (hinv : MainInv cfg s) (hstep : step cfg s l = some s') (va : Va) :
    Evolves (s.main va) (s'.main va) := by
  rcases (step_cases hstep).mainEffect hinv.positions with ⟨c, _, heff⟩ | ⟨va', w, hw, rfl⟩
  · cases heff with
    | keep hmain _ _ => rw [hmain]; exact .refl _
    | acquire va' hcow hro _ _ hmain _ _ =>
      rw [hmain]
      by_cases hva : va = va'
      · subst hva
        simpa using ⟨sameMapping_locked _, Or.inl ⟨by simp, by simp⟩⟩
      · rw [Function.update_of_ne hva]
        exact .refl _
    | release va' w hheld hw hmain _ =>
      rw [hmain]
      by_cases hva : va = va'
      · subst hva
        obtain ⟨hsame, hcow⟩ := hinv.held c va hheld
        have hro := hinv.readonly va hcow
        -- The stored word maps what `old_pte` mapped, which is what the leaf maps.
        have hback : SameMapping (s.claim c).old (s.main va) :=
          ⟨hsame.addr.symm, hsame.p.symm, hsame.stack.symm, hsame.nocow.symm⟩
        rw [Function.update_self]
        rcases hw with rfl | rfl
        · exact ⟨(sameMapping_unlocked _).trans hback, Or.inr ⟨hcow, hro, by simp, by simp⟩⟩
        · exact ⟨(sameMapping_restored _).trans hback, Or.inl ⟨by simp [hcow], by simp [hro]⟩⟩
      · rw [Function.update_of_ne hva]
        exact .refl _
  · by_cases hva : va = va'
    · subst hva
      obtain ⟨hmap, _, hcow, hwr, _⟩ := hw.flags
      simpa [State.setMain] using ⟨hmap, Or.inl ⟨hcow, hwr⟩⟩
    · simpa [State.setMain, Function.update_of_ne hva] using Evolves.refl _

end CowFault
