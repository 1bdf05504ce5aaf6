import Libdbos.Framework.System
import Libdbos.Kern.PvInfo

/-! # The Host Loop and the Paravirtual Flag Protocol

    The loop of `vmx_launch` (`kern/vmx.c`) on one physical core, together
    with any number of cores that post requests into the flag word of that
    core (`dbos_tlb_shootdown` and `dune_fast_spawn_on_snapshot` of
    `libdune/fast_spawn.c`). The vCPU thread is pinned, so the core has one
    flag word for good.

    The *window* runs from the exchange that empties the word on entry to
    the compare-exchange that sets the mode bit on exit. Each load,
    exchange, compare-exchange, TLB flush and CR3 write is one step.

    History variables record what was asked for, so that the theorems can
    say that it happened:
    * `flushPosted`, `cr3Posted`: requests since the last exchange;
    * `flushDue`, `cr3Due`: requests the last exchange took over;
    * `synced`: `vpid_sync_context` ran since the last exchange;
    * `cr3Before`: the guest CR3 at the last exchange.
-/

open LTS

namespace VmxLaunch

open Pv

/-! ## State -/

/-- Where the host loop stands. `bug` is a `BUG_ON` that fired. -/
inductive Pc where
  | host
  | exchange
  | entering (pv : Word)
  | counted (pv : Word)
  | loading (pv : Word)
  | ready
  | guest
  | exiting
  | exitCas (pv : Word)
  | bug
  deriving DecidableEq, Repr

/-- Inside the window from the entry exchange to the exit compare-exchange. -/
def Pc.inWindow : Pc → Bool
  | .host | .exchange | .bug => false
  | _ => true

theorem Pc.host_or_exchange {p : Pc} (hout : p.inWindow = false) (hbug : p ≠ .bug) :
    p = .host ∨ p = .exchange := by
  cases p <;> simp_all [Pc.inWindow]

structure State where
  flag : Word
  fullFlushCount : BitVec 32
  /-- The `GUEST_CR3` field of the VMCS. -/
  guestCr3 : Word
  pc : Pc
  /-- The `pv_info_flag` a posting core has loaded last. -/
  seen : Nat → Option Word
  flushPosted : Bool
  cr3Posted : Option Word
  flushDue : Bool
  cr3Due : Option Word
  synced : Bool
  cr3Before : Word

/-! ## Labels -/

inductive Label where
  /-- Load of the flag before the entry, with the first `BUG_ON`. -/
  | checkEntry
  /-- Exchange of the flag word with 0. -/
  | xchg
  /-- Increment of `full_flush_count`, skipped without a flush request. -/
  | incCount
  /-- Full TLB flush by `vpid_sync_context`. -/
  | vpidSync
  /-- Write of `GUEST_CR3` into the VMCS, skipped without a CR3 request. -/
  | loadCr3
  | vmEntry
  /-- The guest loads CR3 by itself. -/
  | guestLoadCr3 (root : Word)
  | vmExit
  /-- The load at the head of the exit loop and the second `BUG_ON`. -/
  | checkExit
  /-- Compare-exchange that sets the mode bit. -/
  | casExit
  /-- Core `p` loads the flag word. -/
  | load (p : Nat)
  /-- Core `p` swaps a flush request in for the value it loaded. -/
  | casFlush (p : Nat)
  /-- Core `p` swaps a CR3 request in for the value it loaded. -/
  | casCr3 (p : Nat) (root : Word)
  deriving DecidableEq, Repr

/-! ## Steps -/

/-- The entry exchange: the word is emptied, its value stays local. -/
def State.exchange (s : State) : State :=
  { s with
    flag := 0#64
    pc := .entering s.flag
    flushPosted := false
    cr3Posted := none
    flushDue := s.flushPosted
    cr3Due := s.cr3Posted
    synced := false
    cr3Before := s.guestCr3 }

def step (s : State) : Label → Option State
  | .checkEntry =>
      match s.pc with
      | .host => some { s with pc := if inHost s.flag then .exchange else .bug }
      | _ => none
  | .xchg =>
      match s.pc with
      | .exchange => some s.exchange
      | _ => none
  | .incCount =>
      match s.pc with
      | .entering pv =>
          if flushOnReentry pv then
            some { s with fullFlushCount := s.fullFlushCount + 1, pc := .counted pv }
          else some { s with pc := .loading pv }
      | _ => none
  | .vpidSync =>
      match s.pc with
      | .counted pv => some { s with synced := true, pc := .loading pv }
      | _ => none
  | .loadCr3 =>
      match s.pc with
      | .loading pv =>
          if changesCr3 pv then some { s with guestCr3 := newCr3 pv, pc := .ready }
          else some { s with pc := .ready }
      | _ => none
  | .vmEntry =>
      match s.pc with
      | .ready => some { s with pc := .guest }
      | _ => none
  | .guestLoadCr3 root =>
      match s.pc with
      | .guest => some { s with guestCr3 := root }
      | _ => none
  | .vmExit =>
      match s.pc with
      | .guest => some { s with pc := .exiting }
      | _ => none
  | .checkExit =>
      match s.pc with
      | .exiting => some { s with pc := if inHost s.flag then .bug else .exitCas s.flag }
      | _ => none
  | .casExit =>
      match s.pc with
      | .exitCas pv =>
          if s.flag = pv then some { s with flag := setInHost pv, pc := .host }
          else some { s with pc := .exiting }
      | _ => none
  | .load p => some { s with seen := Function.update s.seen p (some s.flag) }
  | .casFlush p =>
      match s.seen p with
      | some v =>
          if s.flag = v then some { s with flag := postFlush v, flushPosted := true }
          else some s
      | none => none
  | .casCr3 p root =>
      match s.seen p with
      | some v =>
          if inHost v = true ∧ PageAligned root then
            if s.flag = v then some { s with flag := postCr3 v root, cr3Posted := some root }
            else some s
          else none
      | none => none

/-- After `vmx_init`: only the mode bit is set, the vCPU has not entered. -/
def system : System State Label where
  init := fun s =>
    s.flag = tlbInHost ∧ s.pc = .host ∧ (∀ p, s.seen p = none) ∧
    s.flushPosted = false ∧ s.cr3Posted = none
  step := step

/-! ## The invariant -/

/-- What the word says about the requests posted since the last exchange. -/
structure Pending (flag : Word) (flushPosted : Bool) (cr3Posted : Option Word) : Prop where
  flush : flushOnReentry flag = flushPosted
  cr3 : changesCr3 flag = cr3Posted.isSome
  root : ∀ r, cr3Posted = some r → newCr3 flag = r

/-- What the loop still owes the requests it took over, by position. -/
def Owed (s : State) : Prop :=
  match s.pc with
  | .entering pv => Pending pv s.flushDue s.cr3Due ∧ s.guestCr3 = s.cr3Before
  | .counted pv => Pending pv s.flushDue s.cr3Due ∧ s.guestCr3 = s.cr3Before
  | .loading pv =>
      Pending pv s.flushDue s.cr3Due ∧ s.guestCr3 = s.cr3Before ∧
      (s.flushDue = true → s.synced = true)
  | .ready =>
      (s.flushDue = true → s.synced = true) ∧
      (∀ r, s.cr3Due = some r → s.guestCr3 = r) ∧
      (s.cr3Due = none → s.guestCr3 = s.cr3Before)
  | _ => True

structure Inv (s : State) : Prop where
  no_bug : s.pc ≠ .bug
  mode : inHost s.flag = !s.pc.inWindow
  exit_seen : ∀ pv, s.pc = .exitCas pv → inHost pv = false
  pending : Pending s.flag s.flushPosted s.cr3Posted
  owed : Owed s

variable {s s' : State} {l : Label}

theorem inv_init (h : system.init s) : Inv s := by
  obtain ⟨hflag, hpc, _, hflush, hcr3⟩ := h
  refine ⟨?_, ?_, ?_, ?_, ?_⟩
  · simp [hpc]
  · rw [hflag, hpc]; decide
  · simp [hpc]
  · rw [hflag, hflush, hcr3]
    exact ⟨by decide, by decide, by simp⟩
  · simp [Owed, hpc]

/-! ### Steps of the host loop -/

theorem pending_zero : Pending 0#64 false none := ⟨by simp, by simp, by simp⟩

theorem inv_checkEntry (hinv : Inv s) (hstep : step s .checkEntry = some s') : Inv s' := by
  obtain ⟨_, hmode, _, hpend, _⟩ := hinv
  cases hpc : s.pc <;> simp [step, hpc] at hstep
  subst hstep
  have hin : inHost s.flag = true := by rw [hmode, hpc]; rfl
  simp only [hin, if_true]
  exact ⟨by simp, by simp [hin, Pc.inWindow], by simp, hpend, by simp [Owed]⟩

theorem inv_xchg (hinv : Inv s) (hstep : step s .xchg = some s') : Inv s' := by
  cases hpc : s.pc <;> simp [step, hpc] at hstep
  subst hstep
  refine ⟨by simp [State.exchange], by simp [State.exchange, Pc.inWindow], ?_, ?_, ?_⟩
  · simp [State.exchange]
  · exact pending_zero
  · exact ⟨hinv.pending, rfl⟩

theorem inv_incCount (hinv : Inv s) (hstep : step s .incCount = some s') : Inv s' := by
  obtain ⟨_, hmode, _, hpend, howed⟩ := hinv
  cases hpc : s.pc <;> simp [step, hpc] at hstep
  rename_i pv
  simp only [Owed, hpc] at howed
  simp only [hpc] at hmode
  split at hstep
  · cases hstep
    exact ⟨by simp, by simpa [Pc.inWindow] using hmode, by simp, hpend, howed⟩
  · rename_i hno
    cases hstep
    refine ⟨by simp, by simpa [Pc.inWindow] using hmode, by simp, hpend, howed.1, howed.2, ?_⟩
    -- Without the request bit no flush was posted.
    intro hdue
    have := howed.1.flush
    simp_all

theorem inv_vpidSync (hinv : Inv s) (hstep : step s .vpidSync = some s') : Inv s' := by
  obtain ⟨_, hmode, _, hpend, howed⟩ := hinv
  cases hpc : s.pc <;> simp [step, hpc] at hstep
  subst hstep
  simp only [Owed, hpc] at howed
  simp only [hpc] at hmode
  exact ⟨by simp, by simpa [Pc.inWindow] using hmode, by simp, hpend,
    howed.1, howed.2, fun _ => rfl⟩

theorem inv_loadCr3 (hinv : Inv s) (hstep : step s .loadCr3 = some s') : Inv s' := by
  obtain ⟨_, hmode, _, hpend, howed⟩ := hinv
  cases hpc : s.pc <;> simp [step, hpc] at hstep
  rename_i pv
  simp only [Owed, hpc] at howed
  simp only [hpc] at hmode
  obtain ⟨hpv, hbefore, hsync⟩ := howed
  split at hstep
  · rename_i hch
    cases hstep
    refine ⟨by simp, by simpa [Pc.inWindow] using hmode, by simp, hpend, hsync, hpv.root, ?_⟩
    intro hnone
    have := hpv.cr3
    simp_all
  · rename_i hch
    cases hstep
    refine ⟨by simp, by simpa [Pc.inWindow] using hmode, by simp, hpend, hsync, ?_, ?_⟩
    · intro r hr
      have := hpv.cr3
      simp_all
    · exact fun _ => hbefore

theorem inv_checkExit (hinv : Inv s) (hstep : step s .checkExit = some s') : Inv s' := by
  obtain ⟨_, hmode, _, hpend, _⟩ := hinv
  cases hpc : s.pc <;> simp [step, hpc] at hstep
  subst hstep
  have hout : inHost s.flag = false := by rw [hmode, hpc]; rfl
  simp only [hout]
  exact ⟨by simp, by simp [hout, Pc.inWindow], by simp [hout], hpend, by simp [Owed]⟩

theorem inv_casExit (hinv : Inv s) (hstep : step s .casExit = some s') : Inv s' := by
  obtain ⟨_, hmode, _, hpend, _⟩ := hinv
  cases hpc : s.pc <;> simp [step, hpc] at hstep
  rename_i pv
  simp only [hpc] at hmode
  split at hstep
  · rename_i heq
    cases hstep
    rw [heq] at hpend
    refine ⟨by simp, by simp [Pc.inWindow], by simp, ?_, by simp [Owed]⟩
    exact ⟨by simpa using hpend.flush, by simpa using hpend.cr3, by simpa using hpend.root⟩
  · cases hstep
    exact ⟨by simp, by simpa [Pc.inWindow] using hmode, by simp, hpend, by simp [Owed]⟩

/-! ### Steps of the posting cores -/

/-- A change of the word that keeps the mode bit keeps the invariant, as
    long as the word goes on telling what was posted. -/
theorem inv_post (hinv : Inv s) {w : Word} {f : Bool} {c : Option Word}
    (hmode : inHost w = inHost s.flag) (hpend : Pending w f c) :
    Inv { s with flag := w, flushPosted := f, cr3Posted := c } :=
  ⟨hinv.no_bug, hmode.trans hinv.mode, hinv.exit_seen, hpend, hinv.owed⟩

theorem inv_casFlush (hinv : Inv s) (p : Nat)
    (hstep : step s (.casFlush p) = some s') : Inv s' := by
  simp only [step] at hstep
  split at hstep
  · rename_i v _
    split at hstep
    · rename_i heq
      cases hstep
      have hpend := hinv.pending
      rw [heq] at hpend
      exact inv_post hinv (by simp [heq])
        ⟨by simp, by simpa using hpend.cr3, by simpa using hpend.root⟩
    · cases hstep; exact hinv
  · cases hstep

theorem inv_casCr3 (hinv : Inv s) (p : Nat) (root : Word)
    (hstep : step s (.casCr3 p root) = some s') : Inv s' := by
  simp only [step] at hstep
  split at hstep
  · rename_i v _
    split at hstep
    · rename_i hok
      split at hstep
      · rename_i heq
        cases hstep
        have hpend := hinv.pending
        rw [heq] at hpend
        refine inv_post hinv (by rw [inHost_postCr3 _ hok.2, heq]) ⟨?_, ?_, ?_⟩
        · rw [flushOnReentry_postCr3 _ hok.2]; exact hpend.flush
        · simp
        · rintro r hr
          cases hr
          exact newCr3_postCr3 v hok.2
      · cases hstep; exact hinv
    · cases hstep
  · cases hstep

theorem inv_step (hinv : Inv s) (hstep : step s l = some s') : Inv s' := by
  cases l with
  | checkEntry => exact inv_checkEntry hinv hstep
  | xchg => exact inv_xchg hinv hstep
  | incCount => exact inv_incCount hinv hstep
  | vpidSync => exact inv_vpidSync hinv hstep
  | loadCr3 => exact inv_loadCr3 hinv hstep
  | vmEntry | guestLoadCr3 root | vmExit =>
    cases hpc : s.pc <;> simp [step, hpc] at hstep
    subst hstep
    have hmode := hinv.mode
    rw [hpc] at hmode
    exact ⟨by simp, by simpa [Pc.inWindow] using hmode, by simp, hinv.pending, by simp [Owed]⟩
  | checkExit => exact inv_checkExit hinv hstep
  | casExit => exact inv_casExit hinv hstep
  | load p =>
    cases hstep
    exact { hinv with }
  | casFlush p => exact inv_casFlush hinv p hstep
  | casCr3 p root => exact inv_casCr3 hinv p root hstep

theorem inv_reachable (h : system.Reachable s) : Inv s :=
  System.invariant (fun _ => inv_init) (fun _ _ _ => inv_step) h

/-! ## The root that guest code runs on next -/

/-- The CR3 request that the next guest code will find carried out. -/
def State.request (s : State) : Option Word :=
  match s.pc with
  | .host | .exchange => s.cr3Posted
  | .entering _ | .counted _ | .loading _ => s.cr3Due
  | _ => none

def State.nextRoot (s : State) : Word := s.request.getD s.guestCr3

/-- The labels that the host loop takes by itself. -/
def hostLoop : Label → Bool
  | .checkEntry | .xchg | .incCount | .vpidSync | .loadCr3 | .vmEntry | .vmExit | .checkExit
  | .casExit => true
  | _ => false

/-- Inside the window no CR3 request is pending. -/
def QuietWindow (s : State) : Prop := s.pc.inWindow = true → s.cr3Posted = none

/-- What a step of the host loop does to the root and its requests. -/
structure HostStep (s s' : State) : Prop where
  quiet : QuietWindow s'
  nextRoot : s'.nextRoot = s.nextRoot
  request : s'.request = s.request ∨ s'.request = none
  guestCr3 : s'.guestCr3 = s.guestCr3 ∨ s.request = some s'.guestCr3

/-- **The host loop keeps the next root**: it only ever replaces the guest
    CR3 by the root that was asked for. -/
theorem hostStep (hinv : Inv s) (hquiet : QuietWindow s)
    (hl : hostLoop l = true) (h : step s l = some s') : HostStep s s' := by
  have howed := hinv.owed
  have hno := (inv_step hinv h).no_bug
  unfold QuietWindow at hquiet
  cases l with
  | checkEntry =>
    cases hpc : s.pc <;> simp [step, hpc] at h
    subst h
    by_cases hin : inHost s.flag = true
    · simp only [hin, if_true]
      exact ⟨by simp [QuietWindow, Pc.inWindow], by simp [State.nextRoot, State.request, hpc],
        by simp [State.request, hpc], by simp⟩
    · simp [hin] at hno
  | xchg =>
    cases hpc : s.pc <;> simp [step, hpc] at h
    subst h
    exact ⟨fun _ => rfl, by simp [State.nextRoot, State.request, State.exchange, hpc],
      by simp [State.request, State.exchange, hpc], by simp [State.exchange]⟩
  | incCount =>
    cases hpc : s.pc <;> simp [step, hpc] at h
    rw [hpc] at hquiet
    split at h <;> cases h <;>
      exact ⟨fun _ => hquiet rfl, by simp [State.nextRoot, State.request, hpc],
        by simp [State.request, hpc], by simp⟩
  | vpidSync =>
    cases hpc : s.pc <;> simp [step, hpc] at h
    rw [hpc] at hquiet
    subst h
    exact ⟨fun _ => hquiet rfl, by simp [State.nextRoot, State.request, hpc],
      by simp [State.request, hpc], by simp⟩
  | loadCr3 =>
    cases hpc : s.pc <;> simp [step, hpc] at h
    rw [hpc] at hquiet
    simp only [Owed, hpc] at howed
    obtain ⟨hpv, _, _⟩ := howed
    split at h <;> cases h
    · -- The bit says that there is a request, and the address is its root.
      rename_i hch
      have hsome := hpv.cr3
      rw [hch] at hsome
      obtain ⟨r, hr⟩ := Option.isSome_iff_exists.1 hsome.symm
      have hroot := hpv.root r hr
      exact ⟨fun _ => hquiet rfl, by simp [State.nextRoot, State.request, hpc, hr, hroot],
        by simp [State.request], by simp [State.request, hpc, hr, hroot]⟩
    · rename_i hch
      have hnone := hpv.cr3
      simp only [Bool.not_eq_true] at hch
      rw [hch] at hnone
      have hdue := Option.isSome_eq_false_iff.1 hnone.symm
      rw [Option.isNone_iff_eq_none] at hdue
      exact ⟨fun _ => hquiet rfl, by simp [State.nextRoot, State.request, hpc, hdue],
        by simp [State.request], by simp⟩
  | vmEntry | vmExit =>
    cases hpc : s.pc <;> simp [step, hpc] at h
    rw [hpc] at hquiet
    subst h
    exact ⟨fun _ => hquiet rfl, by simp [State.nextRoot, State.request, hpc],
      by simp [State.request], by simp⟩
  | checkExit =>
    cases hpc : s.pc <;> simp [step, hpc] at h
    rw [hpc] at hquiet
    subst h
    by_cases hin : inHost s.flag = true
    · simp [hin] at hno
    · simp only [hin]
      exact ⟨fun _ => hquiet rfl, by simp [State.nextRoot, State.request, hpc],
        by simp [State.request], by simp⟩
  | casExit =>
    cases hpc : s.pc <;> simp [step, hpc] at h
    rw [hpc] at hquiet
    split at h <;> cases h
    · have hnone := hquiet rfl
      exact ⟨fun _ => hnone, by simp [State.nextRoot, State.request, hpc, hnone],
        by simp [State.request, hnone], by simp⟩
    · exact ⟨fun _ => hquiet rfl, by simp [State.nextRoot, State.request, hpc],
        by simp [State.request], by simp⟩
  | guestLoadCr3 _ | load _ | casFlush _ | casCr3 _ _ => cases hl

/-- A core whose flag word follows the protocol. -/
structure CoreOk (s : State) : Prop where
  inv : Inv s
  quiet : QuietWindow s

theorem CoreOk.hostLoop (h : CoreOk s) (hl : hostLoop l = true)
    (hs : step s l = some s') : CoreOk s' :=
  ⟨inv_step h.inv hs, (hostStep h.inv h.quiet hl hs).quiet⟩

theorem CoreOk.postFlush (h : CoreOk s) :
    CoreOk { s with flag := Pv.postFlush s.flag, flushPosted := true } := by
  refine ⟨inv_post h.inv (by simp) ⟨by simp, ?_, ?_⟩, h.quiet⟩
  · simpa using h.inv.pending.cr3
  · simpa using h.inv.pending.root

/-- A CR3 request that is swapped in while the core is in the host decides
    which root the core runs on next. -/
theorem CoreOk.postCr3 {root : Word} (h : CoreOk s) (hin : inHost s.flag = true)
    (hroot : PageAligned root) :
    let t := { s with flag := Pv.postCr3 s.flag root, cr3Posted := some root }
    CoreOk t ∧ t.request = some root := by
  have hmode := h.inv.mode
  rw [hin] at hmode
  have hout : s.pc.inWindow = false := by simpa using hmode.symm
  refine ⟨⟨inv_post h.inv (inHost_postCr3 _ hroot) ⟨?_, by simp, ?_⟩, ?_⟩, ?_⟩
  · rw [flushOnReentry_postCr3 _ hroot]
    exact h.inv.pending.flush
  · rintro r hr
    cases hr
    exact newCr3_postCr3 _ hroot
  · intro hw
    change s.pc.inWindow = true at hw
    rw [hout] at hw
    cases hw
  · rcases Pc.host_or_exchange hout h.inv.no_bug with hpc | hpc
    · simp [State.request, hpc]
    · simp [State.request, hpc]

/-- A CR3 request waits in the word, or in what the entry path took out of it. -/
def State.cr3Requested (s : State) : Bool :=
  match s.pc with
  | .entering pv | .counted pv | .loading pv => changesCr3 pv
  | _ => changesCr3 s.flag

theorem CoreOk.request_none (h : CoreOk s) (hno : s.cr3Requested = false) :
    s.request = none := by
  have howed := h.inv.owed
  have hposted : changesCr3 s.flag = false → s.cr3Posted = none := by
    intro hflag
    have hpend := h.inv.pending.cr3
    rw [hflag] at hpend
    simpa using hpend.symm
  have hdue : ∀ pv, Pending pv s.flushDue s.cr3Due → changesCr3 pv = false → s.cr3Due = none := by
    intro pv hpv hflag
    have hpend := hpv.cr3
    rw [hflag] at hpend
    simpa using hpend.symm
  cases hpc : s.pc with
  | host | exchange =>
    simp only [State.cr3Requested, hpc] at hno
    simpa only [State.request, hpc] using hposted hno
  | entering pv | counted pv | loading pv =>
    simp only [State.cr3Requested, hpc] at hno
    simp only [Owed, hpc] at howed
    simpa only [State.request, hpc] using hdue pv howed.1 hno
  | ready | guest | exiting | exitCas pv | bug => simp only [State.request, hpc]

/-- The root that the entry path is about to load was asked for. -/
theorem CoreOk.request_loading (h : CoreOk s) {pv : Word} (hpc : s.pc = .loading pv)
    (hch : changesCr3 pv = true) : s.request = some (newCr3 pv) := by
  have howed := h.inv.owed
  simp only [Owed, hpc] at howed
  have hsome := howed.1.cr3
  rw [hch] at hsome
  obtain ⟨r, hr⟩ := Option.isSome_iff_exists.1 hsome.symm
  rw [howed.1.root r hr]
  simp [State.request, hpc, hr]

/-- The guest loads CR3 by itself. -/
theorem CoreOk.load {root : Word} (h : CoreOk s) (hpc : s.pc = .guest) :
    CoreOk { s with guestCr3 := root } := by
  exact ⟨inv_step h.inv (l := .guestLoadCr3 root) (by simp [step, hpc]), h.quiet⟩

theorem request_guest (hpc : s.pc = .guest) : s.request = none := by
  simp [State.request, hpc]

theorem coreOk_init (h : system.init s) : CoreOk s :=
  ⟨inv_init h, fun _ => h.2.2.2.2⟩

/-! ## Flush requests on their way -/

/-- A full flush comes before guest code runs again: it was asked for while
    the vCPU is outside the window, or the entry path is about to do it. -/
def State.flushAhead (s : State) : Bool :=
  match s.pc with
  | .host | .exchange => flushOnReentry s.flag
  | .entering pv => flushOnReentry pv
  | .counted _ => true
  | _ => false

/-- A flush request seen next to the mode bit comes before guest code. -/
theorem Inv.flushAhead (hinv : Inv s) (hin : inHost s.flag = true)
    (hflush : flushOnReentry s.flag = true) : s.flushAhead = true := by
  have hmode := hinv.mode
  rw [hin] at hmode
  have hout : s.pc.inWindow = false := by simpa using hmode.symm
  rcases Pc.host_or_exchange hout hinv.no_bug with hpc | hpc
  · simp [State.flushAhead, hpc, hflush]
  · simp [State.flushAhead, hpc, hflush]

theorem flushAhead_post (h : s.flushAhead = true) :
    { s with flag := postFlush s.flag, flushPosted := true }.flushAhead = true := by
  unfold State.flushAhead at h ⊢
  cases hpc : s.pc <;> simp_all

/-- What a step of the host loop does to a flush that is ahead. -/
structure FlushStep (s s' : State) (l : Label) : Prop where
  /-- Only the flush itself ends it. -/
  ahead : s.flushAhead = true → l ≠ .vpidSync → s'.flushAhead = true
  /-- The count changes only when a flush is about to be done. -/
  count : s'.fullFlushCount = s.fullFlushCount ∨ s'.flushAhead = true

theorem flushStep (hinv : Inv s) (hl : hostLoop l = true)
    (h : step s l = some s') : FlushStep s s' l := by
  have hno := (inv_step hinv h).no_bug
  cases l with
  | checkEntry =>
    cases hpc : s.pc <;> simp [step, hpc] at h
    subst h
    by_cases hin : inHost s.flag = true
    · exact ⟨by simp [State.flushAhead, hpc, hin], .inl rfl⟩
    · simp [hin] at hno
  | xchg =>
    cases hpc : s.pc <;> simp [step, hpc] at h
    subst h
    exact ⟨by simp [State.flushAhead, hpc, State.exchange], .inl rfl⟩
  | incCount =>
    cases hpc : s.pc <;> simp [step, hpc] at h
    split at h
    · cases h
      exact ⟨fun _ _ => rfl, .inr rfl⟩
    · rename_i hflush
      cases h
      exact ⟨by simp [State.flushAhead, hpc, hflush], .inl rfl⟩
  | vpidSync =>
    cases hpc : s.pc <;> simp [step, hpc] at h
    subst h
    exact ⟨fun _ hne => absurd rfl hne, .inl rfl⟩
  | loadCr3 | casExit =>
    cases hpc : s.pc <;> simp [step, hpc] at h
    split at h <;> cases h
    · exact ⟨by simp [State.flushAhead, hpc], .inl rfl⟩
    · exact ⟨by simp [State.flushAhead, hpc], .inl rfl⟩
  | vmEntry | vmExit | checkExit =>
    cases hpc : s.pc <;> simp [step, hpc] at h
    subst h
    exact ⟨by simp [State.flushAhead, hpc], .inl rfl⟩
  | guestLoadCr3 _ | load _ | casFlush _ | casCr3 _ _ => cases hl

/-! ## The protocol -/

/-- The paravirtual flag protocol in one state. -/
structure FlagProtocol (s : State) : Prop where
  /-- The mode bit is set exactly outside the window. -/
  mode : inHost s.flag = true ↔ s.pc.inWindow = false
  /-- Neither `BUG_ON` fires. -/
  no_bug : s.pc ≠ .bug
  /-- A request posted since the last exchange is still in the word, and
      of several CR3 requests it is the last one. -/
  flush_kept : s.flushPosted = true → flushOnReentry s.flag = true
  cr3_kept : ∀ r, s.cr3Posted = some r → changesCr3 s.flag = true ∧ newCr3 s.flag = r
  /-- The exchange takes over every request posted since the one before. -/
  taken : ∀ s', step s .xchg = some s' → s'.flushDue = s.flushPosted ∧ s'.cr3Due = s.cr3Posted
  /-- Before guest code runs again, the requests taken over have been
      carried out, and CR3 has changed only where one asked for it. -/
  flush_done : s.pc = .ready → s.flushDue = true → s.synced = true
  cr3_done : s.pc = .ready → ∀ r, s.cr3Due = some r → s.guestCr3 = r
  cr3_only : s.pc = .ready → s.cr3Due = none → s.guestCr3 = s.cr3Before
  /-- A CR3 request is swapped in only while the mode bit is set. -/
  cr3_in_host : ∀ p root s', step s (.casCr3 p root) = some s' → s.seen p = some s.flag →
    inHost s.flag = true ∧ s.pc.inWindow = false

theorem flagProtocol_of_inv (hinv : Inv s) : FlagProtocol s where
  mode := by rw [hinv.mode]; simp
  no_bug := hinv.no_bug
  flush_kept := fun h => hinv.pending.flush.trans h
  cr3_kept := fun r hr => ⟨by rw [hinv.pending.cr3, hr]; rfl, hinv.pending.root r hr⟩
  taken := fun s' hstep => by
    cases hpc : s.pc <;> simp [step, hpc] at hstep
    subst hstep
    exact ⟨rfl, rfl⟩
  flush_done := fun hpc => by
    have h := hinv.owed
    simp only [Owed, hpc] at h
    exact h.1
  cr3_done := fun hpc => by
    have h := hinv.owed
    simp only [Owed, hpc] at h
    exact h.2.1
  cr3_only := fun hpc => by
    have h := hinv.owed
    simp only [Owed, hpc] at h
    exact h.2.2
  cr3_in_host := fun p root s' hstep hseen => by
    simp only [step, hseen] at hstep
    split at hstep
    · rename_i hok
      have hmode := hinv.mode
      rw [hok.1] at hmode
      exact ⟨hok.1, by simpa using hmode.symm⟩
    · cases hstep

/-- **Paravirtual flag protocol.** In every interleaving of posting cores
    with the host loop the mode bit tells whether the vCPU is outside the
    window, no `BUG_ON` fires, and every request whose compare-and-swap
    succeeded is carried out at the next entry. -/
theorem flag_protocol (h : system.Reachable s) : FlagProtocol s :=
  flagProtocol_of_inv (inv_reachable h)

/-- The core right after `vmx_init`. -/
def boot : State where
  flag := tlbInHost
  fullFlushCount := 0
  guestCr3 := 0x1000#64
  pc := .host
  seen := fun _ => none
  flushPosted := false
  cr3Posted := none
  flushDue := false
  cr3Due := none
  synced := false
  cr3Before := 0x1000#64

/-- A flush and two CR3 requests before an entry. -/
def twoRoots : List Label :=
  [.load 1, .casFlush 1, .load 2, .casCr3 2 0x5000#64, .load 3, .casCr3 3 0x6000#64,
    .checkEntry, .xchg, .incCount, .vpidSync, .loadCr3]

/-- After `twoRoots` the protocol holds, with the second root loaded. -/
theorem flag_protocol_two_roots :
    ∃ s, system.exec boot twoRoots = some s ∧
      (s.pc = .ready ∧ s.synced = true ∧ s.guestCr3 = 0x6000#64) ∧ FlagProtocol s := by
  refine system.exists_exec_of _ (by decide) fun s hexec hend => ⟨hend, ?_⟩
  have hinit : system.init boot := ⟨rfl, rfl, fun _ => rfl, rfl, rfl⟩
  exact flag_protocol (System.reachable_of_exec hinit hexec)

end VmxLaunch
