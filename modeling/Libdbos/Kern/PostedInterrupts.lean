import Libdbos.Framework.System
import Libdbos.Kern.QueuedInterrupts

/-! # Posted Interrupts

    Senders run `dune_apic_send_posted_ipi` of `libdune/apic.c`: they set a
    request bit in the descriptor of the destination core, then the bit that
    says that a notification is outstanding, and send the notification if
    they were the first to set both. Cores run the loop of `vmx_launch`,
    which takes requests out of the descriptor before it enters the guest,
    and the hardware does the same when a notification reaches the core in
    guest mode. Every atomic access to a descriptor is one step.

    vCPUs are pinned, so a core has one descriptor, and destinations have an
    entry in the routing table, so a notification reaches its core. Several
    notifications may be merged on their way. In the host they are taken
    while interrupts are enabled, without effect.

    No request is lost (`requests_accounted`).
-/

open LTS

namespace PostedIntr

/-! ## State -/

/-- Positions of a core. `drain i vectors`: the words below `i` have been
    exchanged, and are in `vectors`. -/
inductive CorePc where
  /-- In the host, interrupts enabled. -/
  | host
  /-- Interrupts disabled, before `vmx_handle_queued_interrupts`. -/
  | irqOff
  | drain (i : Nat) (vectors : Nat → Word)
  /-- About to enter the guest. -/
  | entry
  | guest
  /-- The hardware has cleared the outstanding bit. -/
  | posting
  /-- Out of the guest, interrupts not enabled yet. -/
  | exited

structure Core where
  desc : Desc
  vcpu : Vcpu
  pc : CorePc
  /-- Notifications that have been sent and not been taken. -/
  notifications : Nat

/-- Positions in `dune_apic_send_posted_ipi`, with the destination. -/
inductive SenderPc where
  | idle
  /-- The request bit is set. -/
  | setOutstanding (dest : Nat)
  | send (dest : Nat)
  deriving DecidableEq, Repr

structure State where
  core : Nat → Core
  sender : Nat → SenderPc

inductive Label where
  /-- Sender `k` posts `vector` to core `dest`. -/
  | post (k : Nat) (vector : BitVec 8) (dest : Nat)
  | sender (k : Nat)
  /-- Two notifications become one. -/
  | merge (c : Nat)
  /-- A notification is taken. -/
  | notify (c : Nat)
  /-- The next step of the host loop, or of the hardware. -/
  | core (c : Nat)
  /-- The host does not enter the guest, but is rescheduled or returns. -/
  | leave (c : Nat)
  | exit (c : Nat)
  /-- Guest code uses its virtual APIC. -/
  | guest (c : Nat) (vcpu : Vcpu)

/-! ## Steps -/

/-- Set request bit `v`. -/
def Desc.post (d : Desc) (v : Nat) : Desc :=
  { d with vectors := Function.update d.vectors (v / 64) (d.vectors (v / 64) ||| Word.bit (v % 64)) }

/-- The outstanding bit. -/
def Desc.outstanding (d : Desc) : Bool := getBit d.extra 0

def Desc.setOutstanding (d : Desc) : Desc := { d with extra := d.extra ||| Word.bit 0 }

def Desc.clearOutstanding (d : Desc) : Desc := { d with extra := d.extra &&& ~~~Word.bit 0 }

/-- What the host does with the vectors that it has taken. -/
def Vcpu.inject (vcpu : Vcpu) (vectors : Nat → Word) : Vcpu :=
  let rvi := (vcpu.guestIntrStatus &&& 0xFF#16).toNat
  let l := Loop.words ⟨rvi, vcpu.vapicPage, vcpu.queuedInterrupts⟩ vectors
  ⟨vcpu.guestIntrStatus ||| BitVec.ofNat 16 l.rvi, l.vapicPage, l.queuedInterrupts⟩

/-- What the hardware does: it replaces RVI. -/
def Vcpu.post (vcpu : Vcpu) (vectors : Nat → Word) : Vcpu :=
  let rvi := (vcpu.guestIntrStatus &&& 0xFF#16).toNat
  let l := Loop.words ⟨rvi, vcpu.vapicPage, vcpu.queuedInterrupts⟩ vectors
  { vcpu with
    guestIntrStatus := (vcpu.guestIntrStatus &&& 0xFF00#16) ||| BitVec.ofNat 16 l.rvi
    vapicPage := l.vapicPage }

/-- A step of the core: of `vmx_launch` and `vmx_handle_queued_interrupts` in
    the host, of the hardware in the guest. -/
def coreStep (x : Core) : Option Core :=
  match x.pc with
  | .host => some { x with pc := .irqOff }
  | .irqOff =>
      some { x with
        desc := { x.desc with extra := 0#64 }
        pc := if x.desc.outstanding then .drain 0 (fun _ => 0#64) else .entry }
  | .drain i vectors =>
      if i < 4 then
        some { x with
          desc := { x.desc with vectors := Function.update x.desc.vectors i 0#64 }
          pc := .drain (i + 1) (Function.update vectors i (x.desc.vectors i)) }
      else some { x with vcpu := x.vcpu.inject vectors, pc := .entry }
  | .entry => some { x with pc := .guest }
  | .guest => none
  | .posting =>
      some { x with
        desc := { x.desc with vectors := fun i => if i < 4 then 0#64 else x.desc.vectors i }
        vcpu := x.vcpu.post x.desc.vectors
        pc := .guest }
  | .exited => some { x with pc := .host }

/-- A notification is taken by the host, without effect, or in guest mode. -/
def takeNotification (x : Core) : Option Core :=
  if x.notifications = 0 then none
  else match x.pc with
    | .host => some { x with notifications := x.notifications - 1 }
    | .guest =>
        some { x with
          notifications := x.notifications - 1
          desc := x.desc.clearOutstanding
          pc := .posting }
    | _ => none

section Steps

variable (s : State)

def State.setCore (c : Nat) (x : Core) : State := { s with core := Function.update s.core c x }

def State.setDesc (c : Nat) (d : Desc) : State := s.setCore c { s.core c with desc := d }

def State.setSender (k : Nat) (pc : SenderPc) : State :=
  { s with sender := Function.update s.sender k pc }

/-- A step of `dune_apic_send_posted_ipi` after the first. -/
def senderStep (k : Nat) : Option State :=
  match s.sender k with
  | .idle => none
  | .setOutstanding c =>
      some ((s.setDesc c (s.core c).desc.setOutstanding).setSender k
        (if (s.core c).desc.outstanding then .idle else .send c))
  | .send c =>
      some ((s.setCore c { s.core c with notifications := (s.core c).notifications + 1 }).setSender k
        .idle)

def step : Label → Option State
  | .post k vector c =>
      match s.sender k with
      | .idle =>
          some ((s.setDesc c ((s.core c).desc.post vector.toNat)).setSender k
            (if requested (s.core c).desc.vectors vector.toNat then .idle else .setOutstanding c))
      | _ => none
  | .sender k => senderStep s k
  | .merge c =>
      if (s.core c).notifications < 2 then none
      else some (s.setCore c { s.core c with notifications := (s.core c).notifications - 1 })
  | .notify c => (takeNotification (s.core c)).map (s.setCore c)
  | .core c => (coreStep (s.core c)).map (s.setCore c)
  | .leave c =>
      match (s.core c).pc with
      | .irqOff => some (s.setCore c { s.core c with pc := .host })
      | _ => none
  | .exit c =>
      match (s.core c).pc with
      | .guest => some (s.setCore c { s.core c with pc := .exited })
      | _ => none
  | .guest c vcpu =>
      match (s.core c).pc with
      | .guest => some (s.setCore c { s.core c with vcpu := vcpu })
      | _ => none

end Steps

/-- Empty descriptors, and all cores in the host. -/
structure Init (s : State) : Prop where
  vectors : ∀ c i, (s.core c).desc.vectors i = 0#64
  extra : ∀ c, (s.core c).desc.extra = 0#64
  pc : ∀ c, (s.core c).pc = .host
  sender : ∀ k, s.sender k = .idle

def system : System State Label where
  init := Init
  step := step

/-! ## Descriptors -/

section Descriptors

variable {d : Desc} {v x i : Nat}

theorem requested_post :
    requested (d.post v).vectors x = (requested d.vectors x || decide (x = v)) := by
  unfold requested Desc.post
  by_cases hw : x / 64 = v / 64
  · have hbit : (decide (x % 64 = v % 64) : Bool) = decide (x = v) := by
      rw [decide_eq_decide]
      omega
    rw [hw]
    simp only [Function.update_self]
    rw [BitVec.getLsbD_or, Word.getLsbD_bit _ _ (Nat.mod_lt _ (by decide)), hbit]
  · have hne : x ≠ v := by
      intro h
      exact hw (by rw [h])
    simp only [Function.update_of_ne hw]
    simp [hne]

theorem requested_exchange (h : requested (Function.update d.vectors i 0#64) x = true) :
    x / 64 ≠ i ∧ requested d.vectors x = true := by
  unfold requested at h ⊢
  by_cases hi : x / 64 = i
  · subst hi
    simp at h
  · rw [Function.update_of_ne hi] at h
    exact ⟨hi, h⟩

theorem outstanding_eq : d.outstanding = d.extra.getLsbD 0 := getBit_eq _ (by decide)

@[simp] theorem outstanding_set : d.setOutstanding.outstanding = true := by
  rw [outstanding_eq, Desc.setOutstanding, BitVec.getLsbD_or, Word.getLsbD_bit _ _ (by decide)]
  simp

@[simp] theorem outstanding_clear : d.clearOutstanding.outstanding = false := by
  rw [outstanding_eq, Desc.clearOutstanding, BitVec.getLsbD_and, BitVec.getLsbD_not,
    Word.getLsbD_bit _ _ (by decide)]
  simp

end Descriptors

/-! ## Invariant -/

/-- The core will drain its descriptor before it enters the guest. -/
def CorePc.beforeDrain : CorePc → Bool
  | .host | .irqOff | .exited => true
  | _ => false

/-- A drain that will still take vector `v` is in progress. -/
def CorePc.collects (v : Nat) : CorePc → Bool
  | .drain i _ => decide (i ≤ v / 64)
  | .posting => true
  | _ => false

/-- Who will take care of a request, and of the outstanding bit. -/
structure Inv (s : State) : Prop where
  request : ∀ c v, v < 256 → requested (s.core c).desc.vectors v = true →
    (∃ k, s.sender k = .setOutstanding c) ∨ (s.core c).pc.collects v = true ∨
      (s.core c).desc.outstanding = true
  outstanding : ∀ c, (s.core c).desc.outstanding = true →
    (∃ k, s.sender k = .send c) ∨ (s.core c).pc.beforeDrain = true ∨
      0 < (s.core c).notifications

variable {s s' : State} {x x' : Core} {c k : Nat}

theorem inv_init (h : Init s) : Inv s where
  request c v _ hreq := by
    rw [requested, h.vectors c] at hreq
    simp at hreq
  outstanding c hon := by
    rw [outstanding_eq, h.extra c] at hon
    simp at hon

/-- A step of core `c` alone. -/
theorem Inv.setCore (hs : Inv s)
    (hreq : ∀ v, v < 256 → requested x.desc.vectors v = true →
      (∃ k, s.sender k = .setOutstanding c) ∨ x.pc.collects v = true ∨
        x.desc.outstanding = true)
    (hon : x.desc.outstanding = true →
      (∃ k, s.sender k = .send c) ∨ x.pc.beforeDrain = true ∨ 0 < x.notifications) :
    Inv (s.setCore c x) := by
  constructor
  · intro j v hv hr
    by_cases hj : j = c
    · subst hj
      simp only [State.setCore, Function.update_self] at hr ⊢
      exact hreq v hv hr
    · simp only [State.setCore, Function.update_of_ne hj] at hr ⊢
      exact hs.request j v hv hr
  · intro j ho
    by_cases hj : j = c
    · subst hj
      simp only [State.setCore, Function.update_self] at ho ⊢
      exact hon ho
    · simp only [State.setCore, Function.update_of_ne hj] at ho ⊢
      exact hs.outstanding j ho

/-- Where no drain comes first, a notification does. -/
theorem Inv.notified (hs : Inv s) (hpc : (s.core c).pc.beforeDrain = false)
    (hon : (s.core c).desc.outstanding = true) {b : Prop} :
    (∃ k, s.sender k = .send c) ∨ b ∨ 0 < (s.core c).notifications := by
  rcases hs.outstanding c hon with hk | hb | hn
  · exact .inl hk
  · rw [hpc] at hb
    cases hb
  · exact .inr (.inr hn)

theorem coreStep_inv (hs : Inv s) (h : coreStep (s.core c) = some x') : Inv (s.setCore c x') := by
  have hreq := hs.request c
  have hon := hs.outstanding c
  unfold coreStep at h
  cases hpc : (s.core c).pc with
  | host | exited =>
    simp only [hpc, Option.some.injEq] at h
    subst h
    exact hs.setCore (by simpa [hpc, CorePc.collects] using hreq) fun _ => .inr (.inl rfl)
  | irqOff =>
    simp only [hpc, Option.some.injEq] at h
    subst h
    refine hs.setCore ?_ ?_
    · intro v hv hr
      rcases hreq v hv hr with hk | hcollects | ho
      · exact .inl hk
      · rw [hpc] at hcollects
        cases hcollects
      · -- The drain begins with the first word.
        refine .inr (.inl ?_)
        simp [ho, CorePc.collects]
    · intro ho
      rw [outstanding_eq] at ho
      simp at ho
  | drain i vectors =>
    simp only [hpc] at h
    split at h
    · cases h
      refine hs.setCore ?_ ?_
      · intro v hv hr
        obtain ⟨hword, hr⟩ := requested_exchange hr
        rcases hreq v hv hr with hk | hcollects | ho
        · exact .inl hk
        · rw [hpc] at hcollects
          have hle : i ≤ v / 64 := of_decide_eq_true hcollects
          exact .inr (.inl (decide_eq_true (show i + 1 ≤ v / 64 by omega)))
        · exact .inr (.inr ho)
      · exact fun ho => hs.notified (by rw [hpc]; rfl) ho
    · rename_i hi
      cases h
      refine hs.setCore ?_ ?_
      · intro v hv hr
        rcases hreq v hv hr with hk | hcollects | ho
        · exact .inl hk
        · rw [hpc] at hcollects
          have hle : i ≤ v / 64 := of_decide_eq_true hcollects
          omega
        · exact .inr (.inr ho)
      · exact fun ho => hs.notified (by rw [hpc]; rfl) ho
  | entry =>
    simp only [hpc, Option.some.injEq] at h
    subst h
    exact hs.setCore (by simpa [hpc, CorePc.collects] using hreq)
      (by simpa [hpc, CorePc.beforeDrain] using hon)
  | guest => simp [hpc] at h
  | posting =>
    simp only [hpc, Option.some.injEq] at h
    subst h
    refine hs.setCore ?_ ?_
    · intro v hv hr
      have hi : v / 64 < 4 := by omega
      simp [requested, hi] at hr
    · exact fun ho => hs.notified (by rw [hpc]; rfl) ho

theorem takeNotification_inv (hs : Inv s) (h : takeNotification (s.core c) = some x') :
    Inv (s.setCore c x') := by
  have hreq := hs.request c
  unfold takeNotification at h
  split at h
  · cases h
  · cases hpc : (s.core c).pc with
    | host =>
      simp only [hpc, Option.some.injEq] at h
      subst h
      refine hs.setCore ?_ fun _ => .inr (.inl ?_)
      · simpa [hpc] using hreq
      · simp [CorePc.beforeDrain]
    | guest =>
      simp only [hpc, Option.some.injEq] at h
      subst h
      exact hs.setCore (fun _ _ _ => .inr (.inl rfl)) fun ho => by simp at ho
    | _ => simp [hpc] at h

/-- A step of sender `k`, which has to do with core `c` only. -/
theorem Inv.sender {pc : SenderPc} (hs : Inv s)
    (hother : ∀ c', c' ≠ c → s.sender k ≠ .setOutstanding c' ∧ s.sender k ≠ .send c')
    (hreq : ∀ v, v < 256 → requested x.desc.vectors v = true →
      (∃ j, j ≠ k ∧ s.sender j = .setOutstanding c) ∨ pc = .setOutstanding c ∨
        x.pc.collects v = true ∨ x.desc.outstanding = true)
    (hon : x.desc.outstanding = true → (∃ j, j ≠ k ∧ s.sender j = .send c) ∨ pc = .send c ∨
      x.pc.beforeDrain = true ∨ 0 < x.notifications) :
    Inv ((s.setCore c x).setSender k pc) := by
  have hkeep : ∀ {j q}, j ≠ k → s.sender j = q →
      ((s.setCore c x).setSender k pc).sender j = q := by
    intro j q hj hq
    rw [← hq]
    exact Function.update_of_ne hj ..
  have hself : ((s.setCore c x).setSender k pc).sender k = pc := Function.update_self ..
  constructor
  · intro c' v hv hr
    by_cases hc : c' = c
    · subst hc
      simp only [State.setSender, State.setCore, Function.update_self] at hr
      have hcore : ((s.setCore c' x).setSender k pc).core c' = x := Function.update_self ..
      rw [hcore]
      rcases hreq v hv hr with ⟨j, hj, hq⟩ | hpc | hrest
      · exact .inl ⟨j, hkeep hj hq⟩
      · exact .inl ⟨k, hself.trans hpc⟩
      · exact .inr hrest
    · have hcore : ((s.setCore c x).setSender k pc).core c' = s.core c' :=
        Function.update_of_ne hc ..
      rw [hcore] at hr ⊢
      rcases hs.request c' v hv hr with ⟨j, hq⟩ | hrest
      · refine .inl ⟨j, hkeep ?_ hq⟩
        rintro rfl
        exact (hother c' hc).1 hq
      · exact .inr hrest
  · intro c' ho
    by_cases hc : c' = c
    · subst hc
      have hcore : ((s.setCore c' x).setSender k pc).core c' = x := Function.update_self ..
      rw [hcore] at ho ⊢
      rcases hon ho with ⟨j, hj, hq⟩ | hpc | hrest
      · exact .inl ⟨j, hkeep hj hq⟩
      · exact .inl ⟨k, hself.trans hpc⟩
      · exact .inr hrest
    · have hcore : ((s.setCore c x).setSender k pc).core c' = s.core c' :=
        Function.update_of_ne hc ..
      rw [hcore] at ho ⊢
      rcases hs.outstanding c' ho with ⟨j, hq⟩ | hrest
      · refine .inl ⟨j, hkeep ?_ hq⟩
        rintro rfl
        exact (hother c' hc).2 hq
      · exact .inr hrest

theorem post_inv {vector : BitVec 8} (hs : Inv s) (hidle : s.sender k = .idle) :
    Inv ((s.setDesc c ((s.core c).desc.post vector.toNat)).setSender k
      (if requested (s.core c).desc.vectors vector.toNat then .idle else .setOutstanding c)) := by
  refine hs.sender (by simp [hidle]) ?_ ?_
  · intro v hv hr
    have hold : requested (s.core c).desc.vectors v = true →
        (∃ j, j ≠ k ∧ s.sender j = .setOutstanding c) ∨ (s.core c).pc.collects v = true ∨
          (s.core c).desc.outstanding = true := by
      intro hr
      rcases hs.request c v hv hr with ⟨j, hj⟩ | hrest
      · refine .inl ⟨j, ?_, hj⟩
        rintro rfl
        rw [hidle] at hj
        cases hj
      · exact .inr hrest
    simp only [requested_post, Bool.or_eq_true, decide_eq_true_eq] at hr
    split
    · rename_i hset
      rcases hold (hr.elim id fun heq => heq ▸ hset) with hj | hrest
      · exact .inl hj
      · exact .inr (.inr hrest)
    · exact .inr (.inl rfl)
  · intro ho
    rcases hs.outstanding c ho with ⟨j, hj⟩ | hrest
    · refine .inl ⟨j, ?_, hj⟩
      rintro rfl
      rw [hidle] at hj
      cases hj
    · exact .inr (.inr hrest)

theorem senderStep_inv (hs : Inv s) (h : senderStep s k = some s') : Inv s' := by
  unfold senderStep at h
  cases hpc : s.sender k with
  | idle => simp [hpc] at h
  | setOutstanding c =>
    simp only [hpc, Option.some.injEq] at h
    subst h
    refine hs.sender ?_ (fun _ _ _ => .inr (.inr (.inr outstanding_set))) ?_
    · intro c' hc
      rw [hpc]
      simp [Ne.symm hc]
    · intro _
      split
      · rename_i ho
        rcases hs.outstanding c ho with ⟨j, hj⟩ | hrest
        · refine .inl ⟨j, ?_, hj⟩
          rintro rfl
          rw [hpc] at hj
          cases hj
        · exact .inr (.inr hrest)
      · exact .inr (.inl rfl)
  | send c =>
    simp only [hpc, Option.some.injEq] at h
    subst h
    refine hs.sender ?_ ?_ fun _ => .inr (.inr (.inr (Nat.succ_pos _)))
    · intro c' hc
      rw [hpc]
      simp [Ne.symm hc]
    · intro v hv hr
      rcases hs.request c v hv hr with ⟨j, hj⟩ | hrest
      · refine .inl ⟨j, ?_, hj⟩
        rintro rfl
        rw [hpc] at hj
        cases hj
      · exact .inr (.inr hrest)

theorem step_inv {l : Label} (hs : Inv s) (hstep : step s l = some s') : Inv s' := by
  cases l with
  | post k vector c =>
    simp only [step] at hstep
    split at hstep
    · rename_i hidle
      cases hstep
      exact post_inv hs hidle
    · cases hstep
  | sender k => exact senderStep_inv hs hstep
  | merge c =>
    simp only [step] at hstep
    split at hstep
    · cases hstep
    · rename_i hmany
      cases hstep
      refine hs.setCore (hs.request c) fun _ => .inr (.inr ?_)
      simp only
      omega
  | notify c =>
    simp only [step, Option.map_eq_some_iff] at hstep
    obtain ⟨x, hx, rfl⟩ := hstep
    exact takeNotification_inv hs hx
  | core c =>
    simp only [step, Option.map_eq_some_iff] at hstep
    obtain ⟨x, hx, rfl⟩ := hstep
    exact coreStep_inv hs hx
  | leave c | exit c =>
    simp only [step] at hstep
    split at hstep
    · rename_i hpc
      cases hstep
      exact hs.setCore (by simpa [hpc, CorePc.collects] using hs.request c)
        fun _ => .inr (.inl rfl)
    · cases hstep
  | guest c vcpu =>
    simp only [step] at hstep
    split at hstep
    · cases hstep
      exact hs.setCore (hs.request c) (hs.outstanding c)
    · cases hstep

/-- **No posted interrupt is lost**: for every request bit that is set, a
    sender to this core has not notified it yet, or a drain that will take
    the bit is in progress, or the outstanding bit is set, and the core
    drains its descriptor before it enters the guest or a notification is on
    its way. -/
theorem requests_accounted (h : system.Reachable s) {v : Nat} (hv : v < 256)
    (hreq : requested (s.core c).desc.vectors v = true) :
    (∃ k, s.sender k = .setOutstanding c ∨ s.sender k = .send c) ∨
    (s.core c).pc.collects v = true ∨
    ((s.core c).desc.outstanding = true ∧
      ((s.core c).pc.beforeDrain = true ∨ 0 < (s.core c).notifications)) := by
  have hs : Inv s := System.invariant (fun _ => inv_init) (fun _ _ _ => step_inv) h
  rcases hs.request c v hv hreq with ⟨k, hk⟩ | hcollects | ho
  · exact .inl ⟨k, .inl hk⟩
  · exact .inr (.inl hcollects)
  · rcases hs.outstanding c ho with ⟨k, hk⟩ | hrest
    · exact .inl ⟨k, .inr hk⟩
    · exact .inr (.inr ⟨ho, hrest⟩)

/-- All cores in the host, and empty descriptors. -/
def start : State where
  core := fun _ => ⟨⟨fun _ => 0#64, 0#64⟩, ⟨0#16, fun _ => 0#32, 0⟩, .host, 0⟩
  sender := fun _ => .idle

/-- Core 1 is in the guest, a request has been posted to it and the
    notification is on its way. -/
theorem requests_accounted_guest :
    ∃ s : State, requested (s.core 1).desc.vectors 0xF1 = true ∧ s.sender 0 = .idle ∧
      (s.core 1).pc.beforeDrain = false ∧ (s.core 1).pc.collects 0xF1 = false ∧
      ((∃ k, s.sender k = .setOutstanding 1 ∨ s.sender k = .send 1) ∨
        (s.core 1).pc.collects 0xF1 = true ∨
        ((s.core 1).desc.outstanding = true ∧
          ((s.core 1).pc.beforeDrain = true ∨ 0 < (s.core 1).notifications))) := by
  obtain ⟨s, he, hreq, hidle, hdrain, hcollects⟩ := system.exists_exec start
    [.core 1, .core 1, .core 1, .post 0 0xF1#8 1, .sender 0, .sender 0]
    (fun s => requested (s.core 1).desc.vectors 0xF1 = true ∧ s.sender 0 = .idle ∧
      (s.core 1).pc.beforeDrain = false ∧ (s.core 1).pc.collects 0xF1 = false)
    (by decide +kernel)
  have hinit : Init start := ⟨fun _ _ => rfl, fun _ => rfl, fun _ => rfl, fun _ => rfl⟩
  exact ⟨s, hreq, hidle, hdrain, hcollects,
    requests_accounted (System.reachable_of_exec hinit he) (by decide) hreq⟩

end PostedIntr
