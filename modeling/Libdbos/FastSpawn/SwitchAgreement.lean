import Libdbos.FastSpawn.RootMoves

/-! # Root Switch Agreement

    Which root do main cores run on? A message that is delivered late
    finds its argument overwritten by a later spawn or by a TLB shootdown,
    and a posted request can be taken over after the next root has been
    published. Where nothing of an earlier spawn is left when a spawn
    publishes its root, every core ends up on that root.

    * `switch_agreement`: the positive result, over every number of
      spawns, from any main cores;
    * `second_message_asserts`: a message that stays queued while its
      target is moved through the flag word makes the assertion of a later
      spawn's message fail.
-/

open LTS

namespace RootSwitch

open Pv CowFault

variable {cfg : Config} {s s' : State}

/-! ## Messages and lists -/

/-- The messages of source `c` that a handler has collected. -/
def HandlerPc.held (c : Nat) : HandlerPc → Nat
  | .collect _ _ buf | .run _ buf => buf.count c
  | .load _ src buf | .finish _ src buf => (src :: buf).count c
  | .off | .asserted => 0

/-- The messages from `c` to `i` that have not been run to their end. -/
def State.msgs (s : State) (i c : Nat) : Nat := s.queued i c + (s.handler i).held c

/-- The cores whose message this spawn has not queued yet. -/
def SpawnPc.unsent (cfg : Config) : SpawnPc → List Nat
  | .publishSnap => cfg.mains
  | .scan todo _ | .send _ todo _ => todo
  | .post i _ todo _ | .reset i todo _ | .fill i todo _ | .queue i todo _ => i :: todo
  | _ => []

/-- The cores that have been sent a message and are not known to have moved. -/
def SpawnPc.sent : SpawnPc → List Nat
  | .scan _ sent | .post _ _ _ sent | .reset _ _ sent | .fill _ _ sent | .queue _ _ sent => sent
  | .send i _ sent => sent ++ [i]
  | .wait todo => todo
  | .peek i todo | .repost i _ todo => i :: todo
  | _ => []

/-- The cores that a spawn of core `c` may still have to move. -/
def SpawnPc.behind (cfg : Config) (c : Nat) (pc : SpawnPc) : List Nat :=
  if 2 ≤ pc.stage ∧ pc.stage ≤ 7 then c :: (pc.unsent cfg ++ pc.sent) else []

/-! ## The condition -/

/-- Nothing of an earlier spawn is on its way to a main core: no message
    is queued or being run, and no CR3 request is pending. -/
def State.settled (cfg : Config) (s : State) : Bool :=
  cfg.mains.all fun i =>
    !(s.vcpu i).cr3Requested && cfg.mains.all fun c => decide (s.msgs i c = 0)

/-- The condition on a run. A spawn publishes its root when all earlier
    ones are settled, and a core makes no TLB shootdown while a message
    still uses entry 0 of its work page or while it moves other cores. -/
def clean (cfg : Config) (s : State) : Label → Bool
  | .spawn c => decide (s.spawn c ≠ .publish) || s.settled cfg
  | .tlbReady c | .tlbAddr c _ => decide (s.msgs 0 c = 0) && decide ((s.spawn c).stage ≠ 3)
  | _ => true

/-! ## The invariant -/

structure SwitchInv (cfg : Config) (s : State) : Prop where
  /-- A core that no spawn has still to move runs on the current root. -/
  onRoot : ∀ j ∈ cfg.mains, (∀ c, j ∉ (s.spawn c).behind cfg c) → (s.vcpu j).nextRoot = s.pgroot
  requests : ∀ j ∈ cfg.mains, ∀ r, (s.vcpu j).request = some r → r = s.pgroot
  /-- Messages: at most one per source and target, with the current root,
      and not marked as done before it has been run. -/
  one : ∀ i ∈ cfg.mains, ∀ c, s.msgs i c ≤ 1
  source : ∀ i ∈ cfg.mains, ∀ c, 0 < s.msgs i c → c ∈ cfg.mains
  carried : ∀ i ∈ cfg.mains, ∀ c, 0 < s.msgs i c → (s.slot c i).newPgroot = s.pgroot
  waiting : ∀ i ∈ cfg.mains, ∀ c, 0 < s.msgs i c →
    (∀ again buf, s.handler i ≠ .finish again c buf) → (s.slot c i).done = false
  loaded : ∀ i ∈ cfg.mains, ∀ again c buf, s.handler i = .finish again c buf →
    (s.vcpu i).nextRoot = s.pgroot
  no_assert : ∀ i ∈ cfg.mains, s.handler i ≠ .asserted
  /-- The lists of a spawn: no message to a core that is still to be sent
      one, and `done` only where the core has moved. -/
  listed : ∀ c, ∀ i ∈ (s.spawn c).unsent cfg ++ (s.spawn c).sent, i ∈ cfg.mains
  unsent : ∀ c, ∀ i ∈ (s.spawn c).unsent cfg, s.msgs i c = 0
  nodup : ∀ c, ((s.spawn c).unsent cfg).Nodup
  done : ∀ c, ∀ i ∈ (s.spawn c).sent, (s.slot c i).done = true → (s.vcpu i).nextRoot = s.pgroot
  filled : ∀ c i todo sent, s.spawn c = .fill i todo sent → (s.slot c i).done = false
  prepared : ∀ c i todo sent, s.spawn c = .queue i todo sent →
    (s.slot c i).done = false ∧ (s.slot c i).newPgroot = s.pgroot

/-! ## Its parts -/

/-- What is said about the messages from `c` to `i`. -/
structure MsgOk (cfg : Config) (s : State) (i c : Nat) : Prop where
  one : s.msgs i c ≤ 1
  source : 0 < s.msgs i c → c ∈ cfg.mains
  carried : 0 < s.msgs i c → (s.slot c i).newPgroot = s.pgroot
  waiting : 0 < s.msgs i c → (∀ again buf, s.handler i ≠ .finish again c buf) →
    (s.slot c i).done = false

theorem MsgOk.none {i c : Nat} (h : s.msgs i c = 0) : MsgOk cfg s i c :=
  ⟨by omega, fun _ => by omega, fun _ => by omega, fun _ => by omega⟩

theorem MsgOk.congr {i c : Nat} (h : MsgOk cfg s i c) (hmsgs : s'.msgs i c = s.msgs i c)
    (hslot : s'.slot c i = s.slot c i) (hroot : s'.pgroot = s.pgroot)
    (hfin : ∀ again buf, s.handler i = .finish again c buf → s'.handler i = .finish again c buf) :
    MsgOk cfg s' i c := by
  constructor <;> rw [hmsgs]
  · exact h.one
  · exact h.source
  · rw [hslot, hroot]
    exact h.carried
  · rw [hslot]
    exact fun hpos hne => h.waiting hpos fun again buf hp => hne again buf (hfin again buf hp)

/-- What a new position `q` of core `c` has to bring. -/
structure PcOk (cfg : Config) (s : State) (c : Nat) (q : SpawnPc) : Prop where
  onRoot : ∀ j ∈ cfg.mains, j ∉ q.behind cfg c →
    j ∉ (s.spawn c).behind cfg c ∨ (s.vcpu j).nextRoot = s.pgroot
  listed : ∀ i ∈ q.unsent cfg ++ q.sent, i ∈ cfg.mains
  unsent : ∀ i ∈ q.unsent cfg, s.msgs i c = 0
  nodup : (q.unsent cfg).Nodup
  done : ∀ i ∈ q.sent, (s.slot c i).done = true → (s.vcpu i).nextRoot = s.pgroot
  filled : ∀ i todo sent, q = .fill i todo sent → (s.slot c i).done = false
  prepared : ∀ i todo sent, q = .queue i todo sent →
    (s.slot c i).done = false ∧ (s.slot c i).newPgroot = s.pgroot

/-- A position without lists. -/
theorem PcOk.nil {c : Nat} {q : SpawnPc} (hun : q.unsent cfg = []) (hsent : q.sent = [])
    (hb : ∀ j ∈ cfg.mains, j ∉ q.behind cfg c →
      j ∉ (s.spawn c).behind cfg c ∨ (s.vcpu j).nextRoot = s.pgroot) : PcOk cfg s c q := by
  refine ⟨hb, by simp [hun, hsent], by simp [hun], by simp [hun], by simp [hsent], ?_, ?_⟩
  · rintro i todo sent rfl
    cases hun
  · rintro i todo sent rfl
    cases hun

/-- A position whose lists are part of those before. -/
theorem SwitchInv.pcOk (hinv : SwitchInv cfg s) {c : Nat} {p q : SpawnPc} (hpc : s.spawn c = p)
    (hun : (q.unsent cfg).Sublist (p.unsent cfg)) (hsent : q.sent ⊆ p.sent)
    (hb : ∀ j ∈ cfg.mains, j ∉ q.behind cfg c →
      j ∉ p.behind cfg c ∨ (s.vcpu j).nextRoot = s.pgroot)
    (hfill : ∀ i todo sent, q = .fill i todo sent → (s.slot c i).done = false)
    (hqueue : ∀ i todo sent, q = .queue i todo sent →
      (s.slot c i).done = false ∧ (s.slot c i).newPgroot = s.pgroot) : PcOk cfg s c q := by
  subst hpc
  refine ⟨hb, ?_, fun i hi => hinv.unsent c i (hun.subset hi), hun.nodup (hinv.nodup c),
    fun i hi => hinv.done c i (hsent hi), hfill, hqueue⟩
  intro i hi
  rcases List.mem_append.1 hi with hi | hi
  · exact hinv.listed c i (List.mem_append_left _ (hun.subset hi))
  · exact hinv.listed c i (List.mem_append_right _ (hsent hi))

theorem SwitchInv.pc (hinv : SwitchInv cfg s) (c : Nat) : PcOk cfg s c (s.spawn c) :=
  hinv.pcOk rfl (List.Sublist.refl _) (List.Subset.refl _) (fun _ _ h => .inl h) (hinv.filled c)
    (hinv.prepared c)

theorem SwitchInv.msg (hinv : SwitchInv cfg s) {i : Nat} (hi : i ∈ cfg.mains) (c : Nat) :
    MsgOk cfg s i c :=
  ⟨hinv.one i hi c, hinv.source i hi c, hinv.carried i hi c, hinv.waiting i hi c⟩

theorem SwitchInv.ofParts
    (honRoot : ∀ j ∈ cfg.mains, (∀ c, j ∉ (s.spawn c).behind cfg c) →
      (s.vcpu j).nextRoot = s.pgroot)
    (hrequests : ∀ j ∈ cfg.mains, ∀ r, (s.vcpu j).request = some r → r = s.pgroot)
    (hmsg : ∀ i ∈ cfg.mains, ∀ c, MsgOk cfg s i c)
    (hloaded : ∀ i ∈ cfg.mains, ∀ again c buf, s.handler i = .finish again c buf →
      (s.vcpu i).nextRoot = s.pgroot)
    (hassert : ∀ i ∈ cfg.mains, s.handler i ≠ .asserted)
    (hpc : ∀ c, PcOk cfg s c (s.spawn c)) : SwitchInv cfg s :=
  ⟨honRoot, hrequests, fun i hi c => (hmsg i hi c).one, fun i hi c => (hmsg i hi c).source,
    fun i hi c => (hmsg i hi c).carried, fun i hi c => (hmsg i hi c).waiting, hloaded, hassert,
    fun c => (hpc c).listed, fun c => (hpc c).unsent, fun c => (hpc c).nodup,
    fun c => (hpc c).done, fun c => (hpc c).filled, fun c => (hpc c).prepared⟩

theorem switchInv_init (h : Init cfg s) : SwitchInv cfg s := by
  have hreq : ∀ i, (s.vcpu i).request = none := by
    intro i
    obtain ⟨_, hpc, _, _, hcr3⟩ := h.vcpu i
    simp [VmxLaunch.State.request, hpc, hcr3]
  refine .ofParts ?_ ?_ (fun i _ c => .none ?_) ?_ ?_ (fun c => ?_)
  · intro j hj _
    simpa [VmxLaunch.State.nextRoot, hreq j] using h.root j hj
  · simp [hreq]
  · simp [State.msgs, h.queued, h.handler, HandlerPc.held]
  · simp [h.handler]
  · simp [h.handler]
  · rw [h.spawn c]
    exact .nil rfl rfl (by rw [h.spawn c]; exact fun _ _ h => .inl h)

/-! ## Parts of a step -/

/-- The fields that `SwitchInv` reads. -/
theorem SwitchInv.frame (hinv : SwitchInv cfg s) (hvcpu : s'.vcpu = s.vcpu)
    (hspawn : s'.spawn = s.spawn) (hhandler : s'.handler = s.handler)
    (hqueued : s'.queued = s.queued) (hslot : s'.slot = s.slot) (hroot : s'.pgroot = s.pgroot) :
    SwitchInv cfg s' := by
  have hmsgs : s'.msgs = s.msgs := by
    funext i c
    simp only [State.msgs, hqueued, hhandler]
  obtain ⟨h1, h2, h3, h4, h5, h6, h7, h8, h9, h10, h11, h12, h13, h14⟩ := hinv
  constructor <;> simp only [hvcpu, hspawn, hhandler, hslot, hroot, hmsgs] <;> assumption

/-- A change of a core that leads it to `root`, if it changes its root at all. -/
structure Toward (root : Word) (v v' : VmxLaunch.State) : Prop where
  nextRoot : v'.nextRoot = v.nextRoot ∨ v'.nextRoot = root
  request : v'.request = v.request ∨ v'.request = none ∨ v'.request = some root

theorem SwitchInv.cores (hinv : SwitchInv cfg s) {f : Nat → VmxLaunch.State}
    (hf : ∀ j ∈ cfg.mains, Toward s.pgroot (s.vcpu j) (f j)) : SwitchInv cfg { s with vcpu := f } := by
  have hkeep : ∀ j ∈ cfg.mains, (s.vcpu j).nextRoot = s.pgroot → (f j).nextRoot = s.pgroot := by
    intro j hj hroot
    rcases (hf j hj).nextRoot with h | h
    · rw [h, hroot]
    · exact h
  refine { hinv with onRoot := ?_, requests := ?_, loaded := ?_, done := ?_ }
  · exact fun j hj hb => hkeep j hj (hinv.onRoot j hj hb)
  · intro j hj r hr
    rcases (hf j hj).request with h | h | h
    · exact hinv.requests j hj r (h ▸ hr)
    · rw [h] at hr
      cases hr
    · rw [h] at hr
      exact (Option.some.inj hr).symm
  · exact fun i hi again c buf hh => hkeep i hi (hinv.loaded i hi again c buf hh)
  · intro c i hi hd
    have hmain := hinv.listed c i (List.mem_append_right _ hi)
    exact hkeep i hmain (hinv.done c i hi hd)

theorem Toward.refl (root : Word) (v : VmxLaunch.State) : Toward root v v := ⟨.inl rfl, .inl rfl⟩

/-- One core changes. -/
theorem SwitchInv.core (hinv : SwitchInv cfg s) {i : Nat} {v : VmxLaunch.State}
    (hv : i ∈ cfg.mains → Toward s.pgroot (s.vcpu i) v) : SwitchInv cfg (s.setVcpu i v) := by
  refine hinv.cores fun j hj => ?_
  by_cases hji : j = i
  · subst hji
    simpa using hv hj
  · simpa [hji] using Toward.refl _ _

theorem SwitchInv.setSpawn (hinv : SwitchInv cfg s) {c : Nat} {q : SpawnPc}
    (hq : PcOk cfg s c q) : SwitchInv cfg (s.setSpawn c q) := by
  have hself : (s.setSpawn c q).spawn c = q := by simp [State.setSpawn]
  have hother : ∀ c', c' ≠ c → (s.setSpawn c q).spawn c' = s.spawn c' := by
    intro c' hc'
    simp [State.setSpawn, hc']
  refine .ofParts ?_ hinv.requests (fun i hi c' => ?_) hinv.loaded hinv.no_assert fun c' => ?_
  · intro j hj hb
    rcases hq.onRoot j hj (by simpa [hself] using hb c) with h | h
    · refine hinv.onRoot j hj fun c' => ?_
      by_cases hc' : c' = c
      · rw [hc']
        exact h
      · rw [← hother c' hc']
        exact hb c'
    · exact h
  · exact (hinv.msg hi c').congr rfl rfl rfl fun _ _ => id
  · have hpc : PcOk cfg s c' ((s.setSpawn c q).spawn c') := by
      by_cases hc' : c' = c
      · rw [hc', hself]
        exact hq
      · rw [hother c' hc']
        exact hinv.pc c'
    exact ⟨fun _ _ h => .inl h, hpc.listed, hpc.unsent, hpc.nodup, hpc.done, hpc.filled,
      hpc.prepared⟩

theorem slot_setSlot_self {c i : Nat} {x : Slot} : (s.setSlot c i x).slot c i = x := by
  simp [State.setSlot]

theorem slot_setSlot_ne {c i c' i' : Nat} {x : Slot} (h : ¬ (c' = c ∧ i' = i)) :
    (s.setSlot c i x).slot c' i' = s.slot c' i' := by
  by_cases hc : c' = c
  · subst hc
    have hi : i' ≠ i := fun hi => h ⟨rfl, hi⟩
    simp [State.setSlot, hi]
  · simp [State.setSlot, hc]

/-- An argument that no message uses may be written. -/
theorem SwitchInv.setSlot (hinv : SwitchInv cfg s) {c i : Nat} {x : Slot} (hmsgs : s.msgs i c = 0)
    (hdone : i ∈ (s.spawn c).sent → x.done = true → (s.slot c i).done = true)
    (hfilled : ∀ todo sent, s.spawn c = .fill i todo sent → x.done = false)
    (hprep : ∀ todo sent, s.spawn c ≠ .queue i todo sent) : SwitchInv cfg (s.setSlot c i x) := by
  have hpc := hinv.pc
  refine .ofParts hinv.onRoot hinv.requests (fun i' hi' c' => ?_) hinv.loaded hinv.no_assert
    fun c' => ⟨(hpc c').onRoot, (hpc c').listed, (hpc c').unsent, (hpc c').nodup, ?_, ?_, ?_⟩
  · by_cases h : c' = c ∧ i' = i
    · obtain ⟨rfl, rfl⟩ := h
      exact .none hmsgs
    · exact (hinv.msg hi' c').congr rfl (slot_setSlot_ne h) rfl fun _ _ => id
  · intro i' hi' hd
    by_cases h : c' = c ∧ i' = i
    · obtain ⟨rfl, rfl⟩ := h
      rw [slot_setSlot_self] at hd
      exact hinv.done c' i' hi' (hdone hi' hd)
    · rw [slot_setSlot_ne h] at hd
      exact hinv.done c' i' hi' hd
  · intro i' todo sent hp
    by_cases h : c' = c ∧ i' = i
    · obtain ⟨rfl, rfl⟩ := h
      rw [slot_setSlot_self]
      exact hfilled todo sent hp
    · rw [slot_setSlot_ne h]
      exact hinv.filled c' i' todo sent hp
  · intro i' todo sent hp
    by_cases h : c' = c ∧ i' = i
    · obtain ⟨rfl, rfl⟩ := h
      exact absurd hp (hprep todo sent)
    · rw [slot_setSlot_ne h]
      exact hinv.prepared c' i' todo sent hp

theorem queued_setQueued {i c n i' c' : Nat} :
    (s.setQueued i c n).queued i' c' = if i' = i ∧ c' = c then n else s.queued i' c' := by
  by_cases hi : i' = i
  · subst hi
    by_cases hc : c' = c
    · simp [State.setQueued, hc]
    · simp [State.setQueued, hc]
  · simp [State.setQueued, hi]

/-- A message is queued once its argument is complete. -/
theorem SwitchInv.enqueue (hinv : SwitchInv cfg s) {c i : Nat} (hc : c ∈ cfg.mains)
    (hmsgs : s.msgs i c = 0) (hun : i ∉ (s.spawn c).unsent cfg) (hdone : (s.slot c i).done = false)
    (hroot : (s.slot c i).newPgroot = s.pgroot) :
    SwitchInv cfg (s.setQueued i c (s.queued i c + 1)) := by
  have hself : (s.setQueued i c (s.queued i c + 1)).msgs i c = 1 := by
    simp only [State.msgs, queued_setQueued, and_self, if_true] at hmsgs ⊢
    change s.queued i c + 1 + (s.handler i).held c = 1
    omega
  have hother : ∀ i' c', ¬ (i' = i ∧ c' = c) →
      (s.setQueued i c (s.queued i c + 1)).msgs i' c' = s.msgs i' c' := by
    intro i' c' h
    simp only [State.msgs, queued_setQueued, if_neg h]
    rfl
  have hpc := hinv.pc
  refine .ofParts hinv.onRoot hinv.requests (fun i' hi' c' => ?_) hinv.loaded hinv.no_assert
    fun c' => ⟨(hpc c').onRoot, (hpc c').listed, fun i' hi' => ?_, (hpc c').nodup, (hpc c').done,
      (hpc c').filled, (hpc c').prepared⟩
  · by_cases h : i' = i ∧ c' = c
    · obtain ⟨rfl, rfl⟩ := h
      exact ⟨Nat.le_of_eq hself, fun _ => hc, fun _ => hroot, fun _ _ => hdone⟩
    · exact (hinv.msg hi' c').congr (hother i' c' h) rfl rfl fun _ _ => id
  · have h : ¬ (i' = i ∧ c' = c) := by
      rintro ⟨rfl, rfl⟩
      exact hun hi'
    rw [hother i' c' h]
    exact hinv.unsent c' i' hi'

/-- A handler that is not at the end of a message. -/
def HandlerPc.between : HandlerPc → Bool
  | .finish _ _ _ | .asserted => false
  | _ => true

/-- A step of a handler between messages that keeps their number. -/
theorem SwitchInv.setHandler (hinv : SwitchInv cfg s) {i : Nat} {q : HandlerPc}
    {g : Nat → Nat → Nat} (hp : (s.handler i).between = true) (hq : q.between = true)
    (hi : ∀ c, g i c + q.held c = s.msgs i c) (hj : ∀ j, j ≠ i → g j = s.queued j) :
    SwitchInv cfg { s with queued := g, handler := Function.update s.handler i q } := by
  generalize hs : ({ s with queued := g, handler := Function.update s.handler i q } : State) = s'
  have hmsgs : s'.msgs = s.msgs := by
    funext j c
    subst hs
    by_cases hji : j = i
    · subst hji
      simpa [State.msgs] using hi c
    · simp [State.msgs, hji, hj j hji]
  have hsame : s'.vcpu = s.vcpu ∧ s'.spawn = s.spawn ∧ s'.slot = s.slot ∧ s'.pgroot = s.pgroot := by
    subst hs
    exact ⟨rfl, rfl, rfl, rfl⟩
  have hfin : ∀ j again c buf,
      s'.handler j = .finish again c buf ↔ s.handler j = .finish again c buf := by
    intro j again c buf
    subst hs
    by_cases hji : j = i
    · subst hji
      simp only [Function.update_self]
      constructor
      · intro h
        rw [h] at hq
        cases hq
      · intro h
        rw [h] at hp
        cases hp
    · simp [hji]
  obtain ⟨h1, h2, h3, h4⟩ := hsame
  obtain ⟨i1, i2, i3, i4, i5, i6, i7, i8, i9, i10, i11, i12, i13, i14⟩ := hinv
  constructor <;> simp only [h1, h2, h3, h4, hmsgs, ne_eq, hfin] <;> try assumption
  intro j hj' h
  subst hs
  by_cases hji : j = i
  · subst hji
    simp only [Function.update_self] at h
    rw [h] at hq
    cases hq
  · simp only [Function.update_of_ne hji] at h
    exact i8 j hj' h

/-! ## Steps of a handler -/

theorem msgs_of_handler {i c : Nat} {p : HandlerPc} (hpc : s.handler i = p) (h : 0 < p.held c) :
    0 < s.msgs i c := by
  unfold State.msgs
  rw [hpc]
  omega

/-- The root has been loaded, `done` is still to be set. -/
theorem SwitchInv.toFinish (hinv : SwitchInv cfg s) {i c : Nat} {again : Bool} {buf : List Nat}
    (hpc : s.handler i = .load again c buf) (hroot : (s.vcpu i).nextRoot = s.pgroot) :
    SwitchInv cfg (s.setHandler i (.finish again c buf)) := by
  have hmsgs : (s.setHandler i (.finish again c buf)).msgs = s.msgs := by
    funext j c'
    by_cases hji : j = i
    · subst hji
      simp [State.msgs, State.setHandler, hpc, HandlerPc.held]
    · simp [State.msgs, State.setHandler, hji]
  have hpcs := hinv.pc
  refine .ofParts hinv.onRoot hinv.requests (fun j hj c' => ?_) ?_ ?_
    fun c' => ⟨(hpcs c').onRoot, (hpcs c').listed, by rw [hmsgs]; exact (hpcs c').unsent,
      (hpcs c').nodup, (hpcs c').done, (hpcs c').filled, (hpcs c').prepared⟩
  · refine (hinv.msg hj c').congr (by rw [hmsgs]) rfl rfl fun again' buf' h => ?_
    by_cases hji : j = i
    · rw [hji, hpc] at h
      cases h
    · simpa [State.setHandler, hji] using h
  · intro j hj again' c' buf' h
    by_cases hji : j = i
    · rw [hji]
      exact hroot
    · simp only [State.setHandler, Function.update_of_ne hji] at h
      exact hinv.loaded j hj again' c' buf' h
  · intro j hj h
    by_cases hji : j = i
    · subst hji
      simp [State.setHandler] at h
    · simp only [State.setHandler, Function.update_of_ne hji] at h
      exact hinv.no_assert j hj h

/-- A message is over: its core has moved, and `done` says so. -/
theorem SwitchInv.finish (hinv : SwitchInv cfg s) {i c : Nat} (hi : i ∈ cfg.mains) {again : Bool}
    {buf : List Nat} (hpc : s.handler i = .finish again c buf) :
    SwitchInv cfg ((s.setSlot c i { s.slot c i with done := true }).setHandler i
      (.run again buf)) := by
  have hpos : 0 < s.msgs i c := msgs_of_handler hpc (by simp [HandlerPc.held])
  have hroot := hinv.loaded i hi again c buf hpc
  generalize hs : (s.setSlot c i { s.slot c i with done := true }).setHandler i (.run again buf) = s'
  have hslot : ∀ c' j, ¬ (c' = c ∧ j = i) → s'.slot c' j = s.slot c' j := by
    intro c' j h
    subst hs
    exact slot_setSlot_ne h
  have hself : s'.slot c i = { s.slot c i with done := true } := by
    subst hs
    exact slot_setSlot_self
  have hmsgs : ∀ j c', ¬ (j = i ∧ c' = c) → s'.msgs j c' = s.msgs j c' := by
    intro j c' h
    subst hs
    by_cases hji : j = i
    · subst hji
      have hc' : c' ≠ c := fun hc' => h ⟨rfl, hc'⟩
      simp [State.msgs, State.setHandler, State.setSlot, hpc, HandlerPc.held, Ne.symm hc']
    · simp [State.msgs, State.setHandler, State.setSlot, hji]
  have hzero : s'.msgs i c = 0 := by
    have hone := hinv.one i hi c
    subst hs
    simp only [State.msgs, State.setHandler, State.setSlot, Function.update_self, hpc, HandlerPc.held,
      List.count_cons_self] at hone ⊢
    omega
  have hfin : ∀ j, j ≠ i → s'.handler j = s.handler j := by
    intro j hji
    subst hs
    simp [State.setHandler, State.setSlot, hji]
  have hrun : s'.handler i = .run again buf := by
    subst hs
    simp [State.setHandler]
  have hsame : s'.vcpu = s.vcpu ∧ s'.spawn = s.spawn ∧ s'.pgroot = s.pgroot := by
    subst hs
    exact ⟨rfl, rfl, rfl⟩
  obtain ⟨hvcpu, hspawn, hpg⟩ := hsame
  have hothers : ∀ c' j, j ∈ (s.spawn c').unsent cfg → ¬ (c' = c ∧ j = i) := by
    rintro c' j hj ⟨rfl, rfl⟩
    have := hinv.unsent c' j hj
    omega
  refine .ofParts ?_ ?_ (fun j hj c' => ?_) ?_ ?_ fun c' => ?_
  · rw [hvcpu, hspawn, hpg]; exact hinv.onRoot
  · rw [hvcpu, hpg]; exact hinv.requests
  · by_cases h : j = i ∧ c' = c
    · obtain ⟨rfl, rfl⟩ := h
      exact .none hzero
    · refine (hinv.msg hj c').congr (hmsgs j c' h) (hslot c' j fun hc => h hc.symm) hpg ?_
      intro again' buf' hh
      by_cases hji : j = i
      · rw [hji, hpc] at hh
        cases hh
        exact absurd ⟨hji, rfl⟩ h
      · exact (hfin j hji).trans hh
  · intro j hj again' c' buf' hh
    by_cases hji : j = i
    · rw [hji, hrun] at hh
      cases hh
    · rw [hfin j hji] at hh
      rw [hvcpu, hpg]
      exact hinv.loaded j hj again' c' buf' hh
  · intro j hj hh
    by_cases hji : j = i
    · rw [hji, hrun] at hh
      cases hh
    · rw [hfin j hji] at hh
      exact hinv.no_assert j hj hh
  · have hpcs := hinv.pc c'
    rw [hspawn]
    refine ⟨?_, hpcs.listed, ?_, hpcs.nodup, ?_, ?_, ?_⟩
    · rw [hspawn]
      exact fun _ _ h => .inl h
    · intro j hj
      rw [hmsgs j c' fun h => hothers c' j hj h.symm]
      exact hpcs.unsent j hj
    · intro j hj hd
      rw [hvcpu, hpg]
      by_cases h : c' = c ∧ j = i
      · rw [h.2]
        exact hroot
      · rw [hslot c' j h] at hd
        exact hpcs.done j hj hd
    · intro j todo sent hp
      rw [hslot c' j (hothers c' j (by rw [hp]; simp [SpawnPc.unsent]))]
      exact hpcs.filled j todo sent hp
    · intro j todo sent hp
      rw [hslot c' j (hothers c' j (by rw [hp]; simp [SpawnPc.unsent])), hpg]
      exact hpcs.prepared j todo sent hp

theorem nextRoot_guest {v : VmxLaunch.State} (h : v.pc = .guest) : v.nextRoot = v.guestCr3 := by
  simp [VmxLaunch.State.nextRoot, VmxLaunch.request_guest h]

/-- A core in the guest that loads the current root. -/
theorem toward_load {v : VmxLaunch.State} (h : v.pc = .guest) (root : Word) :
    Toward root v { v with guestCr3 := root } := by
  refine ⟨.inr ?_, .inr (.inl ?_)⟩
  · exact nextRoot_guest (v := { v with guestCr3 := root }) h
  · exact VmxLaunch.request_guest h

theorem switchInv_handler (hinv : SwitchInv cfg s) {i : Nat} (hi : i ∈ cfg.mains)
    (hin : s.inGuest i = true) {p : HandlerPc} (hpc : s.handler i = p)
    (h : HandlerMove cfg s i p s') : SwitchInv cfg s' := by
  have hmsgs : ∀ c, s.msgs i c = s.queued i c + p.held c := by
    intro c
    rw [State.msgs, hpc]
  cases h with
  | begin =>
    have hipi : SwitchInv cfg { s with ipi := Function.update s.ipi i false } :=
      hinv.frame rfl rfl rfl rfl rfl rfl
    exact hipi.setHandler (by show (s.handler i).between = true; rw [hpc]; rfl) rfl
      (fun c => (hmsgs c).symm) fun _ _ => rfl
  | collected | again | finished | run _ =>
    exact hinv.setHandler (by rw [hpc]; rfl) rfl (fun c => (hmsgs c).symm) fun _ _ => rfl
  | @collect _ c todo buf =>
    refine hinv.setHandler (by rw [hpc]; rfl) rfl (fun c' => ?_) fun j hj => ?_
    · rw [hmsgs c', queued_setQueued]
      by_cases hc : c' = c
      · subst hc
        simp only [HandlerPc.held, and_self, if_true, List.count_append, List.count_replicate_self]
        omega
      · simp [HandlerPc.held, hc, List.count_replicate, Ne.symm hc]
    · funext c'
      simp [queued_setQueued, hj]
  | @asserted _ c buf hd =>
    -- `done` is clear as long as the message has not been run.
    have hpos : 0 < s.msgs i c := msgs_of_handler hpc (by simp [HandlerPc.held])
    have hw := hinv.waiting i hi c hpos (by simp [hpc])
    rw [hw] at hd
    cases hd
  | @load again c buf =>
    have hpos : 0 < s.msgs i c := msgs_of_handler hpc (by simp [HandlerPc.held])
    rw [hinv.carried i hi c hpos]
    have hguest := inGuest_iff.1 hin
    have hload := hinv.core (i := i) fun _ => toward_load hguest s.pgroot
    have hmoved : SwitchInv cfg ((s.loadCr3 i s.pgroot).setMoved i) :=
      hload.frame rfl rfl rfl rfl rfl rfl
    refine hmoved.toFinish hpc ?_
    have hv : ((s.loadCr3 i s.pgroot).setMoved i).vcpu i =
      { s.vcpu i with guestCr3 := s.pgroot } := by
      simp [State.loadCr3, State.setMoved, State.setVcpu]
    rw [hv]
    exact nextRoot_guest (v := { s.vcpu i with guestCr3 := s.pgroot }) hguest
  | finish => exact hinv.finish hi hpc

/-! ## Steps of a spawn -/

theorem mem_behind {c j : Nat} {q : SpawnPc} (h : q.stage = 3) :
    j ∈ q.behind cfg c ↔ j = c ∨ j ∈ q.unsent cfg ∨ j ∈ q.sent := by
  simp [SpawnPc.behind, h]

theorem switchInv_goto (hinv : SwitchInv cfg s) {c : Nat} {p q : SpawnPc} (hpc : s.spawn c = p)
    (h : SpawnGoto s c p q) : SwitchInv cfg (s.setSpawn c q) := by
  refine hinv.setSpawn ?_
  cases h with
  | scanned | inHost _ | inGuest | lost | notDone | waitInHost _ | waitInGuest | waitLost =>
    refine hinv.pcOk hpc ?_ ?_ ?_ (by simp) (by simp)
    · simp [SpawnPc.unsent]
    · simp [SpawnPc.sent]
    · intro j _ hb
      rw [mem_behind rfl] at hb ⊢
      exact .inl hb
  | @dropped i todo sent hfull =>
    -- The ring is not full: there is no message of this core in it.
    have hm := hinv.unsent c i (by rw [hpc]; simp [SpawnPc.unsent])
    simp only [State.msgs, ringSize] at hm hfull
    omega
  | waited =>
    refine hinv.pcOk hpc (by simp [SpawnPc.unsent]) (by simp [SpawnPc.sent]) ?_ (by simp) (by simp)
    intro j _ hb
    left
    simpa [SpawnPc.behind, SpawnPc.stage, SpawnPc.unsent, SpawnPc.sent] using hb
  | @done i todo hd =>
    refine hinv.pcOk hpc (by simp [SpawnPc.unsent]) (by simp [SpawnPc.sent]) ?_ (by simp) (by simp)
    intro j _ hb
    by_cases hj : j = i
    · right
      rw [hj]
      exact hinv.done c i (by rw [hpc]; simp [SpawnPc.sent]) hd
    · left
      rw [mem_behind rfl] at hb ⊢
      simpa [SpawnPc.unsent, SpawnPc.sent, hj] using hb
  | polled =>
    refine hinv.pcOk hpc (by simp [SpawnPc.unsent]) (by simp [SpawnPc.sent]) ?_ (by simp) (by simp)
    intro j _ _
    left
    simp [SpawnPc.behind, SpawnPc.stage]

/-- The list of a spawn that the next position takes over. -/
theorem switchInv_post (hinv : SwitchInv cfg s) {c i : Nat} {v : Word} {p q : SpawnPc}
    (hpc : s.spawn c = p) (hp : SpawnPost i v p q) (hroot : (s.vcpu i).nextRoot = s.pgroot) :
    SwitchInv cfg (s.setSpawn c q) := by
  refine hinv.setSpawn ?_
  cases hp with
  | first | second =>
    refine hinv.pcOk hpc (by simp [SpawnPc.unsent]) (by simp [SpawnPc.sent]) ?_ (by simp) (by simp)
    intro j _ hb
    by_cases hj : j = i
    · right
      rw [hj]
      exact hroot
    · left
      rw [mem_behind rfl] at hb ⊢
      simpa [SpawnPc.unsent, SpawnPc.sent, hj] using hb

/-- **Publication**: with nothing of an earlier spawn on its way, all that
    is said about the root that was current can be said about the new one. -/
theorem switchInv_publish (hinv : SwitchInv cfg s) (hbase : BaseInv s) {c : Nat}
    (hpc : s.spawn c = .publish) (hset : s.settled cfg = true) :
    SwitchInv cfg ({ s with
      pgroot := s.shadow1, moved := fun _ => false, snapLoaded := false }.setSpawn c
        .publishSnap) := by
  have hmsgs : ∀ i ∈ cfg.mains, ∀ c', s.msgs i c' = 0 := by
    intro i hi c'
    by_contra hne
    have hc' := hinv.source i hi c' (by omega)
    have h := List.all_eq_true.1 hset i hi
    simp only [Bool.and_eq_true, List.all_eq_true, decide_eq_true_eq] at h
    exact hne (h.2 c' hc')
  have hreq : ∀ i ∈ cfg.mains, (s.vcpu i).request = none := by
    intro i hi
    have h := List.all_eq_true.1 hset i hi
    simp only [Bool.and_eq_true, Bool.not_eq_true'] at h
    exact (hbase.cores i).request_none h.1
  -- No other spawn is under way.
  have hothers : ∀ c', c' ≠ c → (s.spawn c').unsent cfg = [] ∧ (s.spawn c').sent = [] := by
    intro c' hc'
    have halone := @SpawnInv.alone s hbase.spawn c c' (by simp [hpc, SpawnPc.stage])
      (by simp [hpc, SpawnPc.stage]) hc'
    cases hq : s.spawn c' <;> rw [hq] at halone <;>
      simp_all [SpawnPc.stage, SpawnPc.unsent, SpawnPc.sent]
  generalize hs : ({ s with
    pgroot := s.shadow1, moved := fun _ => false, snapLoaded := false }.setSpawn c
      .publishSnap : State) = s'
  have hself : s'.spawn c = .publishSnap := by simp [← hs, State.setSpawn]
  have hother : ∀ c', c' ≠ c → s'.spawn c' = s.spawn c' := by
    intro c' hc'
    simp [← hs, State.setSpawn, hc']
  have hmsgs' : ∀ i ∈ cfg.mains, ∀ c', s'.msgs i c' = 0 := by
    rw [← hs]
    exact hmsgs
  have hhandler : s'.handler = s.handler := by rw [← hs]; rfl
  have hvcpu : s'.vcpu = s.vcpu := by rw [← hs]; rfl
  refine .ofParts ?_ ?_ (fun i hi c' => .none (hmsgs' i hi c')) ?_ ?_ fun c' => ?_
  · intro j hj hb
    refine absurd ?_ (hb c)
    rw [hself]
    simp [SpawnPc.behind, SpawnPc.stage, SpawnPc.unsent, hj]
  · intro j hj r hr
    rw [hvcpu, hreq j hj] at hr
    cases hr
  · intro i hi again c' buf hh
    rw [hhandler] at hh
    have hpos : 0 < s.msgs i c' := msgs_of_handler hh (by simp [HandlerPc.held])
    rw [hmsgs i hi c'] at hpos
    omega
  · rw [hhandler]
    exact hinv.no_assert
  · by_cases hc' : c' = c
    · subst hc'
      rw [hself]
      refine ⟨?_, by simp [SpawnPc.unsent, SpawnPc.sent], fun i hi => hmsgs' i hi c', cfg.nodup,
        by simp [SpawnPc.sent], by simp, by simp⟩
      rw [hself]
      exact fun _ _ h => .inl h
    · rw [hother c' hc']
      refine .nil (hothers c' hc').1 (hothers c' hc').2 ?_
      rw [hother c' hc']
      exact fun _ _ h => .inl h

theorem switchInv_spawn (hinv : SwitchInv cfg s) (hbase : BaseInv s) {c : Nat} (hc : c ∈ cfg.mains)
    (hin : s.inThread c = true) {p : SpawnPc} (hpc : s.spawn c = p)
    (hset : p = .publish → s.settled cfg = true) (h : SpawnMove cfg s c p s') :
    SwitchInv cfg s' := by
  have hstage := hbase.spawn.stage c
  rw [hpc] at hstage
  -- A change of position where a spawn has neither lists nor cores to move.
  have hplain : ∀ q, (q.unsent cfg = [] ∧ q.sent = []) →
      (∀ j, j ∈ p.behind cfg c → j ∈ q.behind cfg c) → PcOk cfg s c q :=
    fun q hq hb => .nil hq.1 hq.2 fun j _ hj => .inl fun hp => hj (hb j (hpc ▸ hp))
  cases h with
  | goto hgo => exact switchInv_goto hinv hpc hgo
  | @post i v p q hp hflag =>
    have hhost : inHost (s.vcpu i).flag = true := by
      rw [hflag]
      cases hp with
      | first | second => exact hstage.sampled _ rfl
    obtain ⟨_, hreq⟩ := (hbase.cores i).postCr3 hhost hbase.spawn.aligned
    have hroot : ({ s.vcpu i with
        flag := Pv.postCr3 (s.vcpu i).flag s.pgroot
        cr3Posted := some s.pgroot } : VmxLaunch.State).nextRoot = s.pgroot := by
      simp [VmxLaunch.State.nextRoot, hreq]
    have hcore := hinv.core (i := i) fun _ => ⟨.inr hroot, .inr (.inr hreq)⟩
    refine switchInv_post hcore hpc hp ?_
    simpa [State.setVcpu] using hroot
  | enter _ _ _ _ =>
    exact (hinv.setSpawn (hplain .publish ⟨rfl, rfl⟩
      (by simp [SpawnPc.behind, SpawnPc.stage]))).frame
      rfl rfl rfl rfl rfl rfl
  | publish => exact switchInv_publish hinv hbase hpc (hset rfl)
  | publishSnap =>
    have hq : PcOk cfg s c (.scan (cfg.mains.filter fun i => decide (i ≠ c)) []) := by
      refine hinv.pcOk hpc List.filter_sublist (by simp [SpawnPc.sent]) ?_ (by simp) (by simp)
      intro j hj hb
      rw [mem_behind rfl] at hb
      simp only [SpawnPc.unsent, List.mem_filter, decide_eq_true_eq, not_or] at hb
      exact absurd ⟨hj, hb.1⟩ hb.2.1
    exact (hinv.setSpawn hq).frame rfl rfl rfl rfl rfl rfl
  | @reset i todo sent =>
    have hm := hinv.unsent c i (by rw [hpc]; simp [SpawnPc.unsent])
    have hslot := hinv.setSlot (x := { s.slot c i with done := false }) hm (fun _ h => by cases h)
      (by simp [hpc]) (by simp [hpc])
    refine hslot.setSpawn
      (hslot.pcOk hpc (List.Sublist.refl _) (List.Subset.refl _) ?_ ?_ (by simp))
    · intro j _ hb
      rw [mem_behind rfl] at hb ⊢
      exact .inl hb
    · rintro _ _ _ ⟨⟩
      rw [slot_setSlot_self]
  | @fill i todo sent =>
    have hm := hinv.unsent c i (by rw [hpc]; simp [SpawnPc.unsent])
    have hdone := hinv.filled c i todo sent hpc
    have hslot := hinv.setSlot (x := { s.slot c i with newPgroot := s.shadow1 }) hm (fun _ h => h)
      (fun _ _ _ => hdone) (by simp [hpc])
    refine hslot.setSpawn
      (hslot.pcOk hpc (List.Sublist.refl _) (List.Subset.refl _) ?_ (by simp) ?_)
    · intro j _ hb
      rw [mem_behind rfl] at hb ⊢
      exact .inl hb
    · rintro _ _ _ ⟨⟩
      rw [slot_setSlot_self]
      exact ⟨hdone, (hstage.root (by simp [SpawnPc.stage]) (by simp [SpawnPc.stage])).symm⟩
  | @queue i todo sent =>
    have hm := hinv.unsent c i (by rw [hpc]; simp [SpawnPc.unsent])
    obtain ⟨hdone, hroot⟩ := hinv.prepared c i todo sent hpc
    have hnodup := hinv.nodup c
    rw [hpc] at hnodup
    have hlisted := hinv.listed c
    rw [hpc] at hlisted
    have hpos : SwitchInv cfg (s.setSpawn c (.send i todo sent)) := by
      refine hinv.setSpawn ⟨?_, ?_, ?_, (List.nodup_cons.1 hnodup).2, ?_, by simp, by simp⟩
      · intro j _ hb
        left
        rw [hpc]
        rw [mem_behind rfl] at hb ⊢
        simp only [SpawnPc.unsent, SpawnPc.sent, List.mem_append, List.mem_cons, List.not_mem_nil,
          or_false, not_or] at hb ⊢
        exact ⟨hb.1, ⟨hb.2.2.2, hb.2.1⟩, hb.2.2.1⟩
      · intro j hj
        apply hlisted
        simp only [SpawnPc.unsent, SpawnPc.sent, List.mem_append, List.mem_cons, List.not_mem_nil,
          or_false] at hj ⊢
        rcases hj with h | h | h
        · exact .inl (.inr h)
        · exact .inr h
        · exact .inl (.inl h)
      · intro j hj
        exact hinv.unsent c j (by rw [hpc]; exact List.mem_cons_of_mem _ hj)
      · intro j hj hd
        rcases List.mem_append.1 hj with h | h
        · exact hinv.done c j (by rw [hpc]; exact h) hd
        · rw [List.mem_singleton.1 h, hdone] at hd
          cases hd
    refine hpos.enqueue hc hm ?_ hdone hroot
    simp only [State.setSpawn, Function.update_self]
    exact (List.nodup_cons.1 hnodup).1
  | @send i todo sent =>
    have hq : PcOk cfg s c (.scan todo (sent ++ [i])) := by
      refine hinv.pcOk hpc (List.Sublist.refl _) (List.Subset.refl _) ?_ (by simp) (by simp)
      intro j _ hb
      rw [mem_behind rfl] at hb ⊢
      exact .inl hb
    exact (hinv.setSpawn hq).frame rfl rfl rfl rfl rfl rfl
  | submit =>
    exact (hinv.setSpawn (hplain .clear1 ⟨rfl, rfl⟩ fun _ => id)).frame rfl rfl rfl rfl rfl rfl
  | clear1 =>
    exact (hinv.setSpawn (hplain .clear2 ⟨rfl, rfl⟩ fun _ => id)).frame rfl rfl rfl rfl rfl rfl
  | clear2 =>
    exact (hinv.setSpawn (hplain .loadRoot ⟨rfl, rfl⟩ fun _ => id)).frame rfl rfl rfl rfl rfl rfl
  | loadRoot =>
    have hguest := inGuest_iff.1 (inThread_guest hin)
    have hcore : SwitchInv cfg (s.loadCr3 c s.pgroot) :=
      hinv.core fun _ => toward_load hguest s.pgroot
    have hroot : ((s.loadCr3 c s.pgroot).vcpu c).nextRoot = s.pgroot := by
      simpa [State.loadCr3, State.setVcpu] using
        nextRoot_guest (v := { s.vcpu c with guestCr3 := s.pgroot }) hguest
    have hq : PcOk cfg (s.loadCr3 c s.pgroot) c .unlock := by
      refine hcore.pcOk hpc (List.Sublist.refl _) (List.Subset.refl _) ?_ (by simp) (by simp)
      intro j _ _
      by_cases hj : j = c
      · right
        rw [hj]
        exact hroot
      · left
        simp [SpawnPc.behind, SpawnPc.stage, SpawnPc.unsent, SpawnPc.sent, hj]
    exact (hcore.setSpawn hq).frame rfl rfl rfl rfl rfl rfl
  | unlock =>
    exact (hinv.setSpawn (hplain .poll ⟨rfl, rfl⟩ fun _ => id)).frame rfl rfl rfl rfl rfl rfl
  | signal =>
    exact (hinv.setSpawn (hplain .idle ⟨rfl, rfl⟩ fun _ => id)).frame rfl rfl rfl rfl rfl rfl

/-! ## Runs -/

theorem toward_host {v v' : VmxLaunch.State} {root : Word} (h : VmxLaunch.HostStep v v') :
    Toward root v v' := by
  refine ⟨.inl h.nextRoot, ?_⟩
  rcases h.request with hr | hr
  · exact .inl hr
  · exact .inr (.inl hr)

theorem switchInv_step {l : Label} (hinv : SwitchInv cfg s) (hbase : BaseInv s)
    (hok : clean cfg s l = true) (h : step cfg s l = some s') : SwitchInv cfg s' := by
  cases step_cases h with
  | @vcpu i _ v _ hv =>
    obtain ⟨l, hl, hs⟩ := hv.label
    have hcore := hbase.cores i
    have hstep := VmxLaunch.hostStep hcore.inv hcore.quiet hl hs
    have hset : SwitchInv cfg (s.setVcpu i v) := hinv.core fun _ => toward_host hstep
    rcases hv.moves with rfl | ⟨rfl, _⟩
    · exact hset
    · exact hset.frame rfl rfl rfl rfl rfl rfl
  | postFlush => exact hinv.core fun _ => ⟨.inl rfl, .inl rfl⟩
  | @spawn c _ hc hin hm =>
    refine switchInv_spawn hinv hbase hc hin rfl (fun hp => ?_) hm
    simpa [clean, hp] using hok
  | handler hi hin hm => exact switchInv_handler hinv hi hin rfl hm
  | worker hin hw =>
    unfold workerStep at hw
    split at hw
    · split at hw <;> cases hw
      exact hinv.frame rfl rfl rfl rfl rfl rfl
    case h_3 =>
      -- The snapshot core is not among those that are moved.
      cases hw
      have hset : SwitchInv cfg (s.loadCr3 snapshotCore s.pgrootSnapshot) :=
        hinv.core fun hmain => absurd hmain cfg.snapshot_not_main
      exact hset.frame rfl rfl rfl rfl rfl rfl
    all_goals cases hw
    all_goals exact hinv.frame rfl rfl rfl rfl rfl rfl
  | copier hc =>
    unfold copierStep at hc
    split at hc
    · split at hc <;> cases hc
      exact hinv.frame rfl rfl rfl rfl rfl rfl
    all_goals cases hc
    all_goals exact hinv.frame rfl rfl rfl rfl rfl rfl
  | clone _ _ _ | signalCopy | fault _ _ => exact hinv.frame rfl rfl rfl rfl rfl rfl
  | tlbReady | tlbAddr =>
    simp only [clean, Bool.and_eq_true, decide_eq_true_eq] at hok
    have hsent : ∀ q : SpawnPc, q.stage ≠ 3 → q.sent = [] := by
      intro q hq
      cases q <;> simp_all [SpawnPc.stage, SpawnPc.sent]
    refine hinv.setSlot hok.1 ?_ ?_ ?_
    · rw [hsent _ hok.2]
      simp
    · intro todo sent hpc
      exact absurd (by rw [hpc]; rfl) hok.2
    · intro todo sent hpc
      exact absurd (by rw [hpc]; rfl) hok.2

theorem switchInv_runsTo (h : (system cfg).RunsTo (fun s l => clean cfg s l = true) s) :
    SwitchInv cfg s :=
  System.invariant_when_using (fun _ h => baseInv_reachable h.reachable)
    (fun _ => switchInv_init) (fun _ _ _ hbase hinv => switchInv_step hinv hbase) h

/-- Main cores agree on the root of the most recent spawn. -/
structure RootAgreement (cfg : Config) (s : State) : Prop where
  /-- Each CR3 load by message or by posted request is of that root. -/
  message_root : ∀ i ∈ cfg.mains, ∀ again c buf, s.handler i = .load again c buf →
    (s.slot c i).newPgroot = s.pgroot
  posted_root : ∀ i ∈ cfg.mains, ∀ pv, (s.vcpu i).pc = .loading pv → changesCr3 pv = true →
    newCr3 pv = s.pgroot
  /-- The assertion holds in every message run. -/
  no_assert : ∀ i ∈ cfg.mains, s.handler i ≠ .asserted
  /-- After the switching loops guest code runs on that root, on the
      spawning core once it has loaded it. -/
  on_root : (∀ c, (s.spawn c).stage ≠ 2 ∧ (s.spawn c).stage ≠ 3) → ∀ i ∈ cfg.mains,
    ¬ (4 ≤ (s.spawn i).stage ∧ (s.spawn i).stage ≤ 7) → s.inGuest i = true →
    (s.vcpu i).guestCr3 = s.pgroot

/-- **Root switch agreement**: in every run in which a spawn publishes only
    when earlier ones are settled and arguments are not overwritten. -/
theorem switch_agreement (h : (system cfg).RunsTo (fun s l => clean cfg s l = true) s) :
    RootAgreement cfg s := by
  have hinv := switchInv_runsTo h
  have hbase := baseInv_reachable h.reachable
  refine ⟨?_, ?_, hinv.no_assert, ?_⟩
  · intro i hi again c buf hpc
    exact hinv.carried i hi c (msgs_of_handler hpc (by simp [HandlerPc.held]))
  · exact fun i hi pv hpc hch => hinv.requests i hi _ ((hbase.cores i).request_loading hpc hch)
  · intro hloops i hi hself hguest
    have hpc := inGuest_iff.1 hguest
    rw [← nextRoot_guest hpc]
    refine hinv.onRoot i hi fun c hb => ?_
    unfold SpawnPc.behind at hb
    split at hb
    · rename_i hst
      have hno := hloops c
      have hlists : (s.spawn c).unsent cfg = [] ∧ (s.spawn c).sent = [] := by
        cases hq : s.spawn c <;> rw [hq] at hno hst <;>
          simp_all [SpawnPc.stage, SpawnPc.unsent, SpawnPc.sent]
      rw [hlists.1, hlists.2, List.append_nil, List.mem_singleton] at hb
      subst hb
      exact hself ⟨by omega, hst.2⟩
    · cases hb

/-! ## Two main cores -/

/-- Core 0 and, as the copier, core 1. -/
def twoCores : Config where
  mains := [0, 1]
  copyCore := 1
  nodup := by decide
  snapshot_not_main := by decide

def boot : State where
  vcpu := fun _ => VmxLaunch.boot
  spawn := fun _ => .idle
  handler := fun _ => .off
  queued := fun _ _ => 0
  ipi := fun _ => false
  slot := fun _ _ => ⟨0#64, false⟩
  mutex := none
  pgroot := 0x1000#64
  pgrootSnapshot := 0#64
  shadow1 := 0#64
  shadow2 := 0#64
  func := false
  asyncCopyJob := false
  worker := .poll
  copier := .wait
  fault := fun _ => .idle
  moved := fun _ => true
  snapLoaded := false

theorem init_boot (cfg : Config) : Init cfg boot where
  vcpu := fun _ => ⟨rfl, rfl, fun _ => rfl, rfl, rfl⟩
  root := fun _ _ => rfl
  aligned := by decide
  spawn := fun _ => rfl
  handler := fun _ => rfl
  queued := fun _ _ => rfl
  mutex := rfl
  shadow1 := rfl
  shadow2 := rfl
  func := rfl
  worker := rfl
  copier := rfl
  fault := fun _ => rfl
  moved := fun _ => rfl
  snapLoaded := rfl

/-- Core `i` enters the guest, or leaves it. -/
def enter (i : Nat) : List Label :=
  [.vcpu i .checkEntry, .vcpu i .xchg, .vcpu i .incCount, .vcpu i .loadCr3, .vcpu i .vmEntry]

def leave (i : Nat) : List Label := [.vcpu i .vmExit, .vcpu i .checkExit, .vcpu i .casExit]

/-- All three cores run, and the copier makes the first shadow tables. -/
def started : List Label :=
  enter 0 ++ enter 1 ++ enter snapshotCore ++ [Label.signalCopy] ++ List.replicate 3 Label.copier ++
    [Label.clone 0x2000#64 0x3000#64, .copier, .copier]

/-- Core 0 publishes, queues a message for core 1, which is in the guest,
    and goes to wait for it. -/
def queueMessage : List Label := List.replicate 9 (.spawn 0)

/-- Core 1 handles its IPI. -/
def handle : List Label := List.replicate 12 (.handler 1)

/-- Core 0 leaves its loops, the worker runs a function, and the copier
    makes the next shadow tables. -/
def finishSpawn : List Label :=
  List.replicate 6 (Label.spawn 0) ++ List.replicate 4 Label.worker ++
    List.replicate 2 (Label.spawn 0) ++ List.replicate 4 Label.worker

def nextTables : List Label :=
  List.replicate 3 Label.copier ++ [Label.clone 0x4000#64 0x5000#64, .copier, .copier]

/-- Two spawns: core 1 is moved by a message first, by a request then. -/
theorem switch_agreement_two_spawns :
    ∃ s, (system twoCores).RunsTo (fun s l => clean twoCores s l = true) s ∧
      s.pgroot = 0x4000#64 ∧ s.inGuest 1 = true ∧ s.mutex = none ∧ RootAgreement twoCores s := by
  obtain ⟨s, hrun, hroot, hin, hmutex⟩ := (system twoCores).exists_runsTo (clean twoCores)
    (init_boot twoCores)
    (started ++ queueMessage ++ handle ++ [.spawn 0] ++ finishSpawn ++ nextTables ++ leave 1 ++
      List.replicate 6 (.spawn 0) ++ finishSpawn ++ enter 1)
    (fun t => t.pgroot = 0x4000#64 ∧ t.inGuest 1 = true ∧ t.mutex = none)
    (by decide +kernel)
  exact ⟨s, hrun, hroot, hin, hmutex, switch_agreement hrun⟩

/-- **Second message**: in the first spawn core 1 leaves the guest before it
    handles its IPI and is moved by a request, so that the message stays
    queued. The message of the second spawn has the same argument; the
    first of the two sets `done`, and the other finds it set. -/
theorem second_message_asserts :
    Init twoCores boot ∧
    ∃ s, (system twoCores).exec boot
      (started ++ queueMessage ++ leave 1 ++ List.replicate 3 (.spawn 0) ++ finishSpawn ++ enter 1 ++
        nextTables ++ queueMessage ++ List.replicate 8 (.handler 1)) = some s ∧
      ¬ RootAgreement twoCores s := by
  refine ⟨init_boot twoCores, ?_⟩
  refine (system twoCores).exists_exec_of (fun t => t.handler 1 = .asserted) (by decide +kernel) ?_
  intro s _ hs hagree
  exact hagree.no_assert 1 (by decide) hs

end RootSwitch
