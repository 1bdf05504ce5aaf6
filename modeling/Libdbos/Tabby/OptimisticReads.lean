import Mathlib.Data.List.Nodup
import Libdbos.Tabby.EvictorSteps

/-! # Optimistic Reads

    A `GuardO` is fresh as long as its page has stayed, with the version of
    the guard, in the frame where the guard found it; what is read through it
    is then what was there at its creation. Otherwise it is broken: nowhere is
    the page unlocked with that version, and so it cannot be validated.

    A broken guard stays broken only if its version does not come back. It
    does when a page is read from disk again without having been written, for
    then it has the version with which it was written last
    (`old_version_validates`); `freshVersion` excludes that. A guard must also
    be created where the entry points to, `createAtEntry`, for the same reason
    as a lock.
-/

open LTS

namespace Tabby

variable {α : Type} {cfg : Config α} {k : Facts} {m m' : Shared α} {s s' : State α}

variable {v : VmPageState}
  {a : Agent} {q : Touch} {t f g : Nat} {p : Pid} {γ : Guard α}

/-! ## Pages that are not locked -/

/-- What a resident frame of `p` after a change has been before: the same, or
    there was none and the page has been unlocked with the version that the
    frame has. -/
theorem Change.resident (h : Change cfg k m a q m') (hbase : Base cfg m)
    (hres : m'.owner g = .resident p) :
    (m.owner g = .resident p ∧ (m'.word g).version = (m.word g).version ∧
      (m'.frames g).data = (m.frames g).data) ∨
    (k.version p (m'.word g).version ∧ ∀ f, m.owner f ≠ .resident p) := by
  have hupdate : ∀ {f : Nat} {o : Owner} {x : Page α},
      m'.owner = Function.update m.owner f o → m'.frames = Function.update m.frames f x →
      o ≠ .resident p → (m.owner g = .resident p ∧ (m'.word g).version = (m.word g).version ∧
        (m'.frames g).data = (m.frames g).data) := by
    intro f o x howner hframes hne
    have hgf : g ≠ f := by
      rintro rfl
      rw [howner, Function.update_self] at hres
      exact hne hres
    rw [howner, Function.update_of_ne hgf] at hres
    rw [Shared.word, Shared.word, hframes, Function.update_of_ne hgf]
    exact ⟨hres, rfl, rfl⟩
  have hcontent : ∀ {f : Nat} {x : Page α},
      m'.owner = m.owner → m'.frames = Function.update m.frames f x →
      (m.owner f = .resident p →
        x.word.version = (m.word f).version ∧ x.data = (m.frames f).data) →
      (m.owner g = .resident p ∧ (m'.word g).version = (m.word g).version ∧
        (m'.frames g).data = (m.frames g).data) := by
    intro f x howner hframes hsame
    rw [howner] at hres
    refine ⟨hres, ?_⟩
    by_cases hgf : g = f
    · subst hgf
      rw [Shared.word, hframes, Function.update_self]
      exact hsame hres
    · rw [Shared.word, Shared.word, hframes, Function.update_of_ne hgf]
      exact ⟨rfl, rfl⟩
  cases h with
  | quiet | take | tlb | entry => exact .inl ⟨hres, rfl, rfl⟩
  | pop t r i f hlast =>
    refine .inl (hupdate (f := f) (x := m.frames f) rfl ?_ (by simp))
    simp [Shared.setOwner, Shared.setFree]
  | steal t i n | release e i done =>
    simp only [Shared.setOwners] at hres
    split at hres
    · cases hres
    · exact .inl ⟨hres, rfl, rfl⟩
  | refill t r i stolen f hlast =>
    have hgf : g ≠ f := by
      rintro rfl
      simp at hres
    simp only [Shared.setOwner, Shared.setOwners, Function.update_of_ne hgf] at hres
    split at hres
    · cases hres
    · exact .inl ⟨hres, rfl, rfl⟩
  | fill t r f x howner | modify t r f x howner =>
    exact .inl (hcontent (f := f) rfl rfl fun hf => by rw [howner] at hf; cases hf)
  | dirty t r f howner | clean e r f saved howner | unlockS t r f =>
    exact .inl (hcontent (f := f) rfl rfl fun _ => ⟨rfl, rfl⟩)
  | swap _ r f w howner haddr hversion =>
    exact .inl (hcontent (f := f) rfl rfl fun _ => ⟨hversion, rfl⟩)
  | lockS t r f w howner hframe hlock =>
    refine .inl (hcontent (f := f) rfl rfl fun _ => ⟨?_, rfl⟩)
    exact ((hbase.frameOk howner).2.2.lockS hlock t).2.1
  | initWord t r f | lockNew t r f | lockX t r f => exact .inl (hupdate rfl rfl (by simp))
  | evictLock e r f saved | invalidate e r f => exact .inl (hupdate rfl rfl (by simp))
  | diskWrite e r f saved =>
    refine .inl (hupdate (f := f) (x := m.frames f) rfl ?_ (by simp))
    simp [Shared.setOwner]
  | load t r f howner hknown habsent husr1 hpage haddr hversion =>
    by_cases hrp : r = p
    · subst hrp
      refine .inr ⟨?_, habsent.not_resident⟩
      have hgf : g = f := by
        by_contra hgf
        simp only [Shared.setOwner, Function.update_of_ne hgf] at hres
        exact habsent.not_resident g hres
      subst hgf
      simpa [Shared.word, Shared.setWord, Shared.setOwner] using hversion
    · exact .inl (hupdate rfl rfl (by simp [hrp]))
  | unlockX t r f howner hdirty hversion =>
    by_cases hrp : r = p
    · subst hrp
      have hnone : ∀ h, m.owner h ≠ .resident r :=
        hbase.not_resident (f := f) (by rw [howner]; rfl) (by rw [howner]; simp)
      refine .inr ⟨?_, hnone⟩
      have hgf : g = f := by
        by_contra hgf
        simp only [Shared.setLast, Shared.setOwner, Function.update_of_ne hgf] at hres
        exact hnone g hres
      subst hgf
      simpa [Shared.word, Shared.setWord, Shared.setOwner, Shared.setLast] using hversion
    · exact .inl (hupdate rfl rfl (by simp [hrp]))

/-! ## Guards and the pages they read -/

/-- Nothing has happened to the page since guard `γ` was created. -/
structure Fresh (m : Shared α) (γ : Guard α) : Prop where
  owner : m.owner (m.pte γ.page).frame = .resident γ.page
  version : (m.word (m.pte γ.page).frame).version = γ.version.version
  data : (m.frames (m.pte γ.page).frame).data = γ.created
  tlb : TlbOk m γ.thread γ.page
  reads : ∀ x ∈ γ.reads, x = γ.created

/-- The page is nowhere unlocked with the version of guard `γ`. -/
def Broken (m : Shared α) (γ : Guard α) : Prop :=
  ∀ f, m.owner f = .resident γ.page → (m.word f).version ≠ γ.version.version

theorem Change.fresh (h : Change cfg k m a q m') (hbase : Base cfg m) (hfresh : Fresh m γ) :
    Fresh m' γ ∨ Broken m' γ := by
  by_cases hres : ∃ f, m'.owner f = .resident γ.page
  · obtain ⟨f, hf⟩ := hres
    have hloaded : (m.owner (m.pte γ.page).frame).loaded = some γ.page := by
      rw [hfresh.owner]
      rfl
    have hframe := h.frame hloaded
    rcases h.resident hbase hf with ⟨howner, hversion, hdata⟩ | ⟨_, hnone⟩
    · have hfp : f = (m.pte γ.page).frame :=
        hbase.unique f _ γ.page (by rw [howner]; rfl) hloaded
      rw [hfp] at hf hversion hdata
      refine .inl ⟨?_, ?_, ?_, h.tlbOk hframe hfresh.tlb, hfresh.reads⟩ <;> rw [hframe]
      · exact hf
      · exact hversion.trans hfresh.version
      · exact hdata.trans hfresh.data
    · exact absurd hfresh.owner (hnone _)
  · exact .inr fun f hf => absurd ⟨f, hf⟩ hres

theorem Change.broken (h : Change cfg k m a q m') (hbase : Base cfg m) (hbroken : Broken m γ)
    (hnew : ∀ n, k.version γ.page n → γ.version.version ≠ n) : Broken m' γ := by
  intro f hf
  rcases h.resident hbase hf with ⟨howner, hversion, _⟩ | ⟨hk, _⟩
  · rw [hversion]
    exact hbroken f howner
  · exact (hnew _ hk).symm

/-! ## Guards and the threads that validate them -/

/-- A guard as the position of a thread knows it. -/
structure Link where
  guard : Nat
  page : Pid
  version : BitVec 20

def Guard.link (γ : Guard α) : Link := ⟨γ.id, γ.page, γ.version.version⟩

def Mode.upgrade : Mode → Option Upgrade
  | .exclusive up | .shared up => up
  | .optimistic | .allocate => none

/-- The guard that a thread is about to validate. -/
def Pc.link : Pc → Option Link
  | .look md p | .tested md p _ | .fault md p _ =>
      md.upgrade.map fun u => ⟨u.guard, p, u.version⟩
  | .clearCheck id v => some ⟨id, v.addr, v.version⟩
  | _ => none

/-- The guard of that name, if it is open, is one of thread `t` and is as in `x`. -/
structure Linked (s : State α) (t : Nat) (x : Link) : Prop where
  bound : x.guard < s.nextGuard
  guard : ∀ γ ∈ s.guards, γ.id = x.guard → γ.thread = t ∧ γ.link = x

structure GuardsOk (s : State α) : Prop where
  bound : ∀ γ ∈ s.guards, γ.id < s.nextGuard
  nodup : (s.guards.map Guard.id).Nodup
  links : ∀ t x, (s.threads t).pc.link = some x → Linked s t x
  version : ∀ γ ∈ s.guards, γ.version.addr = γ.page ∧ γ.version.state ≠ VmPageState.locked
  data : ∀ γ ∈ s.guards, Fresh s.toShared γ ∨ Broken s.toShared γ
  checks : ∀ c ∈ s.checks, ∀ x ∈ c.reads, x = c.created

/-- The page of the guard is unlocked somewhere with its version. -/
def Valid (m : Shared α) (γ : Guard α) : Prop :=
  ∃ f, m.owner f = .resident γ.page ∧ (m.word f).version = γ.version.version

theorem GuardsOk.reads (h : GuardsOk s) (hγ : γ ∈ s.guards) (hvalid : Valid s.toShared γ) :
    ∀ x ∈ γ.reads, x = γ.created := by
  obtain ⟨f, howner, hversion⟩ := hvalid
  rcases h.data γ hγ with hfresh | hbroken
  · exact hfresh.reads
  · exact absurd hversion (hbroken f howner)

/-- A word with the address and the version of a guard, not locked. -/
theorem Inv.valid (hinv : Inv cfg s) (hγ : γ ∈ s.guards) (haddr : (s.word f).addr = γ.page)
    (hstate : (s.word f).state ≠ VmPageState.locked)
    (hversion : (s.word f).version = γ.version.version) : Valid s.toShared γ :=
  ⟨f, resident_of_known hinv.base (hinv.guards γ hγ) haddr hstate, hversion⟩

/-! ## What a step does to guards -/

/-- The guards, the next name and the checks after a step from `s`. -/
inductive Effect (s : State α) : List (Guard α) → Nat → List (Check α) → Prop where
  | keep : Effect s s.guards s.nextGuard s.checks
  | opened (γ : Guard α) (hid : γ.id = s.nextGuard)
      (hversion : γ.version.addr = γ.page ∧ γ.version.state ≠ VmPageState.locked)
      (hfresh : Fresh s.toShared γ) :
      Effect s (γ :: s.guards) (s.nextGuard + 1) s.checks
  | read (γ : Guard α) (hγ : γ ∈ s.guards) : Effect s (s.readGuard γ).guards s.nextGuard s.checks
  | drop (id : Nat) : Effect s (s.dropGuard id).guards s.nextGuard s.checks
  | validated (id : Nat) (hvalid : ∀ γ, s.guard id = some γ → Valid s.toShared γ) :
      Effect s s.guards s.nextGuard (s.validate id).checks
  | upgraded (id : Nat) (hvalid : ∀ γ, s.guard id = some γ → Valid s.toShared γ) :
      Effect s (s.dropGuard id).guards s.nextGuard (s.validate id).checks

/-- A step, as far as it concerns guards. -/
structure Moves (s s' : State α) : Prop where
  effect : Effect s s'.guards s'.nextGuard s'.checks
  links : ∀ t x, (s'.threads t).pc.link = some x →
    (s.threads t).pc.link = some x ∨ ∃ γ ∈ s.guards, γ.thread = t ∧ γ.link = x

/-- A guard after a step is one from before it, apart from what has been
    read, or a new one. -/
theorem Effect.back {gs : List (Guard α)} {n : Nat} {cs : List (Check α)} (h : Effect s gs n cs)
    (hγ : γ ∈ gs) :
    (∃ δ ∈ s.guards, γ.id = δ.id ∧ γ.thread = δ.thread ∧ γ.page = δ.page ∧
      γ.version = δ.version) ∨
    (γ.id = s.nextGuard ∧ n = s.nextGuard + 1 ∧ γ.version.addr = γ.page ∧
      γ.version.state ≠ VmPageState.locked) := by
  have hold : ∀ γ ∈ s.guards, ∃ δ ∈ s.guards, γ.id = δ.id ∧ γ.thread = δ.thread ∧
      γ.page = δ.page ∧ γ.version = δ.version := fun γ hγ => ⟨γ, hγ, rfl, rfl, rfl, rfl⟩
  cases h with
  | keep => exact .inl (hold γ hγ)
  | validated id => exact .inl (hold γ hγ)
  | drop id => exact .inl (hold γ (List.mem_filter.1 hγ).1)
  | upgraded id => exact .inl (hold γ (List.mem_filter.1 hγ).1)
  | opened δ hid hversion =>
    rcases List.mem_cons.1 hγ with rfl | hγ
    · exact .inr ⟨hid, rfl, hversion⟩
    · exact .inl (hold γ hγ)
  | read δ _ =>
    obtain ⟨ε, hε, rfl⟩ := List.mem_map.1 hγ
    refine .inl ⟨ε, hε, ?_⟩
    split <;> exact ⟨rfl, rfl, rfl, rfl⟩

theorem Effect.next_le {gs : List (Guard α)} {n : Nat} {cs : List (Check α)}
    (h : Effect s gs n cs) : s.nextGuard ≤ n := by
  cases h <;> omega

theorem Effect.nodup {gs : List (Guard α)} {n : Nat} {cs : List (Check α)} (h : Effect s gs n cs)
    (hok : GuardsOk s) : (gs.map Guard.id).Nodup := by
  have hfilter : ∀ id, ((s.dropGuard id).guards.map Guard.id).Nodup := fun id =>
    hok.nodup.sublist (List.filter_sublist.map Guard.id)
  cases h with
  | keep | validated => exact hok.nodup
  | opened γ hid =>
    rw [List.map_cons, List.nodup_cons]
    refine ⟨?_, hok.nodup⟩
    intro hmem
    obtain ⟨δ, hδ, heq⟩ := List.mem_map.1 hmem
    have := hok.bound δ hδ
    omega
  | read γ =>
    have hsame : (s.readGuard γ).guards.map Guard.id = s.guards.map Guard.id := by
      rw [State.readGuard, List.map_map]
      refine List.map_congr_left ?_
      intro δ _
      simp only [Function.comp_apply]
      split <;> rfl
    rw [hsame]
    exact hok.nodup
  | drop id => exact hfilter id
  | upgraded id => exact hfilter id

theorem Effect.checks {gs : List (Guard α)} {n : Nat} {cs : List (Check α)} (h : Effect s gs n cs)
    (hok : GuardsOk s) : ∀ c ∈ cs, ∀ x ∈ c.reads, x = c.created := by
  have hvalidate : ∀ id, (∀ γ, s.guard id = some γ → Valid s.toShared γ) →
      ∀ c ∈ (s.validate id).checks, ∀ x ∈ c.reads, x = c.created := by
    intro id hvalid c hc
    unfold State.validate at hc
    split at hc
    · rename_i γ hγ
      rcases List.mem_cons.1 hc with rfl | hc
      · exact hok.reads (State.guard_mem hγ).1 (hvalid γ hγ)
      · exact hok.checks c hc
    · exact hok.checks c hc
  cases h with
  | keep | opened | read | drop => exact hok.checks
  | validated id hvalid => exact hvalidate id hvalid
  | upgraded id hvalid => exact hvalidate id hvalid

/-- What is read through a fresh guard is what was there when it was created. -/
theorem Fresh.read (h : Fresh m γ) :
    Fresh m { γ with reads := (m.frames (m.translate γ.thread γ.page)).data :: γ.reads } := by
  refine ⟨h.owner, h.version, h.data, h.tlb, ?_⟩
  intro x hx
  rcases List.mem_cons.1 hx with rfl | hx
  · rw [h.tlb.translate]
    exact h.data
  · exact h.reads x hx

/-- Every guard after a step was fresh or broken before it, or is fresh. -/
theorem Effect.data {gs : List (Guard α)} {n : Nat} {cs : List (Check α)} (h : Effect s gs n cs)
    (hok : GuardsOk s) (hγ : γ ∈ gs) : Fresh s.toShared γ ∨ Broken s.toShared γ ∧
      ∃ δ ∈ s.guards, γ.page = δ.page ∧ γ.version = δ.version := by
  have hold : ∀ γ ∈ s.guards, Fresh s.toShared γ ∨ Broken s.toShared γ ∧
      ∃ δ ∈ s.guards, γ.page = δ.page ∧ γ.version = δ.version := fun γ hγ =>
    (hok.data γ hγ).imp_right fun hb => ⟨hb, γ, hγ, rfl, rfl⟩
  cases h with
  | keep => exact hold γ hγ
  | validated => exact hold γ hγ
  | drop id => exact hold γ (List.mem_filter.1 hγ).1
  | upgraded id => exact hold γ (List.mem_filter.1 hγ).1
  | opened δ hid hversion hfresh =>
    rcases List.mem_cons.1 hγ with rfl | hγ
    · exact .inl hfresh
    · exact hold γ hγ
  | read δ hδ =>
    obtain ⟨ε, hε, rfl⟩ := List.mem_map.1 hγ
    by_cases hid : ε.id = δ.id
    · -- Names are unique, so this is the guard that reads.
      obtain rfl := List.inj_on_of_nodup_map hok.nodup hε hδ hid
      simp only [beq_self_eq_true, if_true]
      exact (hold ε hε).imp (fun hf => hf.read) fun hb => hb
    · simp only [beq_iff_eq, hid, if_false]
      exact hold ε hε

/-- **A step keeps what is known about guards**, if no page is unlocked with
    the version of a guard. -/
theorem Moves.guardsOk {l : Label α} (h : Moves s s') (hok : GuardsOk s)
    (hbase : Base cfg s.toShared)
    (hchange : Change cfg (facts s l) s.toShared a q s'.toShared)
    (hversion : freshVersion s l = true) : GuardsOk s' := by
  have hnext := h.effect.next_le
  refine ⟨?_, h.effect.nodup hok, ?_, ?_, ?_, h.effect.checks hok⟩
  · intro γ hγ
    rcases h.effect.back hγ with ⟨δ, hδ, hid, _⟩ | ⟨hid, hn, _⟩
    · have := hok.bound δ hδ
      omega
    · omega
  · intro t x hx
    have hlinked : Linked s t x := by
      rcases h.links t x hx with hx | ⟨γ, hγ, hthread, rfl⟩
      · exact hok.links t x hx
      · refine ⟨hok.bound γ hγ, ?_⟩
        intro δ hδ hid
        obtain rfl := List.inj_on_of_nodup_map hok.nodup hδ hγ hid
        exact ⟨hthread, rfl⟩
    have hbound := hlinked.bound
    refine ⟨by omega, ?_⟩
    intro γ hγ hid
    rcases h.effect.back hγ with ⟨δ, hδ, hid', hthread, hpage, hv⟩ | ⟨hid', _⟩
    · obtain ⟨ht, hl⟩ := hlinked.guard δ hδ (hid'.symm.trans hid)
      refine ⟨hthread.trans ht, ?_⟩
      rw [← hl, Guard.link, Guard.link, hid', hpage, hv]
    · omega
  · intro γ hγ
    rcases h.effect.back hγ with ⟨δ, hδ, _, _, hpage, hv⟩ | ⟨_, _, hv⟩
    · rw [hpage, hv]
      exact hok.version δ hδ
    · exact hv
  · intro γ hγ
    rcases h.effect.data hok hγ with hfresh | ⟨hbroken, δ, hδ, hpage, hv⟩
    · exact hchange.fresh hbase hfresh
    · refine .inr (hchange.broken hbase hbroken ?_)
      intro n hn
      have hnew := List.all_eq_true.1 (hn hversion) δ hδ
      simp only [hpage, ne_eq, not_true, decide_false, Bool.false_or, decide_eq_true_eq] at hnew
      rw [hv]
      exact hnew

/-! ## Steps -/

theorem links_update {y : Thread} (hthreads : s'.threads = Function.update s.threads t y)
    (hy : ∀ x, y.pc.link = some x →
      (s.threads t).pc.link = some x ∨ ∃ γ ∈ s.guards, γ.thread = t ∧ γ.link = x) :
    ∀ u x, (s'.threads u).pc.link = some x →
      (s.threads u).pc.link = some x ∨ ∃ γ ∈ s.guards, γ.thread = u ∧ γ.link = x := by
  intro u x hx
  rw [hthreads] at hx
  by_cases hut : u = t
  · subst hut
    rw [Function.update_self] at hx
    exact hy x hx
  · rw [Function.update_of_ne hut] at hx
    exact .inl hx

/-- The position goes on with the same guard, or with none. -/
theorem Moves.goto {y : Thread} (heffect : Effect s s'.guards s'.nextGuard s'.checks)
    (hthreads : s'.threads = Function.update s.threads t y)
    (hy : y.pc.link = none ∨ y.pc.link = (s.threads t).pc.link) : Moves s s' := by
  refine ⟨heffect, links_update hthreads ?_⟩
  intro x hx
  rcases hy with hnone | hsame
  · rw [hnone] at hx
    cases hx
  · exact .inl (hsame ▸ hx)

theorem Moves.idle (heffect : Effect s s'.guards s'.nextGuard s'.checks)
    (hthreads : s'.threads = s.threads) : Moves s s' := by
  refine ⟨heffect, ?_⟩
  intro t x hx
  rw [hthreads] at hx
  exact .inl hx

theorem fault_moves {md : Mode} {pc : FaultPc} (hx : (s.threads t).pc = .fault md p pc)
    (hstep : faultStep cfg s t md p pc = some s') : Moves s s' := by
  have hnext : ∀ (m' : Shared α) (pc' : FaultPc), Moves s ((s.put m').goto t (.fault md p pc')) :=
    fun m' pc' => Moves.goto .keep rfl (.inr (by rw [hx]; rfl))
  cases pc with
  | load | flush _ | check _ | read _ _ | unlock _ | unlocked _ _ | store _ | zero _ _ =>
    cases hstep
    exact hnext _ _
  | lock old =>
    simp only [faultStep] at hstep
    split at hstep <;> cases hstep <;> exact hnext _ _
  | alloc old =>
    simp only [faultStep] at hstep
    split at hstep
    · cases hstep
      exact hnext _ _
    · split at hstep <;> cases hstep <;> exact hnext _ _
  | steal old => cases hstep
  | refill old stolen =>
    simp only [faultStep] at hstep
    split at hstep <;> cases hstep
    exact hnext _ _
  | verify f =>
    cases hstep
    split
    · exact hnext _ _
    · exact Moves.goto .keep rfl (.inl rfl)
  | done =>
    cases hstep
    split
    · exact Moves.goto .keep rfl (.inl rfl)
    · exact Moves.goto .keep rfl (.inr (by rw [hx]; rfl))

/-- A guard that is created where the entry of its page points to. -/
theorem Inv.opened (hinv : Inv cfg s) (hknown : s.known p = true)
    (haddr : (s.word (s.translate t p)).addr = p)
    (hstate : (s.word (s.translate t p)).state ≠ VmPageState.locked)
    (hentry : s.translate t p = (s.pte p).frame)
    (hv : v.addr = p ∧ v.state ≠ VmPageState.locked ∧ v.version =
    (s.word (s.translate t p)).version) :
    Effect s (s.openGuard t p v (s.translate t p)).guards (s.nextGuard + 1) s.checks := by
  refine .opened _ rfl ⟨hv.1, hv.2.1⟩ ?_
  rw [hentry] at haddr hstate hv ⊢
  refine ⟨resident_of_known hinv.base hknown haddr hstate, hv.2.2.symm, rfl, ?_, by simp⟩
  intro f hf
  have htranslate : s.translate t p = f := by rw [Shared.translate, hf, Option.getD_some]
  exact htranslate.symm.trans hentry

theorem look_moves (hinv : Inv cfg s) {md : Mode} (hx : (s.threads t).pc = .look md p)
    (hcreate : createAtEntry s (.thread t) = true) :
    Moves s (lookStep s t md p (s.word (s.translate t p)) (s.translate t p)) := by
  have hknown : s.known p = true := (hinv.pcOk hx).1
  unfold lookStep
  split
  · rename_i haddr
    split
    · split
      · exact Moves.goto .keep rfl (.inl rfl)
      · split
        · exact Moves.goto .keep rfl (.inl rfl)
        · rename_i hstate
          rw [not_or] at hstate
          have hentry : s.translate t p = (s.pte p).frame := by
            simpa [createAtEntry, hx, haddr] using hcreate
          exact Moves.goto (hinv.opened hknown haddr hstate.1 hentry ⟨haddr, hstate.1, rfl⟩) rfl
            (.inl rfl)
    · exact Moves.goto .keep rfl (.inr (by rw [hx]; rfl))
  · exact Moves.goto .keep rfl (.inr (by rw [hx]; rfl))

/-- An upgrade that is given up. -/
theorem giveUp_moves (up : Option Upgrade) : Moves s ((s.giveUp up).goto t .run) := by
  cases up with
  | none => exact Moves.goto .keep rfl (.inl rfl)
  | some u => exact Moves.goto (.drop u.guard) rfl (.inl rfl)

/-- An upgrade that succeeds finds the page with the version of the guard. -/
theorem GuardsOk.upgraded (hok : GuardsOk s) (hinv : Inv cfg s) {md : Mode}
    (hx : (s.threads t).pc = .tested md p v) (hup : restarts md.upgrade v = false)
    (hword : s.word (s.translate t p) = v) (hstate : v.state ≠ VmPageState.locked) :
    Effect s (s.upgraded md.upgrade).guards (s.upgraded md.upgrade).nextGuard
      (s.upgraded md.upgrade).checks := by
  have haddr : v.addr = p := (hinv.pcOk hx).2.2.1
  cases hmd : md.upgrade with
  | none => exact .keep
  | some u =>
    rw [hmd] at hup
    have hversion : u.version = v.version := by simpa [restarts] using hup
    have hguards : (s.upgraded (some u)).guards = (s.dropGuard u.guard).guards := by
      simp only [State.upgraded, State.dropGuard, State.validate_keeps]
    rw [(s.upgraded_keeps _).2.2.2.2, hguards]
    refine .upgraded u.guard ?_
    intro γ hγ
    obtain ⟨hmem, hid⟩ := State.guard_mem hγ
    have hlink : (s.threads t).pc.link = some ⟨u.guard, p, u.version⟩ := by
      rw [hx, Pc.link, hmd]
      rfl
    obtain ⟨_, hlinked⟩ := (hok.links t _ hlink).guard γ hmem hid
    have hpage : γ.page = p := congrArg Link.page hlinked
    have hv : γ.version.version = u.version := congrArg Link.version hlinked
    rw [← hword] at haddr hstate hversion
    exact hinv.valid hmem (haddr.trans hpage.symm) hstate (hversion.symm.trans hv.symm)

theorem tryLockX_moves (hok : GuardsOk s) (hinv : Inv cfg s) {up : Option Upgrade}
    (hx : (s.threads t).pc = .tested (.exclusive up) p v) (hup : restarts up v = false)
    (hlock : v.lockable = true) :
    Moves s (s.tryLockX t up p v) := by
  have hstate : v.state ≠ VmPageState.locked := by
    intro h
    rw [VmPageState.lockable, h] at hlock
    cases hlock
  simp only [State.tryLockX]
  split
  · rename_i hword
    refine Moves.goto (hok.upgraded hinv hx hup hword hstate)
      (congrArg (Function.update · t _) (State.upgraded_keeps ..).2.1) (.inl ?_)
    rfl
  · exact Moves.goto .keep rfl (.inr (by rw [hx]; rfl))

theorem tryLockS_moves (hok : GuardsOk s) (hinv : Inv cfg s) {up : Option Upgrade}
    {w : VmPageState} (hx : (s.threads t).pc = .tested (.shared up) p v)
    (hup : restarts up v = false) (hlock : v.lockS = some w) :
    Moves s (s.tryLockS t up p v w) := by
  have hstate : v.state ≠ VmPageState.locked := by
    intro h
    rw [VmPageState.lockS, h] at hlock
    cases hlock
  simp only [State.tryLockS]
  split
  · rename_i hword
    refine Moves.goto (hok.upgraded hinv hx hup hword hstate)
      (congrArg (Function.update · t _) (State.upgraded_keeps ..).2.1) (.inl ?_)
    rfl
  · split
    · exact giveUp_moves up
    · exact Moves.goto .keep rfl (.inr (by rw [hx]; rfl))

theorem tryClear_moves (hinv : Inv cfg s) (hx : (s.threads t).pc = .tested .optimistic p v)
    (hcreate : createAtEntry s (.thread t) = true) : Moves s (s.tryClear t p v) := by
  obtain ⟨hknown, _, haddr, hmarked⟩ := hinv.pcOk hx
  simp only [State.tryClear]
  split
  · rename_i hword
    have hentry : s.translate t p = (s.pte p).frame := by
      simpa [createAtEntry, hx, hword] using hcreate
    have hstate : v.state ≠ VmPageState.locked := by
      rw [hmarked rfl]
      decide
    have hclear : v.clearMark.state ≠ VmPageState.locked := by
      show VmPageState.unlocked ≠ VmPageState.locked
      decide
    have heffect := hinv.opened (v := v.clearMark) hknown (by rw [hword]; exact haddr)
      (by rw [hword]; exact hstate) hentry ⟨haddr, hclear, by rw [hword]; rfl⟩
    exact Moves.goto heffect rfl (.inl rfl)
  · exact Moves.goto .keep rfl (.inl rfl)

theorem tested_moves (hok : GuardsOk s) (hinv : Inv cfg s) {md : Mode}
    (hx : (s.threads t).pc = .tested md p v) (hcreate : createAtEntry s (.thread t) = true) :
    Moves s (testedStep s t md p v) := by
  have hagain : Moves s (s.goto t (.look md p)) := Moves.goto .keep rfl (.inr (by rw [hx]; rfl))
  unfold testedStep
  split
  · rename_i up
    split
    · exact giveUp_moves up
    · rename_i hup
      split
      · rename_i hlock
        exact tryLockX_moves hok hinv hx (Bool.eq_false_iff.2 hup) hlock
      · exact hagain
  · rename_i up
    split
    · exact giveUp_moves up
    · rename_i hup
      split
      · rename_i w hlock
        exact tryLockS_moves hok hinv hx (Bool.eq_false_iff.2 hup) hlock
      · split
        · exact giveUp_moves up
        · exact hagain
  · exact tryClear_moves hinv hx hcreate
  · exact absurd rfl (hinv.pcOk hx).2.1

/-- The validation of a guard. -/
theorem validate_effect (id : Nat) (hvalid : ∀ γ, s.guard id = some γ → Valid s.toShared γ) :
    Effect s (s.validate id).guards (s.validate id).nextGuard (s.validate id).checks := by
  simp only [State.validate_keeps]
  exact .validated id hvalid

/-- The mark of the page is cleared, and the guard is validated. -/
theorem clearCheck_moves (hok : GuardsOk s) (hinv : Inv cfg s) {id : Nat}
    (hx : (s.threads t).pc = .clearCheck id v) (hγ : s.guard id = some γ)
    (hword : s.word (s.translate t γ.page) = v) (m' : Shared α) :
    Moves s (((s.validate id).put m').goto t .run) := by
  refine Moves.goto (validate_effect _ ?_)
    (congrArg (Function.update · t _) (State.validate_keeps ..).2.1) (.inl ?_)
  · intro δ hδ
    obtain ⟨hmem, hid⟩ := State.guard_mem hδ
    obtain rfl : γ = δ := Option.some.inj (hγ.symm.trans hδ)
    obtain ⟨_, hlinked⟩ := (hok.links t ⟨id, v.addr, v.version⟩ (by rw [hx]; rfl)).guard γ hmem hid
    have hpage : γ.page = v.addr := congrArg Link.page hlinked
    have hversion : γ.version.version = v.version := congrArg Link.version hlinked
    have hmarked : v.state = VmPageState.marked := hinv.pcOk hx
    rw [← hword] at hpage hversion hmarked
    exact hinv.valid hmem hpage.symm (by rw [hmarked]; decide) hversion.symm
  · rfl

theorem thread_moves (hok : GuardsOk s) (hinv : Inv cfg s)
    (hcreate : createAtEntry s (.thread t) = true) (hstep : threadStep cfg s t = some s') :
    Moves s s' := by
  have hrun : ∀ (m' : Shared α) (y : Thread), y.pc.link = none →
      Moves s ((s.put m').setThread t y) := fun m' y hy => Moves.goto .keep rfl (.inl hy)
  cases hx : (s.threads t).pc with
  | run | exited _ | construct _ =>
    simp only [threadStep, hx] at hstep
    cases hstep
  | look md p =>
    simp only [threadStep, hx] at hstep
    cases hstep
    exact look_moves hinv hx hcreate
  | tested md p v =>
    simp only [threadStep, hx] at hstep
    cases hstep
    exact tested_moves hok hinv hx hcreate
  | fault md p pc =>
    simp only [threadStep, hx] at hstep
    exact fault_moves hx hstep
  | initWord p | loadWord p | setDirty p f | unlockX p v | reloadS p =>
    simp only [threadStep, hx] at hstep
    cases hstep
    exact hrun _ _ rfl
  | lockNew p v | unlockS p v =>
    simp only [threadStep, hx] at hstep
    split at hstep <;> cases hstep <;> exact hrun _ _ rfl
  | clearCheck id v =>
    simp only [threadStep, hx] at hstep
    split at hstep
    · rename_i γ hγ
      split at hstep
      · rename_i hword
        cases hstep
        exact clearCheck_moves hok hinv hx hγ hword _
      · cases hstep
        exact Moves.goto (.drop id) rfl (.inl rfl)
    · cases hstep

/-- A guard is validated at once when its page is found unlocked, or with
    readers, under its version. -/
theorem check_moves (hok : GuardsOk s) (hinv : Inv cfg s) (hγ : s.guard γ.id = some γ)
    (hword : s.word f = v) : Moves s (checkStep s γ v) := by
  obtain ⟨hmem, _⟩ := State.guard_mem hγ
  have hvalidate : v.addr = γ.page → v.state ≠ VmPageState.locked →
      v.version = γ.version.version → Moves s (s.validate γ.id) := by
    intro haddr hstate hversion
    refine Moves.idle (validate_effect _ ?_) (State.validate_keeps ..).2.1
    intro δ hδ
    obtain rfl : γ = δ := Option.some.inj (hγ.symm.trans hδ)
    rw [← hword] at haddr hstate hversion
    exact hinv.valid hmem haddr hstate hversion
  have hdrop : Moves s (s.dropGuard γ.id) := Moves.idle (.drop γ.id) rfl
  unfold checkStep
  split
  · rename_i hv
    obtain ⟨haddr, hstate⟩ := hok.version γ hmem
    exact hvalidate (hv ▸ haddr) (hv ▸ hstate) (hv ▸ rfl)
  · split
    · rename_i hv
      obtain ⟨haddr, hversion⟩ := hv
      split
      · rename_i hle
        refine hvalidate haddr ?_ hversion
        intro hlocked
        rw [hlocked] at hle
        exact absurd hle (by decide)
      · split
        · refine ⟨.keep, links_update rfl ?_⟩
          intro x hx
          refine .inr ⟨γ, hmem, rfl, ?_⟩
          rw [Guard.link, ← haddr, ← hversion]
          exact Option.some.inj hx
        · exact hdrop
    · exact hdrop

theorem upgrade_moves {id : Nat} {mode : Option Upgrade → Mode}
    (hmode : ∀ up, (mode up).upgrade = up) (hstep : upgradeStep s id mode = some s') :
    Moves s s' := by
  unfold upgradeStep at hstep
  split at hstep
  · rename_i γ hγ
    obtain ⟨hmem, rfl⟩ := State.guard_mem hγ
    split at hstep
    · cases hstep
      refine ⟨.keep, links_update rfl ?_⟩
      intro x hx
      simp only [Pc.link, hmode, Option.map_some] at hx
      exact .inr ⟨γ, hmem, rfl, Option.some.inj hx⟩
    · cases hstep
  · cases hstep

theorem evict_moves {e : Nat} (hstep : evictStep cfg s e = some s') : Moves s s' := by
  have hset : ∀ (m' : Shared α) (n : Nat) (pc : EvictPc),
      Moves s (({ s with clockPos := n }.put m').setEvictor e pc) :=
    fun _ _ _ => Moves.idle .keep rfl
  cases hpc : s.evictors e with
  | idle =>
    simp only [evictStep, hpc] at hstep
    cases hstep
  | scan c =>
    simp only [evictStep, hpc] at hstep
    split at hstep
    · cases hstep
      exact hset _ _ _
    · split at hstep
      · cases hstep
        exact hset _ _ _
      · split at hstep <;> cases hstep
        exact hset _ _ _
  | looked v c | dirty v c | prep f todo pending toEvict toWrite | release done
  | invalStore f v todo done =>
    simp only [evictStep, hpc] at hstep
    cases hstep
    exact hset _ _ _
  | lock v c | mark v c | relock f v todo kept toWrite =>
    simp only [evictStep, hpc] at hstep
    split at hstep <;> cases hstep <;> exact hset _ _ _
  | clean todo pending toEvict toWrite | inval todo done | relook todo kept toWrite =>
    cases todo <;> simp only [evictStep, hpc] at hstep <;> cases hstep <;> exact hset _ _ _
  | write pending toEvict toWrite =>
    cases pending with
    | nil =>
      simp only [evictStep, hpc] at hstep
      cases hstep
      exact hset _ _ _
    | cons _ _ =>
      simp only [evictStep, hpc] at hstep
      cases hstep

/-- **One step**, for guards. -/
theorem step_moves (hok : GuardsOk s) (hinv : Inv cfg s) {l : Label α}
    (hcreate : createAtEntry s l = true) (hstep : step cfg s l = some s') : Moves s s' := by
  cases l with
  | fix t md p =>
    simp only [step] at hstep
    split at hstep
    · rename_i h
      cases hstep
      refine Moves.goto .keep rfl (.inl ?_)
      rcases h.2.2 with rfl | rfl | rfl <;> rfl
    · cases hstep
  | upgradeX id => exact upgrade_moves (fun _ => rfl) hstep
  | upgradeS id => exact upgrade_moves (fun _ => rfl) hstep
  | allocPage t p | construct t x setsDirty | unfixX t p | unfixS t p =>
    simp only [step] at hstep
    split at hstep
    · cases hstep
      exact Moves.goto .keep rfl (.inl rfl)
    · cases hstep
  | thread t => exact thread_moves hok hinv hcreate hstep
  | steal t i =>
    simp only [step] at hstep
    split at hstep
    · rename_i md p old hx
      split at hstep
      · cases hstep
      · cases hstep
        exact Moves.goto .keep rfl (.inr (by rw [hx]; rfl))
    · cases hstep
  | modify t p x | tlbFill t p | startEvict e =>
    simp only [step] at hstep
    split at hstep
    · cases hstep
      exact Moves.idle .keep rfl
    · cases hstep
  | readO id =>
    simp only [step] at hstep
    split at hstep
    · rename_i γ hγ
      split at hstep
      · cases hstep
        exact Moves.idle (.read γ (State.guard_mem hγ).1) rfl
      · cases hstep
    · cases hstep
  | checkO id =>
    simp only [step] at hstep
    split at hstep
    · rename_i γ hγ
      split at hstep
      · cases hstep
        obtain ⟨_, rfl⟩ := State.guard_mem hγ
        exact check_moves hok hinv hγ rfl
      · cases hstep
    · cases hstep
  | dropO id =>
    simp only [step] at hstep
    split at hstep
    · split at hstep
      · cases hstep
        exact Moves.idle (.drop id) rfl
      · cases hstep
    · cases hstep
  | tlbDrop t p =>
    cases hstep
    exact Moves.idle .keep rfl
  | evict e => exact evict_moves hstep
  | diskWrite e f p =>
    simp only [step] at hstep
    split at hstep
    · split at hstep
      · cases hstep
        exact Moves.idle .keep rfl
      · cases hstep
    · cases hstep

/-! ## Runs -/

theorem guardsOk_init (h : Init cfg s) : GuardsOk s := by
  have hnone : ∀ γ, γ ∉ s.guards := by
    rw [h.guards]
    simp
  refine ⟨fun γ hγ => absurd hγ (hnone γ), by rw [h.guards]; exact List.nodup_nil, ?_,
    fun γ hγ => absurd hγ (hnone γ), fun γ hγ => absurd hγ (hnone γ), ?_⟩
  · intro t x hx
    rw [h.threads t] at hx
    cases hx
  · rw [h.checks]
    simp

/-- Locks and marks are sound, guards are created where entries point to, and
    no page is unlocked under the version of a guard. -/
def optimistic (s : State α) (l : Label α) : Bool :=
  sound s l && createAtEntry s l && freshVersion s l

theorem guardsOk_of_runsTo (h : (system cfg).RunsTo (fun s l => optimistic s l = true) s) :
    GuardsOk s := by
  have hinv : ∀ s, (system cfg).RunsTo (fun s l => optimistic s l = true) s → Inv cfg s := by
    intro s hs
    refine inv_of_runsTo (hs.mono ?_)
    intro s l hl
    simp only [optimistic, Bool.and_eq_true] at hl
    exact hl.1.1
  refine System.invariant_when_using hinv (fun _ => guardsOk_init) ?_ h
  intro s l s' hinv hok hl hstep
  simp only [optimistic, sound, Bool.and_eq_true] at hl
  obtain ⟨⟨⟨hlock, hmark⟩, hcreate⟩, hversion⟩ := hl
  obtain ⟨_, hstepOk⟩ := step_ok hinv hlock hmark hstep
  obtain ⟨_, hchange⟩ := hstepOk.change
  exact (step_moves hok hinv hcreate hstep).guardsOk hok hinv.base hchange hversion

/-- **Optimistic reads are sound**: in every run under `optimistic`, whatever
    was read through a guard that was validated, or upgraded, is what was in
    its page when it was created. -/
theorem validated_reads (h : (system cfg).RunsTo (fun s l => optimistic s l = true) s)
    {c : Check α} {x : α} (hc : c ∈ s.checks) (hx : x ∈ c.reads) : x = c.created :=
  (guardsOk_of_runsTo h).checks c hc x hx

/-- Thread 1 reads page 5 and validates its guard, while the page has been
    marked. -/
theorem validated_reads_marked :
    ∃ s : State Nat, (system (small true 1)).RunsTo (fun s l => optimistic s l = true) s ∧
      ∃ c ∈ s.checks, ∃ x ∈ c.reads, x = 3 ∧ x = c.created := by
  obtain ⟨s, hrun, c, hc, x, hx, h3⟩ := (system (small true 1)).exists_runsTo optimistic
    (init_boot (small true 1))
    (create 0 5#36 3 ++ [.fix 1 .optimistic 5#36, .thread 1, .readO 0, .startEvict 0] ++
      evictSteps 4 0 ++ [.checkO 0, .thread 1])
    (fun s => ∃ c ∈ s.checks, ∃ x ∈ c.reads, x = 3) (by decide +kernel)
  exact ⟨s, hrun, c, hc, x, hx, h3, validated_reads hrun hc hx⟩

/-- **An old version validates**: thread 1 has a guard on page 5, which was
    loaded from disk and not written since. The page is evicted, page 6 takes
    its frame, and thread 1 reads the data of page 6. Then page 5 is loaded
    again, from the same place on disk and so with the same version, and the
    guard is validated. -/
theorem old_version_validates :
    Init (small true 1) (boot (small true 1)) ∧
    ∃ s, (system (small true 1)).exec (boot (small true 1))
      (create 0 5#36 1 ++ writeOut 0 0 5#36 13 ++ reload 0 5#36 ++
        [.fix 1 .optimistic 5#36, .thread 1, .startEvict 0] ++ evictSteps 18 0 ++
        create 0 6#36 2 ++ [.readO 0] ++ writeOut 0 0 6#36 13 ++ reload 0 5#36 ++
        [.checkO 0]) = some s ∧
      ∃ c ∈ s.checks, c.created = 1 ∧ c.reads = [2] := by
  refine ⟨init_boot _, ?_⟩
  exact (system (small true 1)).exists_exec _ _ _ (by decide +kernel)

end Tabby
