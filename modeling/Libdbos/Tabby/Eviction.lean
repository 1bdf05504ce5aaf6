import Libdbos.Tabby.EvictorSteps

/-! # Eviction Loses No Update

    What the last exclusive holder has left in a page is in the frame of the
    page, or on disk once the page is in no frame. A page that is clean is
    also on disk, so it may be dropped: an evictor drops what it has seen
    clean when the clock came to it, if the page is still *marked* later. A
    page that has been written to in between, and marked again by another
    round, is lost (`update_lost`); `relockClean` excludes that.
-/

open LTS

namespace Tabby

variable {α : Type} {cfg : Config α} {k : Facts} {m m' : Shared α} {s s' : State α}
  {a : Agent} {q : Touch} {t e f g : Nat} {p r : Pid}

/-! ## Data -/

/-- `x` is what the last exclusive holder of `p` has left, if there was one. -/
def Current (last : Pid → Option α) (p : Pid) (x : α) : Prop := ∀ d, last p = some d → x = d

/-- The place of `p` on disk holds the page with data `x`. -/
structure Stored (disk : Pid → Page α) (p : Pid) (x : α) : Prop where
  addr : (disk p).word.addr = p
  state : (disk p).word.state = VmPageState.locked
  data : (disk p).data = x

/-- What the owner of a frame says about its data. -/
def FrameData (m : Shared α) (x : Page α) : Owner → Prop
  | .resident p => Current m.last p x.data ∧ (x.dirty = false → Stored m.disk p x.data)
  | .evicting _ p saved => Current m.last p x.data ∧ (saved = true → Stored m.disk p x.data)
  | _ => True

structure DataOk (m : Shared α) : Prop where
  frame : ∀ f, FrameData m (m.frames f) (m.owner f)
  absent : ∀ p, m.known p = true → Absent m p → ∃ x, Stored m.disk p x ∧ Current m.last p x

theorem DataOk.of_owner (h : DataOk m) {o : Owner} (ho : m.owner f = o) :
    FrameData m (m.frames f) o := by
  have hf := h.frame f
  rwa [ho] at hf

theorem Current.congr {last last' : Pid → Option α} {x : α} (h : Current last p x)
    (hlast : last' p = last p) : Current last' p x := by
  unfold Current
  rw [hlast]
  exact h

theorem Stored.congr {disk disk' : Pid → Page α} {x : α} (h : Stored disk p x)
    (hdisk : disk' p = disk p) : Stored disk' p x := by
  obtain ⟨haddr, hstate, hdata⟩ := h
  constructor <;> rw [hdisk] <;> assumption

/-- Nothing is said about frames without an unlocked page or a victim. -/
def Owner.silent : Owner → Prop
  | .resident _ | .evicting _ _ _ => False
  | _ => True

theorem frameData_of_silent {x : Page α} {o : Owner} (h : o.silent) : FrameData m x o := by
  cases o <;> cases h <;> trivial

theorem FrameData.congr {x x' : Page α} {o : Owner} (h : FrameData m x o)
    (hdata : x'.data = x.data) (hdirty : x'.dirty = x.dirty)
    (hsame : ∀ p, o.loaded = some p → m'.last p = m.last p ∧ m'.disk p = m.disk p) :
    FrameData m' x' o := by
  cases o with
  | resident p =>
    obtain ⟨hlast, hdisk⟩ := hsame p rfl
    refine ⟨by rw [hdata]; exact h.1.congr hlast, ?_⟩
    rw [hdata, hdirty]
    exact fun hd => (h.2 hd).congr hdisk
  | evicting e p saved =>
    obtain ⟨hlast, hdisk⟩ := hsame p rfl
    refine ⟨by rw [hdata]; exact h.1.congr hlast, ?_⟩
    rw [hdata]
    exact fun hd => (h.2 hd).congr hdisk
  | _ => trivial

/-! ## One change -/

/-- A change that does not concern the data of pages: what it does to frames
    happens where nothing is said, or spares data and dirty flag. -/
theorem DataOk.spared (h : DataOk m) (hdisk : m'.disk = m.disk) (hlast : m'.last = m.last)
    (hframe : ∀ f, (m'.owner f).silent ∨ m'.owner f = m.owner f ∧
      (m'.frames f).data = (m.frames f).data ∧ (m'.frames f).dirty = (m.frames f).dirty)
    (habsent : ∀ p, m'.known p = true → Absent m' p → m.known p = true ∧ Absent m p) :
    DataOk m' := by
  constructor
  · intro f
    rcases hframe f with hsilent | ⟨howner, hdata, hdirty⟩
    · exact frameData_of_silent hsilent
    · rw [howner]
      refine (h.frame f).congr hdata hdirty ?_
      intro p _
      rw [hdisk, hlast]
      exact ⟨rfl, rfl⟩
  · intro p hknown ha
    rw [hdisk, hlast]
    obtain ⟨hknown, ha⟩ := habsent p hknown ha
    exact h.absent p hknown ha

/-- A change of one frame, and of what is said about one page. -/
theorem DataOk.oneFrame (h : DataOk m) (hbase : Base cfg m)
    (hframes : ∀ g, g ≠ f → m'.frames g = m.frames g)
    (howner : ∀ g, g ≠ f → m'.owner g = m.owner g)
    (hother : ∀ r, r ≠ p → m'.last r = m.last r ∧ m'.disk r = m.disk r)
    (hpage : (m.owner f).loaded = some p ∨ Absent m p ∧ (m.owner f).loaded = none)
    (hknown : m'.known = m.known) (hf : FrameData m' (m'.frames f) (m'.owner f))
    (habsent : (m'.owner f).loaded = some p ∨
      ∃ x, Stored m'.disk p x ∧ Current m'.last p x) : DataOk m' := by
  constructor
  · intro g
    by_cases hgf : g = f
    · rw [hgf]
      exact hf
    · rw [hframes g hgf, howner g hgf]
      refine (h.frame g).congr rfl rfl ?_
      intro r hr
      refine hother r ?_
      rintro rfl
      rcases hpage with hp | ⟨ha, _⟩
      · exact hgf (hbase.unique g f r hr hp)
      · exact ha g hr
  · intro r hk ha
    by_cases hrp : r = p
    · subst hrp
      rcases habsent with hp | hstored
      · exact absurd hp (ha f)
      · exact hstored
    · obtain ⟨hlast, hdisk⟩ := hother r hrp
      rw [hknown] at hk
      have hold : Absent m r := by
        intro g hg
        have hgf : g ≠ f := by
          rintro rfl
          rcases hpage with hp | ⟨_, hnone⟩
          · rw [hp] at hg
            exact hrp (Option.some.inj hg).symm
          · rw [hnone] at hg
            cases hg
        exact ha g (by rw [howner g hgf]; exact hg)
      obtain ⟨x, hstored, hcurrent⟩ := h.absent r hk hold
      exact ⟨x, hstored.congr hdisk, hcurrent.congr hlast⟩

/-- The owners of frames without a page change. -/
theorem DataOk.owners (h : DataOk m) (hframes : m'.frames = m.frames) (hdisk : m'.disk = m.disk)
    (hlast : m'.last = m.last) (hknown : m'.known = m.known)
    (howner : ∀ f, m'.owner f = m.owner f ∨ (m'.owner f).silent ∧ (m.owner f).loaded = none) :
    DataOk m' := by
  refine h.spared hdisk hlast ?_ ?_
  · intro f
    rcases howner f with hsame | ⟨hsilent, _⟩
    · rw [hframes]
      exact .inr ⟨hsame, rfl, rfl⟩
    · exact .inl hsilent
  · intro p hk ha
    rw [hknown] at hk
    refine ⟨hk, ?_⟩
    intro f hf
    rcases howner f with hsame | ⟨_, hnone⟩
    · exact ha f (by rw [hsame]; exact hf)
    · rw [hnone] at hf
      cases hf

/-- One frame changes, about whose content nothing is said then. -/
theorem DataOk.silenced (h : DataOk m) (hdisk : m'.disk = m.disk) (hlast : m'.last = m.last)
    (hframes : ∀ g, g ≠ f → m'.frames g = m.frames g)
    (howner : ∀ g, g ≠ f → m'.owner g = m.owner g)
    (hsilent : (m'.owner f).silent)
    (hloaded : ∀ r, (m.owner f).loaded = some r → (m'.owner f).loaded = some r)
    (hknown : ∀ r, m'.known r = true → m.known r = true ∨ (m'.owner f).loaded = some r) :
    DataOk m' := by
  refine h.spared hdisk hlast ?_ ?_
  · intro g
    by_cases hgf : g = f
    · rw [hgf]
      exact .inl hsilent
    · rw [hframes g hgf]
      exact .inr ⟨howner g hgf, rfl, rfl⟩
  · intro r hk ha
    refine ⟨(hknown r hk).resolve_right (ha f), ?_⟩
    intro g hg
    by_cases hgf : g = f
    · subst hgf
      exact ha g (hloaded r hg)
    · exact ha g (by rw [howner g hgf]; exact hg)

/-- One frame gets another word. -/
theorem DataOk.setWord (h : DataOk m) (f : Nat) (w : VmPageState) : DataOk (m.setWord f w) := by
  refine h.spared rfl rfl ?_ fun _ hk ha => ⟨hk, ha⟩
  intro g
  refine .inr ⟨rfl, ?_⟩
  by_cases hgf : g = f
  · subst hgf
    simp [Shared.setWord]
  · simp [Shared.setWord, Shared.setPage, Function.update_of_ne hgf]

/-- **A change keeps the data of pages**, if frames that are taken for saved
    are clean. -/
theorem Change.data (h : Change cfg k m a q m') (hbase : Base cfg m) (hdata : DataOk m)
    (hclean : ∀ f, k.relocked f → (m.frames f).dirty = false) : DataOk m' := by
  have hne : ∀ {β : Type} (u : Nat → β) (f : Nat) (x : β) (g : Nat), g ≠ f →
      Function.update u f x g = u g := fun u f x g hg => Function.update_of_ne hg x u
  cases h with
  | quiet | take | tlb | entry => exact ⟨hdata.frame, hdata.absent⟩
  | pop t p i f hlast =>
    have hfree := hbase.free i f (List.mem_of_getLast? hlast)
    refine hdata.owners rfl rfl rfl rfl ?_
    intro g
    by_cases hgf : g = f
    · subst hgf
      exact .inr ⟨by simp [Owner.silent], by rw [hfree]; rfl⟩
    · exact .inl (hne _ f _ g hgf)
  | steal t i n =>
    refine hdata.owners rfl rfl rfl rfl ?_
    intro g
    by_cases hg : ((m.free i).reverse.take n).contains g = true
    · have hmem := List.mem_reverse.1 (List.mem_of_mem_take (List.contains_iff_mem.1 hg))
      refine .inr ⟨by simp only [Shared.setOwners, hg, if_true]; trivial, ?_⟩
      rw [hbase.free i g hmem]
      rfl
    · exact .inl (by simp only [Shared.setOwners, hg]; rfl)
  | refill t p i stolen f hlast hnodup howner =>
    refine hdata.owners rfl rfl rfl rfl ?_
    intro g
    by_cases hg : stolen.contains g = true
    · refine .inr ⟨?_, by rw [howner g (List.contains_iff_mem.1 hg)]; rfl⟩
      by_cases hgf : g = f
      · subst hgf
        simp [Owner.silent]
      · simp only [Shared.setOwner, Shared.setOwners, hne _ f _ g hgf, hg, if_true]
        trivial
    · have hgf : g ≠ f := by
        rintro rfl
        exact hg (List.contains_iff_mem.2 (List.mem_of_getLast? hlast))
      exact .inl (by simp only [Shared.setOwner, Shared.setOwners, hne _ f _ g hgf, hg]; rfl)
  | release e i done hnodup howner =>
    refine hdata.owners rfl rfl rfl rfl ?_
    intro g
    by_cases hg : done.contains g = true
    · refine .inr ⟨by simp only [Shared.setOwners, hg, if_true]; trivial, ?_⟩
      rw [howner g (List.contains_iff_mem.1 hg)]
      rfl
    · exact .inl (by simp only [Shared.setOwners, hg]; rfl)
  | swap _ p f w => exact hdata.setWord f w
  | lockS t p f w => exact ⟨(hdata.setWord f w).frame, hdata.absent⟩
  | unlockS t p f => exact ⟨(hdata.setWord f (m.word f).unlockS).frame, hdata.absent⟩
  | fill t p f x howner | modify t p f x howner =>
    exact hdata.silenced rfl rfl (hne _ f _) (fun _ _ => rfl)
      (by simp [Shared.setPage, howner, Owner.silent]) (fun _ hr => hr) fun _ hk => .inl hk
  | dirty t p f howner =>
    refine hdata.silenced (f := f) rfl rfl (hne _ f _) (fun _ _ => rfl)
      (by simp [Shared.setPage, Shared.setKnown, howner, Owner.silent]) (fun _ hr => hr) ?_
    intro r hk
    by_cases hrp : r = p
    · subst hrp
      exact .inr (by simp [Shared.setPage, Shared.setKnown, howner, Owner.loaded])
    · exact .inl (by simpa [Shared.setKnown, Shared.setPage, Function.update_of_ne hrp] using hk)
  | initWord t p f howner =>
    refine hdata.silenced rfl rfl (hne _ f _) (hne _ f _) (by simp [Owner.silent]) ?_
      fun _ hk => .inl hk
    intro r hr
    rw [howner] at hr
    cases hr
  | lockNew t p f howner | lockX t p f howner =>
    refine hdata.silenced rfl rfl (hne _ f _) (hne _ f _) (by simp [Owner.silent]) ?_
      fun _ hk => .inl hk
    intro r hr
    rw [howner] at hr
    cases hr
    simp [Owner.loaded]
  | load t p f howner hknown habsent husr1 hpage =>
    -- The page was nowhere but on disk, and what has been read is its content.
    obtain ⟨x, hstored, hcurrent⟩ := hdata.absent p hknown habsent
    refine hdata.oneFrame (p := p) hbase (hne _ f _) (hne _ f _) (fun _ _ => ⟨rfl, rfl⟩)
      (.inr ⟨habsent, by rw [howner]; rfl⟩) rfl ?_ (.inr ⟨x, hstored, hcurrent⟩)
    have hx : (m.frames f).data = x := by
      rw [hpage]
      exact hstored.data
    simp only [Shared.setOwner_owner]
    refine ⟨?_, fun _ => ?_⟩ <;> simpa [Shared.setOwner, Shared.setWord, hx]
  | unlockX t p f howner hdirty =>
    have hother : ∀ r, r ≠ p →
        Function.update m.last p (some (m.frames f).data) r = m.last r :=
      fun r hr => Function.update_of_ne hr _ _
    refine hdata.oneFrame (p := p) hbase (hne _ f _) (hne _ f _)
      (fun r hr => ⟨hother r hr, rfl⟩) (.inl (by rw [howner]; rfl)) rfl ?_
      (.inl (by simp [Shared.setLast, Shared.setOwner, Owner.loaded]))
    simp only [Shared.setLast, Shared.setOwner, Function.update_self, Shared.setWord,
      Shared.setPage]
    refine ⟨?_, fun hd => ?_⟩
    · intro d hd
      exact Option.some.inj (by simpa using hd)
    · rw [hdirty] at hd
      cases hd
  | evictLock e p f saved howner hlock hsaved =>
    have hf := hdata.of_owner howner
    refine hdata.oneFrame (p := p) hbase (hne _ f _) (hne _ f _) (fun _ _ => ⟨rfl, rfl⟩)
      (.inl (by rw [howner]; rfl)) rfl ?_ (.inl (by simp [Owner.loaded]))
    simp only [Shared.setOwner_owner]
    refine ⟨?_, fun hs => ?_⟩
    · simpa [Shared.setOwner, Shared.setWord, Shared.setPage] using hf.1
    · simpa [Shared.setOwner, Shared.setWord, Shared.setPage] using hf.2 (hclean f (hsaved hs))
  | clean e p f saved howner =>
    have hf := hdata.of_owner howner
    refine hdata.oneFrame (p := p) hbase (hne _ f _) (fun _ _ => rfl) (fun _ _ => ⟨rfl, rfl⟩)
      (.inl (by rw [howner]; rfl)) rfl ?_ (.inl (by simp [Shared.setPage, howner, Owner.loaded]))
    simpa [Shared.setPage, howner, FrameData] using hf
  | diskWrite e p f saved howner =>
    have hf := hdata.of_owner howner
    obtain ⟨_, haddr, hstate⟩ := hbase.frameOk howner
    have hother : ∀ r, r ≠ p → Function.update m.disk p (m.frames f) r = m.disk r :=
      fun r hr => Function.update_of_ne hr _ _
    refine hdata.oneFrame (p := p) hbase (fun _ _ => rfl) (hne _ f _)
      (fun r hr => ⟨rfl, hother r hr⟩) (.inl (by rw [howner]; rfl)) rfl ?_
      (.inl (by simp [Owner.loaded]))
    simp only [Shared.setOwner_owner]
    refine ⟨hf.1, fun _ => ⟨?_, ?_, ?_⟩⟩ <;> simp only [Function.update_self]
    · exact haddr
    · exact hstate
    · rfl
  | invalidate e p f howner =>
    -- The page leaves the frame, and it has been saved.
    have hf := hdata.of_owner howner
    refine hdata.oneFrame (p := p) hbase (hne _ f _) (hne _ f _) (fun _ _ => ⟨rfl, rfl⟩)
      (.inl (by rw [howner]; rfl)) rfl ?_ (.inr ⟨_, hf.2 rfl, hf.1⟩)
    simp [FrameData]

/-! ## Runs -/

/-- What was found in a page that was fixed is what its last exclusive
    holder had left, if there was one. -/
def Fix.ok (x : Fix α) : Prop := ∀ d, x.left = some d → x.found = d

structure Kept (s : State α) : Prop where
  data : DataOk s.toShared
  fixes : ∀ x ∈ s.fixes, x.ok

theorem kept_init (h : Init cfg s) : Kept s := by
  refine ⟨⟨?_, ?_⟩, ?_⟩
  · intro f
    rw [h.owner f]
    trivial
  · intro p hp
    rw [h.known p] at hp
    cases hp
  · rw [h.fixes]
    simp

theorem StepOk.kept {l : Label α} (h : StepOk cfg (facts s l) a s s') (hinv : Inv cfg s)
    (hkept : Kept s) (hclean : relockClean s l = true) : Kept s' := by
  constructor
  · obtain ⟨q, hchange⟩ := h.change
    exact hchange.data hinv.base hkept.data fun f hf => hf hclean
  · rcases h.fixes with hsame | ⟨p, f, howner, hnew⟩
    · rw [hsame]
      exact hkept.fixes
    · rw [hnew]
      intro x hx
      rcases List.mem_cons.1 hx with rfl | hx
      · exact (hkept.data.of_owner howner).1
      · exact hkept.fixes x hx

/-- Locks and marks are sound, and clean victims are still clean. -/
def lossless (s : State α) (l : Label α) : Bool := sound s l && relockClean s l

theorem kept_of_lossless (h : (system cfg).RunsTo (fun s l => lossless s l = true) s) :
    Kept s := by
  have hinv : ∀ s, (system cfg).RunsTo (fun s l => lossless s l = true) s → Inv cfg s := by
    intro s hs
    refine inv_of_runsTo (hs.mono ?_)
    intro s l hl
    exact (Bool.and_eq_true_iff.1 hl).1
  refine System.invariant_when_using hinv (fun _ => kept_init) ?_ h
  intro s l s' hinv hkept hl hstep
  simp only [lossless, sound, Bool.and_eq_true] at hl
  obtain ⟨_, hok⟩ := step_ok hinv hl.1.1 hl.1.2 hstep
  exact hok.kept hinv hkept hl.2

/-- **No update is lost**: in every run under `lossless`, whenever a page is
    fixed after it has been exclusively unlocked, what is found in it is what
    its last exclusive holder has left. -/
theorem no_lost_update (h : (system cfg).RunsTo (fun s l => lossless s l = true) s) {x : Fix α}
    {d : α} (hx : x ∈ s.fixes) (hleft : x.left = some d) : x.found = d :=
  (kept_of_lossless h).fixes x hx d hleft

/-- Page 5 is written, evicted, loaded and fixed again. -/
theorem no_lost_update_reloaded :
    ∃ s : State Nat, (system (small true 1)).RunsTo (fun s l => lossless s l = true) s ∧
      ∃ x ∈ s.fixes, x.left = some 7 ∧ x.found = 7 := by
  obtain ⟨s, hrun, x, hx, hleft⟩ := (system (small true 1)).exists_runsTo lossless
    (init_boot (small true 1))
    (create 0 5#36 1 ++ [.fix 1 (.exclusive none) 5#36] ++ threadSteps 3 1 ++
      [.modify 1 5#36 7, .unfixX 1 5#36, .thread 1] ++ writeOut 0 0 5#36 13 ++ reload 0 5#36)
    (fun s => ∃ x ∈ s.fixes, x.left = some 7) (by decide +kernel)
  exact ⟨s, hrun, x, hx, hleft, no_lost_update hrun hx hleft⟩

/-- **A lost update**: page 5 is on disk and in its frame, clean. Evictor 0
    finds it marked and clean and puts it among its victims. Then thread 0
    writes 7 to it, evictor 1 marks it again, and evictor 0 locks it, since
    it is marked, and drops it. When it is loaded again, the page has its
    old content. -/
theorem update_lost :
    Init (small true 1) (boot (small true 1)) ∧
    ∃ s, (system (small true 1)).exec (boot (small true 1))
      (create 0 5#36 1 ++ writeOut 0 0 5#36 13 ++ reload 0 5#36 ++
        [.startEvict 0] ++ evictSteps 11 0 ++
        [.fix 0 (.exclusive none) 5#36] ++ threadSteps 3 0 ++
        [.modify 0 5#36 7, .unfixX 0 5#36, .thread 0, .startEvict 1] ++ evictSteps 4 1 ++
        evictSteps 7 0 ++ reload 0 5#36) = some s ∧
      ∃ x ∈ s.fixes, x.left = some 7 ∧ x.found = 1 := by
  refine ⟨init_boot _, ?_⟩
  exact (system (small true 1)).exists_exec _ _ _ (by decide +kernel)

end Tabby
