import Mathlib.Data.List.Basic
import Libdbos.Tabby.Ownership

/-! # Changes of the Shared Part

    What a step of the buffer manager can do to frames, page table, disk and
    free lists: one constructor of `Change` for each kind of step, with what
    is known where the step is made. Who makes the step, and which entry of
    the page table or which lock it is about, are indices.

    A change keeps `Base`. It leaves alone the frames of everyone else
    (`Change.own`, `Change.back`), the entries that are locked
    (`Change.pte`, `Change.loaded`) and the pages that are held
    (`Change.frame`, `Change.guarded`, `Change.count`).
-/

open LTS

namespace Tabby

variable {α : Type} {cfg : Config α} {k : Facts} {m m' : Shared α} {t e f g : Nat} {p : Pid}

inductive Agent where
  | thread (t : Nat)
  | evictor (e : Nat)
  /-- The translations that a core caches. -/
  | core
  deriving DecidableEq

/-- What only one thread may do at a time: to change the entry of a page or
    to load the page, and to release its own lock. -/
inductive Touch where
  | nothing
  | entry (p : Pid)
  | release (t : Nat) (p : Pid)
  deriving DecidableEq

/-- What is known, beyond the invariant, where a step is made: of a frame
    that an evictor locks without writing it, and of the version under which
    a page becomes resident. -/
structure Facts where
  relocked : Nat → Prop
  version : Pid → BitVec 20 → Prop

/-- What agent `a` does to the shared part. -/
inductive Change (cfg : Config α) (k : Facts) (m : Shared α) :
    Agent → Touch → Shared α → Prop where
  | quiet (a : Agent) : Change cfg k m a .nothing m
  | take (a : Agent) (p : Pid) :
      Change cfg k m a .nothing { m with taken := Function.update m.taken p true }
  | tlb (a : Agent) (t : Nat) (p : Pid) (x : Option Nat)
      (hx : ∀ f, x = some f → f = (m.pte p).frame ∧ (m.pte p).present = true) :
      Change cfg k m a .nothing (m.setTlb t p x)
  | entry (a : Agent) (p : Pid) (new : Pte) (htaken : m.taken p = true)
      (honly : OnlyIn m p new.frame)
      (hloaded : new.present = true ∨ Absent m p)
      (hpresent : (m.pte p).present = true → new.present = true) :
      Change cfg k m a (.entry p) (m.setPte p new)
  | pop (t : Nat) (p : Pid) (i f : Nat) (hlast : (m.free i).getLast? = some f) :
      Change cfg k m (.thread t) .nothing
        ((m.setFree i (m.free i).dropLast).setOwner f (.filling t p))
  | steal (t i n : Nat) :
      Change cfg k m (.thread t) .nothing
        ((m.setFree i ((m.free i).take ((m.free i).length - n))).setOwners
          ((m.free i).reverse.take n) (.popped t))
  | refill (t : Nat) (p : Pid) (i : Nat) (stolen : List Nat) (f : Nat)
      (hlast : stolen.getLast? = some f) (hnodup : stolen.Nodup)
      (howner : ∀ g ∈ stolen, m.owner g = .popped t) :
      Change cfg k m (.thread t) .nothing
        (((m.setFree i (m.free i ++ stolen.dropLast)).setOwners stolen .free).setOwner f
          (.filling t p))
  | fill (t : Nat) (p : Pid) (f : Nat) (x : Page α) (howner : m.owner f = .filling t p)
      (hword : FreeWord x.word ∨ DiskWord p x.word) :
      Change cfg k m (.thread t) .nothing (m.setPage f x)
  | load (t : Nat) (p : Pid) (f : Nat) (howner : m.owner f = .filling t p)
      (hknown : m.known p = true) (habsent : Absent m p) (husr1 : (m.pte p).usr1 = true)
      (hpage : m.frames f = m.disk p) (haddr : (m.word f).addr = p)
      (hversion : k.version p (m.word f).unlockX.version) :
      Change cfg k m (.thread t) (.entry p)
        ((m.setWord f (m.word f).unlockX).setOwner f (.resident p))
  | initWord (t : Nat) (p : Pid) (f : Nat) (howner : m.owner f = .filling t p)
      (hpage : cfg.isPage p = true) (htaken : m.taken p = true) (hknown : m.known p = false)
      (habsent : Absent m p)
      (hframe : f = (m.pte p).frame) (hpresent : (m.pte p).present = true) :
      Change cfg k m (.thread t) (.entry p)
        ((m.setWord f ⟨p, 0#20, VmPageState.unlocked⟩).setOwner f (.fresh t p))
  | lockNew (t : Nat) (p : Pid) (f : Nat) (howner : m.owner f = .fresh t p)
      (hframe : f = (m.pte p).frame) :
      Change cfg k m (.thread t) .nothing
        ((m.setWord f (m.word f).lockX).setOwner f (.guarded t p))
  | swap (a : Agent) (p : Pid) (f : Nat) (w : VmPageState) (howner : m.owner f = .resident p)
      (haddr : w.addr = p) (hversion : w.version = (m.word f).version)
      (hcounts : CountsReaders (m.readers p) w.state) :
      Change cfg k m a .nothing (m.setWord f w)
  | lockX (t : Nat) (p : Pid) (f : Nat) (howner : m.owner f = .resident p)
      (hframe : f = (m.pte p).frame) (hlock : (m.word f).lockable = true) :
      Change cfg k m (.thread t) .nothing
        ((m.setWord f (m.word f).lockX).setOwner f (.guarded t p))
  | lockS (t : Nat) (p : Pid) (f : Nat) (w : VmPageState) (howner : m.owner f = .resident p)
      (hframe : f = (m.pte p).frame) (hlock : (m.word f).lockS = some w) :
      Change cfg k m (.thread t) .nothing ((m.setWord f w).setReaders p (t :: m.readers p))
  | unlockS (t : Nat) (p : Pid) (f : Nat) (howner : m.owner f = .resident p)
      (hframe : f = (m.pte p).frame) (hmem : t ∈ m.readers p) :
      Change cfg k m (.thread t) (.release t p)
        ((m.setWord f (m.word f).unlockS).setReaders p ((m.readers p).erase t))
  | dirty (t : Nat) (p : Pid) (f : Nat) (howner : m.owner f = .guarded t p)
      (htaken : m.taken p = true) :
      Change cfg k m (.thread t) .nothing
        ((m.setPage f { m.frames f with dirty := true }).setKnown p)
  | modify (t : Nat) (p : Pid) (f : Nat) (x : α) (howner : m.owner f = .guarded t p) :
      Change cfg k m (.thread t) .nothing (m.setPage f { m.frames f with data := x })
  | unlockX (t : Nat) (p : Pid) (f : Nat) (howner : m.owner f = .guarded t p)
      (hdirty : (m.frames f).dirty = true) (hversion : k.version p (m.word f).unlockX.version) :
      Change cfg k m (.thread t) (.release t p)
        (((m.setWord f (m.word f).unlockX).setOwner f (.resident p)).setLast p (m.frames f).data)
  | evictLock (e : Nat) (p : Pid) (f : Nat) (saved : Bool) (howner : m.owner f = .resident p)
      (hlock : (m.word f).lockable = true) (hsaved : saved = true → k.relocked f) :
      Change cfg k m (.evictor e) .nothing
        ((m.setWord f (m.word f).lockX).setOwner f (.evicting e p saved))
  | clean (e : Nat) (p : Pid) (f : Nat) (saved : Bool) (howner : m.owner f = .evicting e p saved) :
      Change cfg k m (.evictor e) .nothing (m.setPage f { m.frames f with dirty := false })
  | diskWrite (e : Nat) (p : Pid) (f : Nat) (saved : Bool)
      (howner : m.owner f = .evicting e p saved) :
      Change cfg k m (.evictor e) .nothing
        { m.setOwner f (.evicting e p true) with
          disk := Function.update m.disk p (m.frames f) }
  | invalidate (e : Nat) (p : Pid) (f : Nat) (howner : m.owner f = .evicting e p true) :
      Change cfg k m (.evictor e) .nothing
        ((m.setWord f (m.word f).unlockXInvalidated).setOwner f (.evicted e))
  | release (e i : Nat) (done : List Nat) (hnodup : done.Nodup)
      (howner : ∀ g ∈ done, m.owner g = .evicted e) :
      Change cfg k m (.evictor e) .nothing ((m.setFree i (m.free i ++ done)).setOwners done .free)

/-! ## One frame -/

/-- Only frame `f`, and what is kept about page `p`, changes. -/
structure OneFrame (m m' : Shared α) (f : Nat) (p : Pid) : Prop where
  frames : ∀ g, g ≠ f → m'.frames g = m.frames g
  owner : ∀ g, g ≠ f → m'.owner g = m.owner g
  pte : m'.pte = m.pte
  tlb : m'.tlb = m.tlb
  free : m'.free = m.free
  taken : m'.taken = m.taken
  readers : ∀ q, q ≠ p → m'.readers q = m.readers q
  known : ∀ q, q ≠ p → m'.known q = m.known q
  disk : ∀ q, q ≠ p → m'.disk q = m.disk q

theorem FrameOk.congr {w : VmPageState} {o : Owner} (h : FrameOk cfg m w o)
    (hsame : ∀ q, o.loaded = some q → m'.readers q = m.readers q ∧ m'.known q = m.known q) :
    FrameOk cfg m' w o := by
  cases o with
  | fresh t p =>
    refine ⟨h.1, h.2.1, ?_⟩
    rw [(hsame p rfl).2]
    exact h.2.2
  | resident p =>
    refine ⟨h.1, h.2.1, ?_⟩
    rw [(hsame p rfl).1]
    exact h.2.2
  | _ => exact h

/-- What a change of one frame has to respect. -/
structure Respects (cfg : Config α) (m m' : Shared α) (f : Nat) (p : Pid) : Prop where
  frame : FrameOk cfg m' (m'.word f) (m'.owner f)
  old : ∀ q, (m.owner f).loaded = some q → q = p
  new : ∀ q, (m'.owner f).loaded = some q → q = p ∧ ((m.owner f).loaded = some p ∨
    Absent m p ∧ (m.taken p = true ∧ (m.pte p).present = true) ∧
      ((m.pte p).usr1 = false → f = (m.pte p).frame))
  same : m'.readers p = m.readers p ∧ m'.known p = m.known p ∨ (m.owner f).loaded = some p
  read : m'.readers p ≠ [] → m'.owner (m.pte p).frame = .resident p
  guarded : ∀ t q, m'.owner f = .guarded t q → f = (m.pte q).frame
  known : m'.known p = true →
    cfg.isPage p = true ∧ m.taken p = true ∧ (m.pte p).present = true
  disk : DiskWord p (m'.disk p).word
  used : m.owner f ≠ .free
  used' : m'.owner f ≠ .free

theorem OneFrame.base (h : OneFrame m m' f p) (hbase : Base cfg m) (hr : Respects cfg m m' f p) :
    Base cfg m' := by
  have hloaded : ∀ g q, (m'.owner g).loaded = some q → (m.owner g).loaded = some q ∨
      g = f ∧ q = p ∧ Absent m p ∧ (m.taken p = true ∧ (m.pte p).present = true) ∧
        ((m.pte p).usr1 = false → f = (m.pte p).frame) := by
    intro g q hg
    by_cases hgf : g = f
    · subst hgf
      obtain ⟨rfl, hold | habsent⟩ := hr.new q hg
      · exact .inl hold
      · exact .inr ⟨rfl, rfl, habsent⟩
    · rw [h.owner g hgf] at hg
      exact .inl hg
  constructor
  · intro g
    by_cases hg : g = f
    · rw [hg]
      exact hr.frame
    · have hold := hbase.frame g
      rw [Shared.word, h.frames g hg, h.owner g hg]
      refine hold.congr ?_
      intro q hq
      by_cases hqp : q = p
      · subst hqp
        rcases hr.same with hsame | hf
        · exact hsame
        · exact absurd (hbase.unique g f q hq hf) hg
      · exact ⟨h.readers q hqp, h.known q hqp⟩
  · intro g g' q hg hg'
    rcases hloaded g q hg with hg | ⟨rfl, rfl, habsent, _⟩
    · rcases hloaded g' q hg' with hg' | ⟨rfl, rfl, habsent, _⟩
      · exact hbase.unique g g' q hg hg'
      · exact absurd hg (habsent g)
    · rcases hloaded g' q hg' with hg' | ⟨rfl, _⟩
      · exact absurd hg' (habsent g')
      · rfl
  · intro g q hg
    rw [h.pte, h.taken]
    rcases hloaded g q hg with hg | ⟨_, rfl, _, hpresent, _⟩
    · exact hbase.present g q hg
    · exact hpresent
  · intro g q hg husr1
    rw [h.pte] at husr1 ⊢
    rcases hloaded g q hg with hg | ⟨rfl, rfl, _, _, hframe⟩
    · exact hbase.mapped g q hg husr1
    · exact hframe husr1
  · intro q hq
    rw [h.pte]
    by_cases hqp : q = p
    · subst hqp
      exact hr.read hq
    · rw [h.readers q hqp] at hq
      have hres := hbase.read q hq
      have hne : (m.pte q).frame ≠ f := by
        rintro rfl
        exact hqp (hr.old q (by rw [hres]; rfl))
      rw [h.owner _ hne]
      exact hres
  · intro g t q hg
    rw [h.pte]
    by_cases hgf : g = f
    · subst hgf
      exact hr.guarded t q hg
    · rw [h.owner g hgf] at hg
      exact hbase.guarded g t q hg
  · intro q hq
    rw [h.taken, h.pte]
    by_cases hqp : q = p
    · subst hqp
      exact hr.known hq
    · rw [h.known q hqp] at hq
      exact hbase.known q hq
  · rw [h.pte, h.taken]
    exact hbase.untaken
  · rw [h.pte, h.tlb]
    exact hbase.tlb
  · intro q
    by_cases hqp : q = p
    · subst hqp
      exact hr.disk
    · rw [h.disk q hqp]
      exact hbase.disk q
  · intro i g hg
    rw [h.free] at hg
    have hown := hbase.free i g hg
    have hgf : g ≠ f := by
      rintro rfl
      exact hr.used hown
    rw [h.owner g hgf]
    exact hown
  · intro g hlt hg
    have hgf : g ≠ f := by
      rintro rfl
      exact hr.used' hg
    rw [h.owner g hgf] at hg
    rw [h.free]
    exact hbase.listed g hlt hg
  · rw [h.free]
    exact hbase.nodup
  · rw [h.free]
    exact hbase.disjoint

section Put

variable (m f p)

theorem oneFrame_setPage (x : Page α) : OneFrame m (m.setPage f x) f p := by
  refine ⟨?_, fun _ _ => rfl, rfl, rfl, rfl, rfl, fun _ _ => rfl, fun _ _ => rfl, fun _ _ => rfl⟩
  intro g hg
  exact Function.update_of_ne hg _ _

theorem oneFrame_setWord (w : VmPageState) : OneFrame m (m.setWord f w) f p :=
  oneFrame_setPage m f p _

variable {m f p}

theorem OneFrame.setOwner (h : OneFrame m m' f p) (o : Owner) :
    OneFrame m (m'.setOwner f o) f p := by
  refine { h with owner := ?_ }
  intro g hg
  exact (Function.update_of_ne hg _ _).trans (h.owner g hg)

theorem OneFrame.setReaders (h : OneFrame m m' f p) (ts : List Nat) :
    OneFrame m (m'.setReaders p ts) f p := by
  refine { h with readers := ?_ }
  intro q hq
  exact (Function.update_of_ne hq _ _).trans (h.readers q hq)

theorem OneFrame.setKnown (h : OneFrame m m' f p) : OneFrame m (m'.setKnown p) f p := by
  refine { h with known := ?_ }
  intro q hq
  exact (Function.update_of_ne hq _ _).trans (h.known q hq)

theorem oneFrame_disk (x : Page α) (o : Owner) :
    OneFrame m { m.setOwner f o with disk := Function.update m.disk p x } f p := by
  refine ⟨fun _ _ => rfl, ?_, rfl, rfl, rfl, rfl, fun _ _ => rfl, fun _ _ => rfl, ?_⟩
  · intro g hg
    exact Function.update_of_ne hg _ _
  · intro q hq
    exact Function.update_of_ne hq _ _

end Put

@[simp] theorem Shared.setOwner_owner (m : Shared α) (f : Nat) (o : Owner) :
    (m.setOwner f o).owner f = o := Function.update_self ..

@[simp] theorem Shared.setPage_frames (m : Shared α) (f : Nat) (x : Page α) :
    (m.setPage f x).frames f = x := Function.update_self ..

/-- The page stays in its frame, or leaves it. -/
theorem respects_of_loaded (hbase : Base cfg m) (hloaded : (m.owner f).loaded = some p)
    (hframe : FrameOk cfg m' (m'.word f) (m'.owner f))
    (hnew : ∀ q, (m'.owner f).loaded = some q → q = p)
    (hread : m'.readers p ≠ [] → m'.owner (m.pte p).frame = .resident p)
    (hguarded : ∀ t q, m'.owner f = .guarded t q → f = (m.pte q).frame)
    (hknown : m'.known p = true → m.taken p = true)
    (hdisk : DiskWord p (m'.disk p).word) (hused : m'.owner f ≠ .free) :
    Respects cfg m m' f p := by
  have hpage : cfg.isPage p = true := by
    have hf := hbase.frame f
    cases ho : m.owner f <;> rw [ho] at hf hloaded <;> cases hloaded <;> exact hf.1
  refine ⟨hframe, ?_, ?_, .inr hloaded, hread, hguarded, ?_, hdisk, ?_, hused⟩
  · intro q hq
    rw [hloaded] at hq
    exact (Option.some.inj hq).symm
  · intro q hq
    exact ⟨hnew q hq, .inl hloaded⟩
  · intro hk
    exact ⟨hpage, hknown hk, (hbase.present f p hloaded).2⟩
  · intro hfree
    rw [hfree] at hloaded
    cases hloaded

/-! ## The invariant of the shared part -/

section Lists

/-- Frames go from one owner to another, and between the free lists and a
    thread or evictor. -/
theorem Base.lists (hbase : Base cfg m) (hframes : m'.frames = m.frames) (hpte : m'.pte = m.pte)
    (htlb : m'.tlb = m.tlb) (htaken : m'.taken = m.taken) (hreaders : m'.readers = m.readers)
    (hknown : m'.known = m.known) (hdisk : m'.disk = m.disk)
    (hframe : ∀ f, m'.owner f = m.owner f ∨
      FreeWord (m.word f) ∧ FrameOk cfg m' (m.word f) (m'.owner f) ∧ (m'.owner f).loaded = none ∧
        (m.owner f).loaded = none)
    (hfree : ∀ i f, f ∈ m'.free i → m'.owner f = .free)
    (hlisted : ∀ f, f < cfg.physCount → m'.owner f = .free → ∃ i, f ∈ m'.free i)
    (hnodup : ∀ i, (m'.free i).Nodup)
    (hdisjoint : ∀ i j f, f ∈ m'.free i → f ∈ m'.free j → i = j) : Base cfg m' := by
  have hloaded : ∀ f q, (m'.owner f).loaded = some q → m'.owner f = m.owner f := by
    intro f q hf
    rcases hframe f with hsame | ⟨_, _, hnone, _⟩
    · exact hsame
    · rw [hnone] at hf
      cases hf
  have hold : ∀ f q, (m.owner f).loaded = some q → m'.owner f = m.owner f := by
    intro f q hf
    rcases hframe f with hsame | ⟨_, _, _, hnone⟩
    · exact hsame
    · rw [hnone] at hf
      cases hf
  constructor
  · intro f
    rw [Shared.word, hframes]
    rcases hframe f with hsame | ⟨_, hok, _⟩
    · rw [hsame]
      refine (hbase.frame f).congr ?_
      intro q _
      rw [hreaders, hknown]
      exact ⟨rfl, rfl⟩
    · exact hok
  · intro f g q hf hg
    rw [hloaded f q hf] at hf
    rw [hloaded g q hg] at hg
    exact hbase.unique f g q hf hg
  · intro f q hf
    rw [hloaded f q hf] at hf
    rw [hpte, htaken]
    exact hbase.present f q hf
  · intro f q hf
    rw [hloaded f q hf] at hf
    rw [hpte]
    exact hbase.mapped f q hf
  · intro q hq
    rw [hreaders] at hq
    rw [hpte]
    have hres := hbase.read q hq
    rw [hold _ q (by rw [hres]; rfl)]
    exact hres
  · intro f t q hf
    rw [hloaded f q (by rw [hf]; rfl)] at hf
    rw [hpte]
    exact hbase.guarded f t q hf
  · rw [hknown, htaken, hpte]
    exact hbase.known
  · rw [hpte, htaken]
    exact hbase.untaken
  · rw [hpte, htlb]
    exact hbase.tlb
  · rw [hdisk]
    exact hbase.disk
  · exact hfree
  · exact hlisted
  · exact hnodup
  · exact hdisjoint

theorem Base.freeWord (hbase : Base cfg m) (h : m.owner f = .free ∨ (∃ t, m.owner f = .popped t) ∨
    ∃ e, m.owner f = .evicted e) : FreeWord (m.word f) := by
  have hframe := hbase.frame f
  rcases h with h | ⟨t, h⟩ | ⟨e, h⟩ <;> rwa [h] at hframe

theorem Shared.setOwners_mem (m : Shared α) {fs : List Nat} {o : Owner} (h : f ∈ fs) :
    (m.setOwners fs o).owner f = o := by
  simp [Shared.setOwners, h]

theorem Shared.setOwners_not_mem (m : Shared α) {fs : List Nat} {o : Owner} (h : f ∉ fs) :
    (m.setOwners fs o).owner f = m.owner f := by
  simp [Shared.setOwners, h]

/-- Frames are taken from a free list. -/
theorem Base.takeFrames (hbase : Base cfg m) {i : Nat} {l fs : List Nat} {o : Owner}
    (hperm : (m.free i).Perm (l ++ fs)) (hnone : o.loaded = none) (hfree : o ≠ .free)
    (hok : ∀ w, FreeWord w → FrameOk cfg m w o) :
    Base cfg ((m.setFree i l).setOwners fs o) := by
  have hnodup : (l ++ fs).Nodup := hperm.nodup_iff.1 (hbase.nodup i)
  have hmem : ∀ f, f ∈ m.free i ↔ f ∈ l ∨ f ∈ fs := by
    intro f
    rw [hperm.mem_iff, List.mem_append]
  have hsub : ∀ j f, f ∈ Function.update m.free i l j → f ∈ m.free j ∧ f ∉ fs := by
    intro j f hf
    by_cases hj : j = i
    · subst hj
      rw [Function.update_self] at hf
      exact ⟨(hmem f).2 (.inl hf), fun hfs => (List.nodup_append.1 hnodup).2.2 f hf f hfs rfl⟩
    · rw [Function.update_of_ne hj] at hf
      exact ⟨hf, fun hfs => hj (hbase.disjoint j i f hf ((hmem f).2 (.inr hfs)))⟩
  refine hbase.lists rfl rfl rfl rfl rfl rfl rfl ?_ ?_ ?_ ?_ ?_
  · intro f
    by_cases hf : f ∈ fs
    · have hown := hbase.free i f ((hmem f).2 (.inr hf))
      have hword := hbase.freeWord (.inl hown)
      refine .inr ⟨hword, ?_, ?_, by rw [hown]; rfl⟩
      · rw [Shared.setOwners_mem _ hf]
        exact (hok _ hword).congr fun _ _ => ⟨rfl, rfl⟩
      · rw [Shared.setOwners_mem _ hf]
        exact hnone
    · exact .inl (Shared.setOwners_not_mem _ hf)
  · intro j f hf
    obtain ⟨hold, hnot⟩ := hsub j f hf
    rw [Shared.setOwners_not_mem _ hnot]
    exact hbase.free j f hold
  · intro f hlt hf
    by_cases hfs : f ∈ fs
    · rw [Shared.setOwners_mem _ hfs] at hf
      exact absurd hf hfree
    · rw [Shared.setOwners_not_mem _ hfs] at hf
      obtain ⟨j, hj⟩ := hbase.listed f hlt hf
      refine ⟨j, ?_⟩
      by_cases hji : j = i
      · subst hji
        simp only [Shared.setOwners, Shared.setFree, Function.update_self]
        exact ((hmem f).1 hj).resolve_right hfs
      · simp only [Shared.setOwners, Shared.setFree, Function.update_of_ne hji]
        exact hj
  · intro j
    by_cases hj : j = i
    · subst hj
      simp only [Shared.setOwners, Shared.setFree, Function.update_self]
      exact (List.nodup_append.1 hnodup).1
    · simp only [Shared.setOwners, Shared.setFree, Function.update_of_ne hj]
      exact hbase.nodup j
  · intro j k f hj hk
    exact hbase.disjoint j k f (hsub j f hj).1 (hsub k f hk).1

/-- Frames are put on a free list. -/
theorem Base.giveFrames (hbase : Base cfg m) (i : Nat) {fs : List Nat} (hnodup : fs.Nodup)
    (hown : ∀ f ∈ fs, (∃ t, m.owner f = .popped t) ∨ ∃ e, m.owner f = .evicted e) :
    Base cfg ((m.setFree i (m.free i ++ fs)).setOwners fs .free) := by
  have hnew : ∀ f ∈ fs, ∀ j, f ∉ m.free j := by
    intro f hf j hj
    have hfree := hbase.free j f hj
    rcases hown f hf with ⟨t, ho⟩ | ⟨e, ho⟩ <;> rw [ho] at hfree <;> cases hfree
  have hmem : ∀ j f, f ∈ Function.update m.free i (m.free i ++ fs) j →
      f ∈ m.free j ∨ j = i ∧ f ∈ fs := by
    intro j f hf
    by_cases hj : j = i
    · subst hj
      rw [Function.update_self, List.mem_append] at hf
      exact hf.imp id fun h => ⟨rfl, h⟩
    · rw [Function.update_of_ne hj] at hf
      exact .inl hf
  refine hbase.lists rfl rfl rfl rfl rfl rfl rfl ?_ ?_ ?_ ?_ ?_
  · intro f
    by_cases hf : f ∈ fs
    · have hword := hbase.freeWord (.inr (hown f hf))
      refine .inr ⟨hword, ?_, ?_, ?_⟩
      · rw [Shared.setOwners_mem _ hf]
        exact hword
      · rw [Shared.setOwners_mem _ hf]
        rfl
      · rcases hown f hf with ⟨t, ho⟩ | ⟨e, ho⟩ <;> rw [ho] <;> rfl
    · exact .inl (Shared.setOwners_not_mem _ hf)
  · intro j f hf
    by_cases hfs : f ∈ fs
    · exact Shared.setOwners_mem _ hfs
    · rw [Shared.setOwners_not_mem _ hfs]
      exact hbase.free j f ((hmem j f hf).resolve_right fun h => hfs h.2)
  · intro f hlt hf
    by_cases hfs : f ∈ fs
    · exact ⟨i, by simp [Shared.setOwners, Shared.setFree, hfs]⟩
    · rw [Shared.setOwners_not_mem _ hfs] at hf
      obtain ⟨j, hj⟩ := hbase.listed f hlt hf
      refine ⟨j, ?_⟩
      by_cases hji : j = i
      · subst hji
        simp [Shared.setOwners, Shared.setFree, hj]
      · simp only [Shared.setOwners, Shared.setFree, Function.update_of_ne hji]
        exact hj
  · intro j
    by_cases hj : j = i
    · subst hj
      simp only [Shared.setOwners, Shared.setFree, Function.update_self]
      refine List.nodup_append.2 ⟨hbase.nodup j, hnodup, ?_⟩
      rintro f hf g hg rfl
      exact hnew f hg j hf
    · simp only [Shared.setOwners, Shared.setFree, Function.update_of_ne hj]
      exact hbase.nodup j
  · intro j k f hj hk
    rcases hmem j f hj with hj | ⟨hji, hfs⟩
    · rcases hmem k f hk with hk | ⟨_, hfs⟩
      · exact hbase.disjoint j k f hj hk
      · exact absurd hj (hnew f hfs j)
    · rcases hmem k f hk with hk | ⟨hki, _⟩
      · exact absurd hk (hnew f hfs k)
      · rw [hji, hki]

theorem Shared.setOwners_singleton (m : Shared α) (f : Nat) (o : Owner) :
    m.setOwners [f] o = m.setOwner f o := by
  unfold Shared.setOwners Shared.setOwner
  congr
  funext g
  simp [Function.update_apply]

theorem Base.pop (hbase : Base cfg m) {i : Nat} (hlast : (m.free i).getLast? = some f) :
    Base cfg ((m.setFree i (m.free i).dropLast).setOwner f (.filling t p)) := by
  rw [← Shared.setOwners_singleton]
  have hsplit : (m.free i).dropLast ++ [f] = m.free i := List.dropLast_append_getLast? f hlast
  refine hbase.takeFrames ?_ rfl (by simp) fun w hw => .inl hw
  rw [hsplit]

theorem Base.steal (hbase : Base cfg m) (i n : Nat) :
    Base cfg ((m.setFree i ((m.free i).take ((m.free i).length - n))).setOwners
      ((m.free i).reverse.take n) (.popped t)) := by
  refine hbase.takeFrames ?_ rfl (by simp) fun w hw => hw
  rw [List.take_reverse]
  have hsplit := List.take_append_drop ((m.free i).length - n) (m.free i)
  refine (List.Perm.of_eq hsplit.symm).trans ?_
  exact (List.reverse_perm _).symm.append_left _

/-- All stolen frames go to the thread's own list, and one of them is taken. -/
theorem Base.refill (hbase : Base cfg m) {i : Nat} {stolen : List Nat}
    (hlast : stolen.getLast? = some f) (hnodup : stolen.Nodup)
    (howner : ∀ g ∈ stolen, m.owner g = .popped t) :
    Base cfg (((m.setFree i (m.free i ++ stolen.dropLast)).setOwners stolen .free).setOwner f
      (.filling t p)) := by
  have hsplit : stolen.dropLast ++ [f] = stolen := List.dropLast_append_getLast? f hlast
  have hnodup' : (stolen.dropLast ++ [f]).Nodup := by rwa [hsplit]
  have hmem : ∀ g, g ∈ stolen ↔ g ∈ stolen.dropLast ∨ g = f := by
    intro g
    rw [← List.mem_singleton, ← List.mem_append, hsplit]
  have hf : f ∉ stolen.dropLast := by
    intro hf
    exact (List.nodup_append.1 hnodup').2.2 f hf f (List.mem_singleton_self f) rfl
  let m₁ := (m.setFree i (m.free i ++ stolen.dropLast)).setOwners stolen.dropLast .free
  have heq : ((m.setFree i (m.free i ++ stolen.dropLast)).setOwners stolen .free).setOwner f
      (.filling t p) = m₁.setOwner f (.filling t p) := by
    unfold m₁ Shared.setOwners Shared.setOwner
    congr 1
    funext g
    by_cases hg : g = f
    · simp [hg]
    · simp [hg, hmem g]
  have hbase₁ : Base cfg m₁ := hbase.giveFrames i (List.nodup_append.1 hnodup').1
    fun g hg => .inl ⟨t, howner g ((hmem g).2 (.inl hg))⟩
  have hown : m₁.owner f = .popped t := by
    rw [Shared.setOwners_not_mem _ hf]
    exact howner f ((hmem f).2 (.inr rfl))
  rw [heq]
  refine hbase₁.lists rfl rfl rfl rfl rfl rfl rfl ?_ ?_ ?_ hbase₁.nodup hbase₁.disjoint
  · intro g
    by_cases hg : g = f
    · subst hg
      have hword := hbase₁.freeWord (.inr (.inl ⟨t, hown⟩))
      refine .inr ⟨hword, ?_, ?_, by rw [hown]; rfl⟩
      · rw [Shared.setOwner_owner]
        exact .inl hword
      · rw [Shared.setOwner_owner]
        rfl
    · exact .inl (Function.update_of_ne hg _ _)
  · intro j g hg
    have hfree := hbase₁.free j g hg
    have hgf : g ≠ f := by
      rintro rfl
      rw [hown] at hfree
      cases hfree
    exact (Function.update_of_ne hgf _ _).trans hfree
  · intro g hlt hg
    have hgf : g ≠ f := by
      rintro rfl
      rw [Shared.setOwner_owner] at hg
      cases hg
    exact hbase₁.listed g hlt ((Function.update_of_ne hgf _ _).symm.trans hg)

end Lists

theorem Base.entry (hbase : Base cfg m) {new : Pte} (htaken : m.taken p = true)
    (honly : OnlyIn m p new.frame)
    (hloaded : new.present = true ∨ Absent m p)
    (hpresent : (m.pte p).present = true → new.present = true) : Base cfg (m.setPte p new) := by
  have hpte : ∀ q, q ≠ p → (m.setPte p new).pte q = m.pte q := fun q hq => Function.update_of_ne hq _ _
  have hself : (m.setPte p new).pte p = new := Function.update_self ..
  have hframe : ∀ f, (m.owner f).loaded = some p → f = ((m.setPte p new).pte p).frame := by
    intro f hf
    rw [hself]
    exact honly f hf
  constructor
  · exact hbase.frame
  · exact hbase.unique
  · intro f q hf
    by_cases hq : q = p
    · subst hq
      rw [hself]
      exact ⟨htaken, hloaded.resolve_right fun h => h f hf⟩
    · rw [hpte q hq]
      exact hbase.present f q hf
  · intro f q hf husr1
    by_cases hq : q = p
    · subst hq
      exact hframe f hf
    · rw [hpte q hq] at husr1 ⊢
      exact hbase.mapped f q hf husr1
  · intro q hq
    have hres := hbase.read q hq
    by_cases hqp : q = p
    · subst hqp
      rw [← hframe _ (by rw [hres]; rfl)]
      exact hres
    · rw [hpte q hqp]
      exact hres
  · intro f t q hf
    by_cases hqp : q = p
    · subst hqp
      exact hframe f (by rw [show m.owner f = _ from hf]; rfl)
    · rw [hpte q hqp]
      exact hbase.guarded f t q hf
  · intro q hq
    obtain ⟨hpage, htaken, hpres⟩ := hbase.known q hq
    refine ⟨hpage, htaken, ?_⟩
    by_cases hqp : q = p
    · subst hqp
      rw [hself]
      exact hpresent hpres
    · rw [hpte q hqp]
      exact hpres
  · intro q hq
    by_cases hqp : q = p
    · subst hqp
      rw [show m.taken q = false from hq] at htaken
      cases htaken
    · rw [hpte q hqp]
      exact hbase.untaken q hq
  · intro u q hq
    refine hbase.tlb u q ?_
    by_cases hqp : q = p
    · subst hqp
      rw [hself] at hq
      rw [← Bool.not_eq_true]
      intro hpres
      rw [hpresent hpres] at hq
      cases hq
    · rwa [hpte q hqp] at hq
  · exact hbase.disk
  · exact hbase.free
  · exact hbase.listed
  · exact hbase.nodup
  · exact hbase.disjoint

theorem Base.frameOk (hbase : Base cfg m) {o : Owner} (h : m.owner f = o) :
    FrameOk cfg m (m.word f) o := by
  have hframe := hbase.frame f
  rwa [h] at hframe

/-- A frame that is being filled goes on being filled. -/
theorem Base.fill (hbase : Base cfg m) {x : Page α} (howner : m.owner f = .filling t p)
    (hword : FreeWord x.word ∨ DiskWord p x.word) : Base cfg (m.setPage f x) := by
  have hnone : (m.owner f).loaded = none := by rw [howner]; rfl
  refine (oneFrame_setPage m f p x).base hbase ⟨?_, ?_, ?_, .inl ⟨rfl, rfl⟩, hbase.read p, ?_,
    hbase.known p, hbase.disk p, ?_, ?_⟩
  · simp only [Shared.word, Shared.setPage_frames]
    rw [show (m.setPage f x).owner f = _ from howner]
    exact hword
  · intro q hq
    rw [hnone] at hq
    cases hq
  · intro q hq
    rw [show (m.setPage f x).owner f = m.owner f from rfl, hnone] at hq
    cases hq
  · intro u q hq
    rw [show (m.setPage f x).owner f = m.owner f from rfl, howner] at hq
    cases hq
  · rw [howner]
    simp
  · rw [show (m.setPage f x).owner f = m.owner f from rfl, howner]
    simp

/-- A frame that has been filled gets a page that no other frame holds. -/
theorem Base.fillDone (hbase : Base cfg m) {w : VmPageState} {o : Owner}
    (howner : m.owner f = .filling t p) (habsent : Absent m p) (hloaded : o.loaded = some p)
    (hpresent : m.taken p = true ∧ (m.pte p).present = true)
    (hmapped : (m.pte p).usr1 = false → f = (m.pte p).frame)
    (hok : FrameOk cfg m w o) (hguarded : ∀ u q, o ≠ .guarded u q) :
    Base cfg ((m.setWord f w).setOwner f o) := by
  have hnone : (m.owner f).loaded = none := by rw [howner]; rfl
  refine ((oneFrame_setWord m f p w).setOwner o).base hbase ⟨?_, ?_, ?_, .inl ⟨rfl, rfl⟩, ?_, ?_,
    hbase.known p, hbase.disk p, ?_, ?_⟩
  · rw [Shared.setOwner_owner]
    simp only [Shared.word, Shared.setOwner, Shared.setWord, Shared.setPage_frames]
    exact hok.congr fun _ _ => ⟨rfl, rfl⟩
  · intro q hq
    rw [hnone] at hq
    cases hq
  · intro q hq
    rw [Shared.setOwner_owner, hloaded] at hq
    cases hq
    exact ⟨rfl, .inr ⟨habsent, hpresent, hmapped⟩⟩
  · intro hq
    exact absurd (hbase.readers_nil habsent.not_resident) hq
  · intro u q hq
    rw [Shared.setOwner_owner] at hq
    exact absurd hq (hguarded u q)
  · rw [howner]
    simp
  · rw [Shared.setOwner_owner]
    rintro rfl
    cases hloaded

/-- A frame with a page changes its word and its owner, and has no readers. -/
theorem Base.swapOwner (hbase : Base cfg m) {w : VmPageState} {o : Owner}
    (hloaded : (m.owner f).loaded = some p) (hnil : m.readers p = [])
    (hnew : ∀ q, o.loaded = some q → q = p) (hok : FrameOk cfg m w o)
    (hguarded : ∀ u q, o = .guarded u q → f = (m.pte q).frame) (hfree : o ≠ .free) :
    Base cfg ((m.setWord f w).setOwner f o) := by
  refine ((oneFrame_setWord m f p w).setOwner o).base hbase
    (respects_of_loaded hbase hloaded ?_ ?_ ?_ ?_ ?_ (hbase.disk p) ?_)
  · rw [Shared.setOwner_owner]
    simp only [Shared.word, Shared.setOwner, Shared.setWord, Shared.setPage_frames]
    exact hok.congr fun _ _ => ⟨rfl, rfl⟩
  · intro q hq
    rw [Shared.setOwner_owner] at hq
    exact hnew q hq
  · intro hq
    exact absurd hnil hq
  · intro u q hq
    rw [Shared.setOwner_owner] at hq
    exact hguarded u q hq
  · intro hknown
    exact (hbase.known p hknown).2.1
  · rw [Shared.setOwner_owner]
    exact hfree

/-- The content of a frame with a page changes, but not its word. -/
theorem Base.setContent (hbase : Base cfg m) {x : Page α} (hloaded : (m.owner f).loaded = some p)
    (hword : x.word = m.word f) : Base cfg (m.setPage f x) := by
  refine (oneFrame_setPage m f p x).base hbase
    (respects_of_loaded hbase hloaded ?_ ?_ (hbase.read p) (hbase.guarded f) ?_ (hbase.disk p) ?_)
  · simp only [Shared.word, Shared.setPage_frames, hword]
    exact (hbase.frame f).congr fun _ _ => ⟨rfl, rfl⟩
  · intro q hq
    rw [show (m.setPage f x).owner f = m.owner f from rfl, hloaded] at hq
    exact (Option.some.inj hq).symm
  · intro hknown
    exact (hbase.known p hknown).2.1
  · intro hfree
    rw [show (m.setPage f x).owner f = m.owner f from rfl] at hfree
    rw [hfree] at hloaded
    cases hloaded

/-- The word of a resident frame is swapped, and its readers change. -/
theorem Base.swapWord (hbase : Base cfg m) {w : VmPageState} {r : List Nat}
    (howner : m.owner f = .resident p) (hframe : r ≠ [] → f = (m.pte p).frame)
    (haddr : w.addr = p) (hcounts : CountsReaders r w.state) :
    Base cfg ((m.setWord f w).setReaders p r) := by
  have hpage := (hbase.frameOk howner).1
  have hown : ((m.setWord f w).setReaders p r).owner f = .resident p := howner
  refine ((oneFrame_setWord m f p w).setReaders r).base hbase
    (respects_of_loaded hbase (by rw [howner]; rfl) ?_ ?_ ?_ ?_ ?_ (hbase.disk p) ?_)
  · rw [hown]
    refine ⟨hpage, ?_, ?_⟩
    · simp only [Shared.word, Shared.setReaders, Shared.setWord, Shared.setPage_frames]
      exact haddr
    · simp only [Shared.word, Shared.setReaders, Shared.setWord, Shared.setPage_frames,
        Function.update_self]
      exact hcounts
  · intro q hq
    rw [hown] at hq
    exact (Option.some.inj hq).symm
  · intro hr
    rw [show ((m.setWord f w).setReaders p r).readers p = r from Function.update_self ..] at hr
    rw [← hframe hr]
    exact hown
  · intro u q hq
    rw [hown] at hq
    cases hq
  · intro hknown
    exact (hbase.known p hknown).2.1
  · rw [hown]
    simp

/-- **A change keeps the invariant of the shared part.** -/
theorem Change.base {a : Agent} {q : Touch} (h : Change cfg k m a q m') (hbase : Base cfg m) :
    Base cfg m' := by
  cases h with
  | quiet => exact hbase
  | take _ p =>
    have hmono : ∀ q, m.taken q = true → Function.update m.taken p true q = true := by
      intro q hq
      by_cases hqp : q = p
      · simp [hqp]
      · simpa [Function.update_of_ne hqp] using hq
    refine { hbase with present := ?_, known := ?_, untaken := ?_ }
    · intro f q hf
      obtain ⟨htaken, hpresent⟩ := hbase.present f q hf
      exact ⟨hmono q htaken, hpresent⟩
    · intro q hq
      obtain ⟨hpage, htaken, hpresent⟩ := hbase.known q hq
      exact ⟨hpage, hmono q htaken, hpresent⟩
    · intro q hq
      refine hbase.untaken q ?_
      rw [← Bool.not_eq_true]
      intro htaken
      have hfalse := (hmono q htaken).symm.trans hq
      cases hfalse
  | tlb _ t p x hx =>
    refine { hbase with tlb := ?_ }
    intro u q hq
    have hold := hbase.tlb u q hq
    by_cases huq : u = t ∧ q = p
    · obtain ⟨rfl, rfl⟩ := huq
      cases x with
      | none => simp [Shared.setTlb]
      | some f =>
        have hpresent := (hx f rfl).2
        rw [show (m.pte q).present = false from hq] at hpresent
        cases hpresent
    · by_cases hu : u = t
      · have hqp : q ≠ p := fun h => huq ⟨hu, h⟩
        simpa [Shared.setTlb, hu, Function.update_of_ne hqp] using hu ▸ hold
      · simpa [Shared.setTlb, Function.update_of_ne hu] using hold
  | entry _ p new htaken honly hloaded hpresent => exact hbase.entry htaken honly hloaded hpresent
  | pop t p i f hlast => exact hbase.pop hlast
  | steal t i n => exact hbase.steal i n
  | refill t p i stolen f hlast hnodup howner => exact hbase.refill hlast hnodup howner
  | fill t p f x howner hword => exact hbase.fill howner hword
  | load t p f howner hknown habsent husr1 hpage haddr _ =>
    refine hbase.fillDone howner habsent rfl (hbase.known p hknown).2 ?_ ?_ (by simp)
    · rw [husr1]
      simp
    · refine ⟨(hbase.known p hknown).1, haddr, ?_⟩
      rw [hbase.readers_nil habsent.not_resident]
      exact countsReaders_nil
  | initWord t p f howner hpage htaken hknown habsent hframe hpresent =>
    exact hbase.fillDone howner habsent rfl ⟨htaken, hpresent⟩ (fun _ => hframe)
      ⟨hpage, rfl, hknown⟩ (by simp)
  | lockNew t p f howner hframe =>
    have hok := hbase.frameOk howner
    have hloaded : (m.owner f).loaded = some p := by rw [howner]; rfl
    refine hbase.swapOwner hloaded (hbase.readers_nil (hbase.not_resident hloaded ?_)) ?_ ?_ ?_ ?_
    · rw [howner]
      simp
    · intro q hq
      exact (Option.some.inj hq).symm
    · refine ⟨hok.1, ?_, rfl⟩
      rw [hok.2.1]
      rfl
    · intro u q hq
      cases hq
      exact hframe
    · simp
  | swap _ p f w howner haddr hversion hcounts =>
    have hres := hbase.swapWord (r := m.readers p) howner ?_ haddr hcounts
    · have heq : (m.setWord f w).setReaders p (m.readers p) = m.setWord f w := by
        simp [Shared.setReaders, Shared.setWord, Shared.setPage]
      rwa [heq] at hres
    · intro hne
      exact hbase.unique f _ p (by rw [howner]; rfl) (by rw [hbase.read p hne]; rfl)
  | lockX t p f howner hframe hlock =>
    have hok := hbase.frameOk howner
    refine hbase.swapOwner (by rw [howner]; rfl) (hok.2.2.nil_of_lockable hlock) ?_
      ⟨hok.1, hok.2.1, rfl⟩ ?_ (by simp)
    · intro q hq
      exact (Option.some.inj hq).symm
    · intro u q hq
      cases hq
      exact hframe
  | lockS t p f w howner hframe hlock =>
    have hok := hbase.frameOk howner
    obtain ⟨haddr, _, hcounts⟩ := hok.2.2.lockS hlock t
    exact hbase.swapWord howner (fun _ => hframe) (haddr.trans hok.2.1) hcounts
  | unlockS t p f howner hframe hmem =>
    have hok := hbase.frameOk howner
    exact hbase.swapWord howner (fun _ => hframe) hok.2.1 (hok.2.2.unlockS hmem)
  | dirty t p f howner htaken =>
    have hloaded : (m.owner f).loaded = some p := by rw [howner]; rfl
    refine (oneFrame_setPage m f p _).setKnown.base hbase
      (respects_of_loaded hbase hloaded ?_ ?_ (hbase.read p) (hbase.guarded f) (fun _ => htaken)
        (hbase.disk p) ?_)
    · have hok := hbase.frameOk howner
      rw [show ((m.setPage f { m.frames f with dirty := true }).setKnown p).owner f = _ from howner]
      simp only [Shared.word, Shared.setKnown, Shared.setPage_frames]
      exact hok
    · intro q hq
      rw [show ((m.setPage f { m.frames f with dirty := true }).setKnown p).owner f = _
        from howner] at hq
      exact (Option.some.inj hq).symm
    · rw [show ((m.setPage f { m.frames f with dirty := true }).setKnown p).owner f = _ from howner]
      simp
  | modify t p f x howner | clean e p f saved howner =>
    exact hbase.setContent (p := p) (by rw [howner]; rfl) rfl
  | unlockX t p f howner =>
    have hok := hbase.frameOk howner
    have hloaded : (m.owner f).loaded = some p := by rw [howner]; rfl
    have hnil := hbase.readers_nil (hbase.not_resident hloaded (by rw [howner]; simp))
    have hres := hbase.swapOwner (o := .resident p) (w := (m.word f).unlockX) hloaded hnil
      (fun q hq => (Option.some.inj hq).symm)
        ⟨hok.1, hok.2.1, by rw [hnil]; exact countsReaders_nil⟩
      (by simp) (by simp)
    exact { hres with }
  | evictLock e p f saved howner hlock =>
    have hok := hbase.frameOk howner
    refine hbase.swapOwner (by rw [howner]; rfl) (hok.2.2.nil_of_lockable hlock) ?_
      ⟨hok.1, hok.2.1, rfl⟩ (by simp) (by simp)
    intro q hq
    exact (Option.some.inj hq).symm
  | diskWrite e p f saved howner =>
    have hok := hbase.frameOk howner
    have hloaded : (m.owner f).loaded = some p := by rw [howner]; rfl
    have hnil := hbase.readers_nil (hbase.not_resident hloaded (by rw [howner]; simp))
    refine (oneFrame_disk (m.frames f) _).base hbase
      (respects_of_loaded hbase hloaded ?_ ?_ (fun hne => absurd hnil hne) ?_ ?_ ?_ ?_)
    · simp only [Shared.setOwner, Function.update_self]
      exact hok
    · intro q hq
      simp only [Shared.setOwner, Function.update_self] at hq
      exact (Option.some.inj hq).symm
    · intro u q hq
      simp only [Shared.setOwner, Function.update_self] at hq
      cases hq
    · intro hknown
      exact (hbase.known p hknown).2.1
    · simp only [Function.update_self]
      exact .inr hok.2
    · simp [Shared.setOwner]
  | invalidate e p f howner =>
    have hloaded : (m.owner f).loaded = some p := by rw [howner]; rfl
    refine hbase.swapOwner hloaded
      (hbase.readers_nil (hbase.not_resident hloaded (by rw [howner]; simp))) ?_ ⟨rfl, rfl⟩
      (by simp) (by simp)
    intro q hq
    cases hq
  | release e i done hnodup howner =>
    exact hbase.giveFrames i hnodup fun g hg => .inr ⟨e, howner g hg⟩

/-! ## What a change leaves alone -/

/-- The agent that a frame belongs to. -/
def Owner.agent : Owner → Option Agent
  | .popped t | .filling t _ | .fresh t _ | .guarded t _ => some (.thread t)
  | .evicting e _ _ | .evicted e => some (.evictor e)
  | .free | .resident _ => none

section Kept

variable {a b : Agent} {q : Touch}

/-- Agent `a` hands on a frame of its own, or one that belonged to nobody. -/
structure Handed (a : Agent) (q : Touch) (o o' : Owner) : Prop where
  old : ∀ b, o.agent = some b → b = a
  new : ∀ b, o'.agent = some b → b = a
  /-- A page is loaded only by who changes its entry. -/
  loaded : ∀ p, o'.loaded = some p → o.loaded = some p ∨ q = .entry p
  guarded : ∀ t p, o = .guarded t p → q = .release t p

section Effect

variable (h : Change cfg k m a q m')

include h

theorem Change.owner (hbase : Base cfg m) (g : Nat) :
    m'.owner g = m.owner g ∨ Handed a q (m.owner g) (m'.owner g) := by
  have hset : ∀ {f : Nat} {o o' : Owner}, m.owner f = o →
      m'.owner = Function.update m.owner f o' → Handed a q o o' →
      m'.owner g = m.owner g ∨ Handed a q (m.owner g) (m'.owner g) := by
    intro f o o' ho ho' hh
    by_cases hgf : g = f
    · subst hgf
      rw [ho', Function.update_self, ho]
      exact .inr hh
    · exact .inl (by rw [ho', Function.update_of_ne hgf])
  have hsets : ∀ {fs : List Nat} {o o' : Owner}, (∀ f ∈ fs, m.owner f = o) →
      m'.owner g = (m.setOwners fs o').owner g → Handed a q o o' →
      m'.owner g = m.owner g ∨ Handed a q (m.owner g) (m'.owner g) := by
    intro fs o o' ho ho' hh
    by_cases hg : g ∈ fs
    · rw [ho', m.setOwners_mem hg, ho g hg]
      exact .inr hh
    · exact .inl (by rw [ho', m.setOwners_not_mem hg])
  cases h with
  | quiet | take | tlb | entry | fill | modify | swap | lockS | unlockS | dirty | clean =>
    exact .inl rfl
  | pop t p i f hlast =>
    exact hset (hbase.free i f (List.mem_of_getLast? hlast)) rfl
      ⟨by simp [Owner.agent], by simp [Owner.agent], by simp [Owner.loaded], by simp⟩
  | steal t i n =>
    refine hsets (fun f hf => hbase.free i f ?_) rfl
      ⟨by simp [Owner.agent], by simp [Owner.agent], by simp [Owner.loaded], by simp⟩
    exact List.mem_reverse.1 (List.mem_of_mem_take hf)
  | refill t p i stolen f hlast hnodup howner =>
    by_cases hgf : g = f
    · subst hgf
      rw [Shared.setOwner_owner, howner g (List.mem_of_getLast? hlast)]
      exact .inr ⟨by simp [Owner.agent], by simp [Owner.agent], by simp [Owner.loaded], by simp⟩
    · exact hsets howner (Function.update_of_ne hgf _ _)
        ⟨by simp [Owner.agent], by simp [Owner.agent], by simp [Owner.loaded], by simp⟩
  | load t p f howner | initWord t p f howner | lockNew t p f howner | lockX t p f howner
  | unlockX t p f howner | evictLock e p f saved howner | diskWrite e p f saved howner
  | invalidate e p f howner =>
    exact hset howner rfl
      ⟨by simp [Owner.agent], by simp [Owner.agent], by simp [Owner.loaded], by simp⟩
  | release e i done hnodup howner =>
    exact hsets howner rfl
      ⟨by simp [Owner.agent], by simp [Owner.agent], by simp [Owner.loaded], by simp⟩

/-- The frames of others are left alone. -/
theorem Change.own (hbase : Base cfg m) (hown : (m.owner g).agent = some b)
    (hne : b ≠ a) : m'.owner g = m.owner g ∧ m'.frames g = m.frames g := by
  refine ⟨(h.owner hbase g).resolve_right fun hh => hne (hh.old b hown), ?_⟩
  have hdiff : ∀ {f : Nat} {o : Owner}, m.owner f = o → (∀ c, o.agent = some c → c = a) → g ≠ f := by
    rintro f o ho hagent rfl
    rw [ho] at hown
    exact hne (hagent b hown)
  cases h with
  | quiet | take | tlb | entry | pop | steal | refill | diskWrite | release => rfl
  | fill t p f x howner | modify t p f x howner | swap _ p f x howner
  | lockS t p f w howner | unlockS t p f howner | dirty t p f howner | clean e p f saved howner
  | load t p f howner | initWord t p f howner | lockNew t p f howner | lockX t p f howner
  | unlockX t p f howner | evictLock e p f saved howner | invalidate e p f howner =>
    exact Function.update_of_ne (hdiff howner (by simp [Owner.agent])) _ _

/-- No frame is handed to somebody else. -/
theorem Change.back (hbase : Base cfg m) (hown : (m'.owner g).agent = some b) (hne : b ≠ a) :
    m'.owner g = m.owner g:=
  (h.owner hbase g).resolve_right fun hh => hne (hh.new b hown)

theorem Change.pte (hq : q ≠ .entry p) : m'.pte p = m.pte p := by
  cases h with
  | entry _ p' new =>
    have hne : p ≠ p' := by
      rintro rfl
      exact hq rfl
    exact Function.update_of_ne hne _ _
  | _ => rfl

theorem Change.loaded (hbase : Base cfg m) (hq : q ≠ .entry p) (hg : (m'.owner g).loaded = some p) :
    (m.owner g).loaded = some p := by
  rcases h.owner hbase g with hsame | hh
  · rwa [hsame] at hg
  · exact (hh.loaded p hg).resolve_right hq

theorem Change.absent (hbase : Base cfg m) (hq : q ≠ .entry p) (habsent : Absent m p) :
    Absent m' p :=
  fun g hg => habsent g (h.loaded hbase hq hg)

theorem Change.onlyIn (hbase : Base cfg m) (hq : q ≠ .entry p) (honly : OnlyIn m p f) :
    OnlyIn m' p f := fun g hg => honly g (h.loaded hbase hq hg)

/-- Only a page that a frame holds is written to disk. -/
theorem Change.disk (habsent : Absent m p) : m'.disk p = m.disk p := by
  cases h with
  | diskWrite e r f saved howner =>
    have hne : p ≠ r := by
      rintro rfl
      exact habsent f (by rw [howner]; rfl)
    exact Function.update_of_ne hne _ _
  | _ => rfl

theorem Change.known_mono (hknown : m.known p = true) : m'.known p = true := by
  cases h with
  | dirty t r f =>
    by_cases hpr : p = r
    · simp [Shared.setKnown, hpr]
    · simpa [Shared.setKnown, Shared.setPage, Function.update_of_ne hpr] using hknown
  | _ => exact hknown

/-- A page becomes known once its first lock is taken. -/
theorem Change.known (hguarded : ∀ f t, m.owner f ≠ .guarded t p) : m'.known p = m.known p := by
  cases h with
  | dirty t r f howner =>
    have hne : p ≠ r := by
      rintro rfl
      exact hguarded f t howner
    exact Function.update_of_ne hne _ _
  | _ => rfl

theorem Change.taken_mono (htaken : m.taken p = true) : m'.taken p = true := by
  cases h with
  | take _ r =>
    by_cases hpr : p = r
    · simp [hpr]
    · simpa [Function.update_of_ne hpr] using htaken
  | _ => exact htaken

/-- A translation that has come into the TLB is that of the page table. -/
theorem Change.tlb_eq (hf : m'.tlb t p = some f) : m.tlb t p = some f ∨ f = (m.pte p).frame := by
  cases h with
  | tlb _ u r x hx =>
    by_cases hu : t = u
    · subst hu
      by_cases hr : p = r
      · subst hr
        simp only [Shared.setTlb, Function.update_self] at hf
        exact .inr (hx f hf).1
      · simp only [Shared.setTlb, Function.update_self, Function.update_of_ne hr] at hf
        exact .inl hf
    · simp only [Shared.setTlb, Function.update_of_ne hu] at hf
      exact .inl hf
  | _ => exact .inl hf

/-- The entry of a page goes on pointing to the frame that holds it. -/
theorem Change.frame (hheld : (m.owner (m.pte p).frame).loaded = some p) :
    (m'.pte p).frame = (m.pte p).frame := by
  cases h with
  | entry _ r new _ honly =>
    by_cases hpr : p = r
    · subst hpr
      simp only [Shared.setPte, Function.update_self]
      exact (honly _ hheld).symm
    · simp only [Shared.setPte, Function.update_of_ne hpr]
  | _ => rfl

/-- The number of shared locks that a thread has on a page. -/
theorem Change.count (hq : q ≠ .release t p) : (m.readers p).count t ≤ (m'.readers p).count t := by
  cases h with
  | lockS u r f =>
    by_cases hpr : p = r
    · subst hpr
      simp only [Shared.setReaders, Function.update_self]
      exact List.count_le_count_cons
    · simp only [Shared.setReaders, Function.update_of_ne hpr]
      exact Nat.le_refl _
  | unlockS u r f =>
    by_cases hpr : p = r
    · subst hpr
      have hne : t ≠ u := by
        rintro rfl
        exact hq rfl
      simp only [Shared.setReaders, Function.update_self]
      exact Nat.le_of_eq (List.count_erase_of_ne hne).symm
    · simp only [Shared.setReaders, Function.update_of_ne hpr]
      exact Nat.le_refl _
  | _ => exact Nat.le_refl _

/-- An exclusive lock stays until it is released. -/
theorem Change.guarded (hbase : Base cfg m) (hq : q ≠ .release t p)
    (hg : m.owner g = .guarded t p) : m'.owner g = .guarded t p := by
  rcases h.owner hbase g with hsame | hh
  · rw [hsame, hg]
  · exact absurd (hh.guarded t p hg) hq

/-- A frame that is locked for writing stays dirty. -/
theorem Change.stays_dirty (hbase : Base cfg m) (hg : m.owner g = .guarded t p)
    (hdirty : (m.frames g).dirty = true) :
    (m'.frames g).dirty = true := by
  by_cases ha : a = .thread t
  · subst ha
    have hupdate : ∀ {f : Nat} {x : Page α}, m'.frames = Function.update m.frames f x →
        (g = f → x.dirty = true) → (m'.frames g).dirty = true := by
      intro f x hx hd
      rw [hx]
      by_cases hgf : g = f
      · rw [hgf, Function.update_self]
        exact hd hgf
      · rw [Function.update_of_ne hgf]
        exact hdirty
    cases h with
    | quiet | take | tlb | entry | pop | steal | refill => exact hdirty
    | fill u r f x howner =>
      refine hupdate (f := f) rfl ?_
      rintro rfl
      rw [howner] at hg
      cases hg
    | dirty u r f => exact hupdate (f := f) rfl fun _ => rfl
    | modify u r f | load u r f | initWord u r f | lockNew u r f | lockX u r f | lockS u r f
    | unlockS u r f | unlockX u r f | swap _ r f =>
      refine hupdate (f := f) rfl ?_
      rintro rfl
      exact hdirty
  · rw [(h.own hbase (b := .thread t) (by rw [hg]; rfl) (Ne.symm ha)).2]
    exact hdirty

/-! ## What threads and evictors rely on -/

theorem Change.tlbOk (hframe : (m'.pte p).frame = (m.pte p).frame) (htlb : TlbOk m t p) :
    TlbOk m' t p := by
  intro f hf
  rw [hframe]
  rcases h.tlb_eq hf with hold | hnew
  · exact htlb f hold
  · exact hnew

end Effect

/-- Who holds a page goes on holding it. -/
theorem HoldOk.kept {x : Thread} (hold : HoldOk m t x p) (h : Change cfg k m a q m')
    (hbase : Base cfg m) (hq : q ≠ .release t p) : HoldOk m' t x p := by
  have hread : x.shared p ≠ [] → (m'.pte p).frame = (m.pte p).frame := by
    intro hne
    have hpos := List.length_pos_iff.2 hne
    have hmem : t ∈ m.readers p := List.count_pos_iff.1 (by have := hold.count; omega)
    refine h.frame ?_
    rw [hbase.read p (List.ne_nil_of_mem hmem)]
    rfl
  constructor
  · intro f hf
    obtain ⟨rfl, hown, htlb, hdirty⟩ := hold.exclusive f hf
    have hframe := h.frame (p := p) (by rw [hown]; rfl)
    exact ⟨hframe.symm, h.guarded hbase hq hown, h.tlbOk hframe htlb,
      h.stays_dirty hbase hown hdirty⟩
  · intro f hf
    rw [hread (List.ne_nil_of_mem hf)]
    exact hold.shared f hf
  · exact Nat.le_trans hold.count (h.count hq)
  · intro hne
    exact h.tlbOk (hread hne) (hold.tlb hne)

section Fault

variable {md : Mode}

theorem Locks.kept {old : Pte} (hl : Locks m md p old) (h : Change cfg k m a q m')
    (hq : q ≠ .entry p) : Locks m' md p old :=
  ⟨(h.pte hq).trans hl.pte, hl.usr1, hl.present⟩

theorem Unmapped.kept (hu : Unmapped m p) (h : Change cfg k m a q m') (hbase : Base cfg m)
    (hq : q ≠ .entry p) : Unmapped m' p :=
  ⟨h.absent hbase hq hu.absent, by rw [h.pte hq]; exact hu.present, by rw [h.pte hq]; exact hu.usr1⟩

theorem Built.kept {o : Owner} (hb : Built m t p o) (h : Change cfg k m a q m') (hbase : Base cfg m)
    (hq : q ≠ .entry p) (ho : o.agent = some (.thread t)) (ha : a ≠ .thread t) :
    Built m' t p o := by
  have hpte := h.pte hq
  refine ⟨by rw [hpte]; exact hb.present, by rw [hpte]; exact hb.usr1, ?_,
    h.tlbOk (by rw [hpte]) hb.tlb, ?_⟩
  · rw [hpte, (h.own hbase (by rw [hb.owner]; exact ho) (Ne.symm ha)).1]
    exact hb.owner
  · rw [hpte]
    exact h.onlyIn hbase hq hb.only

theorem Filled.kept (hf : Filled m t f md p) (h : Change cfg k m a q m') (hbase : Base cfg m)
    (hq : q ≠ .entry p) (ha : a ≠ .thread t) : Filled m' t f md p := by
  obtain ⟨hown, hframe⟩ := h.own (g := f) (b := .thread t) hbase (by rw [hf.owner]; rfl)
    (Ne.symm ha)
  refine ⟨hf.mode, by rw [h.pte hq]; exact hf.usr1, by rw [h.pte hq]; exact hf.present,
    h.absent hbase hq hf.absent, hown.trans hf.owner, ?_⟩
  rw [hframe, hf.page, h.disk hf.absent]

theorem Storing.kept {new : Pte} (hs : Storing m t md p new) (h : Change cfg k m a q m')
    (hbase : Base cfg m) (hq : q ≠ .entry p) (ha : a ≠ .thread t) : Storing m' t md p new := by
  refine ⟨by rw [h.pte hq]; exact hs.locked, hs.usr1, hs.present, h.onlyIn hbase hq hs.only, ?_⟩
  intro hmd
  obtain ⟨hpresent, habsent, hown⟩ := hs.build hmd
  refine ⟨by rw [h.pte hq]; exact hpresent, h.absent hbase hq habsent, ?_⟩
  rw [(h.own hbase (b := .thread t) (by rw [hown]; rfl) (Ne.symm ha)).1]
  exact hown

theorem FaultOk.kept {pc : FaultPc} (hf : FaultOk m t md p pc) (h : Change cfg k m a q m')
    (hbase : Base cfg m) (ha : a ≠ .thread t)
    (hq : pc.locks = true ∨ md = .allocate → q ≠ .entry p) : FaultOk m' t md p pc := by
  have hown : ∀ {f o}, m.owner f = o → o.agent = some (.thread t) → m'.owner f = o := by
    intro f o ho hagent
    rw [(h.own hbase (by rw [ho]; exact hagent) (Ne.symm ha)).1]
    exact ho
  cases pc with
  | load => exact fun hmd => (hf hmd).kept h hbase (hq (.inr hmd))
  | lock old =>
    intro hmd
    obtain ⟨hu, hold⟩ := hf hmd
    exact ⟨hu.kept h hbase (hq (.inr hmd)), by rw [h.pte (hq (.inr hmd))]; exact hold⟩
  | flush old =>
    have hq := hq (.inl rfl)
    exact ⟨hf.1.kept h hq, h.onlyIn hbase hq hf.2.1, hf.2.2⟩
  | check old =>
    have hq := hq (.inl rfl)
    exact ⟨hf.1.kept h hq, h.onlyIn hbase hq hf.2.1, hf.2.2.1, h.tlbOk (by rw [h.pte hq]) hf.2.2.2⟩
  | alloc old | steal old => exact ⟨hf.1.kept h (hq (.inl rfl)), h.absent hbase (hq (.inl rfl)) hf.2⟩
  | refill old stolen =>
    have hq := hq (.inl rfl)
    exact ⟨hf.1.kept h hq, h.absent hbase hq hf.2.1, hf.2.2.1, fun f hmem => hown (hf.2.2.2 f hmem) rfl⟩
  | zero old f =>
    have hq := hq (.inl rfl)
    exact ⟨hf.1.kept h hq, h.absent hbase hq hf.2.1, hown hf.2.2 rfl⟩
  | read old f =>
    have hq := hq (.inl rfl)
    exact ⟨hf.1.kept h hq, h.absent hbase hq hf.2.1, hown hf.2.2.1 rfl, hf.2.2.2⟩
  | verify f => exact Filled.kept hf h hbase (hq (.inl rfl)) ha
  | unlock f =>
    obtain ⟨hfill, haddr⟩ := hf
    have hframe := (h.own (b := .thread t) hbase (by rw [hfill.owner]; rfl) (Ne.symm ha)).2
    exact ⟨hfill.kept h hbase (hq (.inl rfl)) ha, by rw [Shared.word, hframe]; exact haddr⟩
  | unlocked f v =>
    obtain ⟨hfill, haddr, hv⟩ := hf
    have hframe := (h.own (b := .thread t) hbase (by rw [hfill.owner]; rfl) (Ne.symm ha)).2
    exact ⟨hfill.kept h hbase (hq (.inl rfl)) ha, by rw [Shared.word, hframe]; exact haddr,
      by rw [Shared.word, hframe]; exact hv⟩
  | store new => exact Storing.kept hf h hbase (hq (.inl rfl)) ha
  | done =>
    intro hmd
    obtain ⟨hb, habsent⟩ := hf hmd
    exact ⟨hb.kept h hbase (hq (.inr hmd)) rfl ha, h.absent hbase (hq (.inr hmd)) habsent⟩

end Fault

theorem NewPage.kept (hn : NewPage cfg m p) (h : Change cfg k m a q m')
    (hguarded : ∀ f t, m.owner f ≠ .guarded t p) : NewPage cfg m' p :=
  ⟨hn.page, h.taken_mono hn.taken, (h.known hguarded).trans hn.known⟩

theorem Absent.not_guarded (h : Absent m p) (f t : Nat) : m.owner f ≠ .guarded t p := by
  intro hf
  exact h f (by rw [hf]; rfl)

/-- A page that its thread has not locked yet is not locked. -/
theorem Built.not_guarded (hb : Built m t p (.fresh t p)) (f u : Nat) :
    m.owner f ≠ .guarded u p := by
  intro hf
  have hframe := hb.only f (by rw [hf]; rfl)
  rw [hframe, hb.owner] at hf
  cases hf

theorem PcOk.kept {x : Thread} {pc : Pc} (hpc : PcOk cfg m t x pc) (h : Change cfg k m a q m')
    (hbase : Base cfg m) (hhold : ∀ p, HoldOk m t x p) (ha : a ≠ .thread t)
    (hq : ∀ p, pc.claims p → q ≠ .entry p) : PcOk cfg m' t x pc := by
  have hown : ∀ {f o}, m.owner f = o → o.agent = some (.thread t) →
      m'.owner f = o ∧ m'.word f = m.word f := by
    intro f o ho hagent
    obtain ⟨ho', hframe⟩ := h.own hbase (by rw [ho]; exact hagent) (Ne.symm ha)
    exact ⟨ho'.trans ho, by rw [Shared.word, Shared.word, hframe]⟩
  cases pc with
  | run => trivial
  | exited f =>
    obtain ⟨p, ho, haddr⟩ := hpc
    exact ⟨p, (hown ho rfl).1, by rw [(hown ho rfl).2]; exact haddr⟩
  | look md p => exact ⟨h.known_mono hpc.1, hpc.2⟩
  | tested md p v => exact ⟨h.known_mono hpc.1, hpc.2⟩
  | fault md p pc =>
    obtain ⟨hnew, hknown, hf⟩ := hpc
    refine ⟨?_, fun hmd => h.known_mono (hknown hmd), hf.kept h hbase ha fun hc => hq p ⟨rfl, hc⟩⟩
    intro hmd
    refine (hnew hmd).kept h ?_
    -- Nobody has locked a page of which no frame holds anything.
    have habsent : Absent m p := by
      cases pc with
      | load => exact (hf hmd).absent
      | lock old => exact (hf hmd).1.absent
      | flush old => exact absurd hmd hf.2.2
      | check old => exact absurd hmd hf.2.2.1
      | alloc old | steal old => exact hf.2
      | refill old stolen => exact hf.2.1
      | zero old f => exact hf.2.1
      | read old f => exact hf.2.1
      | verify f => exact hf.absent
      | unlock f => exact hf.1.absent
      | unlocked f v => exact hf.1.absent
      | store new => exact (hf.build hmd).2.1
      | done => exact (hf hmd).2
    exact habsent.not_guarded
  | construct p | initWord p =>
    obtain ⟨hnew, hb, habsent⟩ := hpc
    exact ⟨hnew.kept h habsent.not_guarded, hb.kept h hbase (hq p rfl) rfl ha,
      h.absent hbase (hq p rfl) habsent⟩
  | loadWord p => exact ⟨hpc.1.kept h hpc.2.not_guarded, hpc.2.kept h hbase (hq p rfl) rfl ha⟩
  | lockNew p v =>
    obtain ⟨hnew, hb, hv⟩ := hpc
    refine ⟨hnew.kept h hb.not_guarded, hb.kept h hbase (hq p rfl) rfl ha, ?_⟩
    rw [h.pte (hq p rfl), (hown hb.owner rfl).2]
    exact hv
  | setDirty p f =>
    obtain ⟨htaken, rfl, hg, htlb⟩ := hpc
    have hframe := h.frame (p := p) (by rw [hg]; rfl)
    exact ⟨h.taken_mono htaken, hframe.symm, (hown hg rfl).1, h.tlbOk hframe htlb⟩
  | unlockX p v =>
    obtain ⟨f, hf, hv⟩ := hpc
    exact ⟨f, hf, by rw [(hown ((hhold p).exclusive f hf).2.1 rfl).2]; exact hv⟩
  | reloadS p => exact hpc
  | unlockS p v => exact hpc
  | clearCheck id v => exact hpc

theorem Pc.frames_congr {pc : Pc} (h : ∀ p, pc.claims p → m'.pte p = m.pte p) :
    pc.frames m' = pc.frames m := by
  cases pc with
  | fault md p pc =>
    cases pc with
    | done =>
      cases md with
      | allocate => simp only [Pc.frames, h p ⟨rfl, .inr rfl⟩]
      | _ => rfl
    | _ => cases md <;> rfl
  | construct p => simp only [Pc.frames, h p rfl]
  | initWord p => simp only [Pc.frames, h p rfl]
  | _ => rfl

theorem Owner.takenBy.agent {o : Owner} (h : o.takenBy t) : o.agent = some (.thread t) := by
  cases o <;> cases h <;> rfl

/-- A thread that makes no step goes on as it can rely on the others. -/
theorem ThreadOk.kept {x : Thread} (hx : ThreadOk cfg m t x) (h : Change cfg k m a q m')
    (hbase : Base cfg m) (ha : a ≠ .thread t) (hq : ∀ p, x.pc.claims p → q ≠ .entry p)
    (hrel : ∀ p, q ≠ .release t p) : ThreadOk cfg m' t x := by
  refine ⟨fun p => (hx.hold p).kept h hbase (hrel p), hx.pc.kept h hbase hx.hold ha hq, ?_⟩
  intro f hf
  rw [Pc.frames_congr fun p hp => h.pte (hq p hp)]
  rw [h.back hbase hf.agent (Ne.symm ha)] at hf
  exact hx.frames f hf

theorem EvictorOk.kept {pc : EvictPc} (hpc : EvictorOk m e pc) (h : Change cfg k m a q m')
    (hbase : Base cfg m) (ha : a ≠ .evictor e) : EvictorOk m' e pc := by
  have hown : ∀ {f o}, m.owner f = o → o.agent = some (.evictor e) →
      m'.owner f = o ∧ m'.word f = m.word f := by
    intro f o ho hagent
    obtain ⟨ho', hframe⟩ := h.own hbase (by rw [ho]; exact hagent) (Ne.symm ha)
    exact ⟨ho'.trans ho, by rw [Shared.word, Shared.word, hframe]⟩
  refine ⟨hpc.nodup, ?_, hpc.unsaved, ?_, ?_, hpc.doneNodup, ?_⟩
  · intro f hf
    obtain ⟨p, saved, ho, hsaved⟩ := hpc.locked f hf
    exact ⟨p, saved, (hown ho rfl).1, hsaved⟩
  · intro f p hf
    obtain ⟨saved, ho⟩ := hpc.pending f p hf
    exact ⟨saved, (hown ho rfl).1⟩
  · intro f
    rw [hpc.done f]
    constructor
    · intro ho
      exact (hown ho rfl).1
    · intro ho
      rw [h.back (b := .evictor e) hbase (by rw [ho]; rfl) (Ne.symm ha)] at ho
      exact ho
  · have hseen := hpc.seen
    cases pc with
    | invalStore f v todo done =>
      obtain ⟨p, saved, ho, _⟩ := hpc.locked f List.mem_cons_self
      simp only [EvictPc.seen, (hown ho rfl).2]
      exact hseen
    | _ => exact hseen

end Kept

/-! ## The invariant -/

section Moves

variable {s s' : State α} {q : Touch}

/-- What a change of the entry of a page needs: that no thread but `t` deals
    with it. -/
def Exclusive (s : State α) (t : Nat) (q : Touch) : Prop :=
  ∀ p, q = .entry p → ∀ u, u ≠ t → ¬ (s.threads u).pc.claims p

/-- A step of thread `t`. -/
theorem Inv.threadStep {x : Thread} (hinv : Inv cfg s)
    (hchange : Change cfg k s.toShared (.thread t) q m')
    (hexcl : Exclusive s t q) (hrel : ∀ u p, q = .release u p → u = t)
    (hshared : s'.toShared = m') (hthreads : s'.threads = Function.update s.threads t x)
    (hevictors : s'.evictors = s.evictors) (hok : ThreadOk cfg m' t x)
    (hclaim : ∀ p, x.pc.claims p → (s.threads t).pc.claims p ∨
      ∀ u, ¬ (s.threads u).pc.claims p)
    (hguards : ∀ g ∈ s'.guards, s.known g.page = true) : Inv cfg s' := by
  have hother : ∀ u, u ≠ t → s'.threads u = s.threads u := by
    intro u hu
    rw [hthreads, Function.update_of_ne hu]
  have hself : s'.threads t = x := by rw [hthreads, Function.update_self]
  refine ⟨by rw [hshared]; exact hchange.base hinv.base, ?_, ?_, ?_, ?_⟩
  · intro u
    rw [hshared]
    by_cases hu : u = t
    · subst hu
      rw [hself]
      exact hok
    · rw [hother u hu]
      refine (hinv.thread u).kept hchange hinv.base (by simpa using Ne.symm hu) ?_ ?_
      · intro p hp hq
        exact hexcl p hq u hu hp
      · intro p hq
        exact hu (hrel u p hq)
  · intro e
    rw [hshared, hevictors]
    exact (hinv.evictor e).kept hchange hinv.base (by simp)
  · -- A page that thread `t` claims now is one it claimed, or one that nobody did.
    have hnew : ∀ u p, u ≠ t → x.pc.claims p → (s.threads u).pc.claims p → False := by
      intro u p hu hx hp
      rcases hclaim p hx with hold | hfree
      · exact hu (hinv.claim u t p hp hold)
      · exact hfree u hp
    intro u v p hu hv
    by_cases hut : u = t
    · by_cases hvt : v = t
      · rw [hut, hvt]
      · rw [hut, hself] at hu
        rw [hother v hvt] at hv
        exact (hnew v p hvt hu hv).elim
    · rw [hother u hut] at hu
      by_cases hvt : v = t
      · rw [hvt, hself] at hv
        exact (hnew u p hut hv hu).elim
      · rw [hother v hvt] at hv
        exact hinv.claim u v p hu hv
  · intro g hg
    rw [hshared]
    exact hchange.known_mono (hguards g hg)

/-- A step of evictor `e`. -/
theorem Inv.evictorStep {pc : EvictPc} (hinv : Inv cfg s)
    (hchange : Change cfg k s.toShared (.evictor e) .nothing m')
    (hshared : s'.toShared = m') (hthreads : s'.threads = s.threads)
    (hevictors : s'.evictors = Function.update s.evictors e pc) (hok : EvictorOk m' e pc)
    (hguards : s'.guards = s.guards) : Inv cfg s' := by
  refine ⟨by rw [hshared]; exact hchange.base hinv.base, ?_, ?_, ?_, ?_⟩
  · intro u
    rw [hshared, hthreads]
    exact (hinv.thread u).kept hchange hinv.base (by simp) (by simp) (by simp)
  · intro d
    rw [hshared, hevictors]
    by_cases hd : d = e
    · subst hd
      rw [Function.update_self]
      exact hok
    · rw [Function.update_of_ne hd]
      exact (hinv.evictor d).kept hchange hinv.base (by simpa using Ne.symm hd)
  · rw [hthreads]
    exact hinv.claim
  · intro g hg
    rw [hguards] at hg
    rw [hshared]
    exact hchange.known_mono (hinv.guards g hg)

/-- A step of neither. -/
theorem Inv.coreStep (hinv : Inv cfg s)
    (hchange : Change cfg k s.toShared .core .nothing s'.toShared)
    (hthreads : s'.threads = s.threads) (hevictors : s'.evictors = s.evictors)
    (hguards : ∀ g ∈ s'.guards, s.known g.page = true) : Inv cfg s' := by
  refine ⟨hchange.base hinv.base, ?_, ?_, ?_, ?_⟩
  · intro u
    rw [hthreads]
    exact (hinv.thread u).kept hchange hinv.base (by simp) (by simp) (by simp)
  · intro d
    rw [hevictors]
    exact (hinv.evictor d).kept hchange hinv.base (by simp)
  · rw [hthreads]
    exact hinv.claim
  · intro g hg
    exact hchange.known_mono (hguards g hg)

end Moves

end Tabby
