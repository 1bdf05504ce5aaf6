import Libdbos.Tabby.BufferManager

/-! # Ownership of Frames

    The invariant of the buffer manager. Each frame has an owner, and the
    owner says what its word can be: only a resident frame, or one with a new
    page, carries an address without being locked, so whoever swaps a word
    of that kind has such a frame in hand (`loaded_of_word`).

    `Base` speaks of frames, pages and the page table, `ThreadOk` and
    `EvictorOk` of what one thread or evictor relies on.
-/

open LTS

namespace Tabby

variable {α : Type} {cfg : Config α} {m m' : Shared α} {t e f g : Nat} {p : Pid}

/-! ## Frames and pages -/

/-- The page in a frame, from the store of its address in unlocked state to
    its invalidation. -/
def Owner.loaded : Owner → Option Pid
  | .fresh _ p | .resident p | .guarded _ p | .evicting _ p _ => some p
  | _ => none

/-- No frame holds `p`. -/
def Absent (m : Shared α) (p : Pid) : Prop := ∀ f, (m.owner f).loaded ≠ some p

/-- No frame but `f` holds `p`. -/
def OnlyIn (m : Shared α) (p : Pid) (f : Nat) : Prop := ∀ g, (m.owner g).loaded = some p → g = f

/-- What the owner of a frame says about its word. -/
def FrameOk (cfg : Config α) (m : Shared α) (w : VmPageState) : Owner → Prop
  | .free | .popped _ | .evicted _ => FreeWord w
  | .filling _ p => FreeWord w ∨ DiskWord p w
  | .fresh _ p => cfg.isPage p = true ∧ w = ⟨p, 0#20, VmPageState.unlocked⟩ ∧ m.known p = false
  | .resident p => cfg.isPage p = true ∧ w.addr = p ∧ CountsReaders (m.readers p) w.state
  | .guarded _ p | .evicting _ p _ =>
      cfg.isPage p = true ∧ w.addr = p ∧ w.state = VmPageState.locked

structure Base (cfg : Config α) (m : Shared α) : Prop where
  frame : ∀ f, FrameOk cfg m (m.word f) (m.owner f)
  unique : ∀ f g p, (m.owner f).loaded = some p → (m.owner g).loaded = some p → f = g
  present : ∀ f p, (m.owner f).loaded = some p →
    m.taken p = true ∧ (m.pte p).present = true
  /-- An entry that is not being changed points to the frame of its page. -/
  mapped : ∀ f p, (m.owner f).loaded = some p → (m.pte p).usr1 = false → f = (m.pte p).frame
  read : ∀ p, m.readers p ≠ [] → m.owner (m.pte p).frame = .resident p
  guarded : ∀ f t p, m.owner f = .guarded t p → f = (m.pte p).frame
  known : ∀ p, m.known p = true →
    cfg.isPage p = true ∧ m.taken p = true ∧ (m.pte p).present = true
  untaken : ∀ p, m.taken p = false → (m.pte p).present = false ∧ (m.pte p).usr1 = false
  tlb : ∀ t p, (m.pte p).present = false → m.tlb t p = none
  disk : ∀ p, DiskWord p (m.disk p).word
  free : ∀ i f, f ∈ m.free i → m.owner f = .free
  listed : ∀ f, f < cfg.physCount → m.owner f = .free → ∃ i, f ∈ m.free i
  nodup : ∀ i, (m.free i).Nodup
  disjoint : ∀ i j f, f ∈ m.free i → f ∈ m.free j → i = j

/-- A word that is neither free nor zeroed nor locked is that of a page. -/
theorem loaded_of_word (hbase : Base cfg m) (hfree : ¬ FreeWord (m.word f))
    (hzero : m.word f ≠ zeroWord) (hstate : (m.word f).state ≠ VmPageState.locked) :
    m.owner f = .resident (m.word f).addr ∨ ∃ t, m.owner f = .fresh t (m.word f).addr := by
  have hframe := hbase.frame f
  cases ho : m.owner f with
  | free | popped _ | evicted _ =>
    rw [ho] at hframe
    exact absurd hframe hfree
  | filling t p =>
    rw [ho] at hframe
    rcases hframe with hw | hw | hw
    · exact absurd hw hfree
    · exact absurd hw hzero
    · exact absurd hw.2 hstate
  | fresh t p =>
    rw [ho] at hframe
    exact .inr ⟨t, by rw [hframe.2.1]⟩
  | resident p =>
    rw [ho] at hframe
    exact .inl (by rw [hframe.2.1])
  | guarded t p =>
    rw [ho] at hframe
    exact absurd hframe.2.2 hstate
  | evicting e p b =>
    rw [ho] at hframe
    exact absurd hframe.2.2 hstate

/-- The word of a known page that is not locked is that of a resident frame. -/
theorem resident_of_known (hbase : Base cfg m) (hknown : m.known p = true)
    (haddr : (m.word f).addr = p) (hstate : (m.word f).state ≠ VmPageState.locked) :
    m.owner f = .resident p := by
  have hpage := (hbase.known p hknown).1
  have hfree : ¬ FreeWord (m.word f) := by
    rintro ⟨hinv, _⟩
    rw [← haddr, hinv, cfg.invalid_not_page] at hpage
    cases hpage
  have hzero : m.word f ≠ zeroWord := by
    intro hw
    rw [← haddr, hw, show zeroWord.addr = 0#36 from rfl, cfg.zero_not_page] at hpage
    cases hpage
  rcases loaded_of_word hbase hfree hzero hstate with hres | ⟨t, hfresh⟩
  · rwa [haddr] at hres
  · have hframe := hbase.frame f
    rw [hfresh, haddr] at hframe
    rw [hframe.2.2] at hknown
    cases hknown

/-- Only resident frames are marked. -/
theorem resident_of_marked (hbase : Base cfg m)
    (hstate : (m.word f).state = VmPageState.marked) : m.owner f = .resident (m.word f).addr := by
  have hne : VmPageState.marked ≠ VmPageState.unlocked := by decide
  have hfree : ¬ FreeWord (m.word f) := by
    rintro ⟨_, hw⟩
    exact hne (hstate.symm.trans hw)
  have hzero : m.word f ≠ zeroWord := by
    intro hw
    rw [hw] at hstate
    exact hne hstate.symm
  have hlocked : (m.word f).state ≠ VmPageState.locked := by
    rw [hstate]
    decide
  rcases loaded_of_word hbase hfree hzero hlocked with hres | ⟨t, hfresh⟩
  · exact hres
  · have hframe := hbase.frame f
    rw [hfresh] at hframe
    rw [hframe.2.1] at hstate
    exact absurd hstate.symm hne

/-- A page that is not resident has no readers. -/
theorem Base.readers_nil (hbase : Base cfg m)
    (h : ∀ f, m.owner f ≠ .resident p) : m.readers p = [] := by
  by_contra hne
  exact h _ (hbase.read p hne)

/-- The page in a frame is not resident in another one. -/
theorem Base.not_resident (hbase : Base cfg m) (hloaded : (m.owner f).loaded = some p)
    (hne : m.owner f ≠ .resident p) (g : Nat) : m.owner g ≠ .resident p := by
  intro hg
  have hfg := hbase.unique f g p hloaded (by rw [hg]; rfl)
  rw [hfg] at hne
  exact hne hg

theorem Absent.not_resident (h : Absent m p) (g : Nat) : m.owner g ≠ .resident p := by
  intro hg
  exact h g (by rw [hg]; rfl)

/-! ## Threads -/

/-- The page whose entry a fault has locked. -/
def FaultPc.locks : FaultPc → Bool
  | .load | .lock _ | .done => false
  | _ => true

/-- Thread `t` alone deals with the entry of `p`: it has locked the entry, or
    it is allocating the page. -/
def Pc.claims (p : Pid) : Pc → Prop
  | .fault md q pc => p = q ∧ (pc.locks = true ∨ md = .allocate)
  | .construct q | .initWord q | .loadWord q | .lockNew q _ => p = q
  | _ => False

/-- The frames that a thread has popped and not handed over yet. -/
def Pc.frames (m : Shared α) : Pc → List Nat
  | .fault _ _ (.refill _ stolen) => stolen
  | .fault _ _ (.zero _ f) | .fault _ _ (.read _ f) | .fault _ _ (.verify f)
  | .fault _ _ (.unlock f) | .fault _ _ (.unlocked f _) | .exited f => [f]
  | .fault .allocate _ (.store new) => [new.frame]
  | .fault .allocate p .done | .construct p | .initWord p => [(m.pte p).frame]
  | _ => []

/-- The frame has been popped by thread `t`, which is filling it. -/
def Owner.takenBy (t : Nat) : Owner → Prop
  | .popped u | .filling u _ => u = t
  | _ => False

/-- The cached translation of `p` is that of the page table. -/
def TlbOk (m : Shared α) (t : Nat) (p : Pid) : Prop := ∀ f, m.tlb t p = some f → f = (m.pte p).frame

theorem TlbOk.translate (h : TlbOk m t p) : m.translate t p = (m.pte p).frame := by
  unfold Shared.translate
  cases hf : m.tlb t p with
  | none => rfl
  | some f => exact h f hf

/-- The entry of `p`, which was `old`, has been locked by a fault. -/
structure Locks (m : Shared α) (md : Mode) (p : Pid) (old : Pte) : Prop where
  pte : m.pte p = { old with usr1 := true }
  usr1 : old.usr1 = false
  present : old.present = false ↔ md = .allocate

/-- A page that is about to be allocated. -/
structure Unmapped (m : Shared α) (p : Pid) : Prop where
  absent : Absent m p
  present : (m.pte p).present = false
  usr1 : (m.pte p).usr1 = false

/-- A page that is being allocated is mapped to a frame. -/
structure Built (m : Shared α) (t : Nat) (p : Pid) (o : Owner) : Prop where
  present : (m.pte p).present = true
  usr1 : (m.pte p).usr1 = false
  owner : m.owner (m.pte p).frame = o
  tlb : TlbOk m t p
  only : OnlyIn m p (m.pte p).frame

/-- Frame `f` has been read from disk for `p`, whose entry is locked. -/
structure Filled (m : Shared α) (t f : Nat) (md : Mode) (p : Pid) : Prop where
  mode : md ≠ .allocate
  usr1 : (m.pte p).usr1 = true
  present : (m.pte p).present = true
  absent : Absent m p
  owner : m.owner f = .filling t p
  page : m.frames f = m.disk p

/-- The entry of `p` is about to be set to `new`. -/
structure Storing (m : Shared α) (t : Nat) (md : Mode) (p : Pid) (new : Pte) : Prop where
  locked : (m.pte p).usr1 = true
  usr1 : new.usr1 = false
  present : new.present = true
  only : OnlyIn m p new.frame
  build : md = .allocate →
    (m.pte p).present = false ∧ Absent m p ∧ m.owner new.frame = .filling t p

/-- What a fault of thread `t` for `p` relies on. -/
def FaultOk (m : Shared α) (t : Nat) (md : Mode) (p : Pid) : FaultPc → Prop
  | .load => md = .allocate → Unmapped m p
  | .lock old => md = .allocate → Unmapped m p ∧ old = m.pte p
  | .flush old => Locks m md p old ∧ OnlyIn m p old.frame ∧ md ≠ .allocate
  | .check old => Locks m md p old ∧ OnlyIn m p old.frame ∧ md ≠ .allocate ∧ TlbOk m t p
  | .alloc old | .steal old => Locks m md p old ∧ Absent m p
  | .refill old stolen => Locks m md p old ∧ Absent m p ∧ stolen.Nodup ∧
      ∀ f ∈ stolen, m.owner f = .popped t
  | .zero old f => Locks m md p old ∧ Absent m p ∧ m.owner f = .filling t p
  | .read old f => Locks m md p old ∧ Absent m p ∧ m.owner f = .filling t p ∧ md ≠ .allocate
  | .verify f => Filled m t f md p
  | .unlock f => Filled m t f md p ∧ (m.word f).addr = p
  | .unlocked f v => Filled m t f md p ∧ (m.word f).addr = p ∧ v = m.word f
  | .store new => Storing m t md p new
  | .done => md = .allocate → Built m t p (.filling t p) ∧ Absent m p

/-- A page that is being allocated. -/
structure NewPage (cfg : Config α) (m : Shared α) (p : Pid) : Prop where
  page : cfg.isPage p = true
  taken : m.taken p = true
  known : m.known p = false

/-- What the position of thread `t` says. -/
def PcOk (cfg : Config α) (m : Shared α) (t : Nat) (x : Thread) : Pc → Prop
  | .run => True
  | .exited f => ∃ p, m.owner f = .filling t p ∧ (m.word f).addr ≠ p
  | .look md p => m.known p = true ∧ md ≠ .allocate
  | .tested md p v => m.known p = true ∧ md ≠ .allocate ∧ v.addr = p ∧
      (md = .optimistic → v.state = VmPageState.marked)
  | .fault md p pc =>
      (md = .allocate → NewPage cfg m p) ∧ (md ≠ .allocate → m.known p = true) ∧
      FaultOk m t md p pc
  | .construct p | .initWord p =>
      NewPage cfg m p ∧ Built m t p (.filling t p) ∧ Absent m p
  | .loadWord p => NewPage cfg m p ∧ Built m t p (.fresh t p)
  | .lockNew p v => NewPage cfg m p ∧ Built m t p (.fresh t p) ∧ v = m.word (m.pte p).frame
  | .setDirty p f =>
      m.taken p = true ∧ f = (m.pte p).frame ∧ m.owner f = .guarded t p ∧ TlbOk m t p
  | .unlockX p v => ∃ f, x.exclusive p = some f ∧ v = m.word f
  | .reloadS p | .unlockS p _ => x.shared p ≠ []
  | .clearCheck _ v => v.state = VmPageState.marked

/-- What thread `t` relies on about the locks that it has on `p`. -/
structure HoldOk (m : Shared α) (t : Nat) (x : Thread) (p : Pid) : Prop where
  exclusive : ∀ f, x.exclusive p = some f → f = (m.pte p).frame ∧ m.owner f = .guarded t p ∧
    TlbOk m t p ∧ (m.frames f).dirty = true
  shared : ∀ f ∈ x.shared p, f = (m.pte p).frame
  count : (x.shared p).length ≤ (m.readers p).count t
  tlb : x.shared p ≠ [] → TlbOk m t p

structure ThreadOk (cfg : Config α) (m : Shared α) (t : Nat) (x : Thread) : Prop where
  hold : ∀ p, HoldOk m t x p
  pc : PcOk cfg m t x x.pc
  frames : ∀ f, (m.owner f).takenBy t → f ∈ x.pc.frames m

/-! ## Evictors -/

/-- The frames that an evictor has locked and not invalidated yet. -/
def EvictPc.locked : EvictPc → List Nat
  | .scan c | .looked _ c | .dirty _ c | .lock _ c | .mark _ c => c.toWrite
  | .clean _ _ _ toWrite | .prep _ _ _ _ toWrite | .write _ _ toWrite => toWrite
  | .relook _ kept toWrite | .relock _ _ _ kept toWrite => kept ++ toWrite
  | .inval todo _ => todo
  | .invalStore f _ todo _ => f :: todo
  | .idle | .release _ => []

/-- Those of them that may not be on disk. -/
def EvictPc.unsaved : EvictPc → List Nat
  | .scan c | .looked _ c | .dirty _ c | .lock _ c | .mark _ c => c.toWrite
  | .clean todo pending _ _ => todo ++ pending.map Prod.fst
  | .prep f todo pending _ _ => f :: todo ++ pending.map Prod.fst
  | .write pending _ _ => pending.map Prod.fst
  | _ => []

/-- The writes that have been prepared. -/
def EvictPc.pending : EvictPc → List (Nat × Pid)
  | .clean _ pending _ _ | .prep _ _ pending _ _ | .write pending _ _ => pending
  | _ => []

/-- The frames that have been invalidated. -/
def EvictPc.done : EvictPc → List Nat
  | .inval _ done | .invalStore _ _ _ done | .release done => done
  | _ => []

/-- What an evictor knows about the word with which it compares, or which it
    has loaded. -/
def EvictPc.seen (m : Shared α) : EvictPc → Prop
  | .dirty v _ | .lock v _ | .relock _ v _ _ _ => v.state = VmPageState.marked
  | .mark v _ => v.state = VmPageState.unlocked ∧ v.addr ≠ invalidAddr
  | .invalStore f v _ _ => v = m.word f
  | _ => True

structure EvictorOk (m : Shared α) (e : Nat) (pc : EvictPc) : Prop where
  nodup : pc.locked.Nodup
  locked : ∀ f ∈ pc.locked, ∃ p saved, m.owner f = .evicting e p saved ∧
    (saved = false → f ∈ pc.unsaved)
  unsaved : ∀ f ∈ pc.unsaved, f ∈ pc.locked
  pending : ∀ f p, (f, p) ∈ pc.pending → ∃ saved, m.owner f = .evicting e p saved
  done : ∀ f, f ∈ pc.done ↔ m.owner f = .evicted e
  doneNodup : pc.done.Nodup
  seen : pc.seen m

/-! ## The invariant -/

structure Inv (cfg : Config α) (s : State α) : Prop where
  base : Base cfg s.toShared
  thread : ∀ t, ThreadOk cfg s.toShared t (s.threads t)
  evictor : ∀ e, EvictorOk s.toShared e (s.evictors e)
  claim : ∀ t u p, (s.threads t).pc.claims p → (s.threads u).pc.claims p → t = u
  guards : ∀ g ∈ s.guards, s.known g.page = true

end Tabby
