import Mathlib.Algebra.Group.Nat.Defs
import Libdbos.Framework.Places
import Libdbos.Framework.System
import Mathlib.Data.List.Count
import Mathlib.Data.List.FinRange
import Mathlib.Data.List.Nodup
import Mathlib.Data.List.Perm.Subperm

/-! # The Free Lists of Frames

    `FramesMemoryManager` of `apps/tabby/tabby.cpp`, with any number of threads. A
    thread takes a frame from the list of its core. If there is none, it steals up
    to 64 frames of another list, which go through a container of its own to the
    list of its core.

    Each list has a mutex and a counter, which is set to the length of the list
    after each push and each pop. The counter is also read without the mutex: to
    find out whether a list is worth locking, and which of two lists to steal from.
    These reads may be of any age and decide nothing but the way the thread goes.

    The counter is an `int`. It is the length of the list as long as there are fewer
    than 2^31 frames (`frames_conserved`, `counter_overflows`).
-/

open LTS Places

namespace Tabby.FreeLists

/-! ## State -/

/-- Frames, lists and threads. -/
structure Pool where
  physCount : Nat
  /-- The constant `kNumGlobalFreeLists`. -/
  lists : Nat
  threads : Nat
  /-- The core of a thread, `dune_get_cpu_id`. -/
  cpu : Fin threads → Nat
  lists_pos : 0 < lists

/-- The list of a thread. -/
def Pool.home (c : Pool) (t : Fin c.threads) : Nat := c.cpu t % c.lists

/-- The constant `kLocalFreeListSoftLimit`. -/
def localFreeListSoftLimit : Nat := 64

/-- The conversion of a size to an `int`. -/
def toInt (size : Nat) : Int := (BitVec.ofNat 32 size).toInt

/-- Where a thread is. -/
inductive Pc where
  | idle
  /-- In `allocFrame`, before the test without the mutex. -/
  | test
  | lock
  /-- With the mutex of its list, before the second test. -/
  | retest
  | pop
  /-- Frame `f` is off the list; the counter is to be set. -/
  | popped (f : Nat)
  /-- The mutex is to be released and `f` to be returned. -/
  | leave (f : Nat)
  /-- The second test has failed. -/
  | empty
  /-- Before the test of the last place that frames were stolen from. -/
  | testLast
  | choose
  /-- The counter of `slot1` was read as `size1`. -/
  | compare (slot1 slot2 : Nat) (size1 : Int)
  /-- Before `steal_pages`; `last` if `slot` is the last place. -/
  | trySteal (slot : Nat) (last : Bool)
  /-- In the loop of `steal_pages`, with the mutex of `slot`. -/
  | steal (slot : Nat) (last : Bool) (left : Nat) (container : List Nat)
  /-- The counter of `slot` is to be set. -/
  | stolen (slot : Nat) (last : Bool) (left : Nat) (container : List Nat)
  | stealEnd (slot : Nat) (last : Bool) (container : List Nat)
  /-- Before the mutex is taken to push `pages`, which are stolen or, if `free`,
      are being freed. -/
  | lockPush (pages : List Nat) (free : Bool)
  | push (rest : List Nat) (free : Bool)
  /-- The counter is to be set. -/
  | pushed (rest : List Nat) (free : Bool)
  deriving DecidableEq, Repr

structure State (c : Pool) where
  list : Nat → List Nat
  count : Nat → Int
  mutex : Nat → Option (Fin c.threads)
  pc : Fin c.threads → Pc
  /-- The thread-local `last_stolen`. -/
  lastStolen : Fin c.threads → Option Nat
  /-- The frames that have been returned by `allocFrame` and not freed. -/
  out : List Nat

variable {c : Pool}

section

variable (s : State c)

def State.goto (t : Fin c.threads) (pc : Pc) : State c :=
  { s with pc := Function.update s.pc t pc }

def State.setList (i : Nat) (list : List Nat) : State c :=
  { s with list := Function.update s.list i list }

/-- The counter is set to the length of the list. -/
def State.setCount (i : Nat) : State c :=
  { s with count := Function.update s.count i (toInt (s.list i).length) }

def State.setMutex (i : Nat) (holder : Option (Fin c.threads)) : State c :=
  { s with mutex := Function.update s.mutex i holder }

def State.setLast (t : Fin c.threads) (slot : Option Nat) : State c :=
  { s with lastStolen := Function.update s.lastStolen t slot }

/-! ## Steps -/

/-- There is no frame on the list of the thread. With one list only, `allocFrame`
    gives up. -/
def State.noLocal (t : Fin c.threads) : State c :=
  if c.lists = 1 then s.goto t .idle else s.goto t .testLast

/-- Nothing has been stolen. -/
def State.notStolen (t : Fin c.threads) (last : Bool) : State c :=
  if last then (s.setLast t none).goto t .choose else s.goto t .choose

/-- What a thread does next. -/
def State.move (t : Fin c.threads) : Option (State c) :=
  let i := c.home t
  match s.pc t with
  | .idle | .choose | .trySteal _ _ => none
  | .test => if 0 < s.count i then some (s.goto t .lock) else some (s.noLocal t)
  | .lock =>
      if s.mutex i = none then some ((s.setMutex i (some t)).goto t .retest) else none
  | .retest => if 0 < s.count i then some (s.goto t .pop) else some (s.goto t .empty)
  | .pop =>
      match (s.list i).getLast? with
      | some f => some ((s.setList i (s.list i).dropLast).goto t (.popped f))
      -- The behaviour of `back` on an empty vector is undefined.
      | none => none
  | .popped f => some ((s.setCount i).goto t (.leave f))
  | .leave f => some (({ s with out := f :: s.out }.setMutex i none).goto t .idle)
  | .empty => some ((s.setMutex i none).noLocal t)
  | .testLast =>
      match s.lastStolen t with
      | some slot =>
          if 0 < s.count slot then some (s.goto t (.trySteal slot true))
          else some ((s.setLast t none).goto t .choose)
      | none => some (s.goto t .choose)
  | .compare slot1 slot2 size1 =>
      some (s.goto t (.trySteal (if size1 > s.count slot2 then slot1 else slot2) false))
  | .steal slot last left container =>
      match (s.list slot).getLast? with
      | some f =>
          if left = 0 then some (s.goto t (.stealEnd slot last container))
          else some ((s.setList slot (s.list slot).dropLast).goto t
            (.stolen slot last (left - 1) (container ++ [f])))
      | none => some (s.goto t (.stealEnd slot last container))
  | .stolen slot last left container =>
      some ((s.setCount slot).goto t (.steal slot last left container))
  | .stealEnd slot last container =>
      let s' := s.setMutex slot none
      if container.isEmpty then some (s'.notStolen t last)
      else if last then some (s'.goto t (.lockPush container false))
      else some ((s'.setLast t (some slot)).goto t (.lockPush container false))
  | .lockPush pages free =>
      if s.mutex i = none then some ((s.setMutex i (some t)).goto t (.push pages free)) else none
  | .push (f :: rest) free => some ((s.setList i (s.list i ++ [f])).goto t (.pushed rest free))
  | .push [] true => some ((s.setMutex i none).goto t .idle)
  | .push [] false => some (s.goto t .pop)
  | .pushed rest free => some ((s.setCount i).goto t (.push rest free))

end

inductive Label (c : Pool) where
  | allocFrame (t : Fin c.threads)
  | freeFrames (t : Fin c.threads) (pages : List Nat)
  | freeFrame (t : Fin c.threads) (page : Nat)
  | move (t : Fin c.threads)
  /-- Two random lists; the counter of the first is read. -/
  | choose (t : Fin c.threads) (slot1 slot2 : Nat)
  /-- `try_lock`, which may fail on a mutex that is free. -/
  | tryLock (t : Fin c.threads) (spurious : Bool)

/-- Frames that have been handed out are freed. -/
def State.free (s : State c) (t : Fin c.threads) (pages : List Nat) : Option (State c) :=
  if s.pc t = .idle ∧ pages.Nodup ∧ ∀ f ∈ pages, f ∈ s.out then
    some ({ s with out := s.out.diff pages }.goto t (.lockPush pages true))
  else none

def step (s : State c) : Label c → Option (State c)
  | .allocFrame t => if s.pc t = .idle then some (s.goto t .test) else none
  | .freeFrames t pages => s.free t pages
  | .freeFrame t page => s.free t [page]
  | .move t => s.move t
  | .choose t slot1 slot2 =>
      if s.pc t = .choose ∧ slot1 < c.lists ∧ slot2 < c.lists then
        let slot := min slot1 slot2
        some (s.goto t (.compare slot (max slot1 slot2) (s.count slot)))
      else none
  | .tryLock t spurious =>
      match s.pc t with
      | .trySteal slot last =>
          if s.mutex slot = none ∧ !spurious then
            some ((s.setMutex slot (some t)).goto t (.steal slot last localFreeListSoftLimit []))
          else some (s.notStolen t last)
      | _ => none

/-- One push of the constructor of the manager. -/
def State.init (s : State c) (f : Nat) : State c :=
  let i := f % c.lists
  (s.setList i (s.list i ++ [f])).setCount i

/-- The lists before the constructor has run. -/
def noFrames (c : Pool) : State c := ⟨fun _ => [], fun _ => 0, fun _ => none, fun _ => .idle,
  fun _ => none, []⟩

/-- What the constructor of the manager leaves. -/
def framesMemoryManager (c : Pool) : State c :=
  (List.range c.physCount).foldl State.init (noFrames c)

def frames (c : Pool) : System (State c) (Label c) where
  init s := s = framesMemoryManager c
  step := step

/-! ## Places -/

/-- The stolen frames that a thread has in its container. -/
def Pc.container : Pc → List Nat
  | .steal _ _ _ xs | .stolen _ _ _ xs | .stealEnd _ _ xs => xs
  | .lockPush xs false | .push xs false | .pushed xs false => xs
  | _ => []

/-- The frames that a thread is about to return, or has begun to free. -/
def Pc.handed : Pc → List Nat
  | .popped f | .leave f => [f]
  | .lockPush xs true | .push xs true | .pushed xs true => xs
  | _ => []

/-- The list whose mutex a thread holds; its own list is `home`. -/
def Pc.inside (home : Nat) : Pc → Option Nat
  | .retest | .pop | .popped _ | .leave _ | .empty | .push _ _ | .pushed _ _ => some home
  | .steal slot _ _ _ | .stolen slot _ _ _ | .stealEnd slot _ _ => some slot
  | _ => none

/-- The counter of the list is to be set. -/
def Pc.stale : Pc → Bool
  | .popped _ | .stolen _ _ _ _ | .pushed _ _ => true
  | _ => false

/-- The lists that a thread has chosen. -/
@[simp] def Pc.slots : Pc → List Nat
  | .compare slot1 slot2 _ => [slot1, slot2]
  | .trySteal slot _ | .steal slot _ _ _ | .stolen slot _ _ _ | .stealEnd slot _ _ => [slot]
  | _ => []

/-- What a thread relies on, whose own list is `own`: there is a frame to pop, or
    there will be. -/
def Pc.Ready (own : List Nat) : Pc → Prop
  | .pop => own ≠ []
  | .lockPush xs false => xs ≠ []
  | .push xs false | .pushed xs false => xs ≠ [] ∨ own ≠ []
  | _ => True

/-- How often a thread has frame `f` in hand. -/
def Pc.holds (pc : Pc) (f : Nat) : Nat := pc.container.count f + pc.handed.count f

section

variable (s : State c)

/-- How often frame `f` is on the free lists. -/
def State.listed (f : Nat) : Nat := total (List.range c.lists) s.list f

/-- How often frame `f` is in the containers of threads. -/
def State.inContainers (f : Nat) : Nat :=
  total (List.finRange c.threads) (fun t => (s.pc t).container) f

/-- How often frame `f` is handed out. -/
def State.handedOut (f : Nat) : Nat :=
  s.out.count f + total (List.finRange c.threads) (fun t => (s.pc t).handed) f

end

/-! ## Invariant -/

structure Inv (s : State c) : Prop where
  placed : ∀ f, s.listed f + s.inContainers f + s.handedOut f = if f < c.physCount then 1 else 0
  mutex : ∀ i t, s.mutex i = some t ↔ (s.pc t).inside (c.home t) = some i
  counted : ∀ i, (∀ t, s.mutex i = some t → (s.pc t).stale = false) →
    s.count i = toInt (s.list i).length
  ready : ∀ t, (s.pc t).Ready (s.list (c.home t))
  slots : ∀ t, ∀ i ∈ (s.pc t).slots, i < c.lists
  last : ∀ t i, s.lastStolen t = some i → i < c.lists

variable {s s' : State c} {t : Fin c.threads} {pc pc' : Pc} {i f : Nat}

theorem home_lt (t : Fin c.threads) : c.home t < c.lists := Nat.mod_lt _ c.lists_pos

/-- What threads have in hand changes with the thread that moves. -/
theorem total_goto (g : Pc → List Nat) (pcs : Fin c.threads → Pc) (t : Fin c.threads) (pc : Pc)
    (f : Nat) :
    total (List.finRange c.threads) (fun u => g (Function.update pcs t pc u)) f +
        (g (pcs t)).count f =
      total (List.finRange c.threads) (fun u => g (pcs u)) f + (g pc).count f := by
  have hcomp : (fun u => g (Function.update pcs t pc u)) =
      Function.update (fun u => g (pcs u)) t (g pc) := by
    funext u
    exact Function.apply_update (fun _ => g) pcs t pc u
  rw [hcomp]
  exact total_update (List.nodup_finRange _) (List.mem_finRange t) _ _ f

/-- Who is inside a list keeps the others away from it. -/
theorem Inv.alone (hinv : Inv s) {u : Fin c.threads} (ht : (s.pc t).inside (c.home t) = some i)
    (hu : (s.pc u).inside (c.home u) = some i) : u = t := by
  have ht := (hinv.mutex i t).mpr ht
  have hu := (hinv.mutex i u).mpr hu
  rw [ht] at hu
  exact (Option.some.inj hu).symm

/-- A thread that relies on its own list has the mutex of it. -/
theorem Ready.congr {own own' : List Nat} (home : Nat) (h : pc.Ready own)
    (hown : pc.inside home = some home → own' = own) : pc.Ready own' := by
  match pc with
  | .pop | .push _ false | .pushed _ false =>
    rw [hown rfl]
    exact h
  | .lockPush _ false => exact h
  | .idle | .test | .lock | .retest | .popped _ | .leave _ | .empty | .testLast | .choose
  | .compare _ _ _ | .trySteal _ _ | .steal _ _ _ _ | .stolen _ _ _ _ | .stealEnd _ _ _
  | .lockPush _ true | .push _ true | .pushed _ true => trivial

/-- **One thread moves**, and changes no list but that whose mutex it holds. -/
theorem Inv.moved (hinv : Inv s) (hpc : s'.pc = Function.update s.pc t pc)
    (hlist : ∀ i, s'.list i = s.list i ∨ (s.pc t).inside (c.home t) = some i)
    (hmine : ∀ i, s'.mutex i = some t ↔ pc.inside (c.home t) = some i)
    (hothers : ∀ i u, u ≠ t → (s'.mutex i = some u ↔ s.mutex i = some u))
    (hplaced : ∀ f, s'.listed f + pc.holds f + s'.out.count f =
      s.listed f + (s.pc t).holds f + s.out.count f)
    (hcounted : ∀ i, (s'.list i = s.list i ∧ s'.count i = s.count i ∧
        (s.mutex i = some t → (s.pc t).stale = false)) ∨
      (s'.mutex i = some t ∧ pc.stale = true) ∨ s'.count i = toInt (s'.list i).length)
    (hready : pc.Ready (s'.list (c.home t))) (hslots : ∀ i ∈ pc.slots, i < c.lists)
    (hlast : ∀ u i, s'.lastStolen u = some i → i < c.lists) : Inv s' := by
  have hself : s'.pc t = pc := by rw [hpc, Function.update_self]
  have hother : ∀ u, u ≠ t → s'.pc u = s.pc u := fun u hu => by rw [hpc, Function.update_of_ne hu]
  refine ⟨fun f => ?_, fun i u => ?_, fun i hnot => ?_, fun u => ?_, fun u => ?_, hlast⟩
  · have hold := hinv.placed f
    have hnew := hplaced f
    have hcontainer := total_goto Pc.container s.pc t pc f
    have hhanded := total_goto Pc.handed s.pc t pc f
    rw [← hpc] at hcontainer hhanded
    unfold Pc.holds at hnew
    unfold State.inContainers State.handedOut at hold ⊢
    omega
  · by_cases hu : u = t
    · rw [hu, hself]
      exact hmine i
    · rw [hother u hu, hothers i u hu]
      exact hinv.mutex i u
  · rcases hcounted i with ⟨hsame, hcount, hmy⟩ | ⟨hmutex, hstale⟩ | hdone
    · rw [hsame, hcount]
      refine hinv.counted i fun u hu => ?_
      by_cases hut : u = t
      · rw [hut] at hu ⊢
        exact hmy hu
      · rw [← hother u hut]
        exact hnot u ((hothers i u hut).mpr hu)
    · have hfalse := hnot t hmutex
      rw [hself, hstale] at hfalse
      cases hfalse
    · exact hdone
  · by_cases hu : u = t
    · rw [hu, hself]
      exact hready
    · rw [hother u hu]
      refine Ready.congr (c.home u) (hinv.ready u) fun hinside => ?_
      rcases hlist (c.home u) with hsame | hmine
      · exact hsame
      · exact absurd (hinv.alone hmine hinside) hu
  · by_cases hu : u = t
    · rw [hu, hself]
      exact hslots
    · rw [hother u hu]
      exact hinv.slots u

/-! ## Moves -/

section

variable {old : Pc} (pc : Pc) (hinv : Inv s) (hpc : s.pc t = old)
  (hready : pc.Ready (s.list (c.home t)))
  (hslots : ∀ i ∈ pc.slots, i < c.lists)

include hinv hpc hready hslots

/-- A thread goes on, with the locks that it has. -/
theorem Inv.goto (out : List Nat) (hinside : pc.inside (c.home t) = old.inside (c.home t))
    (hstale : old.stale = false)
    (hplaced : ∀ f, pc.holds f + out.count f = old.holds f + s.out.count f) :
    Inv ({ s with out := out }.goto t pc) := by
  subst hpc
  refine hinv.moved rfl (fun _ => .inl rfl) (fun i => ?_) (fun _ _ _ => Iff.rfl) (fun f => ?_)
    (fun _ => .inl ⟨rfl, rfl, fun _ => hstale⟩) hready hslots hinv.last
  · rw [hinside]
    exact hinv.mutex i t
  · have hf := hplaced f
    show s.listed f + pc.holds f + out.count f = _
    omega

/-- A thread takes a mutex that is free. -/
theorem Inv.lock (hfree : s.mutex i = none) (houtside : old.inside (c.home t) = none)
    (hinside : pc.inside (c.home t) = some i) (hstale : old.stale = false)
    (hplaced : ∀ f, pc.holds f = old.holds f) :
    Inv ((s.setMutex i (some t)).goto t pc) := by
  subst hpc
  refine hinv.moved rfl (fun _ => .inl rfl) (fun j => ?_) (fun j u hu => ?_) (fun f => ?_)
    (fun _ => .inl ⟨rfl, rfl, fun _ => hstale⟩) hready hslots hinv.last
  · rw [hinside]
    show Function.update s.mutex i (some t) j = some t ↔ some i = some j
    by_cases hji : j = i
    · simp [hji]
    · rw [Function.update_of_ne hji, hinv.mutex j t, houtside]
      simp [Ne.symm hji]
  · show Function.update s.mutex i (some t) j = some u ↔ _
    by_cases hji : j = i
    · simp [hji, hfree, Ne.symm hu]
    · rw [Function.update_of_ne hji]
  · show s.listed f + pc.holds f + s.out.count f = _
    rw [hplaced]

/-- A thread releases the mutex that it has. -/
theorem Inv.unlock (out : List Nat) (hinside : old.inside (c.home t) = some i)
    (houtside : pc.inside (c.home t) = none) (hstale : old.stale = false)
    (hplaced : ∀ f, pc.holds f + out.count f = old.holds f + s.out.count f) :
    Inv (({ s with out := out }.setMutex i none).goto t pc) := by
  subst hpc
  have hmine := (hinv.mutex i t).mpr hinside
  refine hinv.moved rfl (fun _ => .inl rfl) (fun j => ?_) (fun j u hu => ?_) (fun f => ?_)
    (fun _ => .inl ⟨rfl, rfl, fun _ => hstale⟩) hready hslots hinv.last
  · rw [houtside]
    show Function.update s.mutex i none j = some t ↔ none = some j
    by_cases hji : j = i
    · simp [hji]
    · rw [Function.update_of_ne hji, hinv.mutex j t, hinside]
      simp [Ne.symm hji]
  · show Function.update s.mutex i none j = some u ↔ _
    by_cases hji : j = i
    · simp [hji, hmine, Ne.symm hu]
    · rw [Function.update_of_ne hji]
  · have hf := hplaced f
    show s.listed f + pc.holds f + out.count f = _
    omega

/-- The counter is set under the mutex. -/
theorem Inv.setCount (hinside : old.inside (c.home t) = some i)
    (hstays : pc.inside (c.home t) = some i) (hplaced : ∀ f, pc.holds f = old.holds f) :
    Inv ((s.setCount i).goto t pc) := by
  subst hpc
  refine hinv.moved rfl (fun _ => .inl rfl) (fun j => ?_) (fun _ _ _ => Iff.rfl) (fun f => ?_)
    (fun j => ?_) hready hslots hinv.last
  · rw [hstays, ← hinside]
    exact hinv.mutex j t
  · show s.listed f + pc.holds f + s.out.count f = _
    rw [hplaced]
  · by_cases hji : j = i
    · right
      right
      show Function.update s.count i (toInt (s.list i).length) j = toInt (s.list j).length
      rw [hji, Function.update_self]
    · left
      refine ⟨rfl, Function.update_of_ne hji _ _, fun hmutex => ?_⟩
      rw [hinv.mutex j t, hinside] at hmutex
      exact absurd (Option.some.inj hmutex).symm hji

end

/-- A list changes under the mutex; the counter is to be set. -/
theorem Inv.setList {old : Pc} (pc : Pc) (hinv : Inv s) (hpc : s.pc t = old) (xs : List Nat)
    (hi : i < c.lists)
    (hinside : old.inside (c.home t) = some i) (hstays : pc.inside (c.home t) = some i)
    (hstale : pc.stale = true) (hfresh : old.stale = false)
    (hready : pc.Ready ((s.setList i xs).list (c.home t))) (hslots : ∀ i ∈ pc.slots, i < c.lists)
    (hplaced : ∀ f, xs.count f + pc.holds f = (s.list i).count f + old.holds f) :
    Inv ((s.setList i xs).goto t pc) := by
  subst hpc
  refine hinv.moved rfl (fun j => ?_) (fun j => ?_) (fun _ _ _ => Iff.rfl) (fun f => ?_)
    (fun j => ?_) hready hslots hinv.last
  · by_cases hji : j = i
    · right
      rw [hji]
      exact hinside
    · exact .inl (Function.update_of_ne hji _ _)
  · rw [hstays, ← hinside]
    exact hinv.mutex j t
  · have hf := hplaced f
    have htotal := total_update List.nodup_range (List.mem_range.mpr hi) s.list xs f
    show total (List.range c.lists) (Function.update s.list i xs) f + pc.holds f + s.out.count f =
      total (List.range c.lists) s.list f + (s.pc t).holds f + s.out.count f
    omega
  · by_cases hji : j = i
    · right
      left
      rw [hji]
      exact ⟨(hinv.mutex i t).mpr hinside, hstale⟩
    · exact .inl ⟨Function.update_of_ne hji _ _, rfl, fun _ => hfresh⟩

theorem Inv.setLast (hinv : Inv s) {slot : Option Nat} (hslot : ∀ i, slot = some i → i < c.lists) :
    Inv (s.setLast t slot) := by
  refine { hinv with last := fun u i hu => ?_ }
  by_cases hut : u = t
  · subst hut
    exact hslot i (by simpa [State.setLast] using hu)
  · exact hinv.last u i (by simpa [State.setLast, hut] using hu)

/-- The frame that is popped is taken from the list. -/
theorem count_dropLast {xs : List Nat} (h : xs.getLast? = some f) (g : Nat) :
    xs.dropLast.count g + [f].count g = xs.count g := by
  rw [← List.count_append, List.dropLast_append_getLast?]
  exact h

/-- There is nothing on the list of the thread. -/
theorem Inv.noLocal {old : Pc} (hinv : Inv s) (hpc : s.pc t = old)
    (hinside : old.inside (c.home t) = none) (hstale : old.stale = false)
    (hplaced : ∀ f, old.holds f = 0) : Inv (s.noLocal t) := by
  unfold State.noLocal
  split
  · exact hinv.goto .idle hpc trivial (by simp) s.out hinside.symm hstale
      fun f => by rw [hplaced]; rfl
  · exact hinv.goto .testLast hpc trivial (by simp) s.out hinside.symm hstale
      fun f => by rw [hplaced]; rfl

theorem Inv.notStolen {old : Pc} (hinv : Inv s) (hpc : s.pc t = old) (last : Bool)
    (hinside : old.inside (c.home t) = none) (hstale : old.stale = false)
    (hplaced : ∀ f, old.holds f = 0) : Inv (s.notStolen t last) := by
  have hgoto : ∀ {s : State c}, Inv s → s.pc t = old → Inv (s.goto t .choose) := by
    intro s hinv hpc
    exact hinv.goto .choose hpc trivial (by simp) s.out hinside.symm hstale
      fun f => by rw [hplaced]; rfl
  unfold State.notStolen
  split
  · exact hgoto (hinv.setLast fun i h => by cases h) hpc
  · exact hgoto hinv hpc

/-- A counter that is positive is that of a list with frames. -/
theorem Inv.list_ne_nil (hinv : Inv s) (hinside : (s.pc t).inside (c.home t) = some i)
    (hstale : (s.pc t).stale = false) (hpos : 0 < s.count i) : s.list i ≠ [] := by
  have hmine := (hinv.mutex i t).mpr hinside
  have hcount := hinv.counted i fun u hu => by
    rw [hmine] at hu
    rw [← Option.some.inj hu]
    exact hstale
  intro hnil
  rw [hcount, hnil] at hpos
  exact absurd hpos (by decide)

theorem Inv.retest (hinv : Inv s) (hpc : s.pc t = .retest) (hpos : 0 < s.count (c.home t)) :
    Inv (s.goto t .pop) := by
  have hne := hinv.list_ne_nil (by rw [hpc]; rfl) (by rw [hpc]; rfl) hpos
  exact hinv.goto .pop hpc hne (by simp) s.out rfl rfl fun _ => rfl

/-- A frame is popped to be returned. -/
theorem Inv.pop (hinv : Inv s) (hpc : s.pc t = .pop) (hf : (s.list (c.home t)).getLast? = some f) :
    Inv ((s.setList (c.home t) (s.list (c.home t)).dropLast).goto t (.popped f)) := by
  refine hinv.setList (.popped f) hpc _ (home_lt t) rfl rfl rfl rfl trivial (by simp)
    fun g => ?_
  have hcount := count_dropLast hf g
  show _ + (0 + [f].count g) = _ + 0
  omega

/-- A frame is stolen. -/
theorem Inv.steal (hinv : Inv s) {slot left : Nat} {last : Bool} {xs : List Nat}
    (hpc : s.pc t = .steal slot last left xs) (hf : (s.list slot).getLast? = some f) :
    Inv ((s.setList slot (s.list slot).dropLast).goto t
      (.stolen slot last (left - 1) (xs ++ [f]))) := by
  have hslots := hinv.slots t
  rw [hpc] at hslots
  refine hinv.setList _ hpc _ (hslots slot List.mem_cons_self) rfl rfl rfl rfl trivial hslots
    fun g => ?_
  have hcount := count_dropLast hf g
  show _ + ((xs ++ [f]).count g + 0) = _ + (xs.count g + 0)
  rw [List.count_append]
  omega

/-- The end of `steal_pages`. -/
theorem Inv.stealEnd (hinv : Inv s) {slot : Nat} {last : Bool} {xs : List Nat}
    (hpc : s.pc t = .stealEnd slot last xs) (hne : xs ≠ []) :
    Inv ((s.setMutex slot none).goto t (.lockPush xs false)) :=
  hinv.unlock (.lockPush xs false) hpc hne (by simp) s.out rfl rfl rfl fun _ => rfl

/-- The end of `steal_pages`, without frames. -/
theorem Inv.stealNothing (hinv : Inv s) {slot : Nat} {last : Bool}
    (hpc : s.pc t = .stealEnd slot last []) : Inv ((s.setMutex slot none).notStolen t last) := by
  have hleft : Inv ((s.setMutex slot none).goto t .choose) :=
    hinv.unlock .choose hpc trivial (by simp) s.out rfl rfl rfl fun _ => rfl
  unfold State.notStolen
  split
  · exact @Inv.setLast _ _ t hleft none fun i h => by cases h
  · exact hleft

/-- A frame is pushed. -/
theorem Inv.push (hinv : Inv s) {rest : List Nat} {free : Bool}
    (hpc : s.pc t = .push (f :: rest) free) :
    Inv ((s.setList (c.home t) (s.list (c.home t) ++ [f])).goto t (.pushed rest free)) := by
  have hne : (s.setList (c.home t) (s.list (c.home t) ++ [f])).list (c.home t) ≠ [] := by
    simp [State.setList]
  refine hinv.setList (.pushed rest free) hpc _ (home_lt t) rfl rfl rfl rfl ?_ (by simp)
    fun g => ?_
  · match free with
    | true => trivial
    | false => exact .inr hne
  · have hcons : (f :: rest).count g = [f].count g + rest.count g := by
      rw [← List.count_append, List.singleton_append]
    rw [List.count_append]
    match free with
    | true =>
      show _ + _ + (0 + rest.count g) = _ + (0 + (f :: rest).count g)
      omega
    | false =>
      show _ + _ + (rest.count g + 0) = _ + ((f :: rest).count g + 0)
      omega

theorem Inv.move (hinv : Inv s) (h : s.move t = some s') : Inv s' := by
  have hready := hinv.ready t
  have hslots := hinv.slots t
  unfold State.move at h
  simp only at h
  split at h
  · cases h
  · cases h
  · cases h
  · next hpc =>
    split at h
    · obtain rfl := Option.some.inj h
      exact hinv.goto .lock hpc trivial (by simp) s.out rfl rfl fun _ => rfl
    · obtain rfl := Option.some.inj h
      exact hinv.noLocal hpc rfl rfl fun _ => rfl
  · next hpc =>
    obtain ⟨hfree, hs⟩ := Option.ite_none_right_eq_some.mp h
    obtain rfl := Option.some.inj hs
    exact hinv.lock .retest hpc trivial (by simp) hfree rfl rfl rfl fun _ => rfl
  · next hpc =>
    split at h
    · next hpos =>
      obtain rfl := Option.some.inj h
      exact hinv.retest hpc hpos
    · obtain rfl := Option.some.inj h
      exact hinv.goto .empty hpc trivial (by simp) s.out rfl rfl fun _ => rfl
  · next hpc =>
    split at h
    · next f hf =>
      obtain rfl := Option.some.inj h
      exact hinv.pop hpc hf
    · cases h
  · next f hpc =>
    obtain rfl := Option.some.inj h
    exact hinv.setCount (.leave f) hpc trivial (by simp) rfl rfl fun _ => rfl
  · next f hpc =>
    obtain rfl := Option.some.inj h
    refine hinv.unlock .idle hpc trivial (by simp) (f :: s.out) rfl rfl rfl fun g => ?_
    show 0 + (f :: s.out).count g = 0 + [f].count g + s.out.count g
    rw [List.count_cons, List.count_singleton]
    omega
  · next hpc =>
    obtain rfl := Option.some.inj h
    unfold State.noLocal
    split
    · exact hinv.unlock .idle hpc trivial (by simp) s.out rfl rfl rfl fun _ => rfl
    · exact hinv.unlock .testLast hpc trivial (by simp) s.out rfl rfl rfl fun _ => rfl
  · next hpc =>
    split at h
    · next slot hslot =>
      split at h
      · obtain rfl := Option.some.inj h
        refine hinv.goto (.trySteal slot true) hpc trivial ?_ s.out rfl rfl fun _ => rfl
        simpa using hinv.last t slot hslot
      · obtain rfl := Option.some.inj h
        exact hinv.notStolen hpc true rfl rfl fun _ => rfl
    · obtain rfl := Option.some.inj h
      exact hinv.notStolen hpc false rfl rfl fun _ => rfl
  · next slot1 slot2 size1 hpc =>
    obtain rfl := Option.some.inj h
    refine hinv.goto (.trySteal _ false) hpc trivial ?_ s.out rfl rfl fun _ => rfl
    rw [hpc] at hslots
    simp only [Pc.slots, List.mem_cons, List.not_mem_nil, or_false, forall_eq_or_imp,
      forall_eq] at hslots ⊢
    split
    · exact hslots.1
    · exact hslots.2
  · next slot last left xs hpc =>
    have hend : Inv (s.goto t (.stealEnd slot last xs)) := by
      rw [hpc] at hslots
      exact hinv.goto (.stealEnd slot last xs) hpc trivial hslots s.out rfl rfl fun _ => rfl
    split at h
    · next f hf =>
      split at h
      · obtain rfl := Option.some.inj h
        exact hend
      · obtain rfl := Option.some.inj h
        exact hinv.steal hpc hf
    · obtain rfl := Option.some.inj h
      exact hend
  · next slot last left xs hpc =>
    obtain rfl := Option.some.inj h
    rw [hpc] at hslots
    exact hinv.setCount (.steal slot last left xs) hpc trivial hslots rfl rfl fun _ => rfl
  · next slot last xs hpc =>
    rw [hpc] at hslots
    split at h
    · next hempty =>
      obtain rfl := Option.some.inj h
      obtain rfl := List.isEmpty_iff.mp hempty
      exact hinv.stealNothing hpc
    · next hempty =>
      have hne : xs ≠ [] := fun hnil => hempty (List.isEmpty_iff.mpr hnil)
      split at h
      · obtain rfl := Option.some.inj h
        exact hinv.stealEnd hpc hne
      · obtain rfl := Option.some.inj h
        refine @Inv.setLast _ _ t (hinv.stealEnd hpc hne) (some slot) fun i hi => ?_
        rw [← Option.some.inj hi]
        exact hslots slot List.mem_cons_self
  · next pages free hpc =>
    obtain ⟨hfree, hs⟩ := Option.ite_none_right_eq_some.mp h
    obtain rfl := Option.some.inj hs
    rw [hpc] at hready
    match free with
    | true =>
      exact hinv.lock (.push pages true) hpc trivial (by simp) hfree rfl rfl rfl
        fun _ => rfl
    | false =>
      exact hinv.lock (.push pages false) hpc (.inl hready) (by simp) hfree rfl rfl rfl
        fun _ => rfl
  · next f rest free hpc =>
    obtain rfl := Option.some.inj h
    exact hinv.push hpc
  · next hpc =>
    obtain rfl := Option.some.inj h
    exact hinv.unlock .idle hpc trivial (by simp) s.out rfl rfl rfl fun _ => rfl
  · next hpc =>
    obtain rfl := Option.some.inj h
    rw [hpc] at hready
    have hne : s.list (c.home t) ≠ [] := hready.resolve_left fun hnil => hnil rfl
    exact hinv.goto .pop hpc hne (by simp) s.out rfl rfl fun _ => rfl
  · next rest free hpc =>
    obtain rfl := Option.some.inj h
    rw [hpc] at hready
    match free with
    | true =>
      exact hinv.setCount (.push rest true) hpc trivial (by simp) rfl rfl fun _ => rfl
    | false =>
      exact hinv.setCount (.push rest false) hpc hready (by simp) rfl rfl fun _ => rfl

/-- Frames are taken back. -/
theorem Inv.free (hinv : Inv s) {pages : List Nat} (h : s.free t pages = some s') : Inv s' := by
  obtain ⟨⟨hpc, hnodup, hout⟩, hs⟩ := Option.ite_none_right_eq_some.mp h
  obtain rfl := Option.some.inj hs
  refine hinv.goto (.lockPush pages true) hpc trivial (by simp) (s.out.diff pages) rfl
    rfl fun g => ?_
  have hle : pages.count g ≤ s.out.count g := by
    by_cases hg : g ∈ pages
    · have hone := List.nodup_iff_count_le_one.mp hnodup g
      have hpos := List.count_pos_iff.mpr (hout g hg)
      omega
    · rw [List.count_eq_zero_of_not_mem hg]
      exact Nat.zero_le _
  show 0 + pages.count g + (s.out.diff pages).count g = 0 + s.out.count g
  rw [List.count_diff]
  omega

theorem Inv.step {l : Label c} (hinv : Inv s) (h : step s l = some s') : Inv s' := by
  match l with
  | .allocFrame t =>
    obtain ⟨hpc, hs⟩ := Option.ite_none_right_eq_some.mp h
    obtain rfl := Option.some.inj hs
    exact hinv.goto .test hpc trivial (by simp) s.out rfl rfl fun _ => rfl
  | .freeFrames t pages => exact hinv.free h
  | .freeFrame t page => exact hinv.free h
  | .move t => exact hinv.move h
  | .choose t slot1 slot2 =>
    obtain ⟨⟨hpc, h1, h2⟩, hs⟩ := Option.ite_none_right_eq_some.mp h
    obtain rfl := Option.some.inj hs
    refine hinv.goto (.compare (min slot1 slot2) (max slot1 slot2) _) hpc trivial ?_ s.out rfl rfl
      fun _ => rfl
    intro i hi
    simp only [Pc.slots, List.mem_cons, List.not_mem_nil, or_false] at hi
    omega
  | .tryLock t spurious =>
    simp only [FreeLists.step] at h
    split at h
    · next slot last hpc =>
      split at h
      · next hfree =>
        obtain rfl := Option.some.inj h
        have hslots := hinv.slots t
        rw [hpc] at hslots
        exact hinv.lock (.steal slot last localFreeListSoftLimit []) hpc trivial hslots hfree.1 rfl
          rfl rfl fun _ => rfl
      · obtain rfl := Option.some.inj h
        exact hinv.notStolen hpc last rfl rfl fun _ => rfl
    · cases h

/-! ## The constructor -/

/-- The lists with the first `n` frames. -/
structure Constructed (n : Nat) (s : State c) : Prop where
  list : ∀ i, s.list i = (List.range n).filter fun f => f % c.lists == i
  count : ∀ i, s.count i = toInt (s.list i).length
  listed : ∀ f, s.listed f = if f < n then 1 else 0
  mutex : ∀ i, s.mutex i = none
  pc : ∀ t, s.pc t = .idle
  last : ∀ t, s.lastStolen t = none
  out : s.out = []

theorem Constructed.init {n : Nat} (h : Constructed n s) : Constructed (n + 1) (s.init n) := by
  let i := n % c.lists
  have hlist : (s.init n).list = Function.update s.list i (s.list i ++ [n]) := rfl
  have hcount : (s.init n).count = Function.update s.count i (toInt ((s.init n).list i).length) :=
    rfl
  refine ⟨fun j => ?_, fun j => ?_, fun f => ?_, h.mutex, h.pc, h.last, h.out⟩
  · rw [hlist, List.range_succ, List.filter_append, ← h.list]
    by_cases hj : j = i
    · subst hj
      simp [i]
    · rw [Function.update_of_ne hj]
      simp [Ne.symm hj, i]
  · rw [hcount]
    by_cases hj : j = i
    · rw [hj, Function.update_self]
    · rw [Function.update_of_ne hj, hlist, Function.update_of_ne hj]
      exact h.count j
  · have hi : i ∈ List.range c.lists := List.mem_range.mpr (Nat.mod_lt n c.lists_pos)
    have htotal := total_update List.nodup_range hi s.list (s.list i ++ [n]) f
    have hold := h.listed f
    rw [List.count_append, List.count_singleton] at htotal
    unfold State.listed at hold ⊢
    rw [hlist]
    by_cases hfn : n = f
    · simp [hfn] at htotal hold ⊢
      omega
    · simp [hfn] at htotal
      have hiff : f < n + 1 ↔ f < n := by omega
      simp only [hiff]
      omega

theorem constructed (c : Pool) : Constructed c.physCount (framesMemoryManager c) := by
  unfold framesMemoryManager
  induction c.physCount with
  | zero =>
    refine ⟨fun _ => rfl, fun _ => rfl, fun f => ?_, fun _ => rfl, fun _ => rfl, fun _ => rfl, rfl⟩
    exact total_eq_zero (fun _ _ => rfl) f
  | succ n ih =>
    rw [List.range_succ, List.foldl_append]
    exact ih.init

theorem Constructed.inv (h : Constructed c.physCount s) : Inv s := by
  refine ⟨fun f => ?_, fun i t => ?_, fun i _ => h.count i, fun t => ?_, fun t => ?_,
    fun t i hi => ?_⟩
  · unfold State.inContainers State.handedOut
    rw [h.listed, total_eq_zero (fun t _ => by rw [h.pc]; rfl),
      total_eq_zero (fun t _ => by rw [h.pc]; rfl), h.out]
    rfl
  · rw [h.mutex, h.pc]
    exact ⟨fun h => (by cases h), fun h => (by cases h)⟩
  · rw [h.pc]
    trivial
  · rw [h.pc]
    simp
  · rw [h.last] at hi
    cases hi

theorem inv_of_reachable (h : (frames c).Reachable s) : Inv s := by
  refine System.invariant ?_ (fun s l s' hinv hstep => hinv.step hstep) h
  rintro s rfl
  exact (constructed c).inv

/-! ## Counters -/

theorem toInt_eq {n : Nat} (hn : n < 2 ^ 31) : toInt n = n := by
  have hn' : (BitVec.ofNat 32 n).toNat = n := by
    rw [BitVec.toNat_ofNat]
    omega
  unfold toInt
  rw [BitVec.toInt_eq_toNat_of_lt (by rw [hn']; omega), hn']

/-- A list holds frames of the pool, each once. -/
theorem Inv.length_le (hinv : Inv s) (hi : i < c.lists) : (s.list i).length ≤ c.physCount := by
  have hcount : ∀ f, (s.list i).count f ≤ if f < c.physCount then 1 else 0 := by
    intro f
    have hle := count_le_total (List.mem_range.mpr hi) s.list f
    have hplaced := hinv.placed f
    unfold State.listed at hplaced
    omega
  have hnodup : (s.list i).Nodup := by
    rw [List.nodup_iff_count_le_one]
    intro f
    have hf := hcount f
    split at hf <;> omega
  have hsub : s.list i ⊆ List.range c.physCount := by
    intro f hf
    have hpos := List.count_pos_iff.mpr hf
    have hle := hcount f
    rw [List.mem_range]
    by_contra hlt
    rw [if_neg hlt] at hle
    omega
  have hlen := (hnodup.subperm hsub).length_le
  rwa [List.length_range] at hlen

/-- **Frames are conserved**: in every run, each frame is on one free list, once, or
    in the container of one thread, or handed out; there is a frame where
    `allocFrame` pops one. With fewer than 2^31 frames, the counter of a list is its
    length whenever its mutex is free. -/
theorem frames_conserved (h : (frames c).Reachable s) :
    (∀ f, f < c.physCount → s.listed f + s.inContainers f + s.handedOut f = 1) ∧
    (∀ t, s.pc t = .pop → s.list (c.home t) ≠ []) ∧
    (c.physCount < 2 ^ 31 → ∀ i, i < c.lists → s.mutex i = none →
      s.count i = (s.list i).length) := by
  have hinv := inv_of_reachable h
  refine ⟨fun f hf => ?_, fun t hpc => ?_, fun hsmall i hi hfree => ?_⟩
  · rw [hinv.placed, if_pos hf]
  · have hready := hinv.ready t
    rwa [hpc] at hready
  · have hlen := hinv.length_le hi
    have hcount := hinv.counted i fun t ht => by
      rw [hfree] at ht
      cases ht
    rw [hcount, toInt_eq (by omega)]

/-- A pool for one thread. -/
def onePool (physCount lists : Nat) (hpos : 0 < lists) : Pool :=
  ⟨physCount, lists, 1, fun _ => 0, hpos⟩

/-- Its thread. -/
def only {n k : Nat} {hpos : 0 < k} : Fin (onePool n k hpos).threads := ⟨0, Nat.one_pos⟩

/-- Three frames on two lists. -/
def smallPool : Pool := onePool 3 2 (by decide)

/-- The thread takes the frames of its own list, and steals the third. -/
def stealRun : List (Label smallPool) :=
  .allocFrame only :: List.replicate 6 (.move only) ++
    .allocFrame only :: List.replicate 6 (.move only) ++
    [.allocFrame only, .move only, .move only, .choose only 1 1, .move only, .tryLock only false] ++
    List.replicate 4 (.move only)

theorem frames_conserved_stolen :
    ∃ s, (frames smallPool).Reachable s ∧ s.pc only = .lockPush [1] false ∧ s.out = [0, 2] ∧
      (∀ f, f < 3 → s.listed f + s.inContainers f + s.handedOut f = 1) ∧
      (∀ i, i < 2 → s.mutex i = none → s.count i = (s.list i).length) := by
  obtain ⟨s, hrun, hpc, hout⟩ := (frames smallPool).exists_exec (framesMemoryManager _) stealRun
    (fun s => s.pc only = .lockPush [1] false ∧ s.out = [0, 2]) (by decide +kernel)
  have hreach : (frames smallPool).Reachable s := System.reachable_of_exec rfl hrun
  obtain ⟨hplaced, _, hcount⟩ := frames_conserved hreach
  exact ⟨s, hreach, hpc, hout, hplaced, hcount (by decide)⟩

/-- With one list, a counter that is not positive makes `allocFrame` give up. -/
theorem allocFrame_gives_up {n : Nat} {s : State (onePool n 1 Nat.one_pos)}
    (hpc : s.pc only = .idle) (hcount : s.count 0 ≤ 0) :
    ∃ s', (frames _).exec s [.allocFrame only, .move only] = some s' ∧ s'.pc only = .idle ∧
      s'.out = s.out := by
  have htested : (s.goto only .test).pc only = .test := by simp [State.goto]
  have hnone : ¬ 0 < (s.goto only .test).count ((onePool n 1 Nat.one_pos).home only) :=
    not_lt.mpr hcount
  have hmove : (s.goto only .test).move only = some ((s.goto only .test).noLocal only) := by
    unfold State.move
    simp only [htested]
    rw [if_neg hnone]
  have hlists : (onePool n 1 Nat.one_pos).lists = 1 := rfl
  refine ⟨(s.goto only .test).noLocal only, ?_, ?_, ?_⟩
  · simp [frames, step, hpc, hmove]
  · simp [State.noLocal, hlists, State.goto]
  · simp [State.noLocal, hlists, State.goto]

/-- All frames are on the one list. -/
theorem length_framesMemoryManager (n : Nat) :
    ((framesMemoryManager (onePool n 1 Nat.one_pos)).list 0).length = n := by
  have hall : (List.range n).filter (fun f => f % 1 == 0) = List.range n := by
    apply List.filter_eq_self.mpr
    intro f _
    rw [Nat.mod_one]
    rfl
  rw [(constructed _).list]
  show ((List.range n).filter fun f => f % 1 == 0).length = n
  rw [hall, List.length_range]

/-- **The counter overflows**: it is negative where the list has 2^31 frames, so that
    `allocFrame` finds none. -/
theorem counter_overflows :
    ∃ s s', (frames (onePool (2 ^ 31) 1 Nat.one_pos)).Reachable s ∧ s.mutex 0 = none ∧
      s.count 0 ≠ (s.list 0).length ∧
      (frames _).exec s [.allocFrame only, .move only] = some s' ∧ s'.pc only = .idle ∧
      s'.out = [] := by
  have hstart := constructed (onePool (2 ^ 31) 1 Nat.one_pos)
  have hlen := length_framesMemoryManager (2 ^ 31)
  have hcount := hstart.count 0
  rw [hlen, show toInt (2 ^ 31) = -2 ^ 31 by decide] at hcount
  obtain ⟨s', hrun, hpc, hout⟩ := allocFrame_gives_up (hstart.pc only) (by rw [hcount]; decide)
  refine ⟨_, s', .init rfl, hstart.mutex 0, ?_, hrun, hpc, hout.trans hstart.out⟩
  rw [hcount, hlen]
  decide

end Tabby.FreeLists
