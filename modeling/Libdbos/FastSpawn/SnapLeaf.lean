import Libdbos.FastSpawn.MainLeaf

/-! # The Leaves of the Snapshot Table

    The snapshot table is written by the snapshot core, which tests the
    lock bit before it takes it, and by main cores, which do not. Under
    the condition that no main core takes a lock that is set
    (`lockRespected`) the lock bit excludes, and from that follows the
    life of a snapshot leaf:

    * it starts on the frame of the main leaf and moves once, to a frame
      that nothing else maps;
    * the reference to the shared frame is dropped once, after the move;
    * the shared frame therefore stays referenced, so the allocator never
      hands it out and the shortcut for pages with one reference never
      applies to a page that is still shared.

    Frames in private use have an *owner*: a moved snapshot leaf, or a core
    that has filled a copy and not yet mapped it (`State.owned`).
-/

open LTS

namespace CowFault

open Pte

variable {α : Type} {cfg : Config} {s s' : State α} {c : Nat} {l : Label α}

/-! ## The condition -/

/-- Where a main core swaps its locked value into a snapshot leaf, the
    value it replaces is not a locked one. -/
def lockRespected (s : State α) : Label α → Bool
  | .handler c =>
      match s.pc c with
      | .lockSnap va _ _ sold => s.snap va != sold || !isLock sold
      | _ => true
  | _ => true

theorem lockRespected_lockSnap (h : lockRespected s (.handler c) = true) {va : Va} {old sold : Word}
    {started : Bool} (hpc : s.pc c = .lockSnap va old started sold) (heq : s.snap va = sold) :
    isLock sold = false := by
  simpa [lockRespected, hpc, heq] using h

/-! ## Owners -/

inductive Owner where
  | leaf (va : Va)
  | core (c : Nat)
  deriving DecidableEq

/-- The frame that an owner has for itself. -/
def State.owned (s : State α) : Owner → Option Word
  | .leaf va => if s.replaced va = 0 then none else some (pteAddr (s.snap va))
  | .core c => (s.claim c).fresh

/-! ## The invariant -/

/-- The lock bits of the snapshot table and the cores that hold them. -/
def snapLocks (s : State α) : WordLock.Locks Nat Va Word where
  leaf := s.snap
  holder := fun c => (s.claim c).snap

/-- What a core may rely on, given its claim. -/
structure ClaimOk (cfg : Config) (s : State α) (k : Claim) : Prop where
  sharing : ∀ va, k.sharing = some va →
    k.snap = some va ∧ s.replaced va = 0 ∧ pteAddr k.old = pteAddr (s.main va)
  kept : ∀ w va, k.kept = some w → k.snap = some va →
    pteAddr (s.snap va) = pteAddr w ∧ isCow (s.snap va) = isCow w
  drop : ∀ va, k.drop = some va →
    va ∈ cfg.vas ∧ s.replaced va = 1 ∧ s.dropped va = 0 ∧ pteAddr k.old = pteAddr (s.main va)
  fresh : ∀ page, k.fresh = some page → pteAddr page = page

structure SnapInv (cfg : Config) (s : State α) : Prop where
  locks : WordLock.Inv isLock (snapLocks s)
  claims : ∀ c, ClaimOk cfg s (s.claim c)
  drop_once : ∀ c d va, (s.claim c).drop = some va → (s.claim d).drop = some va → c = d
  once : ∀ va, s.replaced va ≤ 1
  shared : ∀ va, s.replaced va = 0 → pteAddr (s.snap va) = pteAddr (s.main va)
  moved : ∀ va, s.replaced va ≠ 0 → isCow (s.snap va) = false
  dropped : ∀ va, s.dropped va ≤ s.replaced va
  owned_once : ∀ o o' f, s.owned o = some f → s.owned o' = some f → o = o'
  owned_private : ∀ o f, s.owned o = some f →
    cfg.isFromPool f = true ∧ 1 ≤ s.ref f ∧ ∀ va, pteAddr (s.main va) ≠ f
  refs : ∀ f, cfg.isFromPool f = true → refsHeld cfg s f ≤ s.ref f
  not_owned : ∀ va old, s.pc snapshotCore ≠ .storeOwned va old
  stored : ∀ va x, s.snapStored va = some x →
    s.replaced va ≠ 0 ∧ s.mem (pteAddr (s.snap va)) = x

theorem claimOk_empty : ClaimOk cfg s {} := ⟨by simp, by simp, by simp, by simp⟩

theorem snapInv_init (h : Init cfg s) : SnapInv cfg s := by
  have hclaim : ∀ c, s.claim c = {} := fun c => by rw [State.claim, h.idle c, claimAt_idle]
  have howned : ∀ o, s.owned o = none := by
    intro o
    cases o with
    | leaf va => simp [State.owned, h.replaced va]
    | core c => simp [State.owned, hclaim c]
  exact {
    locks := .of_free (fun c => by simp [snapLocks, hclaim c])
      (fun va => (h.leaves va).snap_unlocked)
    claims := fun c => by rw [hclaim c]; exact claimOk_empty
    drop_once := fun c d va hc => by simp [hclaim c] at hc
    once := fun va => by simp [h.replaced va]
    shared := fun va _ => (h.leaves va).addr
    moved := fun va hva => absurd (h.replaced va) hva
    dropped := fun va => by simp [h.dropped va]
    owned_once := fun o o' f ho => by simp [howned o] at ho
    owned_private := fun o f ho => by simp [howned o] at ho
    refs := h.refs
    not_owned := fun va old => by simp [h.idle]
    stored := fun va x hx => by simp [h.snapStored va] at hx }

/-! ## Counting references -/

/-- The references on a frame depend on the frames of the main leaves and
    on what has been dropped. -/
theorem refsHeld_congr (hmain : ∀ va, pteAddr (s'.main va) = pteAddr (s.main va))
    (hdropped : s'.dropped = s.dropped) (f : Word) : refsHeld cfg s' f = refsHeld cfg s f := by
  simp [refsHeld, hmain, hdropped]

/-- A page that is still shared counts twice. -/
theorem two_le_refsHeld {va : Va} (hva : va ∈ cfg.vas) (hdropped : s.dropped va = 0) :
    2 ≤ refsHeld cfg s (pteAddr (s.main va)) := by
  have h1 : 0 < cfg.vas.countP (fun v => pteAddr (s.main v) == pteAddr (s.main va)) :=
    List.countP_pos_iff.2 ⟨va, hva, by simp⟩
  have h2 : 0 < cfg.vas.countP
      (fun v => pteAddr (s.main v) == pteAddr (s.main va) && s.dropped v == 0) :=
    List.countP_pos_iff.2 ⟨va, hva, by simp [hdropped]⟩
  unfold refsHeld
  omega

/-- A frame without references is no main leaf's frame. -/
theorem main_ne_of_refsHeld_eq_zero (hmain : MainInv cfg s) {f : Word}
    (hpool : cfg.isFromPool f = true) (hzero : refsHeld cfg s f = 0) (va : Va) :
    pteAddr (s.main va) ≠ f := by
  intro heq
  by_cases hva : va ∈ cfg.vas
  · have : 0 < cfg.vas.countP (fun v => pteAddr (s.main v) == f) :=
      List.countP_pos_iff.2 ⟨va, hva, by simp [heq]⟩
    unfold refsHeld at hzero
    omega
  · -- The frame of an empty entry lies below the pool.
    rw [hmain.unmapped va hva] at heq
    subst heq
    simp [Config.isFromPool, pteAddr] at hpool

/-- An element that leaves a count lowers it, when no other joins. -/
theorem countP_succ_le {p q : Va → Bool} {vas : List Va} {va : Va} (hva : va ∈ vas)
    (hle : ∀ v ∈ vas, q v = true → p v = true) (hp : p va = true) (hq : q va = false) :
    vas.countP q + 1 ≤ vas.countP p := by
  obtain ⟨before, after, rfl⟩ := List.append_of_mem hva
  have hbefore : before.countP q ≤ before.countP p :=
    List.countP_mono_left fun v hv => hle v (by simp [hv])
  have hafter : after.countP q ≤ after.countP p :=
    List.countP_mono_left fun v hv => hle v (by simp [hv])
  simp only [List.countP_append, List.countP_cons, hp, hq]
  simp only [Bool.false_eq_true, if_false, if_true]
  omega

/-- Dropping the reference of a shared page lowers the count of its frame. -/
theorem refsHeld_drop {va : Va} (hva : va ∈ cfg.vas) (hdropped : s.dropped va = 0) {n : Nat}
    (hmain : s'.main = s.main) (hdrop : s'.dropped = Function.update s.dropped va (n + 1)) :
    refsHeld cfg s' (pteAddr (s.main va)) + 1 ≤ refsHeld cfg s (pteAddr (s.main va)) ∧
    ∀ f, refsHeld cfg s' f ≤ refsHeld cfg s f := by
  have hle : ∀ f, ∀ v ∈ cfg.vas,
      (pteAddr (s'.main v) == f && s'.dropped v == 0) = true →
      (pteAddr (s.main v) == f && s.dropped v == 0) = true := by
    intro f v _ hv
    rw [hmain, hdrop] at hv
    by_cases hvv : v = va
    · simp [hvv] at hv
    · rwa [Function.update_of_ne hvv] at hv
  constructor
  · -- The page itself is counted before and not after.
    have hlt := countP_succ_le hva (hle (pteAddr (s.main va))) (by simp [hdropped])
      (by simp [hdrop])
    unfold refsHeld
    rw [hmain] at hlt ⊢
    omega
  · intro f
    have := List.countP_mono_left (hle f)
    unfold refsHeld
    rw [hmain] at this ⊢
    omega

/-! ## Steps that move no frame -/

/-- Both tables keep their frames, and no reference goes away. -/
structure SnapFrame (s s' : State α) : Prop where
  main : ∀ va, pteAddr (s'.main va) = pteAddr (s.main va)
  snap : ∀ va, pteAddr (s'.snap va) = pteAddr (s.snap va) ∧ isCow (s'.snap va) = isCow (s.snap va)
  replaced : s'.replaced = s.replaced
  dropped : s'.dropped = s.dropped
  ref : ∀ f, s.ref f ≤ s'.ref f

theorem SnapFrame.same (hmain : s'.main = s.main) (hsnap : s'.snap = s.snap)
    (hreplaced : s'.replaced = s.replaced) (hdropped : s'.dropped = s.dropped)
    (href : s'.ref = s.ref) : SnapFrame s s' :=
  ⟨by simp [hmain], by simp [hsnap], hreplaced, hdropped, by simp [href]⟩

theorem ClaimOk.frame {k : Claim} (hk : ClaimOk cfg s k) (hf : SnapFrame s s') :
    ClaimOk cfg s' k := by
  refine ⟨?_, ?_, ?_, hk.fresh⟩
  · intro va hva
    rw [hf.replaced, hf.main]
    exact hk.sharing va hva
  · intro w va hw hva
    rw [(hf.snap va).1, (hf.snap va).2]
    exact hk.kept w va hw hva
  · intro va hva
    rw [hf.replaced, hf.dropped, hf.main]
    exact hk.drop va hva

/-- A page that no table maps and nobody has filled. -/
structure Unused (cfg : Config) (s : State α) (page : Word) : Prop where
  pool : cfg.isFromPool page = true
  unmapped : ∀ va, pteAddr (s.main va) ≠ page
  unowned : ∀ o, s.owned o ≠ some page

/-- Steps that keep all frames: what is left to show is about the locks,
    the claims and the stores. Core `c` may have a page that was unused. -/
theorem snapInv_frame (hinv : SnapInv cfg s) (hf : SnapFrame s s')
    (hlocks : WordLock.Inv isLock (snapLocks s'))
    (hclaims : ∀ d, ClaimOk cfg s' (s'.claim d))
    (hdrop : ∀ d, (s'.claim d).drop = (s.claim d).drop)
    (hfresh : ∀ d f, (s'.claim d).fresh = some f → (s.claim d).fresh = some f ∨
      d = c ∧ Unused cfg s f ∧ 1 ≤ s'.ref f)
    (hnot : ∀ va old, s'.pc snapshotCore ≠ .storeOwned va old)
    (hstored : ∀ va x, s'.snapStored va = some x →
      s'.replaced va ≠ 0 ∧ s'.mem (pteAddr (s'.snap va)) = x) : SnapInv cfg s' := by
  have howned : ∀ o f, s'.owned o = some f → s.owned o = some f ∨
      o = .core c ∧ Unused cfg s f ∧ 1 ≤ s'.ref f := by
    intro o f ho
    cases o with
    | leaf va => exact .inl (by simpa [State.owned, hf.replaced, (hf.snap va).1] using ho)
    | core d =>
      rcases hfresh d f ho with h | ⟨rfl, h⟩
      · exact .inl h
      · exact .inr ⟨rfl, h⟩
  exact {
    locks := hlocks
    claims := hclaims
    drop_once := fun c d va hc hd => hinv.drop_once c d va (hdrop c ▸ hc) (hdrop d ▸ hd)
    once := fun va => by rw [hf.replaced]; exact hinv.once va
    shared := fun va hva => by
      rw [hf.replaced] at hva
      rw [(hf.snap va).1, hf.main]
      exact hinv.shared va hva
    moved := fun va hva => by
      rw [hf.replaced] at hva
      rw [(hf.snap va).2]
      exact hinv.moved va hva
    dropped := fun va => by rw [hf.replaced, hf.dropped]; exact hinv.dropped va
    owned_once := fun o o' f ho ho' => by
      rcases howned o f ho with h | ⟨rfl, hnew, _⟩ <;>
        rcases howned o' f ho' with h' | ⟨rfl, hnew', _⟩
      · exact hinv.owned_once o o' f h h'
      · exact absurd h (hnew'.unowned o)
      · exact absurd h' (hnew.unowned o')
      · rfl
    owned_private := fun o f ho => by
      simp only [hf.main]
      rcases howned o f ho with h | ⟨_, hnew, href⟩
      · obtain ⟨hpool, href, hne⟩ := hinv.owned_private o f h
        exact ⟨hpool, Nat.le_trans href (hf.ref f), hne⟩
      · exact ⟨hnew.pool, href, hnew.unmapped⟩
    refs := fun f hpool => by
      rw [refsHeld_congr hf.main hf.dropped]
      exact Nat.le_trans (hinv.refs f hpool) (hf.ref f)
    not_owned := hnot
    stored := hstored }

/-- What a core relies on in the snapshot table, before and after a step. -/
structure SameSnap (k k' : Claim) : Prop where
  snap : k'.snap = k.snap
  sharing : k'.sharing = k.sharing
  drop : k'.drop = k.drop
  fresh : k'.fresh = k.fresh
  kept : k'.kept = k.kept
  old : k.sharing ≠ none ∨ k.drop ≠ none → k'.old = k.old

theorem ClaimOk.same {k k' : Claim} (hk : ClaimOk cfg s k) (hsame : SameSnap k k') :
    ClaimOk cfg s k' := by
  refine ⟨?_, ?_, ?_, ?_⟩
  · intro va hva
    rw [hsame.sharing] at hva
    rw [hsame.snap, hsame.old (Or.inl (by simp [hva]))]
    exact hk.sharing va hva
  · intro w va hw hva
    rw [hsame.kept] at hw
    rw [hsame.snap] at hva
    exact hk.kept w va hw hva
  · intro va hva
    rw [hsame.drop] at hva
    rw [hsame.old (Or.inr (by simp [hva]))]
    exact hk.drop va hva
  · intro page hpage
    rw [hsame.fresh] at hpage
    exact hk.fresh page hpage

section

variable {t : State α} {p : Pc}

/-- Core `c` moves to `p`; the others stay. -/
theorem claim_setPc_ne (hpc : t.pc = s.pc) {d : Nat} (hd : d ≠ c) :
    (t.setPc c p).claim d = s.claim d :=
  claim_of_pc (by simp [State.setPc, hd, hpc])

theorem snapLocks_setPc (hpc : t.pc = s.pc) : snapLocks (t.setPc c p) =
    ⟨t.snap, Function.update (fun d => (s.claim d).snap) c (claimAt c p).snap⟩ := by
  have hother : ∀ d, d ≠ c → (t.setPc c p).pc d = s.pc d :=
    fun d hd => by simp [State.setPc, hd, hpc]
  have hholder := claims_update Claim.snap hother (k := (claimAt c p).snap) (by simp)
  simp only [snapLocks, hholder]
  rfl

theorem SnapInv.not_owned_setPc (hinv : SnapInv cfg s) (hpc : t.pc = s.pc)
    (hnot : c = snapshotCore → ∀ va old, p ≠ .storeOwned va old) (va : Va) (old : Word) :
    (t.setPc c p).pc snapshotCore ≠ .storeOwned va old := by
  by_cases hc : c = snapshotCore
  · simpa [State.setPc, hc] using hnot hc va old
  · simpa [State.setPc, Ne.symm hc, hpc] using hinv.not_owned va old

/-- A step of core `c` on the locks of the snapshot table. -/
theorem snapInv_core (hinv : SnapInv cfg s) (hf : SnapFrame s t) (hpc : t.pc = s.pc)
    (hlock : WordLock.Step isLock Walked c (snapLocks s)
      ⟨t.snap, Function.update (fun d => (s.claim d).snap) c (claimAt c p).snap⟩)
    (hclaim : ClaimOk cfg t (claimAt c p))
    (hdrop : (claimAt c p).drop = (s.claim c).drop)
    (hfresh : (claimAt c p).fresh = (s.claim c).fresh)
    (hnot : c = snapshotCore → ∀ va old, p ≠ .storeOwned va old)
    (hmem : t.mem = s.mem) (hst : t.snapStored = s.snapStored) : SnapInv cfg (t.setPc c p) := by
  have hf' : SnapFrame s (t.setPc c p) := ⟨hf.main, hf.snap, hf.replaced, hf.dropped, hf.ref⟩
  refine snapInv_frame (c := c) hinv hf' ?_ ?_ ?_ ?_ (hinv.not_owned_setPc hpc hnot) ?_
  · rw [snapLocks_setPc hpc]
    exact hlock.inv (fun v w hw => hw.flags.2.1) hinv.locks
  · intro d
    by_cases hd : d = c
    · rw [hd, claim_setPc]
      exact ⟨hclaim.sharing, hclaim.kept, hclaim.drop, hclaim.fresh⟩
    · rw [claim_setPc_ne hpc hd]
      exact (hinv.claims d).frame hf'
  · intro d
    by_cases hd : d = c
    · rw [hd, claim_setPc]; exact hdrop
    · rw [claim_setPc_ne hpc hd]
  · intro d f h
    by_cases hd : d = c
    · rw [hd, claim_setPc, hfresh] at h
      exact .inl (hd ▸ h)
    · rw [claim_setPc_ne hpc hd] at h
      exact .inl h
  · show ∀ va x, t.snapStored va = some x → t.replaced va ≠ 0 ∧ t.mem (pteAddr (t.snap va)) = x
    simp only [hst, hf.replaced, hmem, (hf.snap _).1]
    exact hinv.stored

/-- A step of core `c` that leaves the snapshot table and its claim on it alone. -/
theorem snapInv_quiet (hinv : SnapInv cfg s) (hf : SnapFrame s t) (hpc : t.pc = s.pc)
    (hsnap : t.snap = s.snap) (hsame : SameSnap (s.claim c) (claimAt c p))
    (hnot : c = snapshotCore → ∀ va old, p ≠ .storeOwned va old)
    (hmem : t.mem = s.mem) (hst : t.snapStored = s.snapStored) : SnapInv cfg (t.setPc c p) := by
  refine snapInv_core hinv hf hpc ?_ (((hinv.claims c).same hsame).frame hf) hsame.drop
    hsame.fresh hnot hmem hst
  rw [hsnap, hsame.snap, Function.update_eq_self]
  exact .stay

end

/-! ## Steps that move a frame -/

theorem owned_core (s : State α) (c : Nat) : s.owned (.core c) = (s.claim c).fresh := rfl

theorem owned_leaf (s : State α) (va : Va) :
    s.owned (.leaf va) = if s.replaced va = 0 then none else some (pteAddr (s.snap va)) := rfl

/-- **A snapshot leaf moves to its private copy.** Core `c` holds the lock
    of the leaf, knows that the page is still shared and stores an entry
    on the copy it has filled. -/
theorem snapInv_replace (hinv : SnapInv cfg s) {va : Va} (page : Word) {w : Word} {p : Pc}
    (hsharing : (s.claim c).sharing = some va) (hfresh : (s.claim c).fresh = some page)
    (hva : va ∈ cfg.vas) (haddr : pteAddr w = pteAddr page) (hcow : isCow w = false)
    (hunlocked : isLock w = false)
    (hk : claimAt c p = { main := (claimAt c p).main, drop := some va, old := (s.claim c).old })
    (hnot : ∀ va old, p ≠ .storeOwned va old) :
    SnapInv cfg ((s.replace va w).setPc c p) := by
  obtain ⟨hheld, hzero, hold⟩ := (hinv.claims c).sharing va hsharing
  have hpage := (hinv.claims c).fresh page hfresh
  have hdropped : s.dropped va = 0 := by
    have := hinv.dropped va
    omega
  -- The state after the step, piece by piece.
  generalize ht : (s.replace va w).setPc c p = t
  have hmain : t.main = s.main := by subst ht; rfl
  have hsnap : t.snap = Function.update s.snap va w := by subst ht; rfl
  have hrep : t.replaced = Function.update s.replaced va 1 := by
    subst ht
    simp [State.replace, State.setPc, State.setSnap, hzero]
  have hdrop : t.dropped = s.dropped := by subst ht; rfl
  have href : t.ref = s.ref := by subst ht; rfl
  have hmem : t.mem = s.mem := by subst ht; rfl
  have hst : t.snapStored = s.snapStored := by subst ht; rfl
  have hself : t.claim c =
    { main := (claimAt c p).main, drop := some va, old := (s.claim c).old } := by
    subst ht
    rw [claim_setPc]
    exact hk
  have hother : ∀ d, d ≠ c → t.claim d = s.claim d := by
    subst ht
    exact fun d => claim_setPc_ne rfl
  -- Nobody else holds the lock of this leaf.
  have hmine : ∀ d, d ≠ c → (s.claim d).snap ≠ some va := by
    intro d hd h
    exact hd (hinv.locks.exclusive d c va h hheld)
  have howned : ∀ o f, t.owned o = some f →
      (o = .leaf va ∧ f = page) ∨ (o ≠ .leaf va ∧ o ≠ .core c ∧ s.owned o = some f) := by
    intro o f ho
    cases o with
    | leaf v =>
      by_cases hv : v = va
      · subst hv
        simp [owned_leaf, hrep, hsnap, haddr, hpage] at ho
        exact Or.inl ⟨rfl, ho.symm⟩
      · refine Or.inr ⟨by simpa using hv, by simp, ?_⟩
        simpa [owned_leaf, hrep, hsnap, hv] using ho
    | core d =>
      by_cases hd : d = c
      · subst hd
        simp [owned_core, hself] at ho
      · refine Or.inr ⟨by simp, by simpa using hd, ?_⟩
        simpa [owned_core, hother d hd] using ho
  refine ⟨?_, ?_, ?_, ?_, ?_, ?_, ?_, ?_, ?_, ?_, ?_, ?_⟩
  · have hrel := hinv.locks.release (a := c) (k := va) (w := w) hheld hunlocked
    subst ht
    rw [snapLocks_setPc (t := s.replace va w) (s := s) rfl, hk]
    exact hrel
  · intro d
    by_cases hd : d = c
    · rw [hd, hself]
      refine ⟨by simp, by simp, ?_, by simp⟩
      rintro v hv
      cases hv
      rw [hmain]
      exact ⟨hva, by simp [hrep], by rw [hdrop]; exact hdropped, hold⟩
    · rw [hother d hd]
      obtain ⟨hs, hke, hdr, hfr⟩ := hinv.claims d
      refine ⟨?_, ?_, ?_, hfr⟩
      · intro v hv
        obtain ⟨h1, h2, h3⟩ := hs v hv
        have hne : v ≠ va := fun h => hmine d hd (h ▸ h1)
        rw [hrep, hmain, Function.update_of_ne hne]
        exact ⟨h1, h2, h3⟩
      · intro x v hx hv
        have hne : v ≠ va := fun h => hmine d hd (h ▸ hv)
        rw [hsnap, Function.update_of_ne hne]
        exact hke x v hx hv
      · intro v hv
        obtain ⟨h1, h2, h3, h4⟩ := hdr v hv
        have hne : v ≠ va := by
          rintro rfl
          omega
        rw [hrep, hdrop, hmain, Function.update_of_ne hne]
        exact ⟨h1, h2, h3, h4⟩
  · -- Whoever already has to drop a reference does so for another page.
    have hnone : ∀ d, (s.claim d).drop ≠ some va := by
      intro d h
      have := ((hinv.claims d).drop va h).2.1
      omega
    intro d e v hd he
    by_cases hdc : d = c <;> by_cases hec : e = c
    · rw [hdc, hec]
    · rw [hdc, hself] at hd
      cases hd
      rw [hother e hec] at he
      exact absurd he (hnone e)
    · rw [hec, hself] at he
      cases he
      rw [hother d hdc] at hd
      exact absurd hd (hnone d)
    · rw [hother d hdc] at hd
      rw [hother e hec] at he
      exact hinv.drop_once d e v hd he
  · intro v
    rw [hrep]
    by_cases hv : v = va
    · simp [hv]
    · rw [Function.update_of_ne hv]
      exact hinv.once v
  · intro v hv
    have hne : v ≠ va := by
      rintro rfl
      simp [hrep] at hv
    rw [hrep, Function.update_of_ne hne] at hv
    rw [hsnap, hmain, Function.update_of_ne hne]
    exact hinv.shared v hv
  · intro v hv
    by_cases hne : v = va
    · simp [hsnap, hne, hcow]
    · rw [hrep, Function.update_of_ne hne] at hv
      rw [hsnap, Function.update_of_ne hne]
      exact hinv.moved v hv
  · intro v
    rw [hdrop, hrep]
    by_cases hv : v = va
    · simp [hv, hdropped]
    · rw [Function.update_of_ne hv]
      exact hinv.dropped v
  · -- The copy passes from the core to the leaf.
    intro o o' f ho ho'
    have hcore : s.owned (.core c) = some page := hfresh
    rcases howned o f ho with ⟨rfl, rfl⟩ | ⟨_, hoc, ho⟩ <;>
      rcases howned o' _ ho' with ⟨rfl, hf'⟩ | ⟨_, hoc', ho'⟩
    · rfl
    · exact absurd (hinv.owned_once _ _ _ ho' hcore) hoc'
    · subst hf'
      exact absurd (hinv.owned_once _ _ _ ho hcore) hoc
    · exact hinv.owned_once o o' f ho ho'
  · intro o f ho
    rw [href, hmain]
    rcases howned o f ho with ⟨_, rfl⟩ | ⟨_, _, ho⟩
    · exact hinv.owned_private (.core c) f hfresh
    · exact hinv.owned_private o f ho
  · intro f hpool
    rw [href, refsHeld_congr (by simp [hmain]) hdrop]
    exact hinv.refs f hpool
  · subst ht
    exact hinv.not_owned_setPc rfl fun _ => hnot
  · intro v x hx
    rw [hst] at hx
    obtain ⟨h1, h2⟩ := hinv.stored v x hx
    have hne : v ≠ va := by
      rintro rfl
      exact h1 hzero
    rw [hrep, hmem, hsnap, Function.update_of_ne hne, Function.update_of_ne hne]
    exact ⟨h1, h2⟩

/-- **The reference of a moved leaf is dropped.** The frame stays
    referenced by the main table, so it does not go back to the pool. -/
theorem snapInv_put (hinv : SnapInv cfg s) (va : Va) {p : Pc}
    (hdrop : (s.claim c).drop = some va)
    (hk : claimAt c p = { main := (claimAt c p).main, old := (claimAt c p).old })
    (hnone : (s.claim c).snap = none ∧ (s.claim c).sharing = none ∧ (s.claim c).fresh = none)
    (hnot : ∀ va old, p ≠ .storeOwned va old) :
    SnapInv cfg ((s.put cfg va (pteAddr (s.claim c).old)).setPc c p) := by
  obtain ⟨hva, hone, hzero, hold⟩ := (hinv.claims c).drop va hdrop
  obtain ⟨hsnapnone, hshnone, hfrnone⟩ := hnone
  generalize ht : (s.put cfg va (pteAddr (s.claim c).old)).setPc c p = t
  rw [hold] at ht
  have hmain : t.main = s.main := by subst ht; exact put_field State.main (fun _ _ => rfl) _ _
  have hsnap : t.snap = s.snap := by subst ht; exact put_field State.snap (fun _ _ => rfl) _ _
  have hrep : t.replaced = s.replaced := by subst ht; exact put_field State.replaced (fun _ _ => rfl) _ _
  have hmem : t.mem = s.mem := by subst ht; exact put_field State.mem (fun _ _ => rfl) _ _
  have hst : t.snapStored = s.snapStored := by
    subst ht
    exact put_field State.snapStored (fun _ _ => rfl) _ _
  have hself : t.claim c = { main := (claimAt c p).main, old := (claimAt c p).old } := by
    subst ht
    rw [claim_setPc]
    exact hk
  have hpc : (s.put cfg va (pteAddr (s.main va))).pc = s.pc := put_field State.pc (fun _ _ => rfl) _ _
  have hother : ∀ d, d ≠ c → t.claim d = s.claim d := by
    subst ht
    exact fun d => claim_setPc_ne hpc
  -- Either the frame is not from the pool, or its count and the page's ghost move together.
  have hcount : (t.ref = s.ref ∧ t.dropped = s.dropped) ∨
      (cfg.isFromPool (pteAddr (s.main va)) = true ∧
        t.ref = Function.update s.ref (pteAddr (s.main va)) (s.ref (pteAddr (s.main va)) - 1) ∧
        t.dropped = Function.update s.dropped va (s.dropped va + 1)) := by
    subst ht
    by_cases hpool : cfg.isFromPool (pteAddr (s.main va)) = true
    · exact Or.inr ⟨hpool, by simp [State.put, State.setPc, hpool],
        by simp [State.put, State.setPc, hpool]⟩
    · exact Or.inl ⟨by simp [State.put, State.setPc, hpool], by simp [State.put, State.setPc, hpool]⟩
  have hdropped_ne : ∀ v, v ≠ va → t.dropped v = s.dropped v := by
    intro v hv
    rcases hcount with ⟨_, h⟩ | ⟨_, _, h⟩
    · rw [h]
    · rw [h, Function.update_of_ne hv]
  have howned : t.owned = s.owned := by
    funext o
    cases o with
    | leaf v => simp [owned_leaf, hrep, hsnap]
    | core d =>
      by_cases hd : d = c
      · simp [owned_core, hd, hself, hfrnone]
      · simp [owned_core, hother d hd]
  refine ⟨?_, ?_, ?_, ?_, ?_, ?_, ?_, ?_, ?_, ?_, ?_, ?_⟩
  · have hlocks : snapLocks t = snapLocks s := by
      subst ht
      rw [snapLocks_setPc hpc, hk, ← hsnapnone, Function.update_eq_self]
      exact congrArg (WordLock.Locks.mk · _) hsnap
    rw [hlocks]
    exact hinv.locks
  · intro d
    by_cases hd : d = c
    · rw [hd, hself]
      exact ⟨by simp, by simp, by simp, by simp⟩
    · rw [hother d hd]
      obtain ⟨hs, hke, hdr, hfr⟩ := hinv.claims d
      refine ⟨?_, ?_, ?_, hfr⟩
      · rw [hrep, hmain]; exact hs
      · rw [hsnap]; exact hke
      · intro v hv
        obtain ⟨h1, h2, h3, h4⟩ := hdr v hv
        have hne : v ≠ va := fun h => hd (hinv.drop_once d c va (h ▸ hv) hdrop)
        rw [hrep, hmain, hdropped_ne v hne]
        exact ⟨h1, h2, h3, h4⟩
  · intro d e v hd he
    have hdc : d ≠ c := by
      rintro rfl
      simp [hself] at hd
    have hec : e ≠ c := by
      rintro rfl
      simp [hself] at he
    rw [hother d hdc] at hd
    rw [hother e hec] at he
    exact hinv.drop_once d e v hd he
  · rw [hrep]; exact hinv.once
  · rw [hrep, hsnap, hmain]; exact hinv.shared
  · rw [hrep, hsnap]; exact hinv.moved
  · intro v
    rw [hrep]
    by_cases hv : v = va
    · subst hv
      rcases hcount with ⟨_, h⟩ | ⟨_, _, h⟩ <;> simp [h, hzero, hone]
    · rw [hdropped_ne v hv]
      exact hinv.dropped v
  · rw [howned]; exact hinv.owned_once
  · intro o f ho
    rw [howned] at ho
    obtain ⟨hpool, href, hne⟩ := hinv.owned_private o f ho
    rw [hmain]
    refine ⟨hpool, ?_, hne⟩
    rcases hcount with ⟨h, _⟩ | ⟨_, h, _⟩
    · rw [h]; exact href
    · rw [h, Function.update_of_ne (Ne.symm (hne va))]
      exact href
  · intro f hpool
    have hrefs := hinv.refs f hpool
    rcases hcount with ⟨h1, h2⟩ | ⟨_, h1, h2⟩
    · rw [h1, refsHeld_congr (by simp [hmain]) h2]
      exact hrefs
    · have hle := refsHeld_drop hva hzero hmain h2
      rw [h1]
      by_cases hf : f = pteAddr (s.main va)
      · subst hf
        rw [Function.update_self]
        omega
      · rw [Function.update_of_ne hf]
        exact Nat.le_trans (hle.2 f) hrefs
  · subst ht
    exact hinv.not_owned_setPc hpc fun _ => hnot
  · rw [hst, hrep, hmem, hsnap]; exact hinv.stored

/-- **A copy is filled.** The allocator hands out a page that no table
    references, so it is nobody's frame. -/
theorem snapInv_copy (hmainInv : MainInv cfg s) (hinv : SnapInv cfg s) {page src : Word} {p : Pc}
    (halloc : s.allocatable cfg page = true)
    (hk : claimAt c p = { s.claim c with fresh := some page })
    (hnot : ∀ va old, p ≠ .storeOwned va old) :
    SnapInv cfg ((s.copyInto page src).setPc c p) := by
  simp only [State.allocatable, Bool.and_eq_true, beq_iff_eq] at halloc
  obtain ⟨⟨hpool, hfree⟩, haddr⟩ := halloc
  have hheld : refsHeld cfg s page = 0 := by
    have := hinv.refs page hpool
    omega
  -- Frames with an owner are referenced, the new page is not.
  have hnew : Unused cfg s page := by
    refine ⟨hpool, main_ne_of_refsHeld_eq_zero hmainInv hpool hheld, fun o ho => ?_⟩
    have := (hinv.owned_private o page ho).2.1
    omega
  have hself : ((s.copyInto page src).setPc c p).claim c = { s.claim c with fresh := some page } := by
    rw [claim_setPc]
    exact hk
  have hother : ∀ d, d ≠ c → ((s.copyInto page src).setPc c p).claim d = s.claim d :=
    fun d => claim_setPc_ne rfl
  have hf : SnapFrame s ((s.copyInto page src).setPc c p) := by
    refine ⟨fun _ => rfl, fun _ => ⟨rfl, rfl⟩, rfl, rfl, fun f => ?_⟩
    by_cases hfp : f = page
    · simp [hfp, hfree]
    · simp [State.setPc, State.copyInto, hfp]
  refine snapInv_frame (c := c) hinv hf ?_ ?_ ?_ ?_ (hinv.not_owned_setPc rfl fun _ => hnot) ?_
  · have hheld : (claimAt c p).snap = (s.claim c).snap := by rw [hk]
    rw [snapLocks_setPc (t := s.copyInto page src) (s := s) rfl, hheld, Function.update_eq_self]
    exact hinv.locks
  · intro d
    by_cases hd : d = c
    · obtain ⟨hs, hke, hdr, _⟩ := (hinv.claims c).frame hf
      rw [hd, hself]
      refine ⟨hs, hke, hdr, ?_⟩
      rintro q hq
      cases hq
      exact haddr
    · rw [hother d hd]
      exact (hinv.claims d).frame hf
  · intro d
    by_cases hd : d = c
    · rw [hd, hself]
    · rw [hother d hd]
  · intro d f h
    by_cases hd : d = c
    · rw [hd, hself] at h
      cases h
      exact .inr ⟨hd, hnew, by simp [State.setPc, State.copyInto]⟩
    · rw [hother d hd] at h
      exact .inl h
  · intro v x hx
    obtain ⟨h1, h2⟩ := hinv.stored v x hx
    have hne : pteAddr (s.snap v) ≠ page := by
      rintro rfl
      exact hnew.unowned (.leaf v) (by simp [owned_leaf, h1])
    refine ⟨h1, ?_⟩
    rw [← h2]
    exact Function.update_of_ne hne _ _

/-! ## The handler -/

theorem SameSnap.refl (k : Claim) : SameSnap k k := ⟨rfl, rfl, rfl, rfl, rfl, fun _ => rfl⟩

/-- The snapshot core never sees a single reference on a page it shares. -/
theorem not_refOne (hinv : SnapInv cfg s) (hpos : Position cfg snapshotCore (s.pc snapshotCore))
    {va : Va} {old : Word} (hpc : s.pc snapshotCore = .readRef va old)
    (hpool : cfg.isFromPool (pteAddr old) = true) : s.ref (pteAddr old) ≠ 1 := by
  have hclaim : s.claim snapshotCore = { snap := some va, sharing := some va, old := old } := by
    rw [State.claim, hpc]; rfl
  have hsharing := (hinv.claims snapshotCore).sharing va (by rw [hclaim])
  rw [hclaim] at hsharing
  obtain ⟨_, hzero, (hold : pteAddr old = pteAddr (s.main va))⟩ := hsharing
  have hdropped : s.dropped va = 0 := by
    have := hinv.dropped va
    omega
  have htwo := two_le_refsHeld (s := s) (hpos.mapped va (by rw [hpc]; rfl)) hdropped
  rw [← hold] at htwo
  have := hinv.refs _ hpool
  omega

theorem snapInv_goto (hinv : SnapInv cfg s) (hpos : Position cfg c (s.pc c)) {p' : Pc}
    (h : Goto cfg s c (s.pc c) p') : SnapInv cfg (s.setPc c p') := by
  refine snapInv_quiet hinv (.same rfl rfl rfl rfl rfl) rfl rfl ?_ ?_ rfl rfl
  · rw [h.claim hpos, State.claim]
    exact .refl _
  · rintro rfl va old rfl
    generalize hpc : s.pc snapshotCore = p at h
    cases h with
    | refOne hpool hone => exact not_refOne hinv hpos hpc hpool hone

/-- A step of core `c` that stores into the main table only. -/
theorem snapInv_main (hinv : SnapInv cfg s) {va : Va} {w : Word} {p : Pc}
    (haddr : pteAddr w = pteAddr (s.main va)) (hsame : SameSnap (s.claim c) (claimAt c p))
    (hc : c ≠ snapshotCore) : SnapInv cfg ((s.setMain va w).setPc c p) := by
  refine snapInv_quiet hinv ?_ rfl rfl hsame (fun h => absurd h hc) rfl rfl
  refine ⟨?_, fun _ => ⟨rfl, rfl⟩, rfl, rfl, fun _ => Nat.le_refl _⟩
  intro v
  by_cases hv : v = va
  · simp [State.setMain, hv, haddr]
  · simp [State.setMain, hv]

/-- A step of core `c` that takes or gives back the lock of a snapshot leaf. -/
theorem snapInv_lock (hinv : SnapInv cfg s) {va : Va} {w : Word} {p : Pc}
    (haddr : pteAddr w = pteAddr (s.snap va)) (hcow : isCow w = isCow (s.snap va))
    (hlock : WordLock.Step isLock Walked c (snapLocks s)
      ⟨Function.update s.snap va w,
        Function.update (fun d => (s.claim d).snap) c (claimAt c p).snap⟩)
    (hclaim : ClaimOk cfg (s.setSnap va w) (claimAt c p))
    (hdrop : (claimAt c p).drop = (s.claim c).drop)
    (hfresh : (claimAt c p).fresh = (s.claim c).fresh)
    (hnot : ∀ va old, p ≠ .storeOwned va old) :
    SnapInv cfg ((s.setSnap va w).setPc c p) := by
  refine snapInv_core hinv ?_ rfl hlock hclaim hdrop hfresh (fun _ => hnot) rfl rfl
  refine ⟨fun _ => rfl, ?_, rfl, rfl, fun _ => Nat.le_refl _⟩
  intro v
  by_cases hv : v = va
  · simp [State.setSnap, hv, haddr, hcow]
  · simp [State.setSnap, hv]

/-- A main core gives back the lock of a main leaf. -/
theorem snapInv_release (hmainInv : MainInv cfg s) (hinv : SnapInv cfg s) (hc : c ≠ snapshotCore)
    {va : Va} {old w : Word} {p : Pc} (hclaim : s.claim c = { main := some va, old := old })
    (hw : pteAddr w = pteAddr old) (hp : claimAt c p = {}) :
    SnapInv cfg ((s.setMain va w).setPc c p) := by
  have hsame := (hmainInv.held c va (by rw [hclaim])).1
  rw [hclaim] at hsame
  refine snapInv_main hinv (hw.trans hsame.addr.symm) ?_ hc
  rw [hclaim, hp]
  exact ⟨rfl, rfl, rfl, rfl, rfl, by simp⟩

theorem snapInv_handler (hmainInv : MainInv cfg s) (hinv : SnapInv cfg s)
    (hok : lockRespected s (.handler c) = true) (h : HandlerMove cfg s c (s.pc c) s') :
    SnapInv cfg s' := by
  have hpos := hmainInv.positions c
  have hheld := hmainInv.held c
  generalize hpc : s.pc c = p at h hpos
  have hclaim : s.claim c = claimAt c p := by rw [State.claim, hpc]
  cases h with
  | goto h =>
    subst hpc
    exact snapInv_goto hinv hpos h
  | @lockMain va old hc heq =>
    refine snapInv_main hinv (by simp [heq]) ?_ hc
    rw [hclaim, claimAt_main hc, claimAt_main hc]
    exact ⟨rfl, rfl, rfl, rfl, rfl, by simp [mainClaim]⟩
  | @ownMain va old hc =>
    rw [claimAt_main hc] at hclaim
    exact snapInv_release hmainInv hinv hc hclaim (by simp) (by rw [claimAt_main hc]; rfl)
  | @restore va old | @unlockMain va old | @unlockAlone va old =>
    have hc := hpos.main rfl
    rw [claimAt_main hc] at hclaim
    exact snapInv_release hmainInv hinv hc hclaim (by simp) (by rw [claimAt_main hc]; rfl)
  | @lockOwn va old hc heq =>
    obtain ⟨hcow, _, hunlocked⟩ := hpos.checked va old rfl
    subst heq
    -- A copy-on-write leaf has not moved.
    have hzero : s.replaced va = 0 := by
      by_contra hne
      rw [hinv.moved va hne] at hcow
      cases hcow
    rw [claimAt_snap hc] at hclaim
    refine snapInv_lock hinv (by simp) (by simp) ?_ ?_
      (by simp [hclaim, claimAt_snap hc, snapClaim])
      (by simp [hclaim, claimAt_snap hc, snapClaim]) (by simp)
    · rw [claimAt_snap hc]
      exact .acquire va _ (by simp [snapLocks, hclaim, snapClaim]) hunlocked (by simp)
    · rw [claimAt_snap hc]
      refine ⟨?_, by simp [snapClaim], by simp [snapClaim], by simp [snapClaim]⟩
      rintro v hv
      cases hv
      exact ⟨rfl, hzero, hinv.shared va hzero⟩
  | @lockShared va old started sold heq hsame =>
    have hc := hpos.main rfl
    have hunlocked := lockRespected_lockSnap hok hpc heq
    subst heq
    rw [claimAt_main hc] at hclaim
    obtain ⟨hmap, _⟩ := hheld va (by rw [hclaim]; rfl)
    rw [hclaim] at hmap
    have haddr : pteAddr old = pteAddr (s.main va) := hmap.addr.symm
    -- A moved leaf is on a frame that no main leaf has.
    have hzero : s.replaced va = 0 := by
      by_contra hne
      have hpriv := hinv.owned_private (.leaf va) (pteAddr (s.snap va)) (by simp [owned_leaf, hne])
      exact hpriv.2.2 va (haddr.symm.trans hsame)
    refine snapInv_lock hinv (by simp) (by simp) ?_ ?_
      (by simp [hclaim, claimAt_main hc, mainClaim])
      (by simp [hclaim, claimAt_main hc, mainClaim]) (by simp)
    · rw [claimAt_main hc]
      exact .acquire va _ (by simp [snapLocks, hclaim, mainClaim]) hunlocked (by simp)
    · rw [claimAt_main hc]
      refine ⟨?_, by simp [mainClaim], by simp [mainClaim], by simp [mainClaim]⟩
      rintro v hv
      cases hv
      exact ⟨rfl, hzero, haddr⟩
  | @lockDiverged va old started sold heq hdiff =>
    have hc := hpos.main rfl
    have hunlocked := lockRespected_lockSnap hok hpc heq
    subst heq
    rw [claimAt_main hc] at hclaim
    refine snapInv_lock hinv (by simp) (by simp) ?_ ?_
      (by simp [hclaim, claimAt_main hc, mainClaim])
      (by simp [hclaim, claimAt_main hc, mainClaim]) (by simp)
    · rw [claimAt_main hc]
      exact .acquire va _ (by simp [snapLocks, hclaim, mainClaim]) hunlocked (by simp)
    · rw [claimAt_main hc]
      refine ⟨by simp [mainClaim], ?_, by simp [mainClaim], by simp [mainClaim]⟩
      rintro w v hw hv
      cases hw
      cases hv
      simp [State.setSnap]
  | @storeDiverged va old sold =>
    have hc := hpos.main rfl
    rw [claimAt_main hc] at hclaim
    obtain ⟨haddr, hcow⟩ := (hinv.claims c).kept sold va (by rw [hclaim]; rfl) (by rw [hclaim]; rfl)
    refine snapInv_lock hinv (by simp [haddr]) (by simp [hcow]) ?_ ?_
      (by simp [hclaim, claimAt_main hc, mainClaim]) (by simp [hclaim, claimAt_main hc, mainClaim])
      (by simp)
    · rw [claimAt_main hc]
      exact .release va _ (by simp [snapLocks, hclaim, mainClaim]) (by simp)
    · rw [claimAt_main hc]
      exact ⟨by simp [mainClaim], by simp [mainClaim], by simp [mainClaim], by simp [mainClaim]⟩
  | @ownSnap va old hc =>
    subst hc
    exact absurd hpc (hinv.not_owned va old)
  | @storeSnap va old page =>
    have hc := hpos.snapshot rfl
    rw [claimAt_snap hc] at hclaim
    exact snapInv_replace hinv page (by rw [hclaim]; rfl) (by rw [hclaim]; rfl)
      (hpos.mapped va rfl) (by simp) (by simp) (by simp)
      (by rw [hclaim, claimAt_snap hc]; rfl) (by simp)
  | @install va old started sold page heq | @overwrite va old started page now =>
    have hc := hpos.main rfl
    rw [claimAt_main hc] at hclaim
    exact snapInv_replace hinv page (by rw [hclaim]; rfl) (by rw [hclaim]; rfl)
      (hpos.mapped va rfl) (by simp) (by simp) (by simp)
      (by rw [hclaim, claimAt_main hc]; rfl) (by simp)
  | @putSnap va old =>
    have hc := hpos.snapshot rfl
    rw [claimAt_snap hc] at hclaim
    have hput := snapInv_put (c := c) (p := .flush va) hinv va (by rw [hclaim]; rfl)
      (by rw [claimAt_snap hc]; rfl) (by rw [hclaim]; exact ⟨rfl, rfl, rfl⟩) (by simp)
    rw [hclaim] at hput
    exact hput
  | @putMain va old =>
    have hc := hpos.main rfl
    rw [claimAt_main hc] at hclaim
    have hput := snapInv_put (c := c) (p := .unlockMain va old) hinv va (by rw [hclaim]; rfl)
      (by rw [claimAt_main hc]; rfl) (by rw [hclaim]; exact ⟨rfl, rfl, rfl⟩) (by simp)
    rw [hclaim] at hput
    exact hput
  | @shootdown va old started need _ =>
    have hc := hpos.main rfl
    refine snapInv_quiet hinv (.same rfl rfl rfl rfl rfl) rfl rfl ?_ (fun h => absurd h hc) rfl rfl
    rw [hclaim, claimAt_main hc, claimAt_main hc]
    exact .refl _
  | @flushSnap va hc =>
    refine snapInv_quiet hinv (.same rfl rfl rfl rfl rfl) rfl rfl ?_ (by simp) rfl rfl
    rw [hclaim, claimAt_snap hc, claimAt_snap hc]
    exact .refl _

/-! ## The other parties -/

theorem snapInv_fault (hinv : SnapInv cfg s) {va : Va} {write : Bool} (hidle : s.pc c = .idle) :
    SnapInv cfg (s.setPc c (.fetch va write)) := by
  refine snapInv_quiet hinv (.same rfl rfl rfl rfl rfl) rfl rfl ?_ (by simp) rfl rfl
  rw [State.claim, hidle, claimAt_idle, claimAt_fetch]
  exact .refl _

/-- A step that leaves the positions of all cores alone. -/
theorem snapInv_env (hinv : SnapInv cfg s) (hf : SnapFrame s s') (hpc : s'.pc = s.pc)
    (hlocks : WordLock.Inv isLock (snapLocks s'))
    (hstored : ∀ va x, s'.snapStored va = some x →
      s'.replaced va ≠ 0 ∧ s'.mem (pteAddr (s'.snap va)) = x) : SnapInv cfg s' := by
  have hclaim : ∀ d, s'.claim d = s.claim d := fun d => claim_of_pc (by rw [hpc])
  refine snapInv_frame (c := 0) hinv hf hlocks ?_ ?_ ?_ ?_ hstored
  · intro d
    rw [hclaim d]
    exact (hinv.claims d).frame hf
  · intro d
    rw [hclaim d]
  · intro d f h
    exact .inl (hclaim d ▸ h)
  · rw [hpc]; exact hinv.not_owned

theorem snapInv_step (hmainInv : MainInv cfg s) (hinv : SnapInv cfg s)
    (hok : lockRespected s l = true)
    (hstep : step cfg s l = some s') : SnapInv cfg s' := by
  cases step_cases hstep with
  | fault hidle _ _ => exact snapInv_fault hinv hidle
  | handler h => exact snapInv_handler hmainInv hinv hok h
  | @copySnap c page va old halloc hpc =>
    have hc : c = snapshotCore := (hmainInv.positions c).snapshot (by rw [hpc]; rfl)
    refine snapInv_copy hmainInv hinv halloc ?_ (by simp)
    rw [State.claim, hpc, claimAt_snap hc, claimAt_snap hc]
    rfl
  | @copyMain c page va old started sold halloc hpc =>
    have hc : c ≠ snapshotCore := (hmainInv.positions c).main (by rw [hpc]; rfl)
    refine snapInv_copy hmainInv hinv halloc ?_ (by simp)
    rw [State.claim, hpc, claimAt_main hc, claimAt_main hc]
    rfl
  | @walkMain va write w hw =>
    refine snapInv_env hinv ⟨?_, fun _ => ⟨rfl, rfl⟩, rfl, rfl, fun _ => Nat.le_refl _⟩ rfl
      hinv.locks hinv.stored
    exact fun v => (main_evolves hmainInv hstep v).1.addr
  | @walkSnap va write w _ hw =>
    obtain ⟨hmap, hlock, hcow, _⟩ := hw.flags
    have hleaf : ∀ v, pteAddr ((s.setSnap va w).snap v) = pteAddr (s.snap v) ∧
        isCow ((s.setSnap va w).snap v) = isCow (s.snap v) := by
      intro v
      by_cases hv : v = va
      · simp [State.setSnap, hv, hmap.addr, hcow]
      · simp [State.setSnap, hv]
    refine snapInv_env hinv ⟨fun _ => rfl, hleaf, rfl, rfl, fun _ => Nat.le_refl _⟩ rfl
      (hinv.locks.change hlock) ?_
    intro v x hx
    rw [(hleaf v).1]
    exact hinv.stored v x hx
  | @storeMain va x hp hw =>
    refine snapInv_env hinv (.same rfl rfl rfl rfl rfl) rfl hinv.locks ?_
    -- A private frame is not the frame of a main leaf.
    intro v y hy
    obtain ⟨hne, hval⟩ := hinv.stored v y hy
    have hpriv := hinv.owned_private (.leaf v) _ (by simp [owned_leaf, hne]; rfl)
    refine ⟨hne, ?_⟩
    rw [← hval]
    exact Function.update_of_ne (Ne.symm (hpriv.2.2 va)) _ _
  | @storeSnap va x hp hw =>
    refine snapInv_env hinv (.same rfl rfl rfl rfl rfl) rfl hinv.locks ?_
    intro v y hy
    by_cases hv : v = va
    · subst hv
      by_cases hzero : s.replaced v = 0
      · simp only [hzero, if_true] at hy
        exact absurd hzero (hinv.stored v y hy).1
      · simp only [hzero, if_false, Function.update_self, Option.some.injEq] at hy
        exact ⟨hzero, by simp [hy]⟩
    · -- The two leaves are on different frames.
      have hy' : s.snapStored v = some y := by
        by_cases hzero : s.replaced va = 0
        · simpa [hzero] using hy
        · simpa [hzero, hv] using hy
      obtain ⟨hne, hval⟩ := hinv.stored v y hy'
      have hframe : pteAddr (s.snap v) ≠ pteAddr (s.snap va) := by
        intro heq
        by_cases hzero : s.replaced va = 0
        · have hpriv := hinv.owned_private (.leaf v) (pteAddr (s.snap v))
            (by simp [owned_leaf, hne])
          exact hpriv.2.2 va ((hinv.shared va hzero).symm.trans heq.symm)
        · have := hinv.owned_once (.leaf v) (.leaf va) (pteAddr (s.snap v))
            (by simp [owned_leaf, hne]) (by simp [owned_leaf, hzero, heq])
          exact hv (by simpa using this)
      refine ⟨hne, ?_⟩
      rw [← hval]
      exact Function.update_of_ne hframe _ _
  | walk h =>
    have hf := walkStep_frame h
    refine snapInv_env hinv ⟨fun _ => by rw [hf.main], fun _ => by rw [hf.snap]; exact ⟨rfl, rfl⟩,
      hf.replaced, hf.dropped, hf.ref⟩ hf.pc ?_ ?_
    · have hlocks : snapLocks s' = snapLocks s := by
        simp only [snapLocks, hf.snap, State.claim, hf.pc]
      rw [hlocks]
      exact hinv.locks
    · rw [hf.snapStored, hf.replaced, hf.mem, hf.snap]
      exact hinv.stored
  | cacheSnap _ _ _ | loadRoot _ | announce _ =>
    exact snapInv_env hinv (.same rfl rfl rfl rfl rfl) rfl hinv.locks hinv.stored

/-- **The snapshot table in every run in which locks are respected.** -/
theorem snapInv_runsTo (h : (system (α := α) cfg).RunsTo (fun s l => lockRespected s l = true) s) :
    SnapInv cfg s :=
  System.invariant_when_using (fun _ hr => mainInv_reachable hr.reachable)
    (fun _ => snapInv_init) (fun _ _ _ => snapInv_step) h

end CowFault
