import Libdbos.Sandbox.Confinement

/-! # Regions of the Sandboxed Program

    The heap grows from the lower end of the upper window, and every region whose
    address the library chooses is put right below the ones before it. The library
    only keeps the two lengths; here each run also remembers the regions.

    A region is a range of whole pages: what `umm_mmap`, `umm_shmat` and `umm_mremap`
    have mapped at an address of their own, and each stack but its last page. Those
    that the program has given back are remembered too, since their addresses are
    not used again.
-/

open LTS

namespace Sandbox

open Dune

/-! ## Regions -/

structure Region where
  start : Nat
  len : Nat
  deriving DecidableEq, Repr

def Region.Has (r : Region) (a : Nat) : Prop := r.start ≤ a ∧ a < r.start + r.len

/-- No address is in both. -/
def Region.Disjoint (r r' : Region) : Prop := ∀ a, r.Has a → ¬ r'.Has a

/-- All addresses are in the upper window. -/
def Region.InWindow (p : Process) (r : Region) : Prop :=
  p.mmapBase.toNat ≤ r.start ∧ r.start + r.len ≤ p.mmapBase.toNat + 0x200000000

/-- The heap. -/
def Umm.heap (p : Process) (s : Umm) : Region := ⟨p.mmapBase.toNat, s.brkLen.toNat⟩

/-- The region of a call that has returned `addr`, if the library has chosen it. -/
def region (c : Call) (addr : Word) : Option Region :=
  match c with
  | .mmap hint len _ _ _ => if hint = 0#64 then some ⟨addr.toNat, (pgRound len).toNat⟩ else none
  | .shmat hint (some len) _ =>
    if hint = 0#64 then some ⟨addr.toNat, (pgRound len).toNat⟩ else none
  | .mremap _ _ newSize flags _ =>
    if Word.has flags mremapFixed then none else some ⟨addr.toNat, (pgRound newSize).toNat⟩
  | .allocStack =>
    some ⟨(addr - appStackSize + 0x1000#64).toNat, (appStackSize - 0x1000#64).toNat⟩
  | _ => none

/-- The two lengths, and the regions so far. -/
structure Mapped where
  umm : Umm
  regions : List Region
  deriving DecidableEq, Repr

/-- The regions after a call. -/
def addRegion (c : Call) (ret : Except Err Word) (regions : List Region) : List Region :=
  match ret with
  | .ok addr => (region c addr).toList ++ regions
  | .error _ => regions

/-- One call after another, with all answers of the host. -/
def regionSystem (p : Process) : System Mapped (Call × Answers) where
  init s := s = ⟨⟨0#64, 0#64⟩, []⟩
  step s l :=
    let o := run p s.umm l.2 l.1
    some ⟨o.umm, addRegion l.1 o.ret s.regions⟩

/-! ## One call -/

variable {p : Process} {s : Umm}

/-- A region in the part of the window that a call has taken. -/
def Above (p : Process) (s s' : Umm) (r : Region) : Prop :=
  p.mmapBase.toNat + 0x200000000 - s'.mmapLen.toNat ≤ r.start ∧
    r.start + r.len ≤ p.mmapBase.toNat + 0x200000000 - s.mmapLen.toNat

/-- A call does not give anything back, and its region is in what it takes. -/
structure Takes (p : Process) (s : Umm) (c : Call) (o : Outcome) : Prop where
  grows : s.mmapLen.toNat ≤ o.umm.mmapLen.toNat
  above : ∀ addr r, o.ret = .ok addr → region c addr = some r → Above p s o.umm r

theorem takes_error (c : Call) (e : Err) (changes : List Change) :
    Takes p s c ⟨.error e, s, changes⟩ :=
  ⟨Nat.le_refl _, fun _ _ h => by cases h⟩

/-- A call that gets no region and leaves the length of the mappings alone. -/
theorem takes_none {c : Call} {o : Outcome} (hlen : o.umm.mmapLen = s.mmapLen)
    (hnone : ∀ addr, region c addr = none) : Takes p s c o :=
  ⟨Nat.le_of_eq (congrArg BitVec.toNat hlen.symm),
    fun addr _ _ h => absurd ((hnone addr).symm.trans h) (by simp)⟩

/-- A call that gets the place below the mappings. -/
theorem takes_chosen (hs : s.Ok) {c : Call} {len : Word} (h : ummSpaceLeft s len = true)
    (hacc : hostAccepts (ummGetMapPos p s - pgRound len) len = true)
    (hregion : ∀ addr, region c addr = some ⟨addr.toNat, (pgRound len).toNat⟩)
    {ret : Except Err Word} (hret : ∀ addr, ret = .ok addr → addr = ummGetMapPos p s - pgRound len)
    (changes : List Change) :
    Takes p s c ⟨ret, { s with mmapLen := s.mmapLen + pgRound len }, changes⟩ := by
  obtain ⟨haddr, hsum, hfit, _⟩ := chosenAt hs h hacc
  constructor
  · show s.mmapLen.toNat ≤ (s.mmapLen + pgRound len).toNat
    omega
  · intro addr r hok hr
    obtain rfl := hret addr hok
    obtain rfl := Option.some.inj ((hregion _).symm.trans hr)
    refine ⟨?_, Nat.le_of_eq haddr⟩
    show p.mmapBase.toNat + 0x200000000 - (s.mmapLen + pgRound len).toNat ≤
      (ummGetMapPos p s - pgRound len).toNat
    omega

/-- The end of a call that maps `len` bytes. -/
theorem mapped_cases (ans : Answers) (addr len : Word) (adjust : Bool) (perm : Perm)
    (failed : List Change) :
    (∃ e changes, mapped s addr len adjust (mapHostAndGuest p ans addr len perm failed) =
      ⟨.error e, s, changes⟩) ∨
    hostAccepts addr len = true ∧ ∃ changes,
      mapped s addr len adjust (mapHostAndGuest p ans addr len perm failed) =
        ⟨.ok addr, if adjust then { s with mmapLen := s.mmapLen + pgRound len } else s,
          changes⟩ := by
  unfold mapHostAndGuest
  split
  · next hhost =>
    have hacc : hostAccepts addr len = true := (Bool.and_eq_true _ _ ▸ hhost).2
    dsimp only
    split
    · exact .inr ⟨hacc, _, rfl⟩
    · exact .inl ⟨_, _, rfl⟩
  · exact .inl ⟨_, _, rfl⟩

/-- A mapping at an address that is given or chosen by `umm_mmap` or `umm_shmat`. -/
theorem takes_mapped (hs : s.Ok) {c : Call} {hint len addr : Word} {adjust : Bool}
    (hplace : ummPlace p s hint len = .ok (addr, adjust))
    (hregion : ∀ a, region c a =
      if hint = 0#64 then some ⟨a.toNat, (pgRound len).toNat⟩ else none)
    (ans : Answers) (perm : Perm) (failed : List Change) :
    Takes p s c (mapped s addr len adjust (mapHostAndGuest p ans addr len perm failed)) := by
  obtain ⟨e, changes, heq⟩ | ⟨hacc, changes, heq⟩ :=
    @mapped_cases p s ans addr len adjust perm failed
  · rw [heq]
    exact takes_error c e changes
  · rw [heq]
    unfold ummPlace at hplace
    split at hplace
    · next hzero =>
      split at hplace
      · cases hplace
      · next hspace =>
        obtain ⟨rfl, rfl⟩ := Prod.mk.inj (Except.ok.inj hplace)
        refine takes_chosen hs (by simpa using hspace) hacc (fun a => ?_) (fun _ h => ?_) changes
        · rw [hregion, if_pos hzero]
        · exact (Except.ok.inj h).symm
    · next hzero =>
      split at hplace
      · cases hplace
      · obtain ⟨rfl, rfl⟩ := Prod.mk.inj (Except.ok.inj hplace)
        exact takes_none rfl fun a => by rw [hregion, if_neg hzero]

theorem takes_mmap (hs : s.Ok) (ans : Answers) (addr len prot flags : Word) (fd : Int) :
    Takes p s (.mmap addr len prot flags fd) (ummMmap p s ans addr len prot flags fd) := by
  unfold ummMmap
  split
  · exact takes_error _ _ _
  · next hplace =>
    split
    · exact takes_mapped hs hplace (fun _ => rfl) _ _ _
    · split
      · exact takes_mapped hs hplace (fun _ => rfl) _ _ _
      · exact takes_error _ _ _

theorem takes_shmat (hs : s.Ok) (ans : Answers) (addr : Word) (segsz : Option Word)
    (rdonly : Bool) :
    Takes p s (.shmat addr segsz rdonly) (ummShmat p s ans addr segsz rdonly) := by
  unfold ummShmat
  split
  · exact takes_error _ _ _
  · split
    · exact takes_error _ _ _
    · next hplace => exact takes_mapped hs hplace (fun _ => rfl) _ _ _

theorem takes_mremap (hs : s.Ok) (ans : Answers) (old oldSize newSize flags new : Word) :
    Takes p s (.mremap old oldSize newSize flags new)
      (ummMremap p s ans old oldSize newSize flags new) := by
  unfold ummMremap
  split
  · exact takes_error _ _ _
  · split
    · exact takes_error _ _ _
    · next new' adjust hplace =>
      split
      · exact takes_error _ _ _
      · split
        · next hhost =>
          simp only [Bool.and_eq_true] at hhost
          unfold mremapPlace at hplace
          split at hplace
          · next hfixed =>
            split at hplace
            · cases hplace
            · obtain ⟨rfl, rfl⟩ := Prod.mk.inj (Except.ok.inj hplace)
              exact takes_none rfl fun a => if_pos hfixed
          · next hfixed =>
            split at hplace
            · cases hplace
            · next hspace =>
              obtain ⟨rfl, rfl⟩ := Prod.mk.inj (Except.ok.inj hplace)
              have hregion (a : Word) : region (.mremap old oldSize newSize flags new) a =
                  some ⟨a.toNat, (pgRound newSize).toNat⟩ := if_neg hfixed
              refine takes_chosen hs (by simpa using hspace) hhost.1.2 hregion (fun a h => ?_) _
              split at h
              · exact (Except.ok.inj h).symm
              · cases h
        · exact takes_error _ _ _

theorem takes_allocStack (hs : s.Ok) (ans : Answers) :
    Takes p s .allocStack (ummAllocStack p s ans) := by
  simp only [ummAllocStack, pgAddr_eq (mapPos_aligned (p := p) hs)]
  split
  · exact takes_error _ _ _
  · next hspace =>
    have hsize := toNat_appStackSize
    have hleft := room_of_spaceLeft hs (by simpa using hspace) (by omega)
    have hpos := toNat_mapPos (p := p) hs
    have huser := p.base_user
    split
    · have hlen : (appStackSize - 0x1000#64).toNat = 0x7ff000 := by decide
      have haddr : (ummGetMapPos p s - appStackSize + 0x1000#64).toNat =
          (ummGetMapPos p s).toNat - 0x7ff000 := by
        rw [BitVec.toNat_add, BitVec.toNat_sub, hsize]
        have hpage : (0x1000#64).toNat = 0x1000 := by decide
        omega
      have hsum : (s.mmapLen + (appStackSize + pgOff (ummGetMapPos p s))).toNat =
          s.mmapLen.toNat + 0x800000 := by
        have hoff := toNat_pgOff (ummGetMapPos p s)
        have halign := mapPos_aligned (p := p) hs
        rw [BitVec.toNat_add, BitVec.toNat_add]
        omega
      constructor
      · show s.mmapLen.toNat ≤ (s.mmapLen + (appStackSize + pgOff (ummGetMapPos p s))).toNat
        omega
      · intro addr r hok hr
        obtain rfl := Except.ok.inj hok
        obtain rfl := Option.some.inj hr
        refine ⟨?_, ?_⟩
        · show _ - (s.mmapLen + (appStackSize + pgOff (ummGetMapPos p s))).toNat ≤
            (ummGetMapPos p s - appStackSize + 0x1000#64).toNat
          omega
        · show (ummGetMapPos p s - appStackSize + 0x1000#64).toNat +
            (appStackSize - 0x1000#64).toNat ≤ _
          omega
    · exact takes_error _ _ _

theorem takes_brk (ans : Answers) (brk : Word) :
    Takes p s (.brk brk) (ummBrk p s ans brk) := by
  refine takes_none ?_ fun _ => rfl
  unfold ummBrk
  dsimp only
  split
  · rfl
  · split
    · rfl
    · split
      · rfl
      · split
        · rfl
        · split
          · split <;> rfl
          · split <;> rfl

/-- Every call takes what it maps from below the mappings. -/
theorem takes_run (hs : s.Ok) (ans : Answers) (c : Call) : Takes p s c (run p s ans c) := by
  match c with
  | .brk b => exact takes_brk ans b
  | .mmap addr len prot flags fd => exact takes_mmap hs ans addr len prot flags fd
  | .munmap addr len =>
    refine takes_none ?_ fun _ => rfl
    simp only [run, ummMunmap]
    split
    · rfl
    · split
      · rfl
      · split <;> rfl
  | .mprotect addr len prot =>
    refine takes_none ?_ fun _ => rfl
    simp only [run, ummMprotect]
    split
    · rfl
    · split
      · split
        · rfl
        · split <;> rfl
      · rfl
  | .shmat addr segsz rdonly => exact takes_shmat hs ans addr segsz rdonly
  | .mremap old oldSize newSize flags new => exact takes_mremap hs ans old oldSize newSize flags new
  | .allocStack => exact takes_allocStack hs ans

/-! ## Runs -/

/-- The regions are disjoint, and all of them are in what the library has counted. -/
structure Mapped.Inv (p : Process) (s : Mapped) : Prop where
  ok : s.umm.Ok
  regions : s.regions.Pairwise Region.Disjoint
  inside : ∀ r ∈ s.regions, Above p ⟨0#64, 0#64⟩ s.umm r

theorem Above.disjoint {s₀ s₁ s₂ : Umm} {r r' : Region} (hr : Above p s₁ s₂ r)
    (hr' : Above p s₀ s₁ r') : r.Disjoint r' := by
  intro a ha ha'
  have := hr.2
  have := hr'.1
  have := ha.2
  have := ha'.1
  omega

theorem Above.mono {s₀ s₁ s₂ : Umm} {r : Region} (hr : Above p s₀ s₁ r)
    (h : s₁.mmapLen.toNat ≤ s₂.mmapLen.toNat) : Above p s₀ s₂ r :=
  ⟨Nat.le_trans (Nat.sub_le_sub_left h _) hr.1, hr.2⟩

theorem Mapped.Inv.step {s s' : Mapped} (hinv : s.Inv p) {l : Call × Answers}
    (hstep : (regionSystem p).step s l = some s') : s'.Inv p := by
  obtain rfl := Option.some.inj hstep
  have htakes := takes_run (p := p) hinv.ok l.2 l.1
  have hold (r : Region) (hr : r ∈ s.regions) :
      Above p ⟨0#64, 0#64⟩ (run p s.umm l.2 l.1).umm r := (hinv.inside r hr).mono htakes.grows
  refine ⟨ok_run hinv.ok l.2 l.1, ?_, ?_⟩
  · show (addRegion l.1 _ s.regions).Pairwise _
    unfold addRegion
    split
    · next addr hret =>
      cases hr : region l.1 addr with
      | none => exact hinv.regions
      | some r =>
        refine List.pairwise_cons.mpr ⟨fun r' hr' => ?_, hinv.regions⟩
        exact (htakes.above addr r hret hr).disjoint (hinv.inside r' hr')
    · exact hinv.regions
  · show ∀ r ∈ addRegion l.1 _ s.regions, _
    unfold addRegion
    split
    · next addr hret =>
      cases hr : region l.1 addr with
      | none => exact hold
      | some r =>
        intro r' hr'
        obtain rfl | hr' := List.mem_cons.mp hr'
        · have habove := htakes.above addr r' hret hr
          exact ⟨habove.1, Nat.le_trans habove.2 (Nat.sub_le _ _)⟩
        · exact hold r' hr'
    · exact hold

theorem Mapped.Inv.of_reachable {s : Mapped} (h : (regionSystem p).Reachable s) : s.Inv p := by
  refine System.invariant ?_ (fun s l s' hinv hstep => hinv.step hstep) h
  rintro _ rfl
  exact ⟨⟨by decide, by decide, by decide⟩, List.Pairwise.nil, fun _ h => absurd h List.not_mem_nil⟩

/-- The heap ends where the mappings begin, or before. -/
theorem Mapped.Inv.apart {s : Mapped} (hinv : s.Inv p) :
    (s.umm.heap p :: s.regions).Pairwise Region.Disjoint := by
  refine List.pairwise_cons.mpr ⟨fun r hr a ha ha' => ?_, hinv.regions⟩
  have hroom := hinv.ok.room
  have hlow := (hinv.inside r hr).1
  have hend : a < p.mmapBase.toNat + s.umm.brkLen.toNat := ha.2
  have := ha'.1
  omega

/-- **Regions never collide**: after any sequence of calls, whatever the host answers,
    the heap and all regions whose addresses the library has chosen are in the upper
    window, and no two of them have an address in common. -/
theorem regions_apart (p : Process) (s : Mapped) (h : (regionSystem p).Reachable s) :
    (s.umm.heap p :: s.regions).Pairwise Region.Disjoint ∧
      ∀ r ∈ s.umm.heap p :: s.regions, r.InWindow p := by
  have hinv := Mapped.Inv.of_reachable h
  have hroom := hinv.ok.room
  have huser := p.base_user
  refine ⟨hinv.apart, ?_⟩
  intro r hr
  obtain rfl | hr := List.mem_cons.mp hr
  · refine ⟨Nat.le_refl _, ?_⟩
    show p.mmapBase.toNat + s.umm.brkLen.toNat ≤ _
    omega
  · obtain ⟨hlow, hhigh⟩ := hinv.inside r hr
    exact ⟨by omega, Nat.le_trans hhigh (Nat.sub_le _ _)⟩

/-- A stack, a heap of two pages and a mapping of one byte. -/
theorem regions_apart_usual :
    ∃ s, (regionSystem usual).Reachable s ∧
      s = ⟨⟨0x2000#64, 0x801000#64⟩,
        [⟨0x7f01ff7ff000, 0x1000⟩, ⟨0x7f01ff801000, 0x7ff000⟩]⟩ ∧
      (s.umm.heap usual :: s.regions).Pairwise Region.Disjoint := by
  have hreach : (regionSystem usual).Reachable ⟨⟨0x2000#64, 0x801000#64⟩,
      [⟨0x7f01ff7ff000, 0x1000⟩, ⟨0x7f01ff801000, 0x7ff000⟩]⟩ :=
    @System.reachable_of_exec _ _ _ _ _ [(.allocStack, ⟨true, true, true⟩),
      (.brk 0x7f0000001fff#64, ⟨true, true, true⟩),
      (.mmap 0#64 1#64 1#64 mapAnonymous 0, ⟨true, true, true⟩)] rfl (by decide +kernel)
  exact ⟨_, hreach, rfl, (regions_apart usual _ hreach).1⟩

end Sandbox
