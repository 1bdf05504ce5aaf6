import Libdbos.Sandbox.Umm

/-! # Confinement of the Sandboxed Program

    If `mem_ref_is_safe` accepts a range, all its bytes are in the two windows
    of the program if and only if its end does not wrap around, and a memory call
    changes no mapping outside them (`calls_confined`) unless

    * `umm_mprotect` or `umm_mremap` is called on no bytes at address 0, which
      makes the walk of the guest page table run over all addresses;
    * the first `munmap` of `umm_munmap` fails, and the length, rounded up to
      2 MB after the check, leads out of the windows.

    A call never places a mapping of its own outside, since `brk_len` and
    `mmap_len` keep the two ends of the upper window apart (`Umm.Ok`).
-/

open LTS

namespace Sandbox

open Dune

/-! ## Arithmetic of pages -/

theorem toNat_pgAddr (w : Word) : (pgAddr w).toNat = w.toNat / 4096 * 4096 :=
  Word.toNat_clear_low w 12

theorem toNat_pgRound {len : Word} (h : len.toNat ≤ 2 ^ 47) :
    (pgRound len).toNat = (len.toNat + 4095) / 4096 * 4096 := by
  have hsum : (len + 0x1000#64 - 1#64).toNat = len.toNat + 4095 := by bv_omega
  rw [pgRound, toNat_pgAddr, hsum]

theorem pgRound_mod (len : Word) : (pgRound len).toNat % 4096 = 0 := by
  rw [pgRound, toNat_pgAddr]
  omega

/-! ## The check -/

variable {p : Process}

variable {addr len : Word}

theorem Process.base_aligned (p : Process) : p.mmapBase.toNat % 2 ^ 30 = 0 := p.aligned

theorem Process.base_user (p : Process) : p.mmapBase.toNat + 2 ^ 33 < 2 ^ 47 := p.user

/-- The `len` bytes from `addr` on are in the windows, in one of them or, if they overlap, in
    both together. -/
def Process.Holds (p : Process) (addr len : Nat) : Prop :=
  addr + len ≤ 0x70000000 ∨
    (p.mmapBase.toNat ≤ addr ∨ p.mmapBase.toNat ≤ 0x70000000) ∧
      addr + len ≤ p.mmapBase.toNat + 0x200000000

theorem Process.inWindows_iff {a : Nat} : p.inWindows a = true ↔
    a < 0x70000000 ∨ p.mmapBase.toNat ≤ a ∧ a < p.mmapBase.toNat + 0x200000000 := by
  simp [Process.inWindows]

/-- What the check has compared. -/
theorem safe_cases {ptr : Word} (h : memRefIsSafe p ptr len = true) :
    (len.toNat ≤ 0x70000000 ∧ (ptr + len).toNat ≤ 0x70000000) ∨
    (len.toNat ≤ 0x200000000 ∧ p.mmapBase.toNat ≤ ptr.toNat ∧
      (ptr + len).toNat < p.mmapBase.toNat + 0x200000000) := by
  have hbase := p.base_user
  have hend : (p.mmapBase + appMmapLen).toNat = p.mmapBase.toNat + 0x200000000 := by
    rw [BitVec.toNat_add]
    exact Nat.mod_eq_of_lt (by have : appMmapLen.toNat = 0x200000000 := by decide
                               omega)
  simp only [memRefIsSafe] at h
  split at h
  · rename_i hlow
    exact .inl ⟨hlow.1, hlow.2.2⟩
  · split at h
    · rename_i hup
      refine .inr ⟨hup.1, hup.2.1, ?_⟩
      have hlt := BitVec.lt_def.mp hup.2.2
      rwa [hend] at hlt
    · cases h

/-- A range that is accepted and does not wrap around is in a window. -/
theorem holds_of_safe {ptr : Word} (h : memRefIsSafe p ptr len = true)
    (hwrap : ptr.toNat + len.toNat < 2 ^ 64) : p.Holds ptr.toNat len.toNat := by
  have hsum : (ptr + len).toNat = ptr.toNat + len.toNat := by
    rw [BitVec.toNat_add]
    exact Nat.mod_eq_of_lt hwrap
  rcases safe_cases h with ⟨_, hend⟩ | ⟨_, hbegin, hend⟩
  · rw [hsum] at hend
    exact .inl hend
  · rw [hsum] at hend
    exact .inr ⟨.inl hbegin, Nat.le_of_lt hend⟩

/-- Where a range that is accepted wraps around, its first byte is in no window. -/
theorem bytes_inWindows_iff {ptr : Word} (h : memRefIsSafe p ptr len = true) :
    (∀ i < len.toNat, p.inWindows (ptr + BitVec.ofNat 64 i).toNat = true) ↔
      ptr.toNat + len.toNat < 2 ^ 64 := by
  have huser := p.base_user
  have hptr := ptr.isLt
  constructor
  · intro hall
    by_contra hwrap
    have hfirst := hall 0 (by omega)
    rw [BitVec.add_zero, Process.inWindows_iff] at hfirst
    rcases safe_cases h with ⟨hlen, _⟩ | ⟨hlen, _⟩ <;> omega
  · intro hwrap i hi
    have hsum : (ptr + BitVec.ofNat 64 i).toNat = ptr.toNat + i := by
      rw [BitVec.toNat_add, BitVec.toNat_ofNat]
      omega
    have hin := holds_of_safe h hwrap
    rw [hsum, Process.inWindows_iff]
    unfold Process.Holds at hin
    omega

/-! ## The walk of the guest page table -/

/-- The walk of `Dune.vmPageWalk` changes no leaf that the model of the sandbox does not let it
    meet. -/
theorem leafOf_of_not_guestMeets {σ : Type} {cb : Callback σ} {f : Nat → Word → Word}
    (h : Rewrites cb f)
    (hkind : ∀ k w c, shape.kind k w = .leaf → shape.kind k (f k w) ≠ .table c) {root : Nat}
    {vm : Vm σ} (htree : Radix.Tree shape vm.mem 3 root) {va : Word}
    (hrange : WalkRange va.toNat (va + len - 1#64).toNat) {level : Nat → Nat} {a : Nat}
    (hblock : SameBlock (va.toNat / 4096) (a / 4096))
    (hlevel : ∀ k w, leafOf vm.mem root (a / 4096) = some (k, w) → level a = k)
    (hout : guestMeets level va len a = false) :
    leafOf (vmPageWalk cb root va.toNat (va + len - 1#64).toNat vm).1.mem root (a / 4096) =
      leafOf vm.mem root (a / 4096) := by
  rw [(h.walk hkind htree hrange).2.1 _ hblock]
  cases hleaf : leafOf vm.mem root (a / 4096) with
  | none => rfl
  | some kw =>
    rw [guestMeets, hlevel _ _ hleaf] at hout
    rw [rewritten, if_neg (by rw [hout]; exact Bool.false_ne_true)]

theorem toNat_lastByte (va len : Word) :
    (va + len - 1#64).toNat = (va.toNat + len.toNat + (2 ^ 64 - 1)) % 2 ^ 64 := by
  rw [BitVec.toNat_sub, BitVec.toNat_add, show (1#64 : Word).toNat = 1 from rfl]
  omega

/-- A walk over a range in a window whose bounds are whole blocks stays
    there. An empty range may begin anywhere but at address 0. -/
theorem guestMeets_window {level : Nat → Nat} {va : Word} {a low high : Nat}
    (h : guestMeets level va len a = true) (hlevel : level a ≤ 1) (hlow : low % 2 ^ 21 = 0)
    (hhigh : high % 2 ^ 21 = 0) (huser : high ≤ 2 ^ 47) (hva : low ≤ va.toNat)
    (hend : va.toNat + len.toNat ≤ high) (hpos : 0 < va.toNat + len.toNat) :
    low ≤ a ∧ a < high := by
  have hlast : (va + len - 1#64).toNat = va.toNat + len.toNat - 1 := by
    rw [toNat_lastByte]
    omega
  rw [guestMeets, leafMeets, hlast, Bool.and_eq_true, decide_eq_true_eq, decide_eq_true_eq] at h
  have hcases : level a = 0 ∨ level a = 1 := by omega
  rcases hcases with hk | hk <;> rw [hk, unitOf, span] at h <;> omega

/-- The whole table is walked for the empty range at address 0. -/
theorem guestMeets_zero (level : Nat → Nat) {a : Nat} (ha : a < 2 ^ 64) :
    guestMeets level 0#64 0#64 a = true := by
  have hunit := unitOf_le (level a) (a / 4096)
  have hspan := span_pos (level a)
  rw [guestMeets, leafMeets, Bool.and_eq_true, decide_eq_true_eq, decide_eq_true_eq]
  have hlast : (0#64 + 0#64 - 1#64 : Word).toNat = 2 ^ 64 - 1 := by decide
  have hfirst : (0#64 : Word).toNat = 0 := by decide
  omega

/-! ## Changes in the windows -/

/-- A change whose range is in a window; the host works on whole pages, and
    an empty range of the guest page table must not begin at address 0. -/
def Change.Fits (p : Process) : Change → Prop
  | .host addr len => p.Holds addr.toNat len.toNat ∧ addr.toNat % 4096 = 0
  | .mapPhys va len _ _ | .unmap va len | .mprotect va len _ =>
      p.Holds va.toNat len.toNat ∧ 0 < va.toNat + len.toNat

theorem guestMeets_inWindows {level : Nat → Nat} {va : Word} {a : Nat}
    (h : guestMeets level va len a = true) (hlevel : level a ≤ 1)
    (hin : p.Holds va.toNat len.toNat) (hpos : 0 < va.toNat + len.toNat) :
    p.inWindows a = true := by
  have haligned := p.base_aligned
  have huser := p.base_user
  rw [Process.inWindows_iff]
  rcases hin with hend | ⟨hbegin | hoverlap, hend⟩
  · exact .inl (guestMeets_window h hlevel (Nat.zero_mod _) (by decide) (by decide)
      (Nat.zero_le _) hend hpos).2
  · exact .inr (guestMeets_window h hlevel (by omega) (by omega) (by omega) hbegin hend hpos)
  · have hwindow : 0 ≤ a ∧ a < p.mmapBase.toNat + 0x200000000 :=
      guestMeets_window h hlevel (Nat.zero_mod _) (by omega) (by omega) (Nat.zero_le _) hend hpos
    omega

/-- A change whose range is in the windows affects nothing outside. -/
theorem Change.Fits.inWindows {c : Change} (h : c.Fits p) {level : Nat → Nat} {a : Nat}
    (hlevel : level a ≤ 1) (ha : c.affects level a = true) : p.inWindows a = true := by
  have haligned := p.base_aligned
  cases c with
  | host addr len =>
    simp only [Change.affects, decide_eq_true_eq] at ha
    rw [Process.inWindows_iff]
    obtain ⟨hin, hpage⟩ := h
    unfold Process.Holds at hin
    omega
  | mapPhys va len pa perm | unmap va len | mprotect va len perm =>
    exact guestMeets_inWindows ha hlevel h.1 h.2

/-! ## System calls -/

theorem inUserSpace_iff : inUserSpace addr len = true ↔
    addr.toNat % 4096 = 0 ∧
      addr.toNat + (len.toNat + 4095) / 4096 * 4096 ≤ 0x7ffffffff000 := by
  simp [inUserSpace]

theorem hostAccepts_iff : hostAccepts addr len = true ↔
    (addr.toNat % 4096 = 0 ∧ addr.toNat + (len.toNat + 4095) / 4096 * 4096 ≤ 0x7ffffffff000) ∧
      0 < len.toNat := by
  have hne : len ≠ 0#64 ↔ 0 < len.toNat := by
    rw [Nat.pos_iff_ne_zero, ne_eq, ne_eq, BitVec.toNat_eq]
    rfl
  rw [hostAccepts, Bool.and_eq_true, inUserSpace_iff, bne_iff_ne, hne]

/-- What the host accepts does not wrap around. -/
theorem holds_of_accepts (hsafe : memRefIsSafe p addr len = true)
    (h : hostAccepts addr len = true) : p.Holds addr.toNat len.toNat := by
  obtain ⟨⟨_, hend⟩, _⟩ := hostAccepts_iff.mp h
  exact holds_of_safe hsafe (by omega)

/-- All changes fit. -/
def AllFit (p : Process) (cs : List Change) : Prop := ∀ c ∈ cs, c.Fits p

theorem allFit_nil : AllFit p [] := fun _ h => by cases h

theorem AllFit.append {cs ds : List Change} (hc : AllFit p cs) (hd : AllFit p ds) :
    AllFit p (cs ++ ds) := fun c h =>
  (List.mem_append.mp h).elim (hc c) (hd c)

theorem AllFit.cons {c : Change} {cs : List Change} (hc : c.Fits p) (hcs : AllFit p cs) :
    AllFit p (c :: cs) := fun d h =>
  (List.mem_cons.mp h).elim (fun heq => heq ▸ hc) (hcs d)

theorem fits_host (h : hostAccepts addr len = true) (hin : p.Holds addr.toNat len.toNat) :
    (Change.host addr len).Fits p :=
  ⟨hin, (hostAccepts_iff.mp h).1.1⟩

theorem allFit_attempt (hin : hostAccepts addr len = true → p.Holds addr.toNat len.toNat) :
    AllFit p (attempt addr len) := by
  unfold attempt
  split
  · rename_i h
    exact .cons (fits_host h (hin h)) allFit_nil
  · exact allFit_nil

/-- A guest range that the host has accepted is not empty. -/
theorem guest_pos (h : hostAccepts addr len = true) :
    0 < addr.toNat + len.toNat :=
  Nat.add_pos_right _ (hostAccepts_iff.mp h).2

/-- A new mapping keeps to its range, and succeeds only if the host accepts it. -/
theorem map_fits (ans : Answers) (perm : Perm) {failed : List Change}
    (hin : hostAccepts addr len = true → p.Holds addr.toNat len.toNat)
    (hfailed : AllFit p failed) :
    AllFit p (mapHostAndGuest p ans addr len perm failed).2 ∧
    ((mapHostAndGuest p ans addr len perm failed).1 = .ok () → hostAccepts addr len = true) := by
  unfold mapHostAndGuest
  split
  · rename_i hhost
    have hacc : hostAccepts addr len = true := (Bool.and_eq_true _ _ ▸ hhost).2
    have hdone : AllFit p [.host addr len, .mapPhys addr len (vaToPa p.layout addr) perm] :=
      .cons (fits_host hacc (hin hacc)) (.cons ⟨hin hacc, guest_pos hacc⟩ allFit_nil)
    refine ⟨?_, fun _ => hacc⟩
    dsimp only
    split
    · exact hdone
    · exact hdone.append (.cons (fits_host hacc (hin hacc)) allFit_nil)
  · exact ⟨hfailed, fun h => by cases h⟩

/-! ## Places that a call chooses -/

/-- The heap grows up and the mappings grow down in the upper window, in
    whole pages, and they do not meet. -/
structure Umm.Ok (s : Umm) : Prop where
  brk : s.brkLen.toNat % 4096 = 0
  mmap : s.mmapLen.toNat % 4096 = 0
  room : s.brkLen.toNat + s.mmapLen.toNat ≤ 0x200000000

variable {s : Umm}

/-- The sum in `umm_space_left` wraps around for lengths only that no host accepts. -/
theorem room_of_spaceLeft (hs : s.Ok) (h : ummSpaceLeft s len = true)
    (hlen : len.toNat ≤ 2 ^ 47) :
    s.brkLen.toNat + s.mmapLen.toNat + len.toNat < 0x200000000 := by
  have hroom := hs.room
  have hlt := BitVec.lt_def.mp (of_decide_eq_true h)
  have hval : appMmapLen.toNat = 0x200000000 := by decide
  rw [hval, BitVec.toNat_add, BitVec.toNat_add] at hlt
  omega

theorem len_le_of_accepts (h : hostAccepts addr len = true) :
    len.toNat ≤ 2 ^ 47 := by
  obtain ⟨⟨_, hend⟩, _⟩ := hostAccepts_iff.mp h
  omega

theorem toNat_mapPos (hs : s.Ok) :
    (ummGetMapPos p s).toNat = p.mmapBase.toNat + 0x200000000 - s.mmapLen.toNat := by
  have hroom := hs.room
  have huser := p.base_user
  have hval : appMmapBaseOff.toNat = 0x200000000 := by decide
  have hsum : (p.mmapBase + appMmapBaseOff).toNat = p.mmapBase.toNat + 0x200000000 := by
    rw [BitVec.toNat_add, hval]
    omega
  rw [ummGetMapPos, BitVec.toNat_sub, hsum]
  omega

/-- The place of a new mapping in numbers: it ends where the mappings begin, and
    they begin with it afterwards. -/
structure ChosenAt (p : Process) (s : Umm) (len : Word) : Prop where
  addr : (ummGetMapPos p s - pgRound len).toNat + (pgRound len).toNat =
    p.mmapBase.toNat + 0x200000000 - s.mmapLen.toNat
  sum : (s.mmapLen + pgRound len).toNat = s.mmapLen.toNat + (pgRound len).toNat
  fits : s.brkLen.toNat + s.mmapLen.toNat + (pgRound len).toNat ≤ 0x200000000
  le : len.toNat ≤ (pgRound len).toNat

theorem chosenAt (hs : s.Ok) (h : ummSpaceLeft s len = true)
    (hacc : hostAccepts (ummGetMapPos p s - pgRound len) len = true) : ChosenAt p s len := by
  have hlen := len_le_of_accepts hacc
  have hroom := room_of_spaceLeft hs h hlen
  have hround := toNat_pgRound hlen
  have huser := p.base_user
  have hpos := toNat_mapPos (p := p) hs
  obtain ⟨hbrk, hmmap, _⟩ := hs
  -- The room is a number of whole pages, so the rounded length fits as well.
  have hfit : s.brkLen.toNat + s.mmapLen.toNat + (pgRound len).toNat ≤ 0x200000000 := by
    rw [hround]
    omega
  refine ⟨?_, ?_, hfit, by omega⟩
  · rw [BitVec.toNat_sub, hpos]
    omega
  · rw [BitVec.toNat_add]
    omega

/-- Where a new mapping goes, and that there is room for it. -/
theorem place_chosen (hs : s.Ok) (h : ummSpaceLeft s len = true)
    (hacc : hostAccepts (ummGetMapPos p s - pgRound len) len = true) :
    p.Holds (ummGetMapPos p s - pgRound len).toNat len.toNat ∧
    ({ s with mmapLen := s.mmapLen + pgRound len } : Umm).Ok := by
  obtain ⟨haddr, hsum, hfit, hle⟩ := chosenAt hs h hacc
  obtain ⟨hbrk, hmmap, _⟩ := hs
  refine ⟨.inr (by omega), hbrk, ?_, ?_⟩
  · show (s.mmapLen + pgRound len).toNat % 4096 = 0
    have hmod := pgRound_mod len
    omega
  · show s.brkLen.toNat + (s.mmapLen + pgRound len).toNat ≤ 0x200000000
    omega

/-- The address that a call chooses is a whole page. -/
theorem chosen_aligned (hs : s.Ok) (len : Word) :
    (ummGetMapPos p s - pgRound len).toNat % 4096 = 0 := by
  have hpos := toNat_mapPos (p := p) hs
  have hround := pgRound_mod len
  have hbase := p.base_aligned
  have hmmap := hs.mmap
  rw [BitVec.toNat_sub, hpos]
  omega

/-- A range in a window stays there when its address is rounded down. -/
theorem holds_pgAddr (hsafe : memRefIsSafe p addr len = true)
    (h : hostAccepts (pgAddr addr) len = true) : p.Holds (pgAddr addr).toNat len.toNat := by
  have hbase := p.base_aligned
  obtain ⟨⟨_, hend⟩, _⟩ := hostAccepts_iff.mp h
  rw [toNat_pgAddr] at hend ⊢
  rcases holds_of_safe hsafe (by omega) with h | h
  · exact .inl (by omega)
  · exact .inr (by omega)

/-- A place for `len` bytes: if the host takes it, it is in a window, and
    there is room for it if the call has chosen it. -/
structure Placed (p : Process) (s : Umm) (addr len : Word) (adjust : Bool) : Prop where
  inside : hostAccepts addr len = true → p.Holds addr.toNat len.toNat
  rounded : hostAccepts (pgAddr addr) len = true → p.Holds (pgAddr addr).toNat len.toNat
  room : hostAccepts addr len = true → adjust = true →
    ({ s with mmapLen := s.mmapLen + pgRound len } : Umm).Ok

theorem placed_chosen (hs : s.Ok) (h : ummSpaceLeft s len = true) :
    Placed p s (ummGetMapPos p s - pgRound len) len true :=
  ⟨fun hacc => (place_chosen hs h hacc).1,
    by rw [pgAddr_eq (chosen_aligned hs len)]; exact fun hacc => (place_chosen hs h hacc).1,
    fun hacc _ => (place_chosen hs h hacc).2⟩

theorem placed_safe (h : memRefIsSafe p addr len = true) :
    Placed p s addr len false :=
  ⟨holds_of_accepts h, holds_pgAddr h, fun _ hadjust => by cases hadjust⟩

theorem placed_of_ummPlace (hs : s.Ok) {addr' : Word} {adjust : Bool}
    (h : ummPlace p s addr len = .ok (addr', adjust)) :
    Placed p s addr' len adjust := by
  unfold ummPlace at h
  split at h
  · split at h
    · cases h
    · rename_i hspace
      obtain ⟨rfl, rfl⟩ := Prod.mk.inj (Except.ok.inj h)
      exact placed_chosen hs (by simpa using hspace)
  · split at h
    · cases h
    · rename_i hsafe
      obtain ⟨rfl, rfl⟩ := Prod.mk.inj (Except.ok.inj h)
      exact placed_safe (by simpa using hsafe)

theorem placed_of_mremapPlace (hs : s.Ok) {newSize flags new new' : Word} {adjust : Bool}
    (h : mremapPlace p s newSize flags new = .ok (new', adjust)) :
    Placed p s new' newSize adjust := by
  unfold mremapPlace at h
  split at h
  · split at h
    · cases h
    · rename_i hsafe
      obtain ⟨rfl, rfl⟩ := Prod.mk.inj (Except.ok.inj h)
      exact placed_safe (by simpa using hsafe)
  · split at h
    · cases h
    · rename_i hspace
      obtain ⟨rfl, rfl⟩ := Prod.mk.inj (Except.ok.inj h)
      exact placed_chosen hs (by simpa using hspace)

/-! ## The calls one by one -/

/-- A call that keeps the two lengths in order and to the windows. -/
structure Outcome.Good (p : Process) (o : Outcome) : Prop where
  ok : o.umm.Ok
  fit : AllFit p o.changes

theorem good_refused (hs : s.Ok) (e : Except Err Word) : Outcome.Good p ⟨e, s, []⟩ :=
  ⟨hs, allFit_nil⟩

theorem good_mapped (hs : s.Ok) {ans : Answers} {perm : Perm} {failed : List Change}
    {adjust : Bool} (hplace : Placed p s addr len adjust) (hfailed : AllFit p failed) :
    (mapped s addr len adjust (mapHostAndGuest p ans addr len perm failed)).Good p := by
  obtain ⟨hfit, hacc⟩ := map_fits ans perm hplace.inside hfailed
  unfold mapped
  generalize mapHostAndGuest p ans addr len perm failed = r at hfit hacc
  obtain ⟨_ | _, changes⟩ := r
  · exact ⟨hs, hfit⟩
  · refine ⟨?_, hfit⟩
    dsimp only
    split
    · rename_i hadjust
      exact hplace.room (hacc rfl) hadjust
    · exact hs

theorem good_mmap (hs : s.Ok) (ans : Answers) (addr len prot flags : Word) (fd : Int) :
    (ummMmap p s ans addr len prot flags fd).Good p := by
  unfold ummMmap
  split
  · exact good_refused hs _
  · rename_i addr' adjust hplace
    have hplaced := placed_of_ummPlace hs hplace
    have hfailed := allFit_attempt hplaced.inside
    split
    · exact good_mapped hs hplaced hfailed
    · split
      · exact good_mapped hs hplaced hfailed
      · exact good_refused hs _

theorem good_shmat (hs : s.Ok) (ans : Answers) (addr : Word) (segsz : Option Word)
    (rdonly : Bool) : (ummShmat p s ans addr segsz rdonly).Good p := by
  unfold ummShmat
  split
  · exact good_refused hs _
  · rename_i len
    split
    · exact good_refused hs _
    · rename_i addr' adjust hplace
      have hplaced := placed_of_ummPlace hs hplace
      exact good_mapped hs hplaced (allFit_attempt hplaced.rounded)

theorem toNat_pgOff (w : Word) : (pgOff w).toNat = w.toNat % 4096 := by
  rw [pgOff, BitVec.toNat_and]
  exact Nat.and_two_pow_sub_one_eq_mod _ 12

theorem mapPos_aligned (hs : s.Ok) : (ummGetMapPos p s).toNat % 4096 = 0 := by
  have hpos := toNat_mapPos (p := p) hs
  have hbase := p.base_aligned
  have hmmap := hs.mmap
  omega

theorem toNat_appStackSize : appStackSize.toNat = 0x800000 := by decide

section Stack

variable (hs : s.Ok)
  (hleft : s.brkLen.toNat + s.mmapLen.toNat + 0x800000 < 0x200000000)

include hs hleft

/-- The stack is mapped but for its last page. -/
theorem holds_stack : p.Holds (ummGetMapPos p s - appStackSize + 0x1000#64).toNat
    (appStackSize - 0x1000#64).toNat := by
  have hpos := toNat_mapPos (p := p) hs
  have huser := p.base_user
  have hsize := toNat_appStackSize
  have hlen : (appStackSize - 0x1000#64).toNat = 0x7ff000 := by decide
  have haddr : (ummGetMapPos p s - appStackSize + 0x1000#64).toNat =
      (ummGetMapPos p s).toNat - 0x7ff000 := by
    rw [BitVec.toNat_add, BitVec.toNat_sub, hsize]
    have hpage : (0x1000#64).toNat = 0x1000 := by decide
    omega
  unfold Process.Holds
  omega

theorem ok_stack : ({ s with
    mmapLen := s.mmapLen + (appStackSize + pgOff (ummGetMapPos p s)) } : Umm).Ok := by
  have halign := mapPos_aligned (p := p) hs
  have hoff := toNat_pgOff (ummGetMapPos p s)
  have hsize := toNat_appStackSize
  have hsum : (s.mmapLen + (appStackSize + pgOff (ummGetMapPos p s))).toNat =
      s.mmapLen.toNat + 0x800000 := by
    rw [BitVec.toNat_add, BitVec.toNat_add]
    omega
  obtain ⟨hbrk, hmmap, _⟩ := hs
  refine ⟨hbrk, ?_, ?_⟩
  · rw [hsum]
    omega
  · show s.brkLen.toNat + (s.mmapLen + (appStackSize + pgOff (ummGetMapPos p s))).toNat ≤ _
    omega

end Stack

theorem good_allocStack (hs : s.Ok) (ans : Answers) : (ummAllocStack p s ans).Good p := by
  simp only [ummAllocStack, pgAddr_eq (mapPos_aligned (p := p) hs)]
  split
  · exact good_refused hs _
  · rename_i hspace
    have hsize := toNat_appStackSize
    have hleft := room_of_spaceLeft hs (by simpa using hspace) (by omega)
    rw [hsize] at hleft
    have hin := holds_stack (p := p) hs hleft
    obtain ⟨hfit, _⟩ := map_fits ans (protToPerm (protRead ||| protWrite)) (fun _ => hin)
      (allFit_attempt fun _ => hin)
    unfold ummMmapAnom
    generalize mapHostAndGuest p ans (ummGetMapPos p s - appStackSize + 0x1000#64)
      (appStackSize - 0x1000#64) (protToPerm (protRead ||| protWrite))
      (attempt (ummGetMapPos p s - appStackSize + 0x1000#64) (appStackSize - 0x1000#64)) = r
      at hfit
    obtain ⟨_ | _, changes⟩ := r
    · exact ⟨hs, hfit⟩
    · exact ⟨ok_stack hs hleft, hfit⟩

/-- The heap gives pages back. -/
theorem good_brk_shrink (hs : s.Ok) (ans : Answers) (brk : Word) (hmod : len.toNat % 4096 = 0)
    (hlt : len.toNat < s.brkLen.toNat) :
    (if ans.host && hostAccepts (p.mmapBase + len) (s.brkLen - len) then
        (⟨.ok brk, { s with brkLen := len }, [.host (p.mmapBase + len) (s.brkLen - len),
          .unmap (p.mmapBase + len) (s.brkLen - len)]⟩ : Outcome)
      else ⟨.error .errno, s, attempt (p.mmapBase + len) (s.brkLen - len)⟩).Good p := by
  have huser := p.base_user
  obtain ⟨_, hmmap, hroom⟩ := id hs
  have hin : p.Holds (p.mmapBase + len).toNat (s.brkLen - len).toNat := by
    rw [BitVec.toNat_add, BitVec.toNat_sub]
    exact .inr (by omega)
  split
  · rename_i hhost
    have hacc : hostAccepts (p.mmapBase + len) (s.brkLen - len) = true :=
      (Bool.and_eq_true _ _ ▸ hhost).2
    exact ⟨⟨hmod, hmmap, by dsimp only; omega⟩,
      .cons (fits_host hacc hin) (.cons ⟨hin, guest_pos hacc⟩ allFit_nil)⟩
  · exact ⟨hs, allFit_attempt fun _ => hin⟩

/-- The heap grows, and stays below the mappings. -/
theorem good_brk_grow (hs : s.Ok) (ans : Answers) (brk : Word) (hmod : len.toNat % 4096 = 0)
    (hge : s.brkLen.toNat ≤ len.toNat) (hspace : ummSpaceLeft s len = true) :
    (match ummMmapAnom p ans (p.mmapBase + s.brkLen) (len - s.brkLen) (protRead ||| protWrite) with
      | (.ok _, changes) => (⟨.ok brk, { s with brkLen := len }, changes⟩ : Outcome)
      | (.error e, changes) => ⟨.error e, s, changes⟩).Good p := by
  have huser := p.base_user
  obtain ⟨_, hmmap, hroom⟩ := id hs
  have hlen : (len - s.brkLen).toNat = len.toNat - s.brkLen.toNat := by
    rw [BitVec.toNat_sub]
    omega
  have haddr : (p.mmapBase + s.brkLen).toNat = p.mmapBase.toNat + s.brkLen.toNat := by
    rw [BitVec.toNat_add]
    omega
  -- What the host accepts is too short for the sum to wrap around.
  have hleft : hostAccepts (p.mmapBase + s.brkLen) (len - s.brkLen) = true →
      s.brkLen.toNat + s.mmapLen.toNat + len.toNat < 0x200000000 := by
    intro hacc
    obtain ⟨⟨_, hend⟩, _⟩ := hostAccepts_iff.mp hacc
    rw [hlen, haddr] at hend
    exact room_of_spaceLeft hs hspace (by omega)
  have hin : hostAccepts (p.mmapBase + s.brkLen) (len - s.brkLen) = true →
      p.Holds (p.mmapBase + s.brkLen).toNat (len - s.brkLen).toNat := by
    intro hacc
    have hsum := hleft hacc
    rw [hlen, haddr]
    exact .inr (by omega)
  obtain ⟨hfit, hacc⟩ := map_fits ans (protToPerm (protRead ||| protWrite)) hin (allFit_attempt hin)
  unfold ummMmapAnom
  generalize mapHostAndGuest p ans (p.mmapBase + s.brkLen) (len - s.brkLen)
    (protToPerm (protRead ||| protWrite)) (attempt (p.mmapBase + s.brkLen) (len - s.brkLen)) = r
    at hfit hacc
  obtain ⟨_ | _, changes⟩ := r
  · exact ⟨hs, hfit⟩
  · have hsum := hleft (hacc rfl)
    exact ⟨⟨hmod, hmmap, by dsimp only; omega⟩, hfit⟩

theorem good_brk (hs : s.Ok) (ans : Answers) (brk : Word) : (ummBrk p s ans brk).Good p := by
  have hmod := pgRound_mod (brk - p.mmapBase)
  unfold ummBrk
  generalize pgRound (brk - p.mmapBase) = len at hmod
  dsimp only
  split
  · exact good_refused hs _
  · split
    · exact good_refused hs _
    · split
      · exact good_refused hs _
      · rename_i hspace
        split
        · exact good_refused hs _
        · split
          · rename_i hlt
            exact good_brk_shrink hs ans brk hmod (BitVec.lt_def.mp hlt)
          · rename_i hge
            exact good_brk_grow hs ans brk hmod (Nat.le_of_not_lt hge) (by simpa using hspace)

/-! ## Calls on ranges of the program -/

/-- When the three calls that work on mappings the program has keep to the windows: `umm_munmap`
    if it does not get to the second attempt, or the rounded range is in the windows; the others
    if they do not walk the guest page table for an empty range at address 0. -/
def careful (p : Process) (s : Umm) (ans : Answers) : Call → Prop
  | .munmap addr len => memRefIsSafe p addr len = true →
      (ans.host && hostAccepts addr len) = false → hostAccepts addr (bigPgRound len) = true →
      p.Holds addr.toNat (bigPgRound len).toNat
  | .mprotect addr len prot => 0 < addr.toNat + len.toNat ∨
      (protToPerm prot).r = false ∧ (protToPerm prot).w = true
  | .mremap old oldSize newSize flags new => 0 < old.toNat + oldSize.toNat ∨
      Word.has flags mremapMaymove = false ∨ ans.host = false ∨
      ∀ new' adjust, mremapPlace p s newSize flags new = .ok (new', adjust) →
        hostAccepts new' newSize = false
  | _ => True

theorem fit_munmap {ans : Answers} (hc : careful p s ans (.munmap addr len)) :
    AllFit p (ummMunmap p s ans addr len).changes := by
  unfold ummMunmap
  split
  · exact allFit_nil
  · rename_i hsafe
    have hsafe : memRefIsSafe p addr len = true := by simpa using hsafe
    have hfirst := allFit_attempt (holds_of_accepts hsafe)
    split
    · rename_i hhost
      have hacc : hostAccepts addr len = true := (Bool.and_eq_true _ _ ▸ hhost).2
      have hin := holds_of_accepts hsafe hacc
      exact .cons (fits_host hacc hin) (.cons ⟨hin, guest_pos hacc⟩ allFit_nil)
    · rename_i hfail
      have hrounded := hc hsafe (by simpa using hfail)
      split
      · rename_i hhost
        have hacc : hostAccepts addr (bigPgRound len) = true := (Bool.and_eq_true _ _ ▸ hhost).2
        exact hfirst.append (.cons (fits_host hacc (hrounded hacc))
          (.cons ⟨hrounded hacc, guest_pos hacc⟩ allFit_nil))
      · exact hfirst.append (allFit_attempt hrounded)

theorem fit_mprotect {ans : Answers} {prot : Word}
    (hc : careful p s ans (.mprotect addr len prot)) :
    AllFit p (ummMprotect p s ans addr len prot).changes := by
  unfold ummMprotect
  split
  · exact allFit_nil
  · rename_i hsafe
    have hsafe : memRefIsSafe p addr len = true := by simpa using hsafe
    have hfirst := allFit_attempt (holds_of_accepts hsafe)
    split
    · rename_i hhost
      have hin : p.Holds addr.toNat len.toNat := by
        unfold hostProtects at hhost
        split at hhost
        · rename_i hzero
          subst hzero
          exact holds_of_safe hsafe (by simpa using addr.isLt)
        · exact holds_of_accepts hsafe (Bool.and_eq_true _ _ ▸ hhost).2
      have hguest (h : ¬((protToPerm prot).r = false ∧ (protToPerm prot).w = true)) :
          ∀ perm, (Change.mprotect addr len perm).Fits p :=
        fun _ => ⟨hin, hc.resolve_right h⟩
      dsimp only
      split
      next hr => exact hfirst.append (.cons (hguest (by simp [hr]) _) allFit_nil)
      next hr =>
        split
        next => exact hfirst
        next hw => exact hfirst.append (.cons (hguest (by simp [hw]) _) allFit_nil)
    · exact hfirst

theorem fit_mremap (hs : s.Ok) {ans : Answers} {old oldSize newSize flags new : Word}
    (hc : careful p s ans (.mremap old oldSize newSize flags new)) :
    AllFit p (ummMremap p s ans old oldSize newSize flags new).changes := by
  unfold ummMremap
  split
  · exact allFit_nil
  · rename_i hsafe
    have hsafe : memRefIsSafe p old oldSize = true := by simpa using hsafe
    have hold := allFit_attempt (holds_of_accepts hsafe)
    split
    · exact allFit_nil
    · rename_i new' adjust hplace
      have hplaced := placed_of_mremapPlace hs hplace
      split
      · exact allFit_nil
      · rename_i hmove
        split
        · rename_i hhost
          simp only [Bool.and_eq_true] at hhost
          obtain ⟨⟨hans, hacc⟩, huser⟩ := hhost
          have hin := hplaced.inside hacc
          have hpos : 0 < old.toNat + oldSize.toNat := by
            rcases hc with hpos | hstay | hrefused | hnone
            · exact hpos
            · simp [hstay] at hmove
            · simp [hrefused] at hans
            · simp [hnone _ _ hplace] at hacc
          have hold' : p.Holds old.toNat oldSize.toNat := by
            obtain ⟨_, hend⟩ := inUserSpace_iff.mp huser
            exact holds_of_safe hsafe (by omega)
          exact hold.append (.cons (fits_host hacc hin) (.cons ⟨hold', hpos⟩
            (.cons ⟨hin, guest_pos hacc⟩ allFit_nil)))
        · exact hold.append (allFit_attempt hplaced.inside)

/-! ## All calls -/

theorem ok_mremap (hs : s.Ok) (ans : Answers) (old oldSize newSize flags new : Word) :
    (ummMremap p s ans old oldSize newSize flags new).umm.Ok := by
  unfold ummMremap
  split
  · exact hs
  · split
    · exact hs
    · rename_i new' adjust hplace
      have hplaced := placed_of_mremapPlace hs hplace
      split
      · exact hs
      · split
        · rename_i hhost
          simp only [Bool.and_eq_true] at hhost
          dsimp only
          split
          · rename_i hadjust
            exact hplaced.room hhost.1.2 hadjust
          · exact hs
        · exact hs

/-- Every call keeps the heap and the mappings apart. -/
theorem ok_run (hs : s.Ok) (ans : Answers) (c : Call) : (run p s ans c).umm.Ok := by
  cases c with
  | brk b => exact (good_brk hs ans b).ok
  | mmap addr len prot flags fd => exact (good_mmap hs ans addr len prot flags fd).ok
  | munmap addr len =>
    simp only [run, ummMunmap]
    split
    · exact hs
    · split
      · exact hs
      · split <;> exact hs
  | mprotect addr len prot =>
    simp only [run, ummMprotect]
    split
    · exact hs
    · split
      · split
        · exact hs
        · split <;> exact hs
      · exact hs
  | shmat addr segsz rdonly => exact (good_shmat hs ans addr segsz rdonly).ok
  | mremap old oldSize newSize flags new => exact ok_mremap hs ans old oldSize newSize flags new
  | allocStack =>
    rw [run]
    exact (good_allocStack hs ans).ok

/-- Every careful call keeps to the windows. -/
theorem fit_run (hs : s.Ok) {ans : Answers} {c : Call} (hc : careful p s ans c) :
    AllFit p (run p s ans c).changes := by
  cases c with
  | brk b => exact (good_brk hs ans b).fit
  | mmap addr len prot flags fd => exact (good_mmap hs ans addr len prot flags fd).fit
  | munmap addr len => exact fit_munmap hc
  | mprotect addr len prot => exact fit_mprotect hc
  | shmat addr segsz rdonly => exact (good_shmat hs ans addr segsz rdonly).fit
  | mremap old oldSize newSize flags new => exact fit_mremap hs hc
  | allocStack =>
    rw [run]
    exact (good_allocStack hs ans).fit

theorem ok_reachable (h : (system p).Reachable s) : s.Ok := by
  refine System.invariant ?_ ?_ h
  · rintro s rfl
    exact ⟨by decide, by decide, by decide⟩
  · intro s l s' hs hstep
    cases hstep
    exact ok_run hs l.2 l.1

/-- The changes keep to the windows, wherever the guest page table has 2 MB leaves. -/
def Confined (p : Process) (cs : List Change) : Prop :=
  ∀ c ∈ cs, ∀ level : Nat → Nat, (∀ a, level a ≤ 1) → ∀ a < 2 ^ 64, c.affects level a = true →
    p.inWindows a = true

/-- A walk over all addresses leaves the windows. -/
theorem not_confined_zero {cs : List Change} {c : Change} (hc : c ∈ cs)
    (hzero : ∀ level a, c.affects level a = guestMeets level 0#64 0#64 a) : ¬Confined p cs := by
  intro h
  have huser := p.base_user
  have hin := h c hc (fun _ => 0) (fun _ => Nat.zero_le 1) (2 ^ 47) (by decide)
    ((hzero _ _).trans (guestMeets_zero _ (by decide)))
  rw [Process.inWindows_iff] at hin
  omega

theorem careful_of_confined {ans : Answers} {c : Call}
    (h : Confined p (run p s ans c).changes) : careful p s ans c := by
  cases c with
  | munmap addr len =>
    intro hsafe hfail hacc
    obtain ⟨⟨hpage, hend⟩, hpos⟩ := hostAccepts_iff.mp hacc
    have hmem : .host addr (bigPgRound len) ∈ (run p s ans (.munmap addr len)).changes := by
      rw [run, ummMunmap, if_neg (by simp [hsafe]), if_neg (by simp [hfail])]
      split
      · simp
      · simp [attempt, hacc]
    have hall (a : Nat) (hge : addr.toNat ≤ a) (hlt : a < addr.toNat + (bigPgRound len).toNat) :
        a < 0x70000000 ∨ p.mmapBase.toNat ≤ a ∧ a < p.mmapBase.toNat + 0x200000000 :=
      Process.inWindows_iff.mp (h _ hmem (fun _ => 0) (fun _ => Nat.zero_le 1) a (by omega)
        (by simp only [Change.affects, decide_eq_true_eq]; omega))
    -- the last byte and the first byte behind the lower window
    have hlast := hall (addr.toNat + (bigPgRound len).toNat - 1) (by omega) (by omega)
    have hfirst := hall addr.toNat (Nat.le_refl _) (by omega)
    by_cases hbehind : addr.toNat ≤ 0x70000000 ∧
        0x70000000 < addr.toNat + (bigPgRound len).toNat
    · have hgap := hall 0x70000000 hbehind.1 hbehind.2
      unfold Process.Holds
      omega
    · unfold Process.Holds
      omega
  | mprotect addr len prot =>
    by_contra hc
    simp only [careful, not_or, Nat.not_lt] at hc
    obtain ⟨hzero, hperm⟩ := hc
    obtain rfl : addr = 0#64 := by bv_omega
    obtain rfl : len = 0#64 := by bv_omega
    refine absurd h (not_confined_zero
      (c := .mprotect 0#64 0#64 (if (protToPerm prot).r then protToPerm prot
        else ⟨false, false, false, false⟩)) ?_ fun _ _ => rfl)
    rw [run, ummMprotect, if_neg (by simp [memRefIsSafe, appMaxElfVaddr]),
      if_pos (by simp [hostProtects])]
    dsimp only
    split
    next => simp
    next hr =>
      rw [if_neg (by simpa [hr] using hperm)]
      simp
  | mremap old oldSize newSize flags new =>
    by_contra hc
    simp only [careful, not_or, Nat.not_lt, not_forall, Bool.not_eq_false] at hc
    obtain ⟨hzero, hmove, hans, new', adjust, hplace, hacc⟩ := hc
    obtain rfl : old = 0#64 := by bv_omega
    obtain rfl : oldSize = 0#64 := by bv_omega
    refine absurd h (not_confined_zero (c := .unmap 0#64 0#64) ?_ fun _ _ => rfl)
    rw [run, ummMremap, if_neg (by simp [memRefIsSafe, appMaxElfVaddr]), hplace]
    simp [hmove, hans, hacc, inUserSpace]
  | _ => trivial

/-- **The reference check confines the program**: the bytes of a range that is accepted are in
    the two windows if and only if it does not wrap around, and a memory call changes no mapping
    outside them if and only if it is careful. -/
theorem calls_confined (p : Process) :
    (∀ ptr len : Word, memRefIsSafe p ptr len = true →
      ((∀ i < len.toNat, p.inWindows (ptr + BitVec.ofNat 64 i).toNat = true) ↔
        ptr.toNat + len.toNat < 2 ^ 64)) ∧
    ∀ s, (system p).Reachable s → ∀ c ans,
      (Confined p (run p s ans c).changes ↔ careful p s ans c) := by
  refine ⟨fun ptr len hsafe => bytes_inWindows_iff hsafe, fun s hreach c ans => ?_⟩
  refine ⟨careful_of_confined, fun hc change hchange level hlevel a _ ha => ?_⟩
  exact (fit_run (ok_reachable hreach) hc change hchange).inWindows (hlevel a) ha

/-- A process with its window at `0x7f0000000000`. -/
def usual : Process where
  layout := ⟨0x8000000000#64, 0x7f0000000000#64, 0x7fffc0000000#64⟩
  aligned := by decide
  user := by decide

/-- A page of the executable is protected. -/
theorem calls_confined_usual :
    usual.inWindows (0x1000#64 + BitVec.ofNat 64 5).toNat = true ∧
    Confined usual (run usual ⟨0#64, 0#64⟩ ⟨true, true, true⟩
      (.mprotect 0x1000#64 0x1000#64 1#64)).changes :=
  ⟨((calls_confined usual).1 0x1000#64 0x2000#64 (by decide)).mpr (by decide) 5 (by decide),
    ((calls_confined usual).2 ⟨0#64, 0#64⟩ (.init rfl) (.mprotect 0x1000#64 0x1000#64 1#64)
      ⟨true, true, true⟩).mpr (.inl (by decide))⟩

/-- A range around the end of the addresses is accepted, though its first byte
    is in no window. A call of `umm_mprotect` on no bytes at address 0 reaches
    the pool, and `umm_munmap` of the last page but two of the upper window
    the page behind it. -/
theorem check_escapes :
    (memRefIsSafe usual 0xfffffffffffff000#64 0x2000#64 = true ∧
      usual.inWindows (0xfffffffffffff000#64 + BitVec.ofNat 64 0).toNat = false) ∧
    (.mprotect 0#64 0#64 ⟨true, false, false, true⟩ ∈
        (run usual ⟨0#64, 0#64⟩ ⟨true, true, true⟩ (.mprotect 0#64 0#64 1#64)).changes ∧
      Change.affects (fun _ => 0) 0x100000000
        (.mprotect 0#64 0#64 ⟨true, false, false, true⟩) = true ∧
      usual.inWindows 0x100000000 = false) ∧
    .host 0x7f01ffffd000#64 0x200000#64 ∈
        (run usual ⟨0#64, 0#64⟩ ⟨false, true, true⟩
          (.munmap 0x7f01ffffd000#64 0x1000#64)).changes ∧
      Change.affects (fun _ => 0) 0x7f0200000000 (.host 0x7f01ffffd000#64 0x200000#64) = true ∧
      usual.inWindows 0x7f0200000000 = false := by
  refine ⟨by decide, ⟨by decide +kernel, by decide +kernel, by decide⟩, by decide +kernel,
    by decide, by decide⟩

end Sandbox
