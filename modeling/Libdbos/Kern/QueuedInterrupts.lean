import Mathlib.Algebra.Group.Nat.Defs
import Mathlib.Data.List.Basic
import Libdbos.Framework.Word

/-! # Queued Interrupts

    `vmx_handle_queued_interrupts` of `kern/vmx.c`. Before it enters the
    guest, the host takes the interrupts that were posted while the core was
    not in guest mode out of the posted-interrupt descriptor, sets their bits
    in the virtual IRR, and raises RVI, the low byte of the guest interrupt
    status, to the highest of them.

    The new RVI is or-ed into the status, not written over the old one. It is
    right if and only if it has all bits that the old one has (`drained`).
-/

namespace PostedIntr

/-! ## Model -/

/-- The structure `posted_interrupt_desc`: 256 request bits, and a word
    whose bit 0 says that a notification is outstanding. -/
structure Desc where
  vectors : Nat → Word
  extra : Word

/-- What the function uses of the VMCS and of the vCPU. The virtual APIC page
    is read and written as 32-bit words at byte offsets. -/
structure Vcpu where
  guestIntrStatus : BitVec 16
  vapicPage : Nat → BitVec 32
  queuedInterrupts : Nat

def getBit (data : Word) (pos : Nat) : Bool := (data &&& (1#64 <<< pos)) >>> pos != 0#64

/-- The local variable `rvi`, a byte, and what the loops write. -/
structure Loop where
  rvi : Nat
  vapicPage : Nat → BitVec 32
  queuedInterrupts : Nat

/-- The body of the loops for a vector that was requested. -/
def Loop.inject (l : Loop) (vector : Nat) : Loop :=
  let toSet := 0x200 ||| ((vector &&& 0xE0) >>> 1)
  let mask := 1#32 <<< (vector &&& 0x1F)
  { rvi := (if l.rvi > vector then l.rvi else vector) % 256
    vapicPage := Function.update l.vapicPage toSet (l.vapicPage toSet ||| mask)
    queuedInterrupts := l.queuedInterrupts + 1 }

/-- The loop over the bits of word `i`. -/
def Loop.word (l : Loop) (w : Word) (i : Nat) : Loop :=
  (List.range 64).foldl (fun l j => if getBit w j then l.inject (i * 64 + j) else l) l

/-- The loop over the four words. -/
def Loop.words (l : Loop) (vectors : Nat → Word) : Loop :=
  (List.range 4).foldl (fun l i => if vectors i = 0#64 then l else l.word (vectors i) i) l

def vmxHandleQueuedInterrupts (desc : Desc) (vcpu : Vcpu) : Desc × Vcpu :=
  let outstanding := desc.extra
  let desc := { desc with extra := 0#64 }
  if getBit outstanding 0 then
    let rvi := (vcpu.guestIntrStatus &&& 0xFF#16).toNat
    let vectors := desc.vectors
    let desc := { desc with vectors := fun i => if i < 4 then 0#64 else vectors i }
    let l := Loop.words ⟨rvi, vcpu.vapicPage, vcpu.queuedInterrupts⟩ vectors
    (desc, ⟨vcpu.guestIntrStatus ||| BitVec.ofNat 16 l.rvi, l.vapicPage, l.queuedInterrupts⟩)
  else (desc, vcpu)

/-! ## Vectors -/

/-- Vector `v` is requested. -/
def requested (vectors : Nat → Word) (v : Nat) : Bool := (vectors (v / 64)).getLsbD (v % 64)

/-- Vector `v` is in the virtual IRR, whose registers are 16 bytes apart. -/
def inIrr (page : Nat → BitVec 32) (v : Nat) : Bool := (page (0x200 + 16 * (v / 32))).getLsbD (v % 32)

/-- The highest requested vector, 0 if there is none. -/
def highest (vectors : Nat → Word) : Nat := ((List.range 256).filter (requested vectors)).foldl max 0

theorem getBit_eq (w : Word) {pos : Nat} (hpos : pos < 64) : getBit w pos = w.getLsbD pos := by
  unfold getBit
  cases hb : w.getLsbD pos with
  | false =>
    have hz : w &&& (1#64 <<< pos) = 0#64 := by
      have := Word.has_bit w pos hpos
      rw [hb] at this
      simpa [Word.has, Word.bit] using this
    simp [hz]
  | true =>
    have hone : ((w &&& (1#64 <<< pos)) >>> pos).getLsbD 0 = true := by
      have hbit := Word.getLsbD_bit pos pos hpos
      unfold Word.bit at hbit
      rw [BitVec.getLsbD_ushiftRight, Nat.add_zero, BitVec.getLsbD_and, hb, hbit]
      simp
    rw [bne_iff_ne]
    intro hz
    rw [hz] at hone
    exact absurd hone (by decide)

/-- The register and the mask of a vector. -/
theorem toSet_eq {v : Nat} (hv : v < 256) :
    0x200 ||| ((v &&& 0xE0) >>> 1) = 0x200 + 16 * (v / 32) := by
  revert v
  decide +kernel

theorem bitPos_eq (v : Nat) : v &&& 0x1F = v % 32 := Nat.and_two_pow_sub_one_eq_mod v 5

section Steps

variable {l : Loop} {v x : Nat}

theorem getLsbD_one_shiftLeft {i j : Nat} (hi : i < 32) :
    (1#32 <<< i).getLsbD j = decide (j = i) := by
  rw [BitVec.getLsbD_shiftLeft, BitVec.getLsbD_one]
  by_cases h : j = i
  · subst h
    simp [hi]
  · simp [h]
    omega

/-- A vector goes into the IRR, and no other bit of the page changes. -/
theorem inject_irr (hv : v < 256) :
    inIrr (l.inject v).vapicPage x = (inIrr l.vapicPage x || decide (x = v)) := by
  unfold inIrr Loop.inject
  simp only [toSet_eq hv, bitPos_eq]
  by_cases hreg : x / 32 = v / 32
  · have hbit : (decide (x % 32 = v % 32) : Bool) = decide (x = v) := by
      rw [decide_eq_decide]
      omega
    rw [hreg, Function.update_self, BitVec.getLsbD_or, getLsbD_one_shiftLeft (by omega), hbit]
  · have hne : x ≠ v := by
      intro h
      exact hreg (by rw [h])
    rw [Function.update_of_ne (by omega)]
    simp [hne]

theorem inject_other (hv : v < 256) {off : Nat} (hoff : ∀ k, k < 8 → off ≠ 0x200 + 16 * k) :
    (l.inject v).vapicPage off = l.vapicPage off := by
  unfold Loop.inject
  simp only [toSet_eq hv]
  exact Function.update_of_ne (hoff (v / 32) (by omega)) ..

theorem inject_rvi (hv : v < 256) (hr : l.rvi < 256) : (l.inject v).rvi = max l.rvi v := by
  unfold Loop.inject
  simp only
  split <;> omega

end Steps

/-! ## Loops -/

/-- The two loops as one, over the vectors. -/
def Loop.scan (l : Loop) (req : Nat → Bool) (vs : List Nat) : Loop :=
  vs.foldl (fun l v => if req v then l.inject v else l) l

section Loops

variable {l : Loop} {vectors : Nat → Word} {req : Nat → Bool} {vs : List Nat}

theorem scan_append (vs vs' : List Nat) : l.scan req (vs ++ vs') = (l.scan req vs).scan req vs' :=
  List.foldl_append

theorem scan_none (h : ∀ v ∈ vs, req v = false) : l.scan req vs = l := by
  induction vs with
  | nil => rfl
  | cons v vs ih =>
    rw [Loop.scan, List.foldl_cons, h v (List.mem_cons_self ..)]
    exact ih fun v' hv' => h v' (List.mem_cons_of_mem _ hv')

/-- The vectors of word `i`. -/
def vectorsOf (i : Nat) : List Nat := (List.range 64).map (i * 64 + ·)

theorem requested_of {i j : Nat} (hj : j < 64) :
    requested vectors (i * 64 + j) = (vectors i).getLsbD j := by
  have hdiv : (i * 64 + j) / 64 = i := by omega
  have hmod : (i * 64 + j) % 64 = j := by omega
  rw [requested, hdiv, hmod]

theorem word_eq (i : Nat) :
    l.word (vectors i) i = l.scan (requested vectors) (vectorsOf i) := by
  rw [Loop.word, Loop.scan, vectorsOf, List.foldl_map]
  apply List.foldl_ext
  intro l j hj
  have hlt := List.mem_range.1 hj
  rw [getBit_eq _ hlt, requested_of hlt]

/-- A word that is skipped has no requests. -/
theorem skip_eq (i : Nat) :
    (if vectors i = 0#64 then l else l.word (vectors i) i) =
      l.scan (requested vectors) (vectorsOf i) := by
  split
  · rename_i hzero
    refine (scan_none ?_).symm
    intro v hv
    obtain ⟨j, hj, rfl⟩ := List.mem_map.1 hv
    rw [requested_of (List.mem_range.1 hj), hzero, BitVec.getLsbD_zero]
  · exact word_eq i

theorem words_eq : l.words vectors = l.scan (requested vectors) (List.range 256) := by
  have hrange : List.range 256 = vectorsOf 0 ++ vectorsOf 1 ++ vectorsOf 2 ++ vectorsOf 3 := by
    decide +kernel
  rw [hrange, scan_append, scan_append, scan_append, ← skip_eq, ← skip_eq, ← skip_eq, ← skip_eq]
  rfl

/-- What the loop has done after some vectors. -/
structure Scanned (req : Nat → Bool) (vs : List Nat) (l l' : Loop) : Prop where
  irr : ∀ x, inIrr l'.vapicPage x = (inIrr l.vapicPage x || decide (x ∈ vs ∧ req x = true))
  other : ∀ off, (∀ k, k < 8 → off ≠ 0x200 + 16 * k) → l'.vapicPage off = l.vapicPage off
  rvi : l'.rvi = (vs.filter req).foldl max l.rvi
  count : l'.queuedInterrupts = l.queuedInterrupts + (vs.filter req).length

theorem scan_spec (hvs : ∀ v ∈ vs, v < 256) (hr : l.rvi < 256) :
    Scanned req vs l (l.scan req vs) := by
  induction vs generalizing l with
  | nil => exact ⟨by simp [Loop.scan], fun _ _ => rfl, rfl, rfl⟩
  | cons v vs ih =>
    have hv := hvs v (List.mem_cons_self ..)
    have hrest : ∀ v ∈ vs, v < 256 := fun v' hv' => hvs v' (List.mem_cons_of_mem _ hv')
    cases hreq : req v with
    | false =>
      have hscan : l.scan req (v :: vs) = l.scan req vs := by
        rw [Loop.scan, List.foldl_cons, hreq]
        rfl
      obtain ⟨hirr, hother, hrvi, hcount⟩ := ih hrest hr
      rw [hscan]
      refine ⟨?_, hother, by simpa [hreq] using hrvi, by simpa [hreq] using hcount⟩
      intro x
      rw [hirr x]
      by_cases hx : x = v
      · subst hx
        simp [hreq]
      · simp [hx]
    | true =>
      have hscan : l.scan req (v :: vs) = (l.inject v).scan req vs := by
        rw [Loop.scan, List.foldl_cons, hreq]
        rfl
      have hrvi' := inject_rvi hv hr
      obtain ⟨hirr, hother, hrvi, hcount⟩ := @ih (l.inject v) hrest (by omega)
      rw [hscan]
      refine ⟨?_, ?_, ?_, ?_⟩
      · intro x
        rw [hirr x, inject_irr hv]
        by_cases hx : x = v
        · subst hx
          simp [hreq]
        · simp [hx]
      · intro off hoff
        rw [hother off hoff, inject_other hv hoff]
      · rw [hrvi, hrvi', List.filter_cons_of_pos hreq, List.foldl_cons]
      · rw [hcount, List.filter_cons_of_pos hreq, List.length_cons]
        simp only [Loop.inject]
        omega

theorem foldl_max (a b : Nat) (vs : List Nat) :
    vs.foldl max (max a b) = max a (vs.foldl max b) := by
  induction vs generalizing b with
  | nil => rfl
  | cons v vs ih => rw [List.foldl_cons, List.foldl_cons, Nat.max_assoc, ih]

end Loops

/-! ## The drain -/

theorem highest_lt (vectors : Nat → Word) : highest vectors < 256 := by
  have h : ∀ vs : List Nat, (∀ v ∈ vs, v < 256) → ∀ a, a < 256 → vs.foldl max a < 256 := by
    intro vs
    induction vs with
    | nil => exact fun _ a ha => ha
    | cons v vs ih =>
      intro hvs a ha
      have hv := hvs v (List.mem_cons_self ..)
      exact ih (fun v' hv' => hvs v' (List.mem_cons_of_mem _ hv')) _ (by omega)
  refine h _ ?_ 0 (by decide)
  intro v hv
  exact List.mem_range.1 (List.mem_filter.1 hv).1

/-- RVI, the low byte of the status. -/
def rviOf (status : BitVec 16) : Nat := status.toNat % 256

theorem lowByte_eq (status : BitVec 16) : (status &&& 0xFF#16).toNat = rviOf status := by
  rw [BitVec.toNat_and]
  exact Nat.and_two_pow_sub_one_eq_mod status.toNat 8

/-- The status that the function writes: the high byte stays, the low byte
    gets the bits of the new value. -/
theorem status_or (status : BitVec 16) {rvi : Nat} (h : rvi < 256) :
    rviOf (status ||| BitVec.ofNat 16 rvi) = rviOf status ||| rvi ∧
      (status ||| BitVec.ofNat 16 rvi).toNat / 256 = status.toNat / 256 := by
  have hnat : (status ||| BitVec.ofNat 16 rvi).toNat = status.toNat ||| rvi := by
    rw [BitVec.toNat_or, BitVec.toNat_ofNat, Nat.mod_eq_of_lt (by omega)]
  constructor
  · rw [rviOf, rviOf, hnat, show 256 = 2 ^ 8 from rfl, Nat.or_mod_two_pow,
      Nat.mod_eq_of_lt (show rvi < 2 ^ 8 from h)]
  · rw [hnat, show 256 = 2 ^ 8 from rfl, ← Nat.shiftRight_eq_div_pow, ← Nat.shiftRight_eq_div_pow,
      Nat.shiftRight_or_distrib, Nat.shiftRight_eq_div_pow rvi, Nat.div_eq_of_lt h, Nat.or_zero]

/-- What a drain leaves behind. -/
structure Drained (desc : Desc) (vcpu : Vcpu) (desc' : Desc) (vcpu' : Vcpu) : Prop where
  requests : ∀ i, i < 4 → desc'.vectors i = 0#64
  outstanding : desc'.extra = 0#64
  irr : ∀ v, v < 256 → inIrr vcpu'.vapicPage v =
    (inIrr vcpu.vapicPage v || requested desc.vectors v)
  other : ∀ off, (∀ k, k < 8 → off ≠ 0x200 + 16 * k) → vcpu'.vapicPage off = vcpu.vapicPage off
  rvi : rviOf vcpu'.guestIntrStatus = max (rviOf vcpu.guestIntrStatus) (highest desc.vectors)
  svi : vcpu'.guestIntrStatus.toNat / 256 = vcpu.guestIntrStatus.toNat / 256

/-- **A drain moves all requests to the virtual APIC**, if and only if the new RVI has all
    bits of the old one. -/
theorem drained (desc : Desc) (vcpu : Vcpu) (hon : desc.extra.getLsbD 0 = true) :
    Drained desc vcpu (vmxHandleQueuedInterrupts desc vcpu).1
      (vmxHandleQueuedInterrupts desc vcpu).2 ↔
    rviOf vcpu.guestIntrStatus ||| max (rviOf vcpu.guestIntrStatus) (highest desc.vectors) =
      max (rviOf vcpu.guestIntrStatus) (highest desc.vectors) := by
  have hlow : rviOf vcpu.guestIntrStatus < 256 := Nat.mod_lt _ (by decide)
  have hhigh := highest_lt desc.vectors
  have hscan := @scan_spec ⟨rviOf vcpu.guestIntrStatus, vcpu.vapicPage, vcpu.queuedInterrupts⟩
    (requested desc.vectors) (List.range 256) (fun v hv => List.mem_range.1 hv) hlow
  rw [← words_eq] at hscan
  have hrvi : (Loop.words ⟨rviOf vcpu.guestIntrStatus, vcpu.vapicPage, vcpu.queuedInterrupts⟩
      desc.vectors).rvi = max (rviOf vcpu.guestIntrStatus) (highest desc.vectors) := by
    rw [hscan.rvi, highest, ← foldl_max, Nat.max_zero]
  unfold vmxHandleQueuedInterrupts
  simp only [getBit_eq _ (show 0 < 64 by decide), hon, if_true, lowByte_eq]
  obtain ⟨hbyte, hsvi⟩ := status_or vcpu.guestIntrStatus
    (show max (rviOf vcpu.guestIntrStatus) (highest desc.vectors) < 256 by omega)
  refine ⟨fun h => ?_, fun hbits => ⟨?_, rfl, ?_, hscan.other, ?_, ?_⟩⟩
  · rw [← hbyte, ← hrvi, h.rvi, hrvi]
  · intro i hi
    simp [hi]
  · intro v hv
    rw [hscan.irr v]
    simp [hv]
  · rw [hrvi, hbyte, hbits]
  · rw [hrvi, hsvi]

/-- No requests and a status of 0, but for what is given. -/
def descOf (i : Nat) (w : Word) : Desc := ⟨fun k => if k = i then w else 0#64, 1#64⟩

def vcpuOf (status : BitVec 16) : Vcpu := ⟨status, fun _ => 0#32, 0⟩

/-- Vector 0xF1 after vector 0x31. -/
theorem drained_ipi :
    rviOf (vmxHandleQueuedInterrupts (descOf 3 (1#64 <<< 49))
      (vcpuOf 0x5031#16)).2.guestIntrStatus =
      0xF1 := by
  have h := ((drained (descOf 3 (1#64 <<< 49)) (vcpuOf 0x5031#16) (by decide)).mpr
    (by decide +kernel)).rvi
  rw [h]
  decide +kernel

/-- Vector 0xF1 after vector 0x3E: RVI becomes 0xFF, a vector that nobody
    has requested. -/
theorem rvi_mixed :
    ((descOf 3 (1#64 <<< 49)).extra.getLsbD 0 = true ∧
      highest (descOf 3 (1#64 <<< 49)).vectors = 0xF1 ∧
      rviOf (vcpuOf 0x3E#16).guestIntrStatus = 0x3E) ∧
    rviOf (vmxHandleQueuedInterrupts (descOf 3 (1#64 <<< 49)) (vcpuOf 0x3E#16)).2.guestIntrStatus =
      0xFF := by
  refine ⟨⟨by decide, by decide +kernel, by decide⟩, by decide +kernel⟩

end PostedIntr
