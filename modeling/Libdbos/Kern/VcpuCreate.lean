import Libdbos.Framework.System
import Mathlib.Data.List.Nodup

/-! # Creation and Clean-Up of Virtual CPUs

    `vmx_create_vcpu` takes memory for the vCPU, links it, counts it in the
    instance that all vCPUs share, and then takes a VMCS region, a VPID and, for
    the first vCPU, the root page of the EPT. If one of these fails, a chain of
    labels gives back what has been taken so far. `vmx_cleanup` destroys the
    vCPUs of the list when the device is closed.

    The chain restores the VPIDs and the shared instance. It forgets the list,
    the configuration and the root page: a failed creation leaves no trace only
    if the memory at the start could not be had (`failed_create_no_trace`).
-/

namespace Vcpus

open LTS

/-! ### State -/

/-- The fields of `struct vmx_vcpu` that creation and destruction use. -/
structure Vcpu where
  vmcs : Nat
  vpid : Nat
  deriving DecidableEq, Repr

/-- The fields of `struct vmx_common` that they use. -/
structure Common where
  eptRoot : Nat
  refCnt : Int
  deriving DecidableEq, Repr

structure Kernel where
  /-- The vCPUs in memory, by address. -/
  live : Nat → Option Vcpu
  /-- The list `vcpus`. -/
  vcpus : List Nat
  vpidBitmap : Nat → Bool
  vmxInstance : Option Common
  /-- The pages in use for VMCS regions and the root of the EPT. -/
  pages : Nat → Bool

/-- The field of `struct dune_config` that creation uses. -/
structure Config where
  vcpu : Nat
  deriving DecidableEq, Repr

/-- What the kernel has for one creation. -/
structure Resources where
  /-- `kmalloc` for the vCPU. -/
  vcpu : Option Nat
  /-- `kmalloc` for the shared instance succeeds. -/
  common : Bool
  vmcs : Option Nat
  /-- The page for `vmx_init_ept`. -/
  root : Option Nat
  /-- `mmu_notifier_register` in `vmx_create_ept` succeeds. -/
  notifier : Bool

def vmxNrVpids : Nat := 65536

/-! ### Parts of the state -/

/-- The number of the first of `n` bits from `i` on that is not set, or the end. -/
def findFirstZeroBit (bitmap : Nat → Bool) : (n i : Nat) → Nat
  | 0, i => i
  | n + 1, i => if bitmap i then findFirstZeroBit bitmap n (i + 1) else i

namespace Kernel

variable (k : Kernel)

/-- Memory for a vCPU, filled with zeros. -/
def kmalloc (a : Nat) : Kernel := { k with live := Function.update k.live a (some ⟨0, 0⟩) }

def kfree (a : Nat) : Kernel := { k with live := Function.update k.live a none }

def listAdd (a : Nat) : Kernel := { k with vcpus := a :: k.vcpus }

/-- The new vCPU counts in the shared instance, which may be new as well. -/
def countIn : Kernel :=
  let c := k.vmxInstance.getD ⟨0, 0⟩
  { k with vmxInstance := some { c with refCnt := c.refCnt + 1 } }

def allocPage (p : Nat) : Kernel := { k with pages := Function.update k.pages p true }

def freePage (p : Nat) : Kernel := { k with pages := Function.update k.pages p false }

def setVcpu (a : Nat) (v : Vcpu) : Kernel := { k with live := Function.update k.live a (some v) }

def setRoot (p : Nat) : Kernel :=
  { k with vmxInstance := k.vmxInstance.map fun c => { c with eptRoot := p } }

/-- The kernel with a new VPID, if there is one. -/
def allocateVpid : Kernel × Option Nat :=
  let vpid := findFirstZeroBit k.vpidBitmap vmxNrVpids 0
  if vpid < vmxNrVpids then
    ({ k with vpidBitmap := Function.update k.vpidBitmap vpid true }, some vpid)
  else (k, none)

def freeVpid (vpid : Nat) : Kernel :=
  if vpid ≠ 0 then { k with vpidBitmap := Function.update k.vpidBitmap vpid false } else k

/-- One vCPU less counts in the shared instance, which goes with the last one. -/
def countOut : Kernel :=
  match k.vmxInstance with
  | none => k
  | some c =>
      if c.refCnt - 1 = 0 then { k with vmxInstance := none }
      else { k with vmxInstance := some { c with refCnt := c.refCnt - 1 } }

/-! ### Creation -/

def failVmcs (vcpu : Nat) : Kernel := (k.kfree vcpu).countOut

def failVpid (vcpu vmcs : Nat) : Kernel := (k.freePage vmcs).failVmcs vcpu

def failEpt (vcpu vmcs vpid : Nat) : Kernel := (k.freeVpid vpid).failVpid vcpu vmcs

/-- The part for the first vCPU, from `vmx_init_ept` on. -/
def createEpt (vcpu vmcs vpid : Nat) (r : Resources) : Kernel × Option Nat :=
  match r.root with
  | none => (k.failEpt vcpu vmcs vpid, none)
  | some root =>
      let k := (k.allocPage root).setRoot root
      -- The root page is not given back here.
      if r.notifier then (k, some vcpu) else (k.failEpt vcpu vmcs vpid, none)

/-- The part after the vCPU has been linked. -/
def createLinked (first : Bool) (vcpu : Nat) (r : Resources) : Kernel × Option Nat :=
  match r.vmcs with
  | none => (k.failVmcs vcpu, none)
  | some vmcs =>
      let k := (k.allocPage vmcs).setVcpu vcpu ⟨vmcs, 0⟩
      match k.allocateVpid with
      | (k, none) => (k.failVpid vcpu vmcs, none)
      | (k, some vpid) =>
          let k := k.setVcpu vcpu ⟨vmcs, vpid⟩
          if first then k.createEpt vcpu vmcs vpid r else (k, some vcpu)

end Kernel

def vmxCreateVcpu (k : Kernel) (conf : Config) (r : Resources) : Kernel × Config × Option Nat :=
  if conf.vcpu ≠ 0 then (k, conf, some conf.vcpu)
  else
    match r.vcpu with
    | none => (k, conf, none)
    | some vcpu =>
        let first := k.vmxInstance.isNone
        if first && !r.common then ((k.kmalloc vcpu).kfree vcpu, conf, none)
        else
          let k := ((k.kmalloc vcpu).listAdd vcpu).countIn
          let (k, ret) := k.createLinked first vcpu r
          (k, { conf with vcpu := vcpu }, ret)

/-! ### Clean-up -/

inductive Fault where
  /-- An access to memory that has been freed. -/
  | useAfterFree
  /-- The `BUG_ON` of `vmx_cleanup`. -/
  | bug
  deriving DecidableEq, Repr

def vmxDestroyVcpu (k : Kernel) (vcpu : Nat) : Except Fault Kernel :=
  match k.live vcpu, k.vmxInstance with
  | some v, some c =>
      let k := ((k.freeVpid v.vpid).freePage v.vmcs).kfree vcpu
      .ok { k with vmxInstance := some { c with refCnt := c.refCnt - 1 } }
  | _, _ => .error .useAfterFree

/-- The loop over the list. -/
def destroyAll (k : Kernel) : List Nat → Except Fault Kernel
  | [] => .ok k
  | a :: rest => (vmxDestroyVcpu { k with vcpus := rest } a).bind fun k => destroyAll k rest

def vmxCleanup (k : Kernel) : Except Fault Kernel :=
  (destroyAll k k.vcpus).bind fun k =>
    match k.vmxInstance with
    | none => .ok k
    | some c =>
        if c.refCnt ≠ 0 then .error .bug
        else .ok { k.freePage c.eptRoot with vmxInstance := none }

/-! ### Runs -/

inductive Label where
  | create (conf : Config) (r : Resources)
  | cleanup

/-- Memory that is handed out is not in use. -/
structure Fresh (k : Kernel) (r : Resources) : Prop where
  vcpu : ∀ a, r.vcpu = some a → a ≠ 0 ∧ k.live a = none
  vmcs : ∀ p, r.vmcs = some p → k.pages p = false
  root : ∀ p, r.root = some p → k.pages p = false ∧ r.vmcs ≠ some p

instance (k : Kernel) (r : Resources) : Decidable (Fresh k r) :=
  decidable_of_iff
    ((∀ a ∈ r.vcpu, a ≠ 0 ∧ k.live a = none) ∧ (∀ p ∈ r.vmcs, k.pages p = false) ∧
      ∀ p ∈ r.root, k.pages p = false ∧ r.vmcs ≠ some p)
    ⟨fun h => ⟨h.1, h.2.1, h.2.2⟩, fun h => ⟨h.vcpu, h.vmcs, h.root⟩⟩

def step (k : Kernel) : Label → Option Kernel
  | .create conf r => if Fresh k r then some (vmxCreateVcpu k conf r).1 else none
  | .cleanup =>
      match vmxCleanup k with
      | .ok k => some k
      | .error _ => none

/-- No vCPU yet; VPID 0 is the host's. -/
structure Boot (k : Kernel) : Prop where
  live : ∀ a, k.live a = none
  vcpus : k.vcpus = []
  host : k.vpidBitmap 0 = true
  vmxInstance : k.vmxInstance = none

def system : System Kernel Label where
  init := Boot
  step := step

/-- The memory at the start cannot be had: neither the vCPU nor, for the first
    one, the instance. -/
def NoMemory (k : Kernel) (r : Resources) : Bool :=
  r.vcpu.isNone || (k.vmxInstance.isNone && !r.common)

/-- Creations fail for want of memory at the start only. -/
def FailsEarly (k : Kernel) : Label → Bool
  | .create conf r => (vmxCreateVcpu k conf r).2.2.isSome || NoMemory k r
  | .cleanup => true

/-! ### VPIDs -/

theorem findFirstZeroBit_free {bitmap : Nat → Bool} {n i : Nat}
    (h : findFirstZeroBit bitmap n i < i + n) : bitmap (findFirstZeroBit bitmap n i) = false := by
  induction n generalizing i with
  | zero => exact absurd h (Nat.lt_irrefl i)
  | succ n ih =>
    rw [findFirstZeroBit] at h ⊢
    split at h
    · next hset =>
      rw [if_pos hset]
      exact ih (by omega)
    · next hset =>
      rw [if_neg hset]
      exact eq_false_of_ne_true hset

/-- A VPID is allocated where its bit was clear, or all bits are set. -/
theorem allocateVpid_cases (k : Kernel) :
    (∃ vpid, k.vpidBitmap vpid = false ∧ k.allocateVpid =
      ({ k with vpidBitmap := Function.update k.vpidBitmap vpid true }, some vpid)) ∨
      k.allocateVpid = (k, none) := by
  by_cases hlt : findFirstZeroBit k.vpidBitmap vmxNrVpids 0 < vmxNrVpids
  · exact .inl ⟨_, findFirstZeroBit_free (by omega), if_pos hlt⟩
  · exact .inr (if_neg hlt)

/-! ### Creations that fail -/

/-- The kernel `m` is `k` with a vCPU at `a` that counts in the instance. -/
structure Taken (k m : Kernel) (a : Nat) : Prop where
  live : ∃ v, m.live = Function.update k.live a v
  counted : ∃ c, m.vmxInstance = some c ∧ k.vmxInstance =
    if c.refCnt - 1 = 0 then none else some { c with refCnt := c.refCnt - 1 }

/-- The end of the chain: the vCPU is gone, and the instance is as before. -/
theorem Taken.failVmcs {k m : Kernel} {a : Nat} (h : Taken k m a) (hfree : k.live a = none) :
    m.failVmcs a = { m with live := k.live, vmxInstance := k.vmxInstance } := by
  obtain ⟨v, hlive⟩ := h.live
  obtain ⟨c, hc, hk⟩ := h.counted
  have hgone : Function.update m.live a none = k.live := by
    rw [hlive, Function.update_idem, ← hfree, Function.update_eq_self]
  rw [Kernel.failVmcs, Kernel.countOut, hk]
  simp only [Kernel.kfree, hc, hgone]
  split
  · rfl
  · rfl

theorem Taken.failVpid {k m : Kernel} {a vmcs : Nat} (h : Taken k m a) (hfree : k.live a = none) :
    m.failVpid a vmcs = { m with
      live := k.live
      vmxInstance := k.vmxInstance
      pages := Function.update m.pages vmcs false } :=
  Taken.failVmcs (m := m.freePage vmcs) ⟨h.live, h.counted⟩ hfree

theorem Taken.failEpt {k m : Kernel} {a vmcs vpid : Nat} (h : Taken k m a)
    (hfree : k.live a = none) (hvpid : vpid ≠ 0) :
    m.failEpt a vmcs vpid = { m with
      live := k.live
      vmxInstance := k.vmxInstance
      pages := Function.update m.pages vmcs false
      vpidBitmap := Function.update m.vpidBitmap vpid false } := by
  have hkernel : m.freeVpid vpid =
      { m with vpidBitmap := Function.update m.vpidBitmap vpid false } := if_pos hvpid
  rw [Kernel.failEpt, hkernel]
  exact Taken.failVpid (m := { m with vpidBitmap := _ }) ⟨h.live, h.counted⟩ hfree

/-! ### The invariant -/

/-- The list holds the vCPUs in memory, and the instance counts them. -/
structure Sound (k : Kernel) : Prop where
  nodup : k.vcpus.Nodup
  live : ∀ a, (k.live a).isSome = true ↔ a ∈ k.vcpus
  host : k.vpidBitmap 0 = true
  refs : ∀ c, k.vmxInstance = some c → c.refCnt = k.vcpus.length
  first : k.vmxInstance = none → k.vcpus = []

/-- Between calls, there is no instance without a vCPU. -/
structure Inv (k : Kernel) : Prop extends Sound k where
  shared : ∀ c, k.vmxInstance = some c → k.vcpus ≠ []

theorem Boot.inv {k : Kernel} (h : Boot k) : Inv k where
  nodup := by
    rw [h.vcpus]
    exact List.nodup_nil
  live := fun a => by
    rw [h.live, h.vcpus]
    simp
  host := h.host
  refs := fun c hc => by
    rw [h.vmxInstance] at hc
    cases hc
  first := fun _ => h.vcpus
  shared := fun c hc => by
    rw [h.vmxInstance] at hc
    cases hc

/-- The kernel after the vCPU has been linked. -/
def Kernel.linked (k : Kernel) (a : Nat) : Kernel := ((k.kmalloc a).listAdd a).countIn

theorem Inv.taken {k : Kernel} (h : Inv k) (a : Nat) : Taken k (k.linked a) a where
  live := ⟨some ⟨0, 0⟩, rfl⟩
  counted := by
    refine ⟨_, rfl, ?_⟩
    cases hc : k.vmxInstance with
    | none => simp [Kernel.kmalloc, Kernel.listAdd, hc]
    | some c =>
      have hlen := List.length_pos_of_ne_nil (h.shared c hc)
      have hrefs := h.refs c hc
      simp only [Kernel.kmalloc, Kernel.listAdd, hc, Option.getD_some, Int.add_sub_cancel]
      rw [if_neg (by omega)]

section

variable {k m : Kernel} {a : Nat} {r : Resources}

theorem createEpt_failed {vmcs vpid : Nat} (htaken : Taken k m a) (hfree : k.live a = none)
    (hnone : k.vmxInstance = none) (hvpid : vpid ≠ 0)
    (h : (m.createEpt a vmcs vpid r).2 = none) :
    ∃ pages, (pages = m.pages ∨ r.notifier = false ∧ ∃ root, r.root = some root ∧
      pages = Function.update m.pages root true) ∧
      (m.createEpt a vmcs vpid r).1 = { m with
        live := k.live
        vmxInstance := k.vmxInstance
        pages := Function.update pages vmcs false
        vpidBitmap := Function.update m.vpidBitmap vpid false } := by
  rw [Kernel.createEpt] at h ⊢
  cases hr : r.root with
  | none => exact ⟨m.pages, .inl rfl, htaken.failEpt hfree hvpid⟩
  | some root =>
    rw [hr] at h
    simp only at h ⊢
    split at h
    · cases h
    · next hnotifier =>
      have hnotifier := eq_false_of_ne_true hnotifier
      -- The root page changes the instance, but not its count.
      have htaken' : Taken k ((m.allocPage root).setRoot root) a := by
        obtain ⟨c, hc, hk⟩ := htaken.counted
        refine ⟨htaken.live, { c with eptRoot := root }, ?_, ?_⟩
        · show Option.map _ m.vmxInstance = _
          rw [hc]
          rfl
        · rw [hnone] at hk ⊢
          split at hk
          · next hzero => rw [if_pos hzero]
          · cases hk
      refine ⟨Function.update m.pages root true, .inr ⟨hnotifier, root, rfl, rfl⟩, ?_⟩
      rw [if_neg (by rw [hnotifier]; exact Bool.false_ne_true), htaken'.failEpt hfree hvpid]
      rfl

theorem Taken.setVcpu (h : Taken k m a) (v : Vcpu) : Taken k (m.setVcpu a v) a := by
  obtain ⟨w, hw⟩ := h.live
  refine ⟨⟨some v, ?_⟩, h.counted⟩
  show Function.update m.live a (some v) = _
  rw [hw, Function.update_idem]

/-- After it has been linked, a vCPU that cannot be created is taken back, but
    for the list and the root page. -/
theorem createLinked_failed {first : Bool} (htaken : Taken k m a) (hfree : k.live a = none)
    (hhost : m.vpidBitmap 0 = true) (hfirst : first = true → k.vmxInstance = none)
    (hvmcs : ∀ p, r.vmcs = some p → m.pages p = false)
    (hroot : ∀ p, r.root = some p → r.vmcs ≠ some p)
    (h : (m.createLinked first a r).2 = none) :
    ∃ pages, (pages = m.pages ∨ first = true ∧ r.notifier = false ∧ ∃ root, r.root = some root ∧
      pages = Function.update m.pages root true) ∧
      (m.createLinked first a r).1 =
        { m with live := k.live, vmxInstance := k.vmxInstance, pages := pages } := by
  rw [Kernel.createLinked] at h ⊢
  cases hr : r.vmcs with
  | none => exact ⟨m.pages, .inl rfl, htaken.failVmcs hfree⟩
  | some vmcs =>
    have hclear : Function.update (Function.update m.pages vmcs true) vmcs false = m.pages := by
      rw [Function.update_idem, ← hvmcs vmcs hr, Function.update_eq_self]
    have htaken₁ : Taken k ((m.allocPage vmcs).setVcpu a ⟨vmcs, 0⟩) a :=
      Taken.setVcpu (m := m.allocPage vmcs) ⟨htaken.live, htaken.counted⟩ _
    rw [hr] at h
    simp only at h ⊢
    rcases allocateVpid_cases ((m.allocPage vmcs).setVcpu a ⟨vmcs, 0⟩) with
      ⟨vpid, hzero, halloc⟩ | halloc
    · have hzero : m.vpidBitmap vpid = false := hzero
      have hvpid : vpid ≠ 0 := by
        intro heq
        rw [heq, hhost] at hzero
        cases hzero
      have hbits : Function.update (Function.update m.vpidBitmap vpid true) vpid false =
          m.vpidBitmap := by
        rw [Function.update_idem, ← hzero, Function.update_eq_self]
      rw [halloc] at h ⊢
      match first, hfirst with
      | false, _ => cases h
      | true, hfirst =>
        have htaken₂ := Taken.setVcpu (m := { (m.allocPage vmcs).setVcpu a ⟨vmcs, 0⟩ with
          vpidBitmap := Function.update m.vpidBitmap vpid true }) ⟨htaken₁.live, htaken₁.counted⟩
          ⟨vmcs, vpid⟩
        obtain ⟨pages, hpages, heq⟩ := createEpt_failed htaken₂ hfree (hfirst rfl) hvpid h
        refine ⟨Function.update pages vmcs false, ?_, ?_⟩
        · rcases hpages with rfl | ⟨hnotifier, root, hr', rfl⟩
          · exact .inl hclear
          · refine .inr ⟨rfl, hnotifier, root, hr', ?_⟩
            have hne : vmcs ≠ root := fun heq => hroot root hr' (heq ▸ hr)
            show Function.update (Function.update (Function.update m.pages vmcs true) root true)
              vmcs false = _
            rw [Function.update_comm hne.symm, hclear]
        · refine heq.trans ?_
          show ({ m with
            live := k.live
            vmxInstance := k.vmxInstance
            pages := Function.update pages vmcs false
            vpidBitmap := Function.update (Function.update m.vpidBitmap vpid true) vpid false } :
              Kernel) = _
          rw [hbits]
    · rw [halloc] at h ⊢
      refine ⟨m.pages, .inl rfl, ?_⟩
      show Kernel.failVpid _ a vmcs = _
      rw [htaken₁.failVpid hfree]
      show ({ m with
        live := k.live
        vmxInstance := k.vmxInstance
        pages := Function.update (Function.update m.pages vmcs true) vmcs false } : Kernel) = _
      rw [hclear]

end

/-- **What a failed creation leaves**: nothing, if the memory at the start could
    not be had; otherwise the vCPU that has been freed, in the list and in the
    configuration, and the root page if `vmx_create_ept` failed. -/
theorem create_failed {k : Kernel} {conf : Config} {r : Resources} (hinv : Inv k)
    (hfresh : Fresh k r) (h : (vmxCreateVcpu k conf r).2.2 = none) :
    conf.vcpu = 0 ∧
    (NoMemory k r = true ∧ (vmxCreateVcpu k conf r).1 = k ∧ (vmxCreateVcpu k conf r).2.1 = conf ∨
      NoMemory k r = false ∧ ∃ a pages, r.vcpu = some a ∧ k.live a = none ∧
        (pages = k.pages ∨ k.vmxInstance = none ∧ r.notifier = false ∧
          ∃ root, r.root = some root ∧ pages = Function.update k.pages root true) ∧
        (vmxCreateVcpu k conf r).1 = { k with vcpus := a :: k.vcpus, pages := pages } ∧
        (vmxCreateVcpu k conf r).2.1.vcpu = a) := by
  rw [vmxCreateVcpu] at h ⊢
  split at h
  · cases h
  · next hconf =>
    have hconf : conf.vcpu = 0 := not_not.mp hconf
    refine ⟨hconf, ?_⟩
    rw [if_neg (not_not.mpr hconf)]
    cases hr : r.vcpu with
    | none => exact .inl ⟨by simp [NoMemory, hr], rfl, rfl⟩
    | some a =>
      obtain ⟨_, hfree⟩ := hfresh.vcpu a hr
      rw [hr] at h
      simp only at h ⊢
      split at h
      · next hnone =>
        refine .inl ⟨by simp only [NoMemory, hnone, Bool.or_true], ?_, ?_⟩
        · rw [if_pos hnone]
          show ({ k with live := Function.update (Function.update k.live a _) a none } : Kernel) = k
          rw [Function.update_idem, ← hfree, Function.update_eq_self]
        · rw [if_pos hnone]
      · next hnone =>
        have hmemory : NoMemory k r = false := by
          rw [NoMemory, hr, eq_false_of_ne_true hnone]
          rfl
        obtain ⟨pages, hpages, heq⟩ := createLinked_failed (hinv.taken a) hfree hinv.host
          Option.isNone_iff_eq_none.mp hfresh.vmcs (fun p hp => (hfresh.root p hp).2) h
        refine .inr ⟨hmemory, a, pages, rfl, hfree, ?_, ?_, ?_⟩
        · rcases hpages with hpages | ⟨hfirst, hrest⟩
          · exact .inl hpages
          · exact .inr ⟨Option.isNone_iff_eq_none.mp hfirst, hrest⟩
        · rw [if_neg hnone]
          exact heq
        · rw [if_neg hnone]

/-! ### Creations that succeed -/

/-- A vCPU at `a` has got its resources. -/
structure Made (m m' : Kernel) (a : Nat) : Prop where
  live : ∃ v, m'.live = Function.update m.live a (some v)
  vcpus : m'.vcpus = m.vcpus
  host : m'.vpidBitmap 0 = true
  refs : m'.vmxInstance.map Common.refCnt = m.vmxInstance.map Common.refCnt

theorem createLinked_made {m : Kernel} {a x : Nat} {r : Resources} {first : Bool}
    (hhost : m.vpidBitmap 0 = true) (h : (m.createLinked first a r).2 = some x) :
    x = a ∧ Made m (m.createLinked first a r).1 a := by
  rw [Kernel.createLinked] at h ⊢
  cases hr : r.vmcs with
  | none =>
    rw [hr] at h
    cases h
  | some vmcs =>
    rw [hr] at h
    simp only at h ⊢
    rcases allocateVpid_cases ((m.allocPage vmcs).setVcpu a ⟨vmcs, 0⟩) with
      ⟨vpid, hzero, halloc⟩ | halloc
    · have hhost' : Function.update m.vpidBitmap vpid true 0 = true := by
        rw [Function.update_apply]
        split
        · rfl
        · exact hhost
      have hlive : ∀ v, Function.update (Function.update m.live a (some ⟨vmcs, 0⟩)) a (some v) =
          Function.update m.live a (some v) := fun v => Function.update_idem ..
      rw [halloc] at h ⊢
      simp only at h ⊢
      split at h
      · next hfirst =>
        rw [if_pos hfirst]
        rw [Kernel.createEpt] at h ⊢
        cases hroot : r.root with
        | none =>
          rw [hroot] at h
          cases h
        | some root =>
          rw [hroot] at h
          simp only at h ⊢
          split at h
          · next hnotifier =>
            rw [if_pos hnotifier]
            refine ⟨(Option.some.inj h).symm, ⟨⟨vmcs, vpid⟩, hlive _⟩, rfl, hhost', ?_⟩
            show Option.map _ (Option.map _ m.vmxInstance) = _
            rw [Option.map_map]
            rfl
          · cases h
      · next hfirst =>
        rw [if_neg hfirst]
        exact ⟨(Option.some.inj h).symm, ⟨⟨vmcs, vpid⟩, hlive _⟩, rfl, hhost', rfl⟩
    · rw [halloc] at h
      cases h

/-- A vCPU that has been made is in the list, and counted. -/
theorem Inv.made {k k' : Kernel} {a : Nat} (h : Inv k) (hfree : k.live a = none)
    (hmade : Made (k.linked a) k' a) : Inv k' := by
  obtain ⟨v, hlive⟩ := hmade.live
  have hlive : k'.live = Function.update k.live a (some v) :=
    hlive.trans (Function.update_idem ..)
  have hvcpus : k'.vcpus = a :: k.vcpus := hmade.vcpus
  have hnew : a ∉ k.vcpus := by
    rw [← h.live, hfree]
    exact Bool.false_ne_true
  have hrefs : ∀ c, k'.vmxInstance = some c → c.refCnt = k.vcpus.length + 1 := by
    intro c hc
    have hcount := hmade.refs
    rw [hc] at hcount
    have hcount : c.refCnt = (k.vmxInstance.getD ⟨0, 0⟩).refCnt + 1 := Option.some.inj hcount
    rw [hcount]
    cases hk : k.vmxInstance with
    | none =>
      rw [h.first hk]
      rfl
    | some d => rw [Option.getD_some, h.refs d hk]
  refine ⟨⟨?_, ?_, hmade.host, ?_, ?_⟩, ?_⟩
  · rw [hvcpus]
    exact List.nodup_cons.mpr ⟨hnew, h.nodup⟩
  · intro x
    rw [hlive, hvcpus, List.mem_cons, ← h.live x]
    by_cases hx : x = a
    · subst hx
      simp
    · simp [hx]
  · intro c hc
    rw [hrefs c hc, hvcpus]
    rfl
  · intro hnone
    have hcount := hmade.refs
    rw [hnone] at hcount
    cases hcount
  · intro _ _
    rw [hvcpus]
    exact List.cons_ne_nil _ _

/-- A creation that returns a vCPU keeps the invariant. -/
theorem Inv.created {k : Kernel} {conf : Config} {r : Resources} (hinv : Inv k)
    (hfresh : Fresh k r) {x : Nat} (h : (vmxCreateVcpu k conf r).2.2 = some x) :
    Inv (vmxCreateVcpu k conf r).1 := by
  rw [vmxCreateVcpu] at h ⊢
  split at h
  · next hconf =>
    rw [if_pos hconf]
    exact hinv
  · next hconf =>
    rw [if_neg hconf]
    cases hr : r.vcpu with
    | none => exact hinv
    | some a =>
      obtain ⟨_, hfree⟩ := hfresh.vcpu a hr
      rw [hr] at h
      simp only at h ⊢
      split at h
      · cases h
      · next hnone =>
        rw [if_neg hnone]
        exact hinv.made hfree (createLinked_made (m := k.linked a) hinv.host h).2

/-! ### Clean-up -/

theorem freeVpid_host (k : Kernel) (vpid : Nat) :
    (k.freeVpid vpid).vpidBitmap 0 = k.vpidBitmap 0 := by
  rw [Kernel.freeVpid]
  split
  · next hvpid => exact Function.update_of_ne hvpid.symm _ _
  · rfl

theorem vmxDestroyVcpu_ok {k : Kernel} {a : Nat} {v : Vcpu} {c : Common} (hv : k.live a = some v)
    (hc : k.vmxInstance = some c) : vmxDestroyVcpu k a = .ok { k with
      live := Function.update k.live a none
      vpidBitmap := (k.freeVpid v.vpid).vpidBitmap
      pages := Function.update k.pages v.vmcs false
      vmxInstance := some { c with refCnt := c.refCnt - 1 } } := by
  simp only [vmxDestroyVcpu, hv, hc, Kernel.freeVpid]
  split
  · rfl
  · rfl

/-- The first vCPU of the list is in memory, and the rest is sound without it. -/
theorem Sound.destroy {k : Kernel} {a : Nat} {rest : List Nat} (h : Sound k)
    (hlist : k.vcpus = a :: rest) : ∃ k', vmxDestroyVcpu { k with vcpus := rest } a = .ok k' ∧
      Sound k' ∧ k'.vcpus = rest := by
  obtain ⟨hnew, hnodup⟩ := List.nodup_cons.mp (hlist ▸ h.nodup)
  have hlive : (k.live a).isSome = true := (h.live a).mpr (hlist ▸ List.mem_cons_self ..)
  obtain ⟨v, hv⟩ := Option.isSome_iff_exists.mp hlive
  obtain ⟨c, hc⟩ : ∃ c, k.vmxInstance = some c := by
    refine Option.ne_none_iff_exists'.mp fun hnone => ?_
    have hnil := h.first hnone
    rw [hlist] at hnil
    cases hnil
  refine ⟨_, vmxDestroyVcpu_ok (k := { k with vcpus := rest }) hv hc, ⟨hnodup, ?_, ?_, ?_, ?_⟩, rfl⟩
  · intro x
    show (Function.update k.live a none x).isSome = true ↔ x ∈ rest
    by_cases hx : x = a
    · subst hx
      simp [hnew]
    · have hx' := h.live x
      rw [hlist, List.mem_cons] at hx'
      rw [Function.update_of_ne hx, hx']
      simp [hx]
  · exact (freeVpid_host _ _).trans h.host
  · intro d hd
    obtain rfl := Option.some.inj hd
    have hrefs := h.refs c hc
    rw [hlist, List.length_cons] at hrefs
    show c.refCnt - 1 = rest.length
    omega
  · exact nofun

/-- **The loop over the list** visits vCPUs in memory only. -/
theorem Sound.destroyAll {k : Kernel} {list : List Nat} (h : Sound k) (hlist : k.vcpus = list) :
    ∃ k', destroyAll k list = .ok k' ∧ Sound k' ∧ k'.vcpus = [] := by
  induction list generalizing k with
  | nil => exact ⟨k, rfl, h, hlist⟩
  | cons a rest ih =>
    obtain ⟨k₁, hdestroy, hsound, hrest⟩ := h.destroy hlist
    obtain ⟨k', hall, hend⟩ := ih hsound hrest
    refine ⟨k', ?_, hend⟩
    rw [Vcpus.destroyAll, hdestroy]
    exact hall

/-- **Clean-up** visits vCPUs in memory only, finds the count at zero, and leaves
    no vCPU. -/
theorem Inv.cleanup {k : Kernel} (h : Inv k) : ∃ k', vmxCleanup k = .ok k' ∧ Inv k' ∧
    k'.vcpus = [] ∧ k'.vmxInstance = none := by
  obtain ⟨k₁, hall, hsound, hnil⟩ := h.toSound.destroyAll rfl
  rw [vmxCleanup, hall]
  cases hc : k₁.vmxInstance with
  | none =>
    refine ⟨k₁, by simp only [Except.bind, hc], ⟨hsound, fun c hc' => ?_⟩, hnil, hc⟩
    rw [hc] at hc'
    cases hc'
  | some c =>
    have hzero : c.refCnt = 0 := by
      rw [hsound.refs c hc, hnil]
      rfl
    refine ⟨{ k₁.freePage c.eptRoot with vmxInstance := none }, ?_, ?_, hnil, rfl⟩
    · simp only [Except.bind, hc, hzero]
      rfl
    · exact ⟨⟨hsound.nodup, hsound.live, hsound.host, nofun, fun _ => hnil⟩, nofun⟩

/-! ### Runs -/

theorem inv_of_run {k : Kernel} (h : system.RunsTo (fun k l => FailsEarly k l = true) k) :
    Inv k := by
  refine System.invariant_when (fun _ => Boot.inv) (fun k l k' hinv hok hstep => ?_) h
  match l with
  | .create conf r =>
    have hstep : (if Fresh k r then some (vmxCreateVcpu k conf r).1 else none) = some k' := hstep
    split at hstep
    · next hfresh =>
      obtain rfl := Option.some.inj hstep
      cases hret : (vmxCreateVcpu k conf r).2.2 with
      | some x => exact hinv.created hfresh hret
      | none =>
        have hmemory : NoMemory k r = true := by
          rw [FailsEarly, hret] at hok
          exact hok
        rcases (create_failed hinv hfresh hret).2 with ⟨_, hsame, _⟩ | ⟨hnot, _⟩
        · rw [hsame]
          exact hinv
        · rw [hmemory] at hnot
          cases hnot
    · cases hstep
  | .cleanup =>
    obtain ⟨k₁, hclean, hinv₁, _⟩ := hinv.cleanup
    have hstep : (match vmxCleanup k with
      | .ok k => some k
      | .error _ => none) = some k' := hstep
    rw [hclean] at hstep
    exact Option.some.inj hstep ▸ hinv₁

/-- **A creation that fails leaves no trace** if it is the memory at the start that
    cannot be had. Whatever fails, the VPIDs and the shared instance are as
    before, and the pages too unless `vmx_create_ept` fails. In every state of a
    run where creations fail in this way only, `vmx_cleanup` visits vCPUs in
    memory only and finds the count at zero. -/
theorem failed_create_no_trace {k : Kernel}
    (h : system.RunsTo (fun k l => FailsEarly k l = true) k) :
    (∃ k', vmxCleanup k = .ok k' ∧ k'.vcpus = [] ∧ k'.vmxInstance = none) ∧
    ∀ conf r, Fresh k r → (vmxCreateVcpu k conf r).2.2 = none →
      (NoMemory k r = true → (vmxCreateVcpu k conf r).1 = k ∧ (vmxCreateVcpu k conf r).2.1 = conf) ∧
      (vmxCreateVcpu k conf r).1.vpidBitmap = k.vpidBitmap ∧
      (vmxCreateVcpu k conf r).1.vmxInstance = k.vmxInstance ∧
      (r.notifier = true → (vmxCreateVcpu k conf r).1.pages = k.pages) := by
  have hinv := inv_of_run h
  obtain ⟨k', hclean, _, hend⟩ := hinv.cleanup
  refine ⟨⟨k', hclean, hend⟩, fun conf r hfresh hret => ?_⟩
  rcases (create_failed hinv hfresh hret).2 with ⟨_, hsame, hconf⟩ |
    ⟨hmemory, a, pages, _, _, hpages, hkernel, _⟩
  · rw [hsame]
    exact ⟨fun _ => ⟨rfl, hconf⟩, rfl, rfl, fun _ => rfl⟩
  · rw [hkernel]
    refine ⟨fun hmem => absurd (hmem.symm.trans hmemory) (by decide), rfl, rfl, fun hnotifier => ?_⟩
    rcases hpages with hpages | ⟨_, hfalse, _⟩
    · exact hpages
    · rw [hnotifier] at hfalse
      cases hfalse

/-- The state after the module has been loaded. -/
def boot : Kernel where
  live := fun _ => none
  vcpus := []
  vpidBitmap := fun i => i == 0
  vmxInstance := none
  pages := fun _ => false

theorem boot_init : system.init boot := ⟨fun _ => rfl, rfl, rfl, rfl⟩

/-- Memory for one vCPU. -/
def plenty : Resources where
  vcpu := some 4096
  common := true
  vmcs := some 1
  root := some 2
  notifier := true

def nothing : Resources where
  vcpu := none
  common := false
  vmcs := none
  root := none
  notifier := false

/-- With one vCPU, a creation without memory changes nothing, and clean-up works. -/
theorem failed_create_no_trace_second : ∃ k,
    system.RunsTo (fun k l => FailsEarly k l = true) k ∧ k.vcpus = [4096] ∧
      (vmxCreateVcpu k ⟨0⟩ nothing).1 = k ∧
      ∃ k', vmxCleanup k = .ok k' ∧ k'.vcpus = [] := by
  obtain ⟨k, hrun, htest⟩ := system.exists_runsTo FailsEarly boot_init [.create ⟨0⟩ plenty]
    (fun k => k.vcpus = [4096]) (by decide +kernel)
  have hfresh : Fresh k nothing := ⟨nofun, nofun, nofun⟩
  obtain ⟨⟨k', hclean, hnil, _⟩, hcreate⟩ := failed_create_no_trace hrun
  have hsame := (hcreate ⟨0⟩ nothing hfresh rfl).1 rfl
  exact ⟨k, hrun, htest, hsame.1, k', hclean, hnil⟩

/-- Without a VMCS region, the vCPU that has been freed stays in the list and in
    the configuration, and clean-up accesses it. Without a notifier, the root page
    stays in use although no instance is left. -/
theorem failed_create_leaves_vcpu :
    (∃ k, system.Reachable k ∧ k.vcpus = [4096] ∧ ∃ r, Fresh k r ∧ r.vcpu = some 8192 ∧
      (vmxCreateVcpu k ⟨0⟩ r).2.2 = none ∧ (vmxCreateVcpu k ⟨0⟩ r).1.vcpus = [8192, 4096] ∧
      (vmxCreateVcpu k ⟨0⟩ r).1.live 8192 = none ∧ (vmxCreateVcpu k ⟨0⟩ r).2.1.vcpu = 8192 ∧
      vmxCleanup (vmxCreateVcpu k ⟨0⟩ r).1 = .error .useAfterFree) ∧
    ∃ r, Fresh boot r ∧ (vmxCreateVcpu boot ⟨0⟩ r).2.2 = none ∧
      (vmxCreateVcpu boot ⟨0⟩ r).1.vmxInstance = none ∧
      boot.pages 2 = false ∧ (vmxCreateVcpu boot ⟨0⟩ r).1.pages 2 = true := by
  constructor
  · refine ⟨(vmxCreateVcpu boot ⟨0⟩ plenty).1, ?_, by decide +kernel,
      { nothing with vcpu := some 8192 }, by decide +kernel, rfl, by decide +kernel,
      by decide +kernel, by decide +kernel, by decide +kernel, rfl⟩
    have hfresh : Fresh boot plenty := by decide +kernel
    have hstep : system.step boot (.create ⟨0⟩ plenty) =
        some (vmxCreateVcpu boot ⟨0⟩ plenty).1 := by
      show (if Fresh boot plenty then some _ else none) = some _
      rw [if_pos hfresh]
    exact .step (.init boot_init) hstep
  · refine ⟨{ plenty with notifier := false }, ?_⟩
    decide +kernel

end Vcpus
