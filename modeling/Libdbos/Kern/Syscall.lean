import Libdbos.Framework.System
import Libdbos.Framework.Word

/-! # System Calls of the Guest

    A guest calls the host kernel with the instruction VMCALL. `vmx_launch`
    (`kern/vmx.c`) moves the instruction pointer behind the instruction that
    exited and hands the vCPU to `vmx_handle_syscall`, which serves a few numbers
    by itself and looks the others up in a copy of the kernel's table. Where the
    result asks for a restart, the handler moves the instruction pointer back by
    the three bytes of the opcode, so that the guest calls again.

    The kernel behind the handler is a parameter: `σ` is its state, and the
    functions of the table and `dune_do_fork` are arbitrary functions on it.
    Prefixes may stand before the opcode, so the instruction may be longer than
    the three bytes.

    The range check lets the number `NUM_SYSCALLS` pass, which is one past the end
    of the table (`number_past_table`). For every other number the call is served
    (`syscall_served`), and one that is restarted any number of times ends as if
    it had been served at once (`restarts_end`).
-/

namespace Syscall

open LTS

/-! ### State -/

/-- `enum vmx_reg`. -/
inductive Reg where
  | rax | rcx | rdx | rbx | rsp | rbp | rsi | rdi
  | r8 | r9 | r10 | r11 | r12 | r13 | r14 | r15
  | rip
  deriving DecidableEq, Repr

/-- The fields of the VMCS that a call reads or writes. -/
structure Vmcs where
  guestRip : Word
  guestRsp : Word
  guestRflags : Word
  exitInstructionLen : BitVec 32
  deriving DecidableEq, Repr

/-- The fields of `struct vmx_vcpu` that a call reads or writes. -/
structure Vcpu where
  /-- The guest's registers, except for the three that the VMCS holds. -/
  regs : Reg → Word
  vmcs : Vmcs
  shutdown : Bool
  retCode : Nat
  /-- `conf->status`. -/
  status : Word
  gcr3 : Word

/-- `struct pt_regs`. A field that an initialiser leaves out is zero. -/
structure PtRegs where
  ax : Word := 0
  origAx : Word := 0
  bx : Word := 0
  cx : Word := 0
  dx : Word := 0
  si : Word := 0
  di : Word := 0
  r8 : Word := 0
  r9 : Word := 0
  r10 : Word := 0
  r11 : Word := 0
  r12 : Word := 0
  r13 : Word := 0
  r14 : Word := 0
  r15 : Word := 0
  bp : Word := 0
  ip : Word := 0
  sp : Word := 0
  flags : Word := 0
  cs : Word := 0
  ss : Word := 0
  deriving DecidableEq, Repr

/-- The arguments of `dune_do_fork`. -/
structure ForkArgs where
  cloneFlags : Word
  stackStart : Word
  regs : PtRegs
  stackSize : Word := 0
  parentTid : Word := 0
  childTid : Word := 0
  tls : Word := 0
  deriving DecidableEq, Repr

/-- The host kernel as the handler sees it. -/
structure Kernel (σ : Type) where
  /-- `LINUX_VERSION_CODE`. -/
  version : Nat
  /-- What lies in memory from `SYSCALL_TBL` on. -/
  sysCallTable : Nat → PtRegs → σ → Word × σ
  duneDoFork : ForkArgs → σ → Word × σ
  nrCpuIds : Nat
  getCpu : σ → BitVec 32
  cpuOnline : σ → BitVec 32 → Bool
  smpSendReschedule : BitVec 32 → σ → σ

structure Machine (σ : Type) where
  vcpu : Vcpu
  /-- `dune_record_stat`. -/
  recordStat : Bool
  host : σ

/-- A read of the table at or beyond its length. -/
inductive Fault where
  | beyond (index : Nat)
  deriving DecidableEq, Repr

namespace Vcpu

variable (v : Vcpu)

def rax : Word := v.regs .rax

def setRax (w : Word) : Vcpu := { v with regs := Function.update v.regs .rax w }

@[simp] theorem rax_setRax (w : Word) : (v.setRax w).rax = w := by
  simp [rax, setRax]

/-- `vmcs_writel(GUEST_RIP, w)`. -/
def setRip (w : Word) : Vcpu := { v with vmcs := { v.vmcs with guestRip := w } }

def duneExit (errorCode : BitVec 32) : Vcpu :=
  { v with shutdown := true, retCode := 1, status := errorCode.signExtend 64 }

/-- `dune_exit_group`: the other threads are not told. -/
def duneExitGroup (errorCode : BitVec 32) : Vcpu := v.duneExit errorCode

/-- `make_pt_regs`: the child starts at the address in RCX. -/
def makePtRegs (sysnr : Word) : PtRegs where
  ax := sysnr
  origAx := v.regs .rax
  bx := v.regs .rbx
  cx := v.regs .rcx
  dx := v.regs .rdx
  si := v.regs .rsi
  di := v.regs .rdi
  r8 := v.regs .r8
  r9 := v.regs .r9
  r10 := v.regs .r10
  r11 := v.regs .r11
  r12 := v.regs .r12
  r13 := v.regs .r13
  r14 := v.regs .r14
  r15 := v.regs .r15
  bp := v.regs .rbp
  ip := v.regs .rcx
  sp := v.vmcs.guestRsp
  flags := (v.vmcs.guestRflags &&& 0xFF) ||| 0x200 ||| 0x2
  cs := 0x33
  ss := 0x2B

/-- The arguments for a function of the table. -/
def args : PtRegs where
  ax := v.regs .rax
  di := v.regs .rdi
  si := v.regs .rsi
  dx := v.regs .rdx
  r10 := v.regs .r10
  r8 := v.regs .r8
  r9 := v.regs .r9

end Vcpu

/-! ### Numbers -/

def nrClone : Word := 56
def nrFork : Word := 57
def nrVfork : Word := 58
def nrExit : Word := 60
def nrSigaltstack : Word := 131
def nrIopl : Word := 172
def nrRestartSyscall : Word := 219
def nrExitGroup : Word := 231
def nrClone3 : Word := 435

def einval : Word := 22
def enosys : Word := 38
def erestartsys : Word := 512
def erestartnointr : Word := 513
def erestartnohand : Word := 514
def erestartRestartblock : Word := 516

def sigchld : Word := 17
def cloneVm : Word := 0x100
def cloneVfork : Word := 0x4000

def kernelVersion (a b c : Nat) : Nat := a * 65536 + b * 256 + c

/-- `NUM_SYSCALLS`. -/
def numSyscalls (version : Nat) : Nat :=
  if kernelVersion 5 13 0 ≤ version then 547 else 312

/-! ### The handler -/

section Handler

variable {σ : Type} (k : Kernel σ) (m : Machine σ)

/-- `vmx_init_syscall`: the contents of `dune_syscall_tbl`. -/
def vmxInitSyscall : Fin (numSyscalls k.version) → PtRegs → σ → Word × σ :=
  fun i => k.sysCallTable i

/-- A call of a function of the kernel. -/
def Machine.call (f : σ → Word × σ) : Word × Machine σ :=
  ((f m.host).1, { m with host := (f m.host).2 })

/-- The read of `tbl[orig_rax]` and the call of the function found there. -/
def callTable (origRax : Word) : Except Fault (Word × Machine σ) :=
  if h : origRax.toNat < numSyscalls k.version then
    .ok (m.call (vmxInitSyscall k ⟨origRax.toNat, h⟩ m.vcpu.args))
  else .error (.beyond origRax.toNat)

def duneSysClone (cloneFlags newsp parentTid childTid tls : Word) : Word × Machine σ :=
  let regs := m.vcpu.makePtRegs nrClone
  m.call (k.duneDoFork ⟨cloneFlags, if newsp = 0 then regs.sp else newsp, regs, 0, parentTid,
    childTid, tls⟩)

def duneSysFork : Word × Machine σ :=
  let regs := m.vcpu.makePtRegs nrFork
  m.call (k.duneDoFork { cloneFlags := sigchld, stackStart := regs.sp, regs })

def duneSysVfork : Word × Machine σ :=
  let regs := m.vcpu.makePtRegs nrVfork
  m.call (k.duneDoFork
    { cloneFlags := cloneVfork ||| cloneVm ||| sigchld, stackStart := regs.sp, regs })

/-- The call 800: an interrupt that brings another CPU back to host mode. -/
def Machine.kick : Machine σ :=
  let cpu := (m.vcpu.regs .rdi).setWidth 32
  if cpu ≠ k.getCpu m.host ∧ cpu.toNat < k.nrCpuIds ∧ k.cpuOnline m.host cpu = true then
    { m with host := k.smpSendReschedule cpu m.host }
  else m

def Machine.setRax (w : Word) : Machine σ := { m with vcpu := m.vcpu.setRax w }

/-- The calls that return before a function is chosen. -/
def early : Option (Machine σ) :=
  if m.vcpu.rax = 801 then some (Machine.setRax { m with recordStat := true } 0)
  else if m.vcpu.rax = 802 then some (Machine.setRax { m with recordStat := false } 0)
  else if m.vcpu.rax = 800 then some ((m.kick k).setRax 0)
  else if numSyscalls k.version < m.vcpu.rax.toNat then some (m.setRax (-einval))
  else if m.vcpu.rax = nrSigaltstack ∨ m.vcpu.rax = nrIopl then some (m.setRax (-einval))
  else none

/-- The first `switch`: the result of the call with the number `orig_rax`. -/
def dispatch (origRax : Word) : Except Fault (Word × Machine σ) :=
  let reg := m.vcpu.regs
  if origRax = nrClone then
    .ok (duneSysClone k m (reg .rdi) (reg .rsi) (reg .rdx) (reg .r10) (reg .r8))
  else if origRax = nrClone3 then .ok (-enosys, m)
  else if origRax = nrFork then .ok (duneSysFork k m)
  else if origRax = nrVfork then .ok (duneSysVfork k m)
  else if origRax = nrExit then
    .ok (0, { m with vcpu := m.vcpu.duneExit ((reg .rdi).setWidth 32) })
  else if origRax = nrExitGroup then
    .ok (0, { m with vcpu := m.vcpu.duneExitGroup ((reg .rdi).setWidth 32) })
  else callTable k m origRax

/-- The second `switch`: the restart semantics. -/
def Vcpu.restart (v : Vcpu) (origRax : Word) : Vcpu :=
  if v.rax = -erestartnohand ∨ v.rax = -erestartsys ∨ v.rax = -erestartnointr then
    (v.setRax origRax).setRip (v.vmcs.guestRip - 3)
  else if v.rax = -erestartRestartblock then
    (v.setRax nrRestartSyscall).setRip (v.vmcs.guestRip - 3)
  else v

def vmxHandleSyscall : Except Fault (Machine σ) :=
  match early k m with
  | some m' => .ok m'
  | none => do
      let origRax := m.vcpu.rax
      let (ret, m') ← dispatch k m origRax
      return { m' with vcpu := (m'.vcpu.setRax ret).restart origRax }

/-- The address behind the instruction that exited. -/
def Vcpu.behind (v : Vcpu) : Word := v.vmcs.guestRip + v.vmcs.exitInstructionLen.setWidth 64

/-- `vmx_step_instruction`. -/
def Machine.stepInstruction : Machine σ := { m with vcpu := m.vcpu.setRip m.vcpu.behind }

/-- What `vmx_launch` does after a VMCALL exit. `gcr3` is its local variable. -/
def serveVmcall (gcr3 : Word) : Except Fault (Machine σ) := do
  let m' ← vmxHandleSyscall k m.stepInstruction
  return { m' with vcpu := { m'.vcpu with gcr3 := gcr3 } }

end Handler

/-! ### The guest -/

/-- The bytes of VMCALL at an address of the guest. -/
def VmcallAt (code : Word → BitVec 8) (a : Word) : Prop :=
  code a = 0x0F ∧ code (a + 1) = 0x01 ∧ code (a + 2) = 0xC1

instance decidableVmcallAt (code : Word → BitVec 8) (a : Word) : Decidable (VmcallAt code a) :=
  inferInstanceAs (Decidable (_ ∧ _ ∧ _))

/-- A vCPU that has exited at a VMCALL: the opcode stands at the end of the instruction. -/
def AtVmcall (code : Word → BitVec 8) (v : Vcpu) : Prop :=
  VmcallAt code (v.behind - 3)

instance decidableAtVmcall (code : Word → BitVec 8) (v : Vcpu) : Decidable (AtVmcall code v) :=
  inferInstanceAs (Decidable (VmcallAt _ _))

/-- The guest goes on at its instruction pointer. If a VMCALL stands there, the vCPU exits with
    the registers it had. -/
def Vcpu.execute (code : Word → BitVec 8) (v : Vcpu) : Option Vcpu :=
  if VmcallAt code v.vmcs.guestRip then
    some { v with vmcs := { v.vmcs with exitInstructionLen := 3 } }
  else none

/-! ### What a call leaves behind -/

/-- The guest of `w` goes on at `rip` with `a` in RAX and everything else as in `v`. -/
structure Resumes (v w : Vcpu) (a rip : Word) : Prop where
  regs : w.regs = Function.update v.regs .rax a
  rip : w.vmcs.guestRip = rip
  rsp : w.vmcs.guestRsp = v.vmcs.guestRsp
  rflags : w.vmcs.guestRflags = v.vmcs.guestRflags

/-- The results that ask for a restart. -/
def asksRestart (ret : Word) : Bool :=
  ret = -erestartnohand || ret = -erestartsys || ret = -erestartnointr ||
    ret = -erestartRestartblock

/-- The number of the call after a restart. -/
def restartNumber (origRax ret : Word) : Word :=
  if ret = -erestartRestartblock then nrRestartSyscall else origRax

section Served

variable {σ : Type} {k : Kernel σ} {m m' : Machine σ} {ret : Word}

/-- The result of a call: that of the function chosen, or the handler's own. -/
def result (k : Kernel σ) (m : Machine σ) : Except Fault Word :=
  match early k m with
  | some m' => .ok m'.vcpu.rax
  | none => (dispatch k m m.vcpu.rax).map Prod.fst

/-- An early return puts 0 or an error into RAX. -/
theorem early_resumes (h : early k m = some m') :
    asksRestart m'.vcpu.rax = false ∧ Resumes m.vcpu m'.vcpu m'.vcpu.rax m.vcpu.vmcs.guestRip := by
  have hset : ∀ {n : Machine σ} {w : Word}, some (n.setRax w) = some m' → n.vcpu = m.vcpu →
      asksRestart w = false → asksRestart m'.vcpu.rax = false ∧
        Resumes m.vcpu m'.vcpu m'.vcpu.rax m.vcpu.vmcs.guestRip := by
    intro n w hm hn hw
    obtain rfl := Option.some.inj hm
    simp only [Machine.setRax, hn, Vcpu.rax_setRax]
    exact ⟨hw, rfl, rfl, rfl, rfl⟩
  have hkick : (m.kick k).vcpu = m.vcpu := by
    unfold Machine.kick
    dsimp only
    split <;> rfl
  simp only [early] at h
  split at h; · exact hset h rfl (by decide)
  split at h; · exact hset h rfl (by decide)
  split at h; · exact hset h hkick (by decide)
  split at h; · exact hset h rfl (by decide)
  split at h; · exact hset h rfl (by decide)
  cases h

/-- The range check is one too wide. -/
theorem le_of_early_none (h : early k m = none) : m.vcpu.rax.toNat ≤ numSyscalls k.version := by
  simp only [early] at h
  split at h; · cases h
  split at h; · cases h
  split at h; · cases h
  split at h; · cases h
  omega

/-- A function that is called leaves the guest's registers to the handler. -/
theorem dispatch_ok {origRax : Word} (h : origRax.toNat < numSyscalls k.version) :
    ∃ ret m', dispatch k m origRax = .ok (ret, m') ∧ m'.vcpu.regs = m.vcpu.regs ∧
      m'.vcpu.vmcs = m.vcpu.vmcs := by
  simp only [dispatch]
  split; · exact ⟨_, _, rfl, rfl, rfl⟩
  split; · exact ⟨_, _, rfl, rfl, rfl⟩
  split; · exact ⟨_, _, rfl, rfl, rfl⟩
  split; · exact ⟨_, _, rfl, rfl, rfl⟩
  split; · exact ⟨_, _, rfl, rfl, rfl⟩
  split; · exact ⟨_, _, rfl, rfl, rfl⟩
  rw [callTable, dif_pos h]
  exact ⟨_, _, rfl, rfl, rfl⟩

/-- The restart semantics, for a vCPU with the result in RAX. -/
theorem restart_resumes (v : Vcpu) (origRax ret : Word) :
    Resumes v ((v.setRax ret).restart origRax)
      (if asksRestart ret then restartNumber origRax ret else ret)
      (if asksRestart ret then v.vmcs.guestRip - 3 else v.vmcs.guestRip) := by
  have htwice : ∀ a, ((v.setRax ret).setRax a).regs = Function.update v.regs .rax a :=
    fun a => Function.update_idem ..
  unfold Vcpu.restart
  rw [Vcpu.rax_setRax]
  split
  next h =>
    -- None of the three is the code of a restart block.
    have hasks : asksRestart ret = true ∧ ret ≠ -erestartRestartblock := by
      rcases h with rfl | rfl | rfl <;> decide
    rw [if_pos hasks.1, if_pos hasks.1, restartNumber, if_neg hasks.2]
    exact ⟨htwice _, rfl, rfl, rfl⟩
  next h =>
    split
    next hblock =>
      subst hblock
      exact ⟨htwice _, rfl, rfl, rfl⟩
    next hblock =>
      have hasks : asksRestart ret = false := by
        simp only [asksRestart]
        simp_all
      rw [hasks]
      exact ⟨rfl, rfl, rfl, rfl⟩

/-- A number other than the length of the table is served, whatever the kernel answers. -/
theorem vmxHandleSyscall_resumes (hnr : m.vcpu.rax.toNat ≠ numSyscalls k.version) :
    ∃ ret m', result k m = .ok ret ∧ vmxHandleSyscall k m = .ok m' ∧
      Resumes m.vcpu m'.vcpu (if asksRestart ret then restartNumber m.vcpu.rax ret else ret)
        (if asksRestart ret then m.vcpu.vmcs.guestRip - 3 else m.vcpu.vmcs.guestRip) := by
  unfold result vmxHandleSyscall
  cases he : early k m with
  | some m' =>
    obtain ⟨hasks, hr⟩ := early_resumes he
    refine ⟨_, _, rfl, rfl, ?_⟩
    rw [hasks]
    exact hr
  | none =>
    have hlt := Nat.lt_of_le_of_ne (le_of_early_none he) hnr
    obtain ⟨ret, m', hd, hregs, hvmcs⟩ := dispatch_ok (m := m) hlt
    refine ⟨ret, { m' with vcpu := (m'.vcpu.setRax ret).restart m.vcpu.rax }, ?_, ?_, ?_⟩
    · simp only [hd, Except.map]
    · simp only [hd]
      rfl
    · have hr := restart_resumes m'.vcpu m.vcpu.rax ret
      rw [hvmcs] at hr
      exact ⟨by rw [hr.regs, hregs], hr.rip, by rw [hr.rsp, hvmcs], by rw [hr.rflags, hvmcs]⟩

/-- The same for the exit as a whole. -/
theorem serveVmcall_resumes (gcr3 : Word) (hnr : m.vcpu.rax.toNat ≠ numSyscalls k.version) :
    ∃ ret m', result k m.stepInstruction = .ok ret ∧ serveVmcall k m gcr3 = .ok m' ∧
      Resumes m.vcpu m'.vcpu (if asksRestart ret then restartNumber m.vcpu.rax ret else ret)
        (if asksRestart ret then m.vcpu.behind - 3 else m.vcpu.behind) := by
  obtain ⟨ret, m', hresult, hhandle, hr⟩ := vmxHandleSyscall_resumes (m := m.stepInstruction) hnr
  refine ⟨ret, { m' with vcpu := { m'.vcpu with gcr3 := gcr3 } }, hresult, ?_, ?_⟩
  · unfold serveVmcall
    rw [hhandle]
    rfl
  · exact ⟨hr.regs, hr.rip, hr.rsp, hr.rflags⟩

/-- The number that is the length of the table passes the range check and is read past the end. -/
theorem vmxHandleSyscall_beyond (hnr : m.vcpu.rax.toNat = numSyscalls k.version) :
    vmxHandleSyscall k m = .error (.beyond (numSyscalls k.version)) := by
  have hother (w : Word) (hw : w.toNat ≠ 547 ∧ w.toNat ≠ 312) : m.vcpu.rax ≠ w := by
    rintro rfl
    rw [numSyscalls] at hnr
    split at hnr
    · exact hw.1 hnr
    · exact hw.2 hnr
  have hearly : early k m = none := by
    rw [early, if_neg (hother _ (by decide)), if_neg (hother _ (by decide)),
      if_neg (hother _ (by decide)), if_neg (Nat.not_lt.mpr (Nat.le_of_eq hnr)),
      if_neg (not_or.mpr ⟨hother _ (by decide), hother _ (by decide)⟩)]
  have hdispatch : dispatch k m m.vcpu.rax = .error (.beyond (numSyscalls k.version)) := by
    simp only [dispatch]
    rw [if_neg (hother _ (by decide)), if_neg (hother _ (by decide)), if_neg (hother _ (by decide)),
      if_neg (hother _ (by decide)), if_neg (hother _ (by decide)), if_neg (hother _ (by decide)),
      callTable, dif_neg (Nat.not_lt.mpr (Nat.le_of_eq hnr.symm)), hnr]
  unfold vmxHandleSyscall
  rw [hearly]
  simp only [hdispatch]
  rfl

theorem serveVmcall_beyond (gcr3 : Word) (hnr : m.vcpu.rax.toNat = numSyscalls k.version) :
    serveVmcall k m gcr3 = .error (.beyond (numSyscalls k.version)) := by
  rw [serveVmcall, vmxHandleSyscall_beyond (m := m.stepInstruction) hnr]
  rfl

/-- A guest that goes on where the opcode stands calls again, with the registers it has. -/
theorem execute_restarted {code : Word → BitVec 8} {v w : Vcpu} {a : Word}
    (hexit : AtVmcall code v) (hr : Resumes v w a (v.behind - 3)) :
    ∃ w', w.execute code = some w' ∧ Resumes v w' a (v.behind - 3) ∧ w'.behind = v.behind := by
  have hcode : VmcallAt code w.vmcs.guestRip := by
    rw [hr.rip]
    exact hexit
  refine ⟨_, if_pos hcode, ⟨hr.regs, hr.rip, hr.rsp, hr.rflags⟩, ?_⟩
  show w.vmcs.guestRip + _ = _
  rw [hr.rip]
  exact BitVec.sub_add_cancel ..

end Served

/-! ### Calls of the guest -/

/-- The call stays inside the table. A result that asks for a restart has the guest execute its
    VMCALL again with the same arguments; every other result is in RAX, with the other registers
    as they were. -/
def Served {σ : Type} (k : Kernel σ) (code : Word → BitVec 8) (m : Machine σ) (gcr3 : Word) :
    Prop :=
  ∃ ret m', result k m.stepInstruction = .ok ret ∧ serveVmcall k m gcr3 = .ok m' ∧
    (asksRestart ret = true → ∃ w, m'.vcpu.execute code = some w ∧ w.behind = m.vcpu.behind ∧
      Resumes m.vcpu w (restartNumber m.vcpu.rax ret) (m.vcpu.behind - 3)) ∧
    (asksRestart ret = false → Resumes m.vcpu m'.vcpu ret m.vcpu.behind)

/-- **System Calls.** For every state at a VMCALL exit and every answer of the kernel, the call
    is served if and only if its number is not `NUM_SYSCALLS`. -/
theorem syscall_served {σ : Type} (k : Kernel σ) (code : Word → BitVec 8) (m : Machine σ)
    (gcr3 : Word) (hexit : AtVmcall code m.vcpu) :
    Served k code m gcr3 ↔ m.vcpu.rax.toNat ≠ numSyscalls k.version := by
  constructor
  · rintro ⟨ret, m', -, hserve, -⟩ hnr
    rw [serveVmcall_beyond gcr3 hnr] at hserve
    cases hserve
  intro hnr
  obtain ⟨ret, m', hresult, hserve, hr⟩ := serveVmcall_resumes (m := m) gcr3 hnr
  refine ⟨ret, m', hresult, hserve, ?_, ?_⟩
  · intro hasks
    rw [hasks] at hr
    obtain ⟨w, hw, hagain, hbehind⟩ := execute_restarted hexit hr
    exact ⟨w, hw, hbehind, hagain⟩
  · intro hasks
    rw [hasks] at hr
    exact hr

/-- Linux 5.13 on one CPU, with functions that all answer in the same way. -/
def answering {σ : Type} (answer : σ → Word × σ) : Kernel σ where
  version := kernelVersion 5 13 0
  sysCallTable := fun _ _ => answer
  duneDoFork := fun _ => answer
  nrCpuIds := 1
  getCpu := fun _ => 0
  cpuOnline := fun _ _ => true
  smpSendReschedule := fun _ s => s

/-- A guest with one VMCALL, at address 0x1000, and the number `nr` in RAX. -/
def calling {σ : Type} (nr : Word) (host : σ) : Machine σ where
  vcpu := ⟨fun r => if r = .rax then nr else 7, ⟨0x1000, 0x8000, 2, 3⟩, false, 0, 0, 0⟩
  recordStat := false
  host := host

/-- A signal interrupts the first call; the next one answers 42. -/
def interrupted (again : Bool) : Word × Bool := (if again then 42 else -erestartsys, true)

def oneVmcall (a : Word) : BitVec 8 :=
  if a = 0x1000 then 0x0F else if a = 0x1001 then 0x01 else 0xC1

/-- A `read` that a signal interrupts. -/
theorem syscall_served_read :
    ∃ m', serveVmcall (answering interrupted) (calling 0 false) 0 = .ok m' ∧
      ∃ w, m'.vcpu.execute oneVmcall = some w ∧ Resumes (calling 0 false).vcpu w 0 0x1000 := by
  obtain ⟨ret, m', hresult, hserve, hagain, -⟩ :=
    (syscall_served (answering interrupted) oneVmcall (calling 0 false) 0 (by decide)).mpr
      (by decide)
  obtain rfl : -erestartsys = ret := Except.ok.inj hresult
  obtain ⟨w, hw, -, hr⟩ := hagain (by decide)
  exact ⟨m', hserve, w, hw, hr⟩

/-- The call with the number 547, which is the length of the table. -/
theorem number_past_table : AtVmcall oneVmcall (calling 547 false).vcpu ∧
    serveVmcall (answering interrupted) (calling 547 false) 0 =
      .error (.beyond (numSyscalls (answering interrupted).version)) :=
  ⟨by decide, rfl⟩

/-! ### Restarted calls -/

/-- The exits of one call: every result asks for a restart, and the guest calls again. A label
    is the value of `gcr3` at the exit. -/
def restarts {σ : Type} (k : Kernel σ) (code : Word → BitVec 8) (m₀ : Machine σ) :
    System (Machine σ) Word where
  init m := m = m₀
  step m gcr3 :=
    match result k m.stepInstruction, serveVmcall k m gcr3 with
    | .ok ret, .ok m' =>
        if asksRestart ret then
          (m'.vcpu.execute code).map fun v => { m' with vcpu := v }
        else none
    | _, _ => none

/-- Exits of the same call: the number is the original one or `restart_syscall`. -/
structure SameCall (v w : Vcpu) : Prop where
  number : w.rax = v.rax ∨ w.rax = nrRestartSyscall
  resumes : Resumes v w w.rax w.vmcs.guestRip
  behind : w.behind = v.behind

section Restarts

variable {σ : Type} {k : Kernel σ} {code : Word → BitVec 8} {m₀ m m' : Machine σ}

theorem Resumes.rax_eq {v w : Vcpu} {a r : Word} (h : Resumes v w a r) : w.rax = a := by
  rw [Vcpu.rax, h.regs, Function.update_self]

theorem Resumes.trans {u v w : Vcpu} {a b r r' : Word} (h : Resumes u v a r)
    (h' : Resumes v w b r') : Resumes u w b r' where
  regs := by rw [h'.regs, h.regs, Function.update_idem]
  rip := h'.rip
  rsp := h'.rsp.trans h.rsp
  rflags := h'.rflags.trans h.rflags

theorem SameCall.refl (v : Vcpu) : SameCall v v :=
  ⟨.inl rfl, ⟨(Function.update_eq_self ..).symm, rfl, rfl, rfl⟩, rfl⟩

/-- Neither of the two numbers is one past the table. -/
theorem SameCall.number_ne {v w : Vcpu} (h : SameCall v w) {version : Nat}
    (hnr : v.rax.toNat ≠ numSyscalls version) : w.rax.toNat ≠ numSyscalls version := by
  rcases h.number with hrax | hrax
  · rw [hrax]
    exact hnr
  · rw [hrax, numSyscalls]
    split <;> decide

/-- One restart. -/
theorem SameCall.step (hsame : SameCall m₀.vcpu m.vcpu) (hexit : AtVmcall code m₀.vcpu)
    (hnr : m₀.vcpu.rax.toNat ≠ numSyscalls k.version) {gcr3 : Word}
    (h : (restarts k code m₀).step m gcr3 = some m') : SameCall m₀.vcpu m'.vcpu := by
  obtain ⟨ret, n, hresult, hserve, hr⟩ := serveVmcall_resumes gcr3 (hsame.number_ne hnr)
  simp only [restarts, hresult, hserve] at h
  split at h
  next hasks =>
    rw [hasks] at hr
    have hat : AtVmcall code m.vcpu := by
      rw [AtVmcall, hsame.behind]
      exact hexit
    obtain ⟨w, hw, hagain, hbehind⟩ := execute_restarted hat hr
    rw [hw] at h
    obtain rfl := Option.some.inj h
    refine ⟨?_, ?_, hbehind.trans hsame.behind⟩
    · -- After a restart block the number is `restart_syscall` for good.
      rw [hagain.rax_eq, if_pos rfl, restartNumber]
      split
      · exact .inr rfl
      · exact hsame.number
    · rw [hagain.rax_eq, hagain.rip]
      exact hsame.resumes.trans hagain
  next => cases h

/-- **Restarts**: after any number of restarts every call is still inside the table, and the
    first result that asks for no other one is returned as if it had been the only one. -/
theorem restarts_end (h : (restarts k code m₀).Reachable m) (hexit : AtVmcall code m₀.vcpu)
    (hnr : m₀.vcpu.rax.toNat ≠ numSyscalls k.version) (gcr3 : Word) :
    ∃ ret m', result k m.stepInstruction = .ok ret ∧ serveVmcall k m gcr3 = .ok m' ∧
      (asksRestart ret = false → Resumes m₀.vcpu m'.vcpu ret m₀.vcpu.behind) := by
  have hsame : SameCall m₀.vcpu m.vcpu := by
    induction h with
    | init hinit => exact hinit ▸ SameCall.refl _
    | step _ hstep ih => exact ih.step hexit hnr hstep
  obtain ⟨ret, m', hresult, hserve, hr⟩ := serveVmcall_resumes gcr3 (hsame.number_ne hnr)
  refine ⟨ret, m', hresult, hserve, fun hasks => ?_⟩
  rw [hasks] at hr
  rw [← hsame.behind]
  exact hsame.resumes.trans hr

/-- A `read` that is interrupted once, and has 42 bytes the second time. -/
theorem restarts_end_read : ∃ m m',
    (restarts (answering interrupted) oneVmcall (calling 0 false)).step (calling 0 false) 0 =
      some m ∧
    serveVmcall (answering interrupted) m 0 = .ok m' ∧
    Resumes (calling 0 false).vcpu m'.vcpu 42 0x1003 := by
  obtain ⟨m, hm⟩ : ∃ m, (restarts (answering interrupted) oneVmcall (calling 0 false)).step
      (calling 0 false) 0 = some m := ⟨_, rfl⟩
  obtain ⟨ret, m', hresult, hserve, hend⟩ := restarts_end (.step (.init rfl) hm) (by decide)
    (by decide) 0
  obtain rfl := Option.some.inj hm
  obtain rfl : 42 = ret := Except.ok.inj hresult
  exact ⟨_, m', rfl, hserve, hend (by decide)⟩

end Restarts

end Syscall
