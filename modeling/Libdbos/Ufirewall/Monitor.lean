import Libdbos.Framework.Bytes
import Libdbos.Ufirewall.Rules

/-! # Firewall Decisions

    `firewall_check_bind`, `firewall_check_connect` and `syscall_monitor` of
    `apps/ufirewall/firewall.c`.

    The list of rules is the file backwards, so the first rule that matches is
    the last one of the file. The test for a network compares `ip & rule->ip`
    with `ip & rule->mask`, which is not the test whether the address is in the
    network. The monitor looks only at addresses of exactly
    `sizeof(struct sockaddr_in)` bytes, where the kernel takes longer ones.
-/

namespace Ufirewall

open CText

/-! ## Decisions -/

def firewallCheckBind (rules : List Rule) (port : BitVec 16) : Bool :=
  match rules with
  | [] => false
  | .bind p :: rules => if p = 0 ∨ p = port then true else firewallCheckBind rules port
  | .connect .. :: rules => firewallCheckBind rules port

def firewallCheckConnect (rules : List Rule) (port : BitVec 16) (ip : BitVec 32) : Bool :=
  match rules with
  | [] => false
  | .bind _ :: rules => firewallCheckConnect rules port ip
  | .connect allow p net mask :: rules =>
    if ip &&& net = ip &&& mask ∧ (p = 0 ∨ p = port) then allow
    else firewallCheckConnect rules port ip

/-- Whether the code takes a rule for one about connections to this port and address. -/
def Rule.matches (port : BitVec 16) (ip : BitVec 32) : Rule → Bool
  | .bind _ => false
  | .connect _ p net mask => ip &&& net = ip &&& mask ∧ (p = 0 ∨ p = port)

/-- Whether a rule is about connections to this port and address: its port is the wildcard
    or equal, and its network contains the address. -/
def Rule.applies (port : BitVec 16) (ip : BitVec 32) : Rule → Bool
  | .bind _ => false
  | .connect _ p net mask => (p = 0 ∨ p = port) ∧ ip &&& mask = net &&& mask

def Rule.allows : Rule → Bool
  | .bind _ => false
  | .connect allow .. => allow

/-- The first rule that passes the test decides; without one, the answer is no. -/
def firstAllows (test : Rule → Bool) (rules : List Rule) : Bool :=
  (rules.find? test).any Rule.allows

/-- The rules of a file, in its order, allow a connection when the last one that applies does. -/
def Allows (rules : List Rule) (port : BitVec 16) (ip : BitVec 32) : Prop :=
  ((rules.filter (Rule.applies port ip)).getLast?).any Rule.allows = true

/-- The condition, for the rules of a file from the last one on: the tests agree until one of
    the rules passes both, or the first rule that passes only one of them decides as the rules
    before it do under the other. -/
def Undisturbed (port : BitVec 16) (ip : BitVec 32) : List Rule → Prop
  | [] => True
  | r :: earlier =>
    match r.matches port ip, r.applies port ip with
    | true, true => True
    | true, false => r.allows = firstAllows (Rule.applies port ip) earlier
    | false, true => r.allows = firstAllows (Rule.matches port ip) earlier
    | false, false => Undisturbed port ip earlier

/-- The loop stops at the first rule that passes its test. -/
theorem firewallCheckConnect_eq (rules : List Rule) (port : BitVec 16) (ip : BitVec 32) :
    firewallCheckConnect rules port ip = firstAllows (Rule.matches port ip) rules := by
  induction rules with
  | nil => rfl
  | cons r rules ih =>
    cases r with
    | bind p =>
      rw [firewallCheckConnect, ih, firstAllows, firstAllows, List.find?_cons_of_neg]
      exact Bool.false_ne_true
    | connect allow p net mask =>
      rw [firewallCheckConnect, ih, firstAllows, firstAllows, List.find?_cons]
      split
      next hmatch =>
        have htest : (Rule.connect allow p net mask).matches port ip = true := decide_eq_true hmatch
        rw [htest]
        rfl
      next hmatch =>
        have htest : (Rule.connect allow p net mask).matches port ip = false :=
          decide_eq_false hmatch
        rw [htest]

/-- Each of the tests decides alike under the condition, and only then. -/
theorem firstAllows_eq_iff (port : BitVec 16) (ip : BitVec 32) (rules : List Rule) :
    firstAllows (Rule.matches port ip) rules = firstAllows (Rule.applies port ip) rules ↔
      Undisturbed port ip rules := by
  induction rules with
  | nil => exact iff_of_true rfl trivial
  | cons r earlier ih =>
    rw [Undisturbed]
    unfold firstAllows at ih ⊢
    rw [List.find?_cons, List.find?_cons]
    cases r.matches port ip <;> cases r.applies port ip
    · exact ih
    · exact eq_comm
    · exact Iff.rfl
    · exact iff_of_true rfl trivial

/-- **Decisions follow the rules**: for every file that the parser accepts, every port and
    every address, if and only if no rule on which the tests differ turns the decision. -/
theorem check_connect_follows_rules (b : Buffers) (file : List Char) (rules : List Rule)
    (hparse : firewallParse b (some file) = .ok rules) (port : BitVec 16) (ip : BitVec 32) :
    (firewallCheckConnect rules port ip = true ↔
      Allows (storedRules b (fgetsAll 100 file)) port ip) ↔
    Undisturbed port ip (storedRules b (fgetsAll 100 file)).reverse := by
  have hallows : Allows (storedRules b (fgetsAll 100 file)) port ip ↔
      firstAllows (Rule.applies port ip) (storedRules b (fgetsAll 100 file)).reverse = true := by
    rw [firstAllows, ← List.head?_filter, List.filter_reverse, List.head?_reverse, Allows]
  rw [firewallParse_ok hparse, firewallCheckConnect_eq, hallows, ← Bool.eq_iff_iff]
  exact firstAllows_eq_iff port ip _

/-- One rule applies to 8.8.8.8, and one does not. -/
theorem check_connect_follows_rules_plain : firewallCheckConnect
    [.connect true 0 0 0, .bind 80] 443 0x08080808 = true ↔
      Allows (storedRules noBuffers (fgetsAll 100 plainFile)) 443 0x08080808 := by
  refine (check_connect_follows_rules noBuffers plainFile _ (by decide +kernel) 443 _).mpr ?_
  have hstored : (storedRules noBuffers (fgetsAll 100 plainFile)).reverse =
      [.connect true 0 0 0, .bind 80] := by decide +kernel
  rw [hstored]
  exact trivial

/-- Connections to 10.0.0.0/8 are allowed; 8.0.0.1 is not in this network. -/
def privateNet : List Char := "allow connect * 10.0.0.0 255.0.0.0\n".toList

theorem outside_address_allowed :
    firewallParse noBuffers (some privateNet) = .ok [.connect true 0 0x0a000000 0xff000000] ∧
    firewallCheckConnect [.connect true 0 0x0a000000 0xff000000] 80 0x08000001 = true ∧
    ¬ Allows (storedRules noBuffers (fgetsAll 100 privateNet)) 80 0x08000001 := by
  refine ⟨by decide +kernel, by decide, ?_⟩
  unfold Allows
  decide +kernel

/-! ## The monitor -/

open Bytes

/-- The registers of a system call that the monitor reads. -/
structure TrapFrame where
  rax : BitVec 64
  arg1 : BitVec 64
  arg2 : BitVec 64

def nrBind : BitVec 64 := 49
def nrConnect : BitVec 64 := 42
def afInet : Nat := 2
def sizeofSockaddrIn : Nat := 16
def eperm : Int := 1

/-- The memory of the process. -/
abbrev Memory := BitVec 64 → Byte

/-- `n` bytes from an address on. -/
def Memory.bytes (mem : Memory) (addr : BitVec 64) (n : Nat) : List Byte :=
  (List.range n).map fun i => mem (addr + BitVec.ofNat 64 i)

def Memory.sinFamily (mem : Memory) (addr : BitVec 64) : Nat := ofLE (mem.bytes addr 2)

/-- `ntohs(a->sin_port)`. -/
def Memory.sinPort (mem : Memory) (addr : BitVec 64) : BitVec 16 :=
  BitVec.ofNat 16 (ofBE (mem.bytes (addr + 2) 2))

/-- `a->sin_addr.s_addr`, with the most significant byte first. -/
def Memory.sinAddr (mem : Memory) (addr : BitVec 64) : BitVec 32 :=
  BitVec.ofNat 32 (ofBE (mem.bytes (addr + 4) 4))

/-- The length is cut to the 32 bits of a `socklen_t`. -/
def TrapFrame.len (tf : TrapFrame) : Nat := (tf.arg2.setWidth 32).toNat

def checkBind (rules : List Rule) (mem : Memory) (tf : TrapFrame) : Bool :=
  if tf.len = sizeofSockaddrIn ∧ mem.sinFamily tf.arg1 = afInet then
    firewallCheckBind rules (mem.sinPort tf.arg1)
  else true

def checkConnect (rules : List Rule) (mem : Memory) (tf : TrapFrame) : Bool :=
  if tf.len = sizeofSockaddrIn ∧ mem.sinFamily tf.arg1 = afInet then
    firewallCheckConnect rules (mem.sinPort tf.arg1) (mem.sinAddr tf.arg1)
  else true

/-- A refused call gets `-EPERM`. -/
def refuse (status : Bool) (tf : TrapFrame) : Bool × TrapFrame :=
  (status, if status then tf else { tf with rax := BitVec.ofInt 64 (-eperm) })

/-- `syscall_monitor`: whether the call is let through, and the registers after it. -/
def syscallMonitor (rules : List Rule) (mem : Memory) (tf : TrapFrame) : Bool × TrapFrame :=
  if tf.rax = nrBind then refuse (checkBind rules mem tf) tf
  else if tf.rax = nrConnect then refuse (checkConnect rules mem tf) tf
  else (true, tf)

/-- The kernel acts on an IPv4 address of at least the size of a `struct sockaddr_in`. -/
def KernelActs (mem : Memory) (tf : TrapFrame) : Prop :=
  sizeofSockaddrIn ≤ tf.len ∧ mem.sinFamily tf.arg1 = afInet

/-- What the rules say of a call. -/
def Permitted (rules : List Rule) (mem : Memory) (tf : TrapFrame) : Prop :=
  (tf.rax = nrBind → firewallCheckBind rules (mem.sinPort tf.arg1) = true) ∧
    (tf.rax = nrConnect →
      firewallCheckConnect rules (mem.sinPort tf.arg1) (mem.sinAddr tf.arg1) = true)

/-- **No bypass**: whatever the rules, a call that the kernel would act on is let through only
    if they permit it, if and only if its length is exactly that of a `struct sockaddr_in`. -/
theorem monitor_enforces (mem : Memory) (tf : TrapFrame)
    (hcall : tf.rax = nrBind ∨ tf.rax = nrConnect) (hacts : KernelActs mem tf) :
    (∀ rules, (syscallMonitor rules mem tf).1 = true → Permitted rules mem tf) ↔
      tf.len = sizeofSockaddrIn := by
  constructor
  · intro henforced
    -- Without any rules, all calls are to be refused.
    by_contra hlen
    have hpass : (syscallMonitor [] mem tf).1 = true := by
      have hskip : ¬(tf.len = sizeofSockaddrIn ∧ mem.sinFamily tf.arg1 = afInet) :=
        fun h => hlen h.1
      rw [syscallMonitor, checkBind, checkConnect, if_neg hskip, if_neg hskip]
      split
      · rfl
      · split <;> rfl
    obtain ⟨hbind, hconnect⟩ := henforced [] hpass
    rcases hcall with hcall | hcall
    · exact Bool.false_ne_true (hbind hcall)
    · exact Bool.false_ne_true (hconnect hcall)
  · intro hlen rules hpass
    constructor
    · intro hbind
      rw [syscallMonitor, if_pos hbind, refuse, checkBind, if_pos ⟨hlen, hacts.2⟩] at hpass
      exact hpass
    · intro hconnect
      rw [syscallMonitor, if_neg (by rw [hconnect]; decide), if_pos hconnect, refuse, checkConnect,
        if_pos ⟨hlen, hacts.2⟩] at hpass
      exact hpass

/-- An address 0.0.0.0 of the family `AF_INET` with port 80, wherever it is read. -/
def port80 : Memory := fun a => if a = 0 then 2 else if a = 3 then 80 else 0

theorem monitor_enforces_bind : Permitted [.bind 80] port80 ⟨nrBind, 0, 16⟩ :=
  (monitor_enforces port80 ⟨nrBind, 0, 16⟩ (.inl rfl) ⟨by decide, by decide⟩).mpr (by decide)
    [.bind 80] (by decide)

/-- With no rules at all, a `struct sockaddr_in` that is said to be a byte longer is let
    through. -/
theorem long_address_passes : KernelActs port80 ⟨nrConnect, 0, 17⟩ ∧
    (syscallMonitor [] port80 ⟨nrConnect, 0, 17⟩).1 = true ∧
    ¬ Permitted [] port80 ⟨nrConnect, 0, 17⟩ := by
  refine ⟨⟨by decide, by decide⟩, by decide, ?_⟩
  rintro ⟨-, hconnect⟩
  exact absurd (hconnect rfl) (by decide)

end Ufirewall
