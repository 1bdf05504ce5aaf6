import Libdbos.Framework.Word
import Mathlib.Data.Option.Basic

/-! # System Calls of the Snapshot Core

    The host kernel must not see a page that is copy-on-write on the snapshot core, so
    `dune_fast_spawn_syscall_handler` (`fast_spawn.c`) passes the data of `read`,
    `write`, `open` and `epoll_wait` through a staging buffer of its own.

    The kernel is a parameter: its reply depends on the arguments, on the bytes that it
    reads at the pointer and on how many bytes it can reach there, not on the pointer.
    The counters of the handler are left out. `none` stands for a call that does not
    return: a fault in the library or a failed assertion.

    `dune_sys_patch_read` copies `count` bytes back whatever the kernel returned
    (`short_read_overwrites`), and the library faults where the kernel would find that
    memory is not mapped. A staged call is the call itself exactly where that makes no
    difference (`staged_call_transparent`).
-/

namespace StagedCalls

/-! ### Memory -/

abbrev Byte := BitVec 8

/-- The memory that a core sees; `none` where nothing is mapped. -/
abbrev Mem := Word → Option Byte

/-- Every byte of a range is mapped. -/
def Mapped (m : Mem) (p : Word) (n : Nat) : Prop :=
  ∀ i < n, (m (p + BitVec.ofNat 64 i)).isSome

/-- The bytes at `p` up to the first that is not mapped, `n` at most. -/
def readable (m : Mem) : Nat → Word → List Byte
  | 0, _ => []
  | n + 1, p =>
    match m p with
    | none => []
    | some b => b :: readable m n (p + 1#64)

/-- The memory after `bs` is written at `p`. -/
def store (m : Mem) (p : Word) (bs : List Byte) : Mem :=
  fun x => bs[(x - p).toNat]?.or (m x)

/-- Two ranges share a byte. -/
def overlap (p q : Word) (n : Nat) : Prop :=
  ∃ i < n, ∃ j < n, p + BitVec.ofNat 64 i = q + BitVec.ofNat 64 j

instance decidableOverlap (p q : Word) (n : Nat) : Decidable (overlap p q n) :=
  inferInstanceAs (Decidable (∃ i < n, ∃ j < n, _))

def memcpy (m : Mem) (dst src : Word) (n : Nat) : Option Mem := do
  guard (¬ overlap dst src n)
  guard ((readable m n src).length = n)
  guard ((readable m n dst).length = n)
  pure (store m dst (readable m n src))

/-- `strlen`, which looks at `fuel` bytes at most. -/
def strlenFrom (m : Mem) : Nat → Word → Option Nat
  | 0, _ => none
  | fuel + 1, p =>
    match m p with
    | none => none
    | some b => if b = 0#8 then some 0 else (strlenFrom m fuel (p + 1#64)).map (· + 1)

/-- A string that ends nowhere in the address space has no length. -/
def strlen (m : Mem) (p : Word) : Option Nat := strlenFrom m (2 ^ 64) p

/-! ### The Kernel -/

/-- `struct dune_tf`, without the registers that no call reads. -/
structure Frame where
  rax : Word
  rdi : Word
  rsi : Word
  rdx : Word
  r10 : Word
  rflags : Word
  deriving DecidableEq, Repr

/-- A result with the data that the kernel writes for it: `unit` bytes for each item that
    it counts, none with an error, and no more than the `room` that it has. -/
structure Reply (unit room : Nat) where
  ret : Word
  data : List Byte
  length_data : data.length = unit * ret.toInt.toNat
  fits : data.length ≤ room

/-- What the kernel returns. -/
structure Kernel where
  read : (fd count : Word) → (room : Nat) → Reply 1 room
  write : (fd count : Word) → List Byte → Word
  openFile : (path : List Byte) → (flags mode : Word) → Word
  /-- An event has 12 bytes. -/
  epollWait : (fd maxevents timeout : Word) → (room : Nat) → Reply 12 room
  other : Mem → Frame → Word × Mem

inductive Call where
  | read | write | openFile | epollWait
  deriving DecidableEq, Repr

/-- `SYS_read`, `SYS_write`, `SYS_open` and `SYS_epoll_wait`. -/
def Call.nr : Call → Nat
  | read => 0
  | write => 1
  | openFile => 2
  | epollWait => 232

/-- `PATH_MAX` of the kernel. -/
def pathMax : Nat := 4096

/-- The name that the kernel reads: up to its end, a byte that is not mapped, or `n` bytes. -/
def pathAt (m : Mem) : Nat → Word → List Byte
  | 0, _ => []
  | n + 1, p =>
    match m p with
    | none => []
    | some b => if b = 0#8 then [0#8] else b :: pathAt m n (p + 1#64)

/-- An argument as `int maxevents`. -/
def maxevents (w : Word) : Int := (w.truncate 32).toInt

/-- The kernel executes a call: the result and the memory afterwards. -/
def Kernel.serve (k : Kernel) (m : Mem) (tf : Frame) : Word × Mem :=
  if tf.rax.toNat = Call.read.nr then
    let r := k.read tf.rdi tf.rdx (readable m tf.rdx.toNat tf.rsi).length
    (r.ret, store m tf.rsi r.data)
  else if tf.rax.toNat = Call.write.nr then
    (k.write tf.rdi tf.rdx (readable m tf.rdx.toNat tf.rsi), m)
  else if tf.rax.toNat = Call.openFile.nr then
    (k.openFile (pathAt m pathMax tf.rdi) tf.rsi tf.rdx, m)
  else if tf.rax.toNat = Call.epollWait.nr then
    let r := k.epollWait tf.rdi tf.rdx tf.r10
      (readable m (12 * (maxevents tf.rdx).toNat) tf.rsi).length
    (r.ret, store m tf.rsi r.data)
  else k.other m tf

/-- `dune_passthrough_g0_syscall`. -/
def Kernel.passthrough (k : Kernel) (m : Mem) (tf : Frame) : Frame × Mem :=
  ({ tf with rax := (k.serve m tf).1 }, (k.serve m tf).2)

/-! ### The Handler -/

/-- `DUNE_FAST_COW_STAGING_BUFFER_SIZE`. -/
def stagingSize : Nat := 5 * 1024 * 1024

/-- `sizeof(struct epoll_event) * n`, a `size_t`. -/
def sizeofEvents (n : Word) : Nat := (12#64 * n).toNat

/-- `if (ret > 0) memcpy(dst, workspace, n)`. -/
def copyResult (m : Mem) (ret dst workspace : Word) (n : Nat) : Option Mem :=
  if 0 < ret.toInt then memcpy m dst workspace n else pure m

section Handler

variable (k : Kernel) (workspace : Word) (m : Mem) (tf : Frame)

def duneSysPatchOpen : Option (Frame × Mem) := do
  guard (workspace ≠ 0#64)
  let filename := tf.rdi
  let len ← strlen m filename
  guard (len + 1 ≤ stagingSize)
  if filename = 0#64 then
    let (newTf, m) := k.passthrough m tf
    pure ({ tf with rax := newTf.rax }, m)
  else
    let m ← memcpy m workspace filename len
    let m := store m (workspace + BitVec.ofNat 64 len) [0#8]
    let (newTf, m) := k.passthrough m { tf with rdi := workspace }
    pure ({ tf with rax := newTf.rax }, m)

def duneSysPatchWrite : Option (Frame × Mem) := do
  guard (workspace ≠ 0#64)
  let buf := tf.rsi
  let count := tf.rdx.toNat
  guard (count ≤ stagingSize)
  let m ← memcpy m workspace buf count
  let (newTf, m) := k.passthrough m { tf with rsi := workspace }
  pure ({ tf with rax := newTf.rax }, m)

def duneSysPatchRead : Option (Frame × Mem) := do
  guard (workspace ≠ 0#64)
  let sourceBuf := tf.rsi
  let count := tf.rdx.toNat
  guard (count ≤ stagingSize)
  let (newTf, m) := k.passthrough m { tf with rsi := workspace }
  -- The length of the copy is that of the request, not that of the answer.
  let m ← copyResult m newTf.rax sourceBuf workspace count
  pure ({ tf with rax := newTf.rax }, m)

def duneSysPatchEpollWait : Option (Frame × Mem) := do
  guard (workspace ≠ 0#64)
  let events := tf.rsi
  -- A negative `maxevents` is a large `size_t` here.
  guard (sizeofEvents (BitVec.ofInt 64 (maxevents tf.rdx)) ≤ stagingSize)
  let (newTf, m) := k.passthrough m { tf with rsi := workspace }
  let m ← copyResult m newTf.rax events workspace (sizeofEvents newTf.rax)
  pure ({ tf with rax := newTf.rax }, m)

/-- The `switch` of the handler. -/
def duneSysPatch : Option (Frame × Mem) :=
  let nr := (tf.rax.truncate 32).toNat
  if nr = Call.openFile.nr then duneSysPatchOpen k workspace m tf
  else if nr = Call.write.nr then duneSysPatchWrite k workspace m tf
  else if nr = Call.read.nr then duneSysPatchRead k workspace m tf
  else if nr = Call.epollWait.nr then duneSysPatchEpollWait k workspace m tf
  else pure (k.passthrough m tf)

/-- `dune_fast_spawn_syscall_handler` on the core `cpu`. -/
def duneFastSpawnSyscallHandler (snapshotCore : Nat) (cowStagingBuffer : Nat → Word)
    (cpu : Nat) : Option (Frame × Mem) := do
  if cpu ≠ snapshotCore then
    pure (k.passthrough m tf)
  else
    let workspace := cowStagingBuffer cpu
    guard (workspace ≠ 0#64)
    let (tf, m) ← duneSysPatch k workspace m tf
    guard (Word.has tf.rflags 0x200#64)
    pure (tf, m)

end Handler

/-! ### Calls That the Staging Buffer Can Carry -/

/-- Where the caller's data is and how long it is. -/
def Call.area (m : Mem) (tf : Frame) : Call → Option (Word × Nat)
  | read => some (tf.rsi, tf.rdx.toNat)
  | write => some (tf.rsi, tf.rdx.toNat)
  | openFile => (strlen m tf.rdi).map fun len => (tf.rdi, len + 1)
  | epollWait => if 0 ≤ maxevents tf.rdx then some (tf.rsi, 12 * (maxevents tf.rdx).toNat) else none

/-- The byte at `x` belongs to the staging buffer, not to the caller. -/
def InStaging (workspace x : Word) : Prop := (x - workspace).toNat < stagingSize

/-- A call with `n` bytes at `p`, which fit into the buffer. -/
structure Fits (workspace : Word) (m : Mem) (c : Call) (tf : Frame) (p : Word) (n : Nat) :
    Prop where
  nr : tf.rax.toNat = c.nr
  area : c.area m tf = some (p, n)
  fits : n ≤ stagingSize
  apart : ∀ i < n, ¬ InStaging workspace (p + BitVec.ofNat 64 i)
  staging : Mapped m workspace stagingSize
  workspace_ne : workspace ≠ 0#64

/-- What the handler makes of the call is what the kernel makes of it. A reply for the whole
    buffer has to be the reply for what the kernel can reach of the caller's; what is copied
    has to be mapped; and a short read must not change the bytes behind those it has read. -/
def Carried (k : Kernel) (workspace : Word) (m : Mem) (tf : Frame) (p : Word) (n : Nat) :
    Call → Prop
  | .read =>
    let r := k.read tf.rdi tf.rdx n
    r.ret = (k.read tf.rdi tf.rdx (readable m n p).length).ret ∧
      (0 < r.ret.toInt → Mapped m p n ∧ ∀ i < n, r.ret.toInt ≤ i →
        m (workspace + BitVec.ofNat 64 i) = m (p + BitVec.ofNat 64 i))
  | .write => Mapped m p n
  | .openFile => True
  | .epollWait =>
    let r := k.epollWait tf.rdi tf.rdx tf.r10 n
    let own := k.epollWait tf.rdi tf.rdx tf.r10 (readable m n p).length
    r.ret = own.ret ∧ (0 < r.ret.toInt → Mapped m p r.data.length ∧ r.data = own.data)

/-! ### Copies -/

variable {k : Kernel} {workspace : Word} {m m' : Mem} {c : Call} {tf : Frame} {p q x : Word}
  {n : Nat} {bs : List Byte}

theorem next_add (p : Word) (i : Nat) :
    p + 1#64 + BitVec.ofNat 64 i = p + BitVec.ofNat 64 (i + 1) := by
  rw [Nat.add_comm i 1, BitVec.ofNat_add, BitVec.add_assoc]

theorem add_offset (p x : Word) : p + BitVec.ofNat 64 (x - p).toNat = x := by
  rw [BitVec.ofNat_toNat, BitVec.setWidth_eq, BitVec.add_comm, BitVec.sub_add_cancel]

theorem offset_add (p : Word) {i : Nat} (hi : i < 2 ^ 64) :
    (p + BitVec.ofNat 64 i - p).toNat = i := by
  rw [BitVec.add_comm, BitVec.add_sub_cancel, BitVec.toNat_ofNat, Nat.mod_eq_of_lt hi]

theorem Mapped.mono {l : Nat} (h : Mapped m p n) (hl : l ≤ n) : Mapped m p l :=
  fun i hi => h i (Nat.lt_of_lt_of_le hi hl)

theorem Mapped.store (h : Mapped m p n) (q : Word) (bs : List Byte) :
    Mapped (store m q bs) p n := by
  intro i hi
  rw [StagedCalls.store, Option.isSome_or, h i hi, Bool.or_true]

theorem readable_congr (h : ∀ i < n, m' (q + BitVec.ofNat 64 i) = m (p + BitVec.ofNat 64 i)) :
    readable m' n q = readable m n p := by
  induction n generalizing p q with
  | zero => rfl
  | succ n ih =>
    have hhead := h 0 (Nat.succ_pos n)
    have htail := ih (p := p + 1#64) (q := q + 1#64) fun i hi => by
      rw [next_add, next_add]
      exact h (i + 1) (Nat.succ_lt_succ hi)
    rw [BitVec.add_zero, BitVec.add_zero] at hhead
    rw [readable, readable, hhead, htail]

theorem length_readable_iff : (readable m n p).length = n ↔ Mapped m p n := by
  induction n generalizing p with
  | zero => exact ⟨fun _ i hi => absurd hi (Nat.not_lt_zero i), fun _ => rfl⟩
  | succ n ih =>
    unfold readable
    cases hb : m p with
    | none =>
      refine ⟨fun h => absurd h (Nat.zero_ne_add_one n), fun h => ?_⟩
      have hhead := h 0 (Nat.succ_pos n)
      rw [BitVec.add_zero, hb] at hhead
      cases hhead
    | some b =>
      rw [List.length_cons, Nat.add_right_cancel_iff, ih]
      constructor
      · intro h i hi
        cases i with
        | zero => rw [BitVec.add_zero, hb]; rfl
        | succ i => rw [← next_add]; exact h i (Nat.lt_of_succ_lt_succ hi)
      · intro h i hi
        rw [next_add]
        exact h (i + 1) (Nat.succ_lt_succ hi)

theorem getElem?_readable {i : Nat} (hi : i < (readable m n p).length) :
    (readable m n p)[i]? = m (p + BitVec.ofNat 64 i) := by
  induction n generalizing p i with
  | zero => exact absurd hi (Nat.not_lt_zero i)
  | succ n ih =>
    unfold readable at hi ⊢
    cases hb : m p with
    | none => rw [hb] at hi; exact absurd hi (Nat.not_lt_zero i)
    | some b =>
      rw [hb] at hi
      cases i with
      | zero => simp [hb]
      | succ i => rw [List.getElem?_cons_succ, ih (Nat.lt_of_succ_lt_succ hi), next_add]

theorem store_outside (h : bs.length ≤ (x - p).toNat) : store m p bs x = m x := by
  rw [store, List.getElem?_eq_none h, Option.none_or]

/-- A copy between mapped ranges that share no byte. -/
theorem memcpy_spec (hover : ¬ overlap p q n) (hq : Mapped m q n) (hp : Mapped m p n) :
    ∃ m', memcpy m p q n = some m' ∧
      (∀ x, (x - p).toNat < n → m' x = m (q + BitVec.ofNat 64 (x - p).toNat)) ∧
      ∀ x, n ≤ (x - p).toNat → m' x = m x := by
  have hlen := length_readable_iff.2 hq
  refine ⟨store m p (readable m n q), ?_, fun x hx => ?_, fun x hx => ?_⟩
  · simp [memcpy, guard, hover, hlen, length_readable_iff.2 hp]
  · have hbyte := getElem?_readable (m := m) (n := n) (p := q) (i := (x - p).toNat) (by omega)
    obtain ⟨b, hb⟩ := Option.isSome_iff_exists.1 (hq _ hx)
    rw [store, hbyte, hb, Option.some_or]
  · exact store_outside (by omega)

/-- Where a copy does not fault, all of it is mapped. -/
theorem mapped_of_memcpy (h : memcpy m p q n = some m') : Mapped m p n ∧ Mapped m q n := by
  constructor
  · by_contra hnot
    rw [← length_readable_iff] at hnot
    simp [memcpy, guard, hnot] at h
  · by_contra hnot
    rw [← length_readable_iff] at hnot
    simp [memcpy, guard, hnot] at h

/-- A byte of what is written, or the one that was there. -/
theorem store_add (p : Word) (bs : List Byte) {i : Nat} (hi : i < 2 ^ 64) :
    store m p bs (p + BitVec.ofNat 64 i) = bs[i]?.or (m (p + BitVec.ofNat 64 i)) := by
  rw [store, offset_add p hi]

theorem Reply.data_eq_nil {unit room : Nat} (r : Reply unit room) (h : ¬ 0 < r.ret.toInt) :
    r.data = [] := by
  rw [← List.length_eq_zero_iff, r.length_data, Int.toNat_of_nonpos (by omega), Nat.mul_zero]

theorem strlenFrom_spec {fuel len : Nat} (h : strlenFrom m fuel p = some len) :
    Mapped m p len ∧ m (p + BitVec.ofNat 64 len) = some 0#8 ∧
      ∀ (m' : Mem) q, (∀ i ≤ len, m' (q + BitVec.ofNat 64 i) = m (p + BitVec.ofNat 64 i)) →
        ∀ n, pathAt m' n q = pathAt m n p := by
  induction fuel generalizing p len with
  | zero => cases h
  | succ fuel ih =>
    unfold strlenFrom at h
    cases hb : m p with
    | none => rw [hb] at h; cases h
    | some b =>
      simp only [hb] at h
      have hcut : ∀ (m' : Mem) q, (∀ i ≤ len, m' (q + BitVec.ofNat 64 i) = m (p + BitVec.ofNat 64 i)) →
          m' q = some b := fun m' q heq => by
        simpa [hb] using heq 0 (Nat.zero_le len)
      by_cases hzero : b = 0#8
      · subst hzero
        obtain rfl : 0 = len := by simpa using h
        refine ⟨fun i hi => absurd hi (Nat.not_lt_zero i), by simpa using hb, ?_⟩
        intro m' q heq n
        cases n with
        | zero => rfl
        | succ n => simp [pathAt, hb, hcut m' q heq]
      · rw [if_neg hzero] at h
        obtain ⟨len, hrest, rfl⟩ := Option.map_eq_some_iff.1 h
        obtain ⟨hmapped, hend, hpath⟩ := ih hrest
        refine ⟨fun i hi => ?_, by rw [← next_add]; exact hend, fun m' q heq n => ?_⟩
        · cases i with
          | zero => simp [hb]
          | succ i => rw [← next_add]; exact hmapped i (Nat.lt_of_succ_lt_succ hi)
        · have hnext := hpath m' (q + 1#64) fun i hi => by
            rw [next_add, next_add]
            exact heq (i + 1) (Nat.succ_le_succ hi)
          cases n with
          | zero => rfl
          | succ n => simp [pathAt, hb, hcut m' q heq, hzero, hnext]

/-! ### The Four Calls -/

/-- A call that ends as the kernel's own call does, for all that the caller can see. -/
def Transparent (k : Kernel) (workspace : Word) (m : Mem) (tf : Frame)
    (result : Option (Frame × Mem)) : Prop :=
  ∃ m', result = some ((k.passthrough m tf).1, m') ∧
    ∀ x, ¬ InStaging workspace x → m' x = (k.passthrough m tf).2 x

namespace Fits

theorem not_overlap (h : Fits workspace m c tf p n) {l : Nat} (hl : l ≤ n) :
    ¬ overlap p workspace l ∧ ¬ overlap workspace p l := by
  have hsize : stagingSize < 2 ^ 64 := by decide
  have hfits := h.fits
  have hne : ∀ i < l, ∀ j < l, p + BitVec.ofNat 64 i ≠ workspace + BitVec.ofNat 64 j := by
    intro i hi j hj heq
    apply h.apart i (by omega)
    rw [InStaging, heq, offset_add workspace (by omega)]
    omega
  constructor
  · rintro ⟨i, hi, j, hj, heq⟩
    exact hne i hi j hj heq
  · rintro ⟨i, hi, j, hj, heq⟩
    exact hne j hj i hi heq.symm

/-- Data from the caller's memory: the buffer holds it and nothing else changes. -/
theorem copyIn (h : Fits workspace m c tf p n) {l : Nat} (hl : l ≤ n) (hp : Mapped m p l) :
    ∃ m', memcpy m workspace p l = some m' ∧
      (∀ i < l, m' (workspace + BitVec.ofNat 64 i) = m (p + BitVec.ofNat 64 i)) ∧
      ∀ x, ¬ InStaging workspace x → m' x = m x := by
  have hsize : stagingSize < 2 ^ 64 := by decide
  have hfits := h.fits
  obtain ⟨m', hcopy, hin, hout⟩ := memcpy_spec (h.not_overlap hl).2 hp
    (h.staging.mono (by omega))
  refine ⟨m', hcopy, fun i hi => ?_, fun x hx => hout x ?_⟩
  · have hoff := offset_add workspace (i := i) (by omega)
    rw [hin _ (by omega), hoff]
  · unfold InStaging at hx
    omega

/-- Data from the kernel: the copy of `l` bytes is as good as the kernel's own store where
    the bytes are mapped, and become those that the kernel would have left there. -/
theorem copyResult_iff (h : Fits workspace m c tf p n) {unit room l : Nat} (r : Reply unit n)
    (own : Reply unit room) (hret : r.ret = own.ret)
    (hlen : 0 < r.ret.toInt → r.data.length ≤ l ∧ l ≤ n) :
    (∃ m', copyResult (store m workspace r.data) r.ret p workspace l = some m' ∧
      ∀ x, ¬ InStaging workspace x → m' x = store m p own.data x) ↔
    (0 < r.ret.toInt → Mapped m p l ∧ ∀ i < l,
      store m workspace r.data (workspace + BitVec.ofNat 64 i) =
        store m p own.data (p + BitVec.ofNat 64 i)) := by
  unfold copyResult
  by_cases hpos : 0 < r.ret.toInt
  · obtain ⟨hdata, hl⟩ := hlen hpos
    have hfits := h.fits
    have hsize : stagingSize < 2 ^ 64 := by decide
    have hown : own.data.length ≤ l := by
      rw [own.length_data, ← hret, ← r.length_data]
      exact hdata
    have hcopy (hp : Mapped m p l) := memcpy_spec (h.not_overlap hl).1
      ((h.staging.mono (by omega)).store workspace r.data) (hp.store workspace r.data)
    rw [if_pos hpos]
    constructor
    · rintro ⟨m', hm', hsame⟩ _
      have hp : Mapped m p l := by
        intro i hi
        have happart := h.apart i (by omega)
        have hmapped := (mapped_of_memcpy hm').1 i hi
        unfold InStaging at happart
        rwa [store_outside (by omega)] at hmapped
      refine ⟨hp, fun i hi => ?_⟩
      obtain ⟨_, hcopy, hin, _⟩ := hcopy hp
      obtain rfl := Option.some.inj (hm'.symm.trans hcopy)
      have hoff := offset_add p (i := i) (by omega)
      rw [← hsame _ (h.apart i (by omega)), hin _ (by omega), hoff]
    · intro hcond
      obtain ⟨hp, hbytes⟩ := hcond hpos
      obtain ⟨m', hm', hin, hout⟩ := hcopy hp
      refine ⟨m', hm', fun x hx => ?_⟩
      unfold InStaging at hx
      by_cases hlt : (x - p).toNat < l
      · rw [hin x hlt, hbytes _ hlt, add_offset]
      · rw [hout x (by omega), store_outside (by omega), store_outside (by omega)]
  · rw [if_neg hpos, r.data_eq_nil hpos, own.data_eq_nil (hret ▸ hpos)]
    exact ⟨fun _ h => absurd h hpos, fun _ => ⟨m, rfl, fun x _ => rfl⟩⟩

/-- A call whose reply is copied back to the caller. -/
theorem reply_iff (h : Fits workspace m c tf p n) {unit room l : Nat} (r : Reply unit n)
    (own : Reply unit room) (hdirect : k.serve m tf = (own.ret, store m p own.data))
    (hlen : 0 < r.ret.toInt → r.data.length ≤ l ∧ l ≤ n) :
    Transparent k workspace m tf ((copyResult (store m workspace r.data) r.ret p workspace l).bind
      fun m' => some ({ tf with rax := r.ret }, m')) ↔
    r.ret = own.ret ∧ (0 < r.ret.toInt → Mapped m p l ∧ ∀ i < l,
      store m workspace r.data (workspace + BitVec.ofNat 64 i) =
        store m p own.data (p + BitVec.ofNat 64 i)) := by
  unfold Transparent Kernel.passthrough
  rw [hdirect]
  constructor
  · rintro ⟨m', hresult, hsame⟩
    obtain ⟨_, hback, heq⟩ := Option.bind_eq_some_iff.1 hresult
    obtain ⟨hframe, rfl⟩ := Prod.mk.inj (Option.some.inj heq)
    have hret : r.ret = own.ret := congrArg Frame.rax hframe
    exact ⟨hret, (h.copyResult_iff r own hret hlen).1 ⟨_, hback, hsame⟩⟩
  · rintro ⟨hret, hcond⟩
    obtain ⟨m', hback, hsame⟩ := (h.copyResult_iff r own hret hlen).2 hcond
    exact ⟨m', by rw [hback, hret]; rfl, hsame⟩

theorem write_iff (h : Fits workspace m .write tf p n) :
    Transparent k workspace m tf (duneSysPatchWrite k workspace m tf) ↔ Mapped m p n := by
  obtain ⟨rfl, rfl⟩ : tf.rsi = p ∧ tf.rdx.toNat = n := by simpa [Call.area] using h.area
  constructor
  · rintro ⟨_, hresult, _⟩
    cases hcopy : memcpy m workspace tf.rsi tf.rdx.toNat with
    | none => simp [duneSysPatchWrite, guard, hcopy] at hresult
    | some m' => exact (mapped_of_memcpy hcopy).2
  · intro hp
    obtain ⟨m', hcopy, hin, hout⟩ := h.copyIn (Nat.le_refl _) hp
    have hsame := readable_congr hin
    refine ⟨m', ?_, fun x hx => ?_⟩
    · simp [duneSysPatchWrite, guard, h.workspace_ne, h.fits, hcopy, Kernel.passthrough,
        Kernel.serve, h.nr, Call.nr, hsame]
    · rw [hout x hx]
      simp [Kernel.passthrough, Kernel.serve, h.nr, Call.nr]

theorem openFile (h : Fits workspace m .openFile tf p n) :
    Transparent k workspace m tf (duneSysPatchOpen k workspace m tf) := by
  obtain ⟨len, hlen, rfl, rfl⟩ : ∃ len, strlen m tf.rdi = some len ∧ tf.rdi = p ∧ len + 1 = n := by
    simpa [Call.area] using h.area
  have hsize : stagingSize < 2 ^ 64 := by decide
  have hfits := h.fits
  have hassert : (guard (len + 1 ≤ stagingSize) : Option Unit) = some () := if_pos hfits
  by_cases hnull : tf.rdi = 0#64
  · refine ⟨(k.passthrough m tf).2, ?_, fun x _ => rfl⟩
    simp only [duneSysPatchOpen, hlen, Option.bind_eq_bind, Option.bind_some, hassert, if_pos hnull]
    simp [guard, h.workspace_ne, Kernel.passthrough]
  · obtain ⟨hname, hend, hpath⟩ := strlenFrom_spec hlen
    obtain ⟨m', hcopy, hin, hout⟩ := h.copyIn (Nat.le_succ len) hname
    -- The end of the name is written behind the copy.
    have hname := hpath (store m' (workspace + BitVec.ofNat 64 len) [0#8]) workspace (by
      intro i hi
      rcases Nat.lt_or_eq_of_le hi with hlt | rfl
      · have hoff : (workspace + BitVec.ofNat 64 i - (workspace + BitVec.ofNat 64 len)).toNat
            = 2 ^ 64 - (len - i) := by
          bv_omega
        rw [store_outside (by rw [hoff, List.length_singleton]; omega), hin i hlt]
      · rw [hend, store, BitVec.sub_self]
        rfl) pathMax
    refine ⟨store m' (workspace + BitVec.ofNat 64 len) [0#8], ?_, fun x hx => ?_⟩
    · simp only [duneSysPatchOpen, hlen, Option.bind_eq_bind, Option.bind_some, hassert]
      simp [guard, h.workspace_ne, hnull, hcopy, Kernel.passthrough, Kernel.serve, h.nr, Call.nr,
        hname]
    · have hoff : [0#8].length ≤ (x - (workspace + BitVec.ofNat 64 len)).toNat := by
        unfold InStaging at hx
        rw [List.length_singleton]
        bv_omega
      rw [store_outside hoff, hout x hx]
      simp [Kernel.passthrough, Kernel.serve, h.nr, Call.nr]

/-- The kernel can reach all of the staging buffer. -/
theorem room (h : Fits workspace m c tf p n) : (readable m n workspace).length = n :=
  length_readable_iff.2 (h.staging.mono h.fits)

theorem read_iff (h : Fits workspace m .read tf p n) :
    Transparent k workspace m tf (duneSysPatchRead k workspace m tf) ↔
      Carried k workspace m tf p n .read := by
  obtain ⟨rfl, rfl⟩ : tf.rsi = p ∧ tf.rdx.toNat = n := by simpa [Call.area] using h.area
  let r := k.read tf.rdi tf.rdx tf.rdx.toNat
  let own := k.read tf.rdi tf.rdx (readable m tf.rdx.toNat tf.rsi).length
  have hdirect : k.serve m tf = (own.ret, store m tf.rsi own.data) := by
    simp only [Kernel.serve, h.nr, Call.nr]
    rfl
  have hstaged : k.serve m { tf with rsi := workspace } = (r.ret, store m workspace r.data) := by
    simp only [Kernel.serve, h.nr, Call.nr]
    rw [h.room]
    rfl
  have hresult : duneSysPatchRead k workspace m tf =
      (copyResult (store m workspace r.data) r.ret tf.rsi workspace tf.rdx.toNat).bind
        fun m' => some ({ tf with rax := r.ret }, m') := by
    simp [duneSysPatchRead, guard, h.workspace_ne, h.fits, Kernel.passthrough, hstaged]
  rw [hresult, h.reply_iff r own hdirect fun _ => ⟨r.fits, Nat.le_refl _⟩]
  refine and_congr_right fun hret => forall_congr' fun hpos => and_congr_right fun hmapped => ?_
  have hlen := r.length_data
  rw [Nat.one_mul] at hlen
  have hdata : own.data = r.data := by
    show (k.read _ _ (readable m tf.rdx.toNat tf.rsi).length).data = _
    rw [length_readable_iff.2 hmapped]
  refine forall_congr' fun i => forall_congr' fun hi => ?_
  show _ ↔ (r.ret.toInt ≤ i → _)
  have hlt : i < 2 ^ 64 := Nat.lt_trans hi tf.rdx.isLt
  rw [hdata, store_add _ _ hlt, store_add _ _ hlt]
  by_cases hin : i < r.data.length
  · rw [List.getElem?_eq_getElem hin, Option.some_or, Option.some_or]
    exact ⟨fun _ hge => absurd hin (by omega), fun _ => rfl⟩
  · rw [List.getElem?_eq_none (by omega), Option.none_or, Option.none_or]
    exact ⟨fun heq _ => heq, fun heq => heq (by omega)⟩

theorem epollWait_iff (h : Fits workspace m .epollWait tf p n) :
    Transparent k workspace m tf (duneSysPatchEpollWait k workspace m tf) ↔
      Carried k workspace m tf p n .epollWait := by
  have hsize : stagingSize < 2 ^ 32 := by decide
  have hfits := h.fits
  obtain ⟨hnonneg, rfl, rfl⟩ :
      0 ≤ maxevents tf.rdx ∧ tf.rsi = p ∧ 12 * (maxevents tf.rdx).toNat = n := by
    simpa [Call.area] using h.area
  have hassert : sizeofEvents (BitVec.ofInt 64 (maxevents tf.rdx)) ≤ stagingSize := by
    rw [sizeofEvents, BitVec.toNat_mul, BitVec.toNat_ofInt, BitVec.toNat_ofNat]
    omega
  let r := k.epollWait tf.rdi tf.rdx tf.r10 (12 * (maxevents tf.rdx).toNat)
  let own := k.epollWait tf.rdi tf.rdx tf.r10
    (readable m (12 * (maxevents tf.rdx).toNat) tf.rsi).length
  have hdirect : k.serve m tf = (own.ret, store m tf.rsi own.data) := by
    simp only [Kernel.serve, h.nr, Call.nr]
    rfl
  have hstaged : k.serve m { tf with rsi := workspace } = (r.ret, store m workspace r.data) := by
    simp only [Kernel.serve, h.nr, Call.nr]
    rw [h.room]
    rfl
  have hresult : duneSysPatchEpollWait k workspace m tf =
      (copyResult (store m workspace r.data) r.ret tf.rsi workspace (sizeofEvents r.ret)).bind
        fun m' => some ({ tf with rax := r.ret }, m') := by
    simp [duneSysPatchEpollWait, guard, h.workspace_ne, hassert, Kernel.passthrough, hstaged]
  have hcount (hpos : 0 < r.ret.toInt) : sizeofEvents r.ret = r.data.length := by
    have hlen := r.length_data
    have hdata := r.fits
    have hret := BitVec.toInt_eq_toNat_cond r.ret
    rw [sizeofEvents, BitVec.toNat_mul, BitVec.toNat_ofNat]
    split at hret <;> omega
  rw [hresult, h.reply_iff r own hdirect fun hpos => by
    rw [hcount hpos]
    exact ⟨Nat.le_refl _, r.fits⟩]
  refine and_congr_right fun hret => forall_congr' fun hpos => ?_
  rw [hcount hpos]
  refine and_congr_right fun _ => ?_
  have hlen : own.data.length = r.data.length := by rw [own.length_data, r.length_data, hret]
  have hlt {i : Nat} (hi : i < r.data.length) : i < 2 ^ 64 := by
    have := r.fits
    omega
  constructor
  · -- The bytes are compared one by one.
    intro hbytes
    refine List.ext_getElem hlen.symm fun i hi hi' => ?_
    have hbyte := hbytes i hi
    rwa [store_add _ _ (hlt hi), store_add _ _ (hlt hi), List.getElem?_eq_getElem hi,
      List.getElem?_eq_getElem hi', Option.some_or, Option.some_or, Option.some_inj] at hbyte
  · intro hdata i hi
    rw [store_add _ _ (hlt hi), store_add _ _ (hlt hi), ← hdata, List.getElem?_eq_getElem hi,
      Option.some_or, Option.some_or]

theorem patched_iff (h : Fits workspace m c tf p n) :
    Transparent k workspace m tf (duneSysPatch k workspace m tf) ↔
      Carried k workspace m tf p n c := by
  have hnr : (tf.rax.truncate 32).toNat = c.nr := by
    rw [BitVec.truncate_eq_setWidth, BitVec.toNat_setWidth, h.nr]
    cases c <;> rfl
  unfold duneSysPatch
  rw [hnr]
  cases c with
  | read => exact h.read_iff
  | write => exact h.write_iff
  | openFile => exact iff_of_true h.openFile trivial
  | epollWait => exact h.epollWait_iff

end Fits

/-- A kernel that has one byte to read. -/
def oneByte : Kernel where
  read _ _ room :=
    if h : 1 ≤ room then ⟨1, [97], rfl, h⟩ else ⟨0, [], rfl, Nat.zero_le room⟩
  write _ count _ := count
  openFile _ _ _ := -2
  epollWait _ _ _ room := ⟨0, [], rfl, Nat.zero_le room⟩
  other m _ := (0, m)

/-- `read(0, 0x2000, count)`. -/
def readCall (count : Word) : Frame := ⟨0, 0, 0x2000, count, 0, 0x202⟩

/-- The staging buffer is at `0x10000000`; the caller has a 7 at `0x2001`. -/
def caller : Mem := fun x => some (if x = 0x2001 then 7 else 0)

theorem readCall_fits {count : Word} (h : count.toNat ≤ 2) :
    Fits 0x10000000 caller .read (readCall count) 0x2000 count.toNat where
  nr := rfl
  area := rfl
  fits := Nat.le_trans h (by decide)
  apart := fun i hi => by
    have hall : ∀ i < 2, ¬ InStaging 0x10000000 (0x2000 + BitVec.ofNat 64 i) := by
      unfold InStaging
      decide
    exact hall i (by omega)
  staging := fun _ _ => rfl
  workspace_ne := by decide

end StagedCalls
