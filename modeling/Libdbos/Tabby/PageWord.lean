import Mathlib.Algebra.Group.Nat.Defs
import Libdbos.Tabby.VmPageState

/-! # The Packed State Word

    `VMPageState` keeps an address, a version and a state in one 64-bit word:
    bits 28 to 63 hold the address without the bits that all pages agree on, bits
    20 to 27 the state and bits 0 to 19 the version. Here are the words as the
    source computes them, and what they mean: `decode` reads the three fields,
    and each word that an operation stores decodes to what the operation on the
    fields gives. So the machines that work on `VmPageState` work on words.
-/

namespace Tabby

abbrev U64 := BitVec 64

namespace PageWord

/-! ## The words of the source -/

def baseVMAddressMask : U64 := 0xffff000000000000#64

def versionMask : U64 := 0x00000000000fffff#64

def stateMask : U64 := 0x000000000ff00000#64

/-- The constant `kTabbyInvalidAddr`. -/
def invalidVMAddr : U64 := 0xfffffffffffff000#64

def unlocked : U64 := 0#64

def maxShared : U64 := 252#64

def locked : U64 := 253#64

def marked : U64 := 254#64

def compressNormalVMAddress (addr : U64) : U64 := (~~~baseVMAddressMask &&& addr) >>> 12

def decompressVMAddress (addr : U64) : U64 := (addr <<< 12) ||| baseVMAddressMask

def sameVersion (addr version newState : U64) : U64 :=
  (compressNormalVMAddress addr <<< 28) ||| version ||| (newState <<< 20)

def nextVersion (addr version newState : U64) : U64 :=
  (compressNormalVMAddress addr <<< 28) ||| ((version + 1#64) &&& versionMask) ||| (newState <<< 20)

section

variable (v : U64)

def getState : U64 := (v &&& stateMask) >>> 20

def getVersion : U64 := v &&& versionMask

def getVMAddress : U64 := decompressVMAddress (v >>> 28)

/-! What the operations store, or swap in for `v`. -/

def lockX : U64 := nextVersion (getVMAddress v) (getVersion v) locked

def unlockX : U64 := nextVersion (getVMAddress v) (getVersion v) unlocked

def unlockXInvalidated : U64 := nextVersion invalidVMAddr (getVersion v) unlocked

def downgradeLock : U64 := nextVersion (getVMAddress v) (getVersion v) 1#64

def lockS : Option U64 :=
  let s := getState v
  if s < maxShared then some (sameVersion (getVMAddress v) (getVersion v) (s + 1))
  else if s = marked then some (sameVersion (getVMAddress v) (getVersion v) 1#64)
  else none

def unlockS : U64 := sameVersion (getVMAddress v) (getVersion v) (getState v - 1)

def mark : U64 := sameVersion (getVMAddress v) (getVersion v) marked

def clearMark : U64 := sameVersion (getVMAddress v) (getVersion v) unlocked

/-! ## Fields -/

/-- The fields of a word. -/
def decode : VmPageState where
  addr := BitVec.ofNat 36 (v.toNat / 2 ^ 28)
  version := BitVec.ofNat 20 v.toNat
  state := BitVec.ofNat 8 (v.toNat / 2 ^ 20)

theorem getVersion_toNat : (getVersion v).toNat = v.toNat % 2 ^ 20 := by
  unfold getVersion
  rw [BitVec.toNat_and]
  exact Nat.and_two_pow_sub_one_eq_mod v.toNat 20

theorem getState_toNat : (getState v).toNat = v.toNat / 2 ^ 20 % 2 ^ 8 := by
  have hmask : stateMask >>> 20 = 0xff#64 := by decide
  unfold getState
  rw [BitVec.ushiftRight_and_distrib, hmask, BitVec.toNat_and, BitVec.toNat_ushiftRight,
    Nat.shiftRight_eq_div_pow]
  exact Nat.and_two_pow_sub_one_eq_mod _ 8

end

/-- The address survives being taken out of a word and put back. -/
theorem compress_decompress {a : U64} (ha : a.toNat < 2 ^ 36) :
    compressNormalVMAddress (decompressVMAddress a) = a := by
  have hlow : ~~~baseVMAddressMask = 0xffffffffffff#64 := by decide
  have hmask : (0xffffffffffff#64 : U64) >>> 12 = 0xfffffffff#64 := by decide
  have hbase : 0xfffffffff#64 &&& baseVMAddressMask >>> 12 = 0#64 := by decide
  unfold compressNormalVMAddress decompressVMAddress
  rw [hlow, BitVec.ushiftRight_and_distrib, hmask, BitVec.ushiftRight_or_distrib,
    BitVec.and_or_distrib_left, hbase, BitVec.or_zero]
  apply BitVec.eq_of_toNat_eq
  rw [BitVec.and_comm, BitVec.toNat_and, BitVec.toNat_ushiftRight, BitVec.toNat_shiftLeft,
    Nat.shiftRight_eq_div_pow, Nat.shiftLeft_eq]
  have hand := Nat.and_two_pow_sub_one_eq_mod (a.toNat * 2 ^ 12 % 2 ^ 64 / 2 ^ 12) 36
  refine hand.trans ?_
  omega

theorem compress_getVMAddress (v : U64) : compressNormalVMAddress (getVMAddress v) = v >>> 28 := by
  apply compress_decompress
  have hv := v.isLt
  rw [BitVec.toNat_ushiftRight, Nat.shiftRight_eq_div_pow]
  omega

/-- Three fields that fit do not overlap. -/
theorem toNat_pack {a v s : U64} (ha : a.toNat < 2 ^ 36) (hv : v.toNat < 2 ^ 20)
    (hs : s.toNat < 2 ^ 8) :
    ((a <<< 28) ||| v ||| (s <<< 20)).toNat = 2 ^ 28 * a.toNat + (2 ^ 20 * s.toNat + v.toNat) := by
  have ha' : (a <<< 28).toNat = 2 ^ 28 * a.toNat := by
    rw [BitVec.toNat_shiftLeft, Nat.shiftLeft_eq]
    omega
  have hs' : (s <<< 20).toNat = 2 ^ 20 * s.toNat := by
    rw [BitVec.toNat_shiftLeft, Nat.shiftLeft_eq]
    omega
  have hlow : 2 ^ 20 * s.toNat + v.toNat < 2 ^ 28 := by omega
  rw [BitVec.or_assoc, BitVec.or_comm v, BitVec.toNat_or, BitVec.toNat_or, ha', hs',
    ← Nat.two_pow_add_eq_or_of_lt hv s.toNat]
  exact (Nat.two_pow_add_eq_or_of_lt hlow a.toNat).symm

/-- The fields of a word that is put together. -/
theorem decode_pack {a v s : U64} (ha : a.toNat < 2 ^ 36) (hv : v.toNat < 2 ^ 20)
    (hs : s.toNat < 2 ^ 8) :
    decode ((a <<< 28) ||| v ||| (s <<< 20)) =
      ⟨BitVec.ofNat 36 a.toNat, BitVec.ofNat 20 v.toNat, BitVec.ofNat 8 s.toNat⟩ := by
  have hpack := toNat_pack ha hv hs
  have haddr : (2 ^ 28 * a.toNat + (2 ^ 20 * s.toNat + v.toNat)) / 2 ^ 28 = a.toNat := by omega
  have hstate : (2 ^ 28 * a.toNat + (2 ^ 20 * s.toNat + v.toNat)) / 2 ^ 20 % 2 ^ 8 = s.toNat := by
    omega
  have hversion : (2 ^ 28 * a.toNat + (2 ^ 20 * s.toNat + v.toNat)) % 2 ^ 20 = v.toNat := by omega
  unfold decode
  rw [hpack, haddr]
  congr 1
  · apply BitVec.eq_of_toNat_eq
    rw [BitVec.toNat_ofNat, BitVec.toNat_ofNat, hversion, Nat.mod_eq_of_lt hv]
  · apply BitVec.eq_of_toNat_eq
    rw [BitVec.toNat_ofNat, BitVec.toNat_ofNat, hstate, Nat.mod_eq_of_lt hs]

/-! ## Operations -/

section

variable (v : U64)

theorem decode_sameVersion {s : U64} (hs : s.toNat < 2 ^ 8) :
    decode (sameVersion (getVMAddress v) (getVersion v) s) =
      (decode v).sameVersion (BitVec.ofNat 8 s.toNat) := by
  have haddr : (v >>> 28).toNat = v.toNat / 2 ^ 28 := by
    rw [BitVec.toNat_ushiftRight, Nat.shiftRight_eq_div_pow]
  have hversion := getVersion_toNat v
  have hv := v.isLt
  unfold sameVersion
  rw [compress_getVMAddress, decode_pack (by omega) (by omega) hs, haddr, hversion]
  unfold decode VmPageState.sameVersion
  congr 1
  apply BitVec.eq_of_toNat_eq
  rw [BitVec.toNat_ofNat, BitVec.toNat_ofNat, Nat.mod_mod]

/-- The version after a change, with the bits that are kept of it. -/
theorem next_toNat : ((getVersion v + 1#64) &&& versionMask).toNat = (v.toNat + 1) % 2 ^ 20 := by
  have hversion := getVersion_toNat v
  have hadd : (getVersion v + 1#64).toNat = (v.toNat % 2 ^ 20 + 1) % 2 ^ 64 := by
    rw [BitVec.toNat_add, hversion]
    rfl
  show (getVersion (getVersion v + 1#64)).toNat = _
  rw [getVersion_toNat, hadd]
  omega

/-- The address `addr` is put next to the version after that of `v`. -/
theorem decode_nextVersion {addr s : U64} {p : Pid} (hs : s.toNat < 2 ^ 8)
    (haddr : (compressNormalVMAddress addr).toNat = p.toNat) :
    decode (nextVersion addr (getVersion v) s) =
      (decode v).nextVersion p (BitVec.ofNat 8 s.toNat) := by
  have hnext := next_toNat v
  have hp := p.isLt
  unfold nextVersion
  rw [decode_pack (by omega) (by omega) hs, haddr, hnext]
  unfold decode VmPageState.nextVersion
  congr 1
  · rw [BitVec.ofNat_toNat, BitVec.setWidth_eq]
  · apply BitVec.eq_of_toNat_eq
    rw [BitVec.toNat_add, BitVec.toNat_ofNat, BitVec.toNat_ofNat]
    show _ = (v.toNat % 2 ^ 20 + 1) % 2 ^ 20
    omega

theorem compress_addr : (compressNormalVMAddress (getVMAddress v)).toNat =
    (decode v).addr.toNat := by
  have hv := v.isLt
  rw [compress_getVMAddress, BitVec.toNat_ushiftRight, Nat.shiftRight_eq_div_pow]
  show _ = v.toNat / 2 ^ 28 % 2 ^ 36
  omega

theorem getState_eq : (getState v).toNat = (decode v).state.toNat := getState_toNat v

theorem decode_lockX : decode (lockX v) = (decode v).lockX :=
  decode_nextVersion v (by decide) (compress_addr v)

theorem decode_unlockX : decode (unlockX v) = (decode v).unlockX :=
  decode_nextVersion v (by decide) (compress_addr v)

theorem decode_unlockXInvalidated :
    decode (unlockXInvalidated v) = (decode v).unlockXInvalidated :=
  decode_nextVersion v (by decide) (by decide)

theorem decode_downgradeLock :
    decode (downgradeLock v) = (decode v).nextVersion (decode v).addr 1#8 :=
  decode_nextVersion v (by decide) (compress_addr v)

theorem decode_mark : decode (mark v) = (decode v).mark := decode_sameVersion v (by decide)

theorem decode_clearMark : decode (clearMark v) = (decode v).clearMark :=
  decode_sameVersion v (by decide)

/-- A reader that goes; there has to be one. -/
theorem decode_unlockS (hpos : 0 < (decode v).state.toNat) :
    decode (unlockS v) = (decode v).unlockS := by
  have hstate := getState_eq v
  have hlt := (decode v).state.isLt
  have hsub : (getState v - 1).toNat = (decode v).state.toNat - 1 := by
    rw [BitVec.toNat_sub, hstate]
    show (2 ^ 64 - 1 + (decode v).state.toNat) % 2 ^ 64 = _
    omega
  unfold unlockS VmPageState.unlockS
  rw [decode_sameVersion v (by omega), hsub]
  congr 1
  apply BitVec.eq_of_toNat_eq
  rw [BitVec.toNat_ofNat, BitVec.toNat_sub]
  show _ = (2 ^ 8 - 1 + (decode v).state.toNat) % 2 ^ 8
  omega

theorem decode_lockS : (lockS v).map decode = (decode v).lockS := by
  have hstate := getState_eq v
  have hlt : getState v < maxShared ↔ (decode v).state < VmPageState.maxShared := by
    rw [BitVec.lt_def, BitVec.lt_def, hstate]
    rfl
  have hmarked : getState v = marked ↔ (decode v).state = VmPageState.marked := by
    rw [BitVec.toNat_eq, BitVec.toNat_eq, hstate]
    rfl
  unfold lockS VmPageState.lockS
  simp only [hlt, hmarked]
  split
  · next hshared =>
    have hsmall : (decode v).state.toNat < 252 := hshared
    have hadd : (getState v + 1).toNat = (decode v).state.toNat + 1 := by
      rw [BitVec.toNat_add, hstate]
      show ((decode v).state.toNat + 1) % 2 ^ 64 = _
      omega
    rw [Option.map_some, decode_sameVersion v (by omega), hadd]
    congr 2
  · split
    · rw [Option.map_some, decode_sameVersion v (by decide)]
      rfl
    · rfl

end

end PageWord

end Tabby
