import Mathlib.Algebra.Group.Nat.Defs
import Mathlib.Logic.Function.Basic

/-! # 64-bit Flag Words

    Words that pack single flags and a multi-bit field, as C code reads
    and writes them: `w & m` as a condition, `w | m` to set, `w & ~m` to
    clear. Every fact is brought down to single bits (`getLsbD`), where
    `simp` decides it once the bits of the masks are known, or to the
    disjointness of two closed masks, which `decide` settles.
-/

/-- A machine word. -/
abbrev Word := BitVec 64

namespace Word

/-! ## Flags -/

/-- The truth value C gives to `w & m`. -/
def has (w m : Word) : Bool := w &&& m != 0#64

/-- The mask with the single bit `i`. -/
def bit (i : Nat) : Word := 1#64 <<< i

theorem getLsbD_bit (i j : Nat) (hi : i < 64) : (bit i).getLsbD j = decide (j = i) := by
  unfold bit
  rw [BitVec.getLsbD_shiftLeft, BitVec.getLsbD_one]
  by_cases h : j = i
  · subst h; simp [hi]
  · have : ¬ (j < 64 ∧ i ≤ j ∧ j - i = 0) := by omega
    simp [h]; omega

/-- A test against a single-bit mask reads that bit. -/
theorem has_bit (w : Word) (i : Nat) (hi : i < 64) : has w (bit i) = w.getLsbD i := by
  unfold has
  cases hb : w.getLsbD i with
  | false =>
    have hz : w &&& bit i = 0#64 := by
      apply BitVec.eq_of_getLsbD_eq
      intro j _
      rw [BitVec.getLsbD_and, getLsbD_bit i j hi]
      by_cases hj : j = i
      · subst hj; simp [hb]
      · simp [hj]
    simp [hz]
  | true =>
    have hnz : w &&& bit i ≠ 0#64 := by
      intro hz
      have hbit := congrArg (fun x : Word => x.getLsbD i) hz
      simp [BitVec.getLsbD_and, getLsbD_bit i i hi, hb] at hbit
    simpa using hnz

/-- A word without any bit of a mask has none of its bits. -/
theorem getLsbD_of_and_eq_zero {w m : Word} (h : w &&& m = 0#64) {i : Nat}
    (hm : m.getLsbD i = true) : w.getLsbD i = false := by
  have hbit := congrArg (fun x : Word => x.getLsbD i) h
  simpa [BitVec.getLsbD_and, hm] using hbit

/-! ## Fields

    A field is what a mask `a` cuts out of a word. Writing bits outside
    `a` does not change it. -/

theorem field_or_left {a m : Word} (h : m &&& a = 0#64) (w : Word) : (w ||| m) &&& a = w &&& a := by
  rw [BitVec.and_or_distrib_right, h, BitVec.or_zero]

theorem field_clear {a m : Word} (h : ~~~m &&& a = a) (w : Word) :
    (w &&& ~~~m) &&& a = w &&& a := by
  rw [BitVec.and_assoc, h]

/-- A field cut out twice is cut out once. -/
theorem field_field (a w : Word) : (w &&& a) &&& a = w &&& a := by
  rw [BitVec.and_assoc, BitVec.and_self]

/-- What a mask disjoint from `a` cuts out has an empty field `a`. -/
theorem field_disjoint {a b : Word} (h : b &&& a = 0#64) (w : Word) : (w &&& b) &&& a = 0#64 := by
  rw [BitVec.and_assoc, h]
  simp

/-! ## Rounding -/

/-- Clearing the low bits of a word rounds it down. -/
theorem toNat_clear_low (w : Word) (k : Nat) :
    (w &&& ~~~BitVec.ofNat 64 (2 ^ k - 1)).toNat = w.toNat / 2 ^ k * 2 ^ k := by
  have hshift : w &&& ~~~BitVec.ofNat 64 (2 ^ k - 1) = (w >>> k) <<< k := by
    apply BitVec.eq_of_getLsbD_eq
    intro i hi
    simp only [BitVec.getLsbD_and, BitVec.getLsbD_not, BitVec.getLsbD_ofNat,
      Nat.testBit_two_pow_sub_one, BitVec.getLsbD_shiftLeft, BitVec.getLsbD_ushiftRight, hi]
    by_cases hik : i < k
    · simp [hik]
    · have hsum : k + (i - k) = i := by omega
      simp [hik, hsum]
  have hle : w.toNat / 2 ^ k * 2 ^ k ≤ w.toNat := Nat.div_mul_le_self _ _
  rw [hshift, BitVec.toNat_shiftLeft, BitVec.toNat_ushiftRight, Nat.shiftRight_eq_div_pow,
    Nat.shiftLeft_eq, Nat.mod_eq_of_lt (by omega)]

end Word
