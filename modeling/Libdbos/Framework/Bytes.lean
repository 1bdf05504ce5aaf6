import Mathlib.Algebra.Group.Nat.Defs
import Mathlib.Data.List.Lex
import Mathlib.Order.Compare
import Mathlib.Order.Fin.Basic

/-! # Bytes

    Numbers as bytes, least significant first (`toLE`, `ofLE`) or most significant
    first (`ofBE`), and the order of byte strings: `memcmp` and a comparison of the
    lengths decide it, and for strings of one length it is the order of the numbers
    that they stand for.
-/

namespace Bytes

abbrev Byte := Fin 256

scoped instance neZero_256 : @NeZero Nat Zero.ofOfNat0 256 := ⟨by decide⟩

/-! ## Numbers -/

/-- The `n` low bytes of a number, the least significant first. -/
def toLE : Nat → Nat → List Byte
  | 0, _ => []
  | n + 1, v => Fin.ofNat 256 v :: toLE n (v / 256)

/-- The number that bytes stand for, the least significant first. -/
def ofLE : List Byte → Nat
  | [] => 0
  | b :: bs => b + 256 * ofLE bs

/-- The number that bytes stand for, the most significant first. -/
def ofBE : List Byte → Nat
  | [] => 0
  | b :: bs => b * 256 ^ bs.length + ofBE bs

/-- The bytes of a number of `n` bytes in the other order. -/
def bswap (n v : Nat) : Nat := ofBE (toLE n v)

@[simp] theorem length_toLE (n v : Nat) : (toLE n v).length = n := by
  induction n generalizing v with
  | zero => rfl
  | succ n ih => rw [toLE, List.length_cons, ih]

theorem ofLE_toLE (n v : Nat) : ofLE (toLE n v) = v % 256 ^ n := by
  induction n generalizing v with
  | zero => simp [toLE, ofLE, Nat.mod_one]
  | succ n ih =>
    rw [toLE, ofLE, ih, Fin.val_ofNat, Nat.pow_succ', Nat.mod_mul]

theorem toLE_ofLE (bs : List Byte) : toLE bs.length (ofLE bs) = bs := by
  induction bs with
  | nil => rfl
  | cons b bs ih =>
    have hb := b.isLt
    have hlow : Fin.ofNat 256 (b + 256 * ofLE bs) = b := by
      apply Fin.ext
      rw [Fin.val_ofNat]
      omega
    have hhigh : (b + 256 * ofLE bs) / 256 = ofLE bs := by omega
    rw [List.length_cons, ofLE, toLE, hlow, hhigh, ih]

theorem ofBE_append (as bs : List Byte) :
    ofBE (as ++ bs) = ofBE as * 256 ^ bs.length + ofBE bs := by
  induction as with
  | nil => simp [ofBE]
  | cons a as ih =>
    rw [List.cons_append, ofBE, ofBE, ih, List.length_append, Nat.pow_add, Nat.add_mul,
      Nat.mul_assoc, Nat.add_assoc]

theorem ofBE_reverse (bs : List Byte) : ofBE bs.reverse = ofLE bs := by
  induction bs with
  | nil => rfl
  | cons b bs ih =>
    rw [List.reverse_cons, ofBE_append, ih, ofLE]
    simp [ofBE]
    omega

theorem ofBE_lt (bs : List Byte) : ofBE bs < 256 ^ bs.length := by
  induction bs with
  | nil => simp [ofBE]
  | cons b bs ih =>
    have hb : (b : Nat) + 1 ≤ 256 := b.isLt
    have hmul := Nat.mul_le_mul_right (256 ^ bs.length) hb
    rw [Nat.add_mul] at hmul
    rw [ofBE, List.length_cons, Nat.pow_succ']
    omega

/-- The bytes of a number with its bytes swapped are those of the number, the most
    significant first. -/
theorem toLE_bswap (n v : Nat) : toLE n (bswap n v) = (toLE n v).reverse := by
  have h := toLE_ofLE (toLE n v).reverse
  rw [List.length_reverse, length_toLE, ← ofBE_reverse, List.reverse_reverse] at h
  exact h

theorem bswap_ofLE (bs : List Byte) : bswap bs.length (ofLE bs) = ofBE bs := by
  unfold bswap
  rw [toLE_ofLE]

/-- What is swapped twice is as it was. -/
theorem ofBE_toLE_reverse {n v : Nat} (hv : v < 256 ^ n) : ofBE (toLE n v).reverse = v := by
  rw [ofBE_reverse, ofLE_toLE, Nat.mod_eq_of_lt hv]

/-! ## Order -/

section order

variable {α : Type*} [LinearOrder α]

/-- Strings with beginnings of one length: the beginnings decide if they differ. -/
theorem append_lt_append_iff {as bs : List α} (h : as.length = bs.length) (r r' : List α) :
    as ++ r < bs ++ r' ↔ as < bs ∨ as = bs ∧ r < r' := by
  induction as generalizing bs with
  | nil =>
    obtain rfl := List.length_eq_zero_iff.mp h.symm
    simp
  | cons a as ih =>
    match bs with
    | [] => exact absurd h (Nat.succ_ne_zero _)
    | b :: bs =>
      rw [List.cons_append, List.cons_append, List.cons_lt_cons_iff, List.cons_lt_cons_iff,
        ih (Nat.succ.inj h), List.cons.injEq, and_or_left, or_assoc, and_assoc]

end order

/-- Strings of one length are in the order of the numbers they stand for. -/
theorem ofBE_lt_ofBE_iff {as bs : List Byte} (h : as.length = bs.length) :
    ofBE as < ofBE bs ↔ as < bs := by
  induction as generalizing bs with
  | nil =>
    obtain rfl := List.length_eq_zero_iff.mp h.symm
    simp
  | cons a as ih =>
    match bs with
    | [] => exact absurd h (Nat.succ_ne_zero _)
    | b :: bs =>
      have hlen : as.length = bs.length := Nat.succ.inj h
      have ha := ofBE_lt as
      have hb := ofBE_lt bs
      rw [List.cons_lt_cons_iff, ofBE, ofBE, ← ih hlen, hlen]
      rw [hlen] at ha
      obtain hlt | rfl | hgt := lt_trichotomy a b
      · -- the first bytes differ by one at least, which outweighs the rest
        have hmul := Nat.mul_le_mul_right (256 ^ bs.length) (Nat.succ_le_of_lt hlt)
        rw [Nat.succ_mul] at hmul
        exact ⟨fun _ => .inl hlt, fun _ => by omega⟩
      · simp
      · have hmul := Nat.mul_le_mul_right (256 ^ bs.length) (Nat.succ_le_of_lt hgt)
        rw [Nat.succ_mul] at hmul
        constructor
        · intro hlt
          omega
        · rintro (hab | ⟨rfl, -⟩)
          · exact absurd hab hgt.asymm
          · exact absurd hgt (lt_irrefl _)

/-- The first `n` bytes of two strings compared. -/
def memcmp : List Byte → List Byte → Nat → Ordering
  | a :: as, b :: bs, n + 1 =>
    if a < b then .lt else if b < a then .gt else memcmp as bs n
  | _, _, _ => .eq

/-- The order of two strings, from a comparison of the part that both have and one of
    the lengths. -/
def compareKeys (as bs : List Byte) : Ordering :=
  match memcmp as bs (min as.length bs.length) with
  | .lt => .lt
  | .gt => .gt
  | .eq => compare as.length bs.length

theorem compareKeys_cons (a b : Byte) (as bs : List Byte) :
    compareKeys (a :: as) (b :: bs) =
      if a < b then .lt else if b < a then .gt else compareKeys as bs := by
  have hmin : min (as.length + 1) (bs.length + 1) = min as.length bs.length + 1 := by omega
  have hcmp : compare (as.length + 1) (bs.length + 1) = compare as.length bs.length := by
    simp [compare, compareOfLessAndEq]
  unfold compareKeys
  rw [List.length_cons, List.length_cons, hmin, memcmp, hcmp]
  by_cases hab : a < b
  · rw [if_pos hab, if_pos hab]
  · by_cases hba : b < a
    · rw [if_neg hab, if_pos hba, if_neg hab, if_pos hba]
    · rw [if_neg hab, if_neg hba, if_neg hab, if_neg hba]

/-- The two comparisons give the order. -/
theorem compareKeys_compares (as bs : List Byte) : (compareKeys as bs).Compares as bs := by
  induction as generalizing bs with
  | nil =>
    match bs with
    | [] => exact rfl
    | b :: bs => exact List.nil_lt_cons b bs
  | cons a as ih =>
    match bs with
    | [] => exact List.nil_lt_cons a as
    | b :: bs =>
      rw [compareKeys_cons]
      obtain hlt | rfl | hgt := lt_trichotomy a b
      · rw [if_pos hlt]
        exact List.cons_lt_cons_iff.mpr (.inl hlt)
      · rw [if_neg (lt_irrefl _), if_neg (lt_irrefl _)]
        -- the first bytes agree, so the rest is compared
        have h := ih bs
        generalize compareKeys as bs = o at h
        match o, h with
        | .lt, h => exact List.cons_lt_cons_iff.mpr (.inr ⟨rfl, h⟩)
        | .eq, h => exact congrArg (a :: ·) h
        | .gt, h => exact List.cons_lt_cons_iff.mpr (.inr ⟨rfl, h⟩)
      · rw [if_neg hgt.asymm, if_pos hgt]
        exact List.cons_lt_cons_iff.mpr (.inl hgt)

end Bytes
