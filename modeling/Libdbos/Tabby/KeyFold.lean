import Libdbos.Framework.Bytes

/-! # Folded Keys

    `apps/tabby/tpcc/Types.hpp` turns the fields of a key into bytes such that the
    B+-tree, which compares bytes, has the keys in the order of their fields: integers
    with the sign bit flipped and the most significant byte first, strings with a zero
    at the end. `unfold` reads them back.

    A key is any sequence of fields. What each field contributes to the order of the
    bytes is `Embeds`, and this is kept when fields are put one after another
    (`embeds_key`).
-/

open Bytes

namespace Tabby.KeyFold

/-! ## Fields -/

/-- A `Varchar` of the source: the characters up to `length`, which is an `int16_t`. -/
structure Varchar (maxLength : Nat) where
  chars : List Byte
  length_le : chars.length ≤ maxLength
  length_lt : chars.length < 2 ^ 15
  deriving DecidableEq

/-- The operator `<` of the source. -/
def Varchar.lt {maxLength : Nat} (x y : Varchar maxLength) : Bool :=
  match memcmp x.chars y.chars (min x.chars.length y.chars.length) with
  | .lt => true
  | .gt => false
  | .eq => x.chars.length < y.chars.length

/-- The types of fields that can be folded. -/
inductive FieldType where
  | integer
  | timestamp
  | u64
  | varchar (maxLength : Nat)
  deriving DecidableEq, Repr

/-- What a field of a type holds: an `s32`, an `s64`, a `u64` or a string. -/
abbrev FieldType.Value : FieldType → Type
  | .integer => BitVec 32
  | .timestamp => BitVec 64
  | .u64 => BitVec 64
  | .varchar maxLength => Varchar maxLength

/-- The order of the values. -/
def FieldType.Lt : (t : FieldType) → t.Value → t.Value → Prop
  | .integer, x, y => x.toInt < y.toInt
  | .timestamp, x, y => x.toInt < y.toInt
  | .u64, x, y => x.toNat < y.toNat
  | .varchar _, x, y => x.lt y = true

/-- A string has no zero in it. -/
def FieldType.NulFree : (t : FieldType) → t.Value → Prop
  | .varchar _, x => 0 ∉ x.chars
  | _, _ => True

/-! ### Folding -/

/-- The operand is an `unsigned long`, and `__builtin_bswap32` takes its low half. -/
def foldInteger (x : BitVec 32) : List Byte :=
  toLE 4 (bswap 4 ((x.signExtend 64 ^^^ (1#64 <<< 31)).setWidth 32).toNat)

def foldTimestamp (x : BitVec 64) : List Byte := toLE 8 (bswap 8 (x ^^^ (1#64 <<< 63)).toNat)

def foldU64 (x : BitVec 64) : List Byte := toLE 8 (bswap 8 x.toNat)

def foldVarchar {maxLength : Nat} (x : Varchar maxLength) : List Byte := x.chars ++ [0]

/-- The function `fold`. -/
def fold : (t : FieldType) → t.Value → List Byte
  | .integer, x => foldInteger x
  | .timestamp, x => foldTimestamp x
  | .u64, x => foldU64 x
  | .varchar _, x => foldVarchar x

/-! ### Unfolding

    Each function returns the value and the bytes it has not read, or `none` where the
    source would read or write outside of what it was given. -/

def unfoldInteger (input : List Byte) : Option (BitVec 32 × List Byte) :=
  if 4 ≤ input.length then
    some ((BitVec.ofNat 64 (bswap 4 (ofLE (input.take 4))) ^^^ (1#64 <<< 31)).setWidth 32,
      input.drop 4)
  else none

def unfoldTimestamp (input : List Byte) : Option (BitVec 64 × List Byte) :=
  if 8 ≤ input.length then
    some (BitVec.ofNat 64 (bswap 8 (ofLE (input.take 8))) ^^^ (1#64 <<< 63), input.drop 8)
  else none

def unfoldU64 (input : List Byte) : Option (BitVec 64 × List Byte) :=
  if 8 ≤ input.length then
    some (BitVec.ofNat 64 (bswap 8 (ofLE (input.take 8))), input.drop 8)
  else none

/-- The characters before the first zero, and what comes after it. -/
def splitNul : List Byte → Option (List Byte × List Byte)
  | [] => none
  | b :: bs => if b = 0 then some ([], bs) else (splitNul bs).map fun p => (b :: p.1, p.2)

def unfoldVarchar (maxLength : Nat) (input : List Byte) :
    Option (Varchar maxLength × List Byte) :=
  (splitNul input).bind fun p =>
    if h : p.1.length ≤ maxLength ∧ p.1.length < 2 ^ 15 then some (⟨p.1, h.1, h.2⟩, p.2) else none

/-- The function `unfold`. -/
def unfold : (t : FieldType) → List Byte → Option (t.Value × List Byte)
  | .integer, input => unfoldInteger input
  | .timestamp, input => unfoldTimestamp input
  | .u64, input => unfoldU64 input
  | .varchar maxLength, input => unfoldVarchar maxLength input

/-! ## Keys -/

/-- The fields of a key, one after another. -/
inductive Key : List FieldType → Type where
  | nil : Key []
  | cons {t : FieldType} {ts : List FieldType} (x : t.Value) (k : Key ts) : Key (t :: ts)

/-- The first field that differs decides. -/
def Key.Lt : {ts : List FieldType} → Key ts → Key ts → Prop
  | [], _, _ => False
  | t :: _, .cons x k, .cons y k' => t.Lt x y ∨ x = y ∧ Key.Lt k k'

def Key.NulFree : {ts : List FieldType} → Key ts → Prop
  | [], _ => True
  | t :: _, .cons x k => t.NulFree x ∧ Key.NulFree k

def foldKey : {ts : List FieldType} → Key ts → List Byte
  | [], _ => []
  | t :: _, .cons x k => fold t x ++ foldKey k

def unfoldKey : (ts : List FieldType) → List Byte → Option (Key ts × List Byte)
  | [], input => some (.nil, input)
  | t :: ts, input =>
    (unfold t input).bind fun p => (unfoldKey ts p.2).map fun q => (.cons p.1 q.1, q.2)

/-- The key of `customer_wdl_t`: warehouse, district, last and first name. -/
abbrev customerWdl : List FieldType := [.integer, .integer, .varchar 16, .varchar 16]

/-! ## Order -/

/-- The bytes of two values decide as the values do, whatever follows; if the values
    are the same, what follows decides. -/
def Embeds {α : Type} (ok : α → Prop) (lt : α → α → Prop) (enc : α → List Byte) : Prop :=
  ∀ a b, ok a → ok b → ∀ r r', enc a ++ r < enc b ++ r' ↔ lt a b ∨ a = b ∧ r < r'

/-- Numbers with the most significant byte first. -/
theorem embeds_bigEndian {α : Type} (n : Nat) (val : α → Nat) (hval : ∀ a, val a < 256 ^ n)
    (hinj : ∀ a b, val a = val b → a = b) :
    Embeds (fun _ => True) (fun a b => val a < val b) (fun a => toLE n (bswap n (val a))) := by
  intro a b _ _ r r'
  have hlen : (toLE n (val a)).reverse.length = (toLE n (val b)).reverse.length := by simp
  simp only [toLE_bswap]
  rw [append_lt_append_iff hlen, ← ofBE_lt_ofBE_iff hlen, ofBE_toLE_reverse (hval a),
    ofBE_toLE_reverse (hval b)]
  refine or_congr Iff.rfl (and_congr_left fun _ => ⟨fun h => hinj a b ?_, fun h => h ▸ rfl⟩)
  rw [← ofBE_toLE_reverse (hval a), h, ofBE_toLE_reverse (hval b)]

/-- The highest bit of a number flipped. -/
theorem xor_two_pow {k x : Nat} (hx : x < 2 ^ (k + 1)) :
    x ^^^ 2 ^ k = if x < 2 ^ k then x + 2 ^ k else x - 2 ^ k := by
  have hpow : 2 ^ (k + 1) = 2 * 2 ^ k := Nat.pow_succ'
  have hpos : 0 < 2 ^ k := Nat.two_pow_pos k
  have hmod : (x ^^^ 2 ^ k) % 2 ^ k = x % 2 ^ k := by
    rw [Nat.xor_mod_two_pow, Nat.mod_self, Nat.xor_zero]
  have hdiv : (x ^^^ 2 ^ k) / 2 ^ k = x / 2 ^ k ^^^ 1 := by
    rw [Nat.xor_div_two_pow, Nat.div_self hpos]
  have hsplit := Nat.div_add_mod (x ^^^ 2 ^ k) (2 ^ k)
  rw [hmod, hdiv] at hsplit
  rw [← hsplit]
  split
  · next hlt =>
    rw [Nat.div_eq_of_lt hlt, Nat.mod_eq_of_lt hlt]
    show 2 ^ k * 1 + x = _
    omega
  · next hge =>
    have hone : x / 2 ^ k = 1 := Nat.div_eq_of_lt_le (by omega) (by omega)
    have hx' := Nat.div_add_mod x (2 ^ k)
    rw [hone] at hx' ⊢
    show 2 ^ k * 0 + _ = _
    omega

/-- With the sign bit flipped the order of signed numbers is that of unsigned ones. -/
theorem toInt_lt_iff {k : Nat} (x y : BitVec (k + 1)) :
    x.toNat ^^^ 2 ^ k < y.toNat ^^^ 2 ^ k ↔ x.toInt < y.toInt := by
  have hpow : 2 ^ (k + 1) = 2 * 2 ^ k := Nat.pow_succ'
  have hx := x.isLt
  have hy := y.isLt
  rw [xor_two_pow hx, xor_two_pow hy, BitVec.toInt_eq_toNat_cond, BitVec.toInt_eq_toNat_cond]
  generalize 2 ^ k = m at *
  push_cast [hpow]
  split <;> split <;> split <;> split <;> omega

theorem xor_inj {k : Nat} (x y : BitVec (k + 1)) (h : x.toNat ^^^ 2 ^ k = y.toNat ^^^ 2 ^ k) :
    x = y := by
  apply BitVec.eq_of_toNat_eq
  have := congrArg (· ^^^ 2 ^ k) h
  simpa [Nat.xor_assoc] using this

theorem foldInteger_eq (x : BitVec 32) :
    foldInteger x = toLE 4 (bswap 4 (x.toNat ^^^ 2 ^ 31)) := by
  have hlow : (x.signExtend 64).setWidth 32 = x := by
    ext i hi
    rw [BitVec.getElem_setWidth, BitVec.getLsbD_signExtend, if_pos hi]
    simp [hi, Nat.lt_trans hi (by decide : 32 < 64)]
  have hbit : ((1#64 <<< 31).setWidth 32) = 0x80000000#32 := by decide
  unfold foldInteger
  rw [BitVec.setWidth_xor, hlow, hbit, BitVec.toNat_xor]
  rfl

theorem foldTimestamp_eq (x : BitVec 64) :
    foldTimestamp x = toLE 8 (bswap 8 (x.toNat ^^^ 2 ^ 63)) := by
  unfold foldTimestamp
  rw [BitVec.toNat_xor]
  rfl

theorem Varchar.lt_iff {maxLength : Nat} (x y : Varchar maxLength) :
    x.lt y = true ↔ x.chars < y.chars := by
  rw [← (compareKeys_compares x.chars y.chars).eq_lt]
  unfold Varchar.lt compareKeys
  generalize memcmp x.chars y.chars (min x.chars.length y.chars.length) = o
  match o with
  | .lt => exact ⟨fun _ => rfl, fun _ => rfl⟩
  | .gt => exact ⟨fun h => Bool.noConfusion h, fun h => Ordering.noConfusion h⟩
  | .eq => rw [decide_eq_true_iff, compare_lt_iff_lt]

/-- Strings without a zero, with a zero at the end. -/
theorem append_nul_lt_iff {as bs : List Byte} (ha : 0 ∉ as) (hb : 0 ∉ bs) (r r' : List Byte) :
    as ++ 0 :: r < bs ++ 0 :: r' ↔ as < bs ∨ as = bs ∧ r < r' := by
  induction as generalizing bs with
  | nil =>
    match bs with
    | [] => simp
    | b :: bs =>
      -- the end of the shorter string is below every character
      have hpos : (0 : Byte) < b := Fin.pos_iff_ne_zero.mpr (List.ne_of_not_mem_cons hb).symm
      simp [List.cons_lt_cons_iff, hpos]
  | cons a as ih =>
    have hpos : (0 : Byte) < a := Fin.pos_iff_ne_zero.mpr (List.ne_of_not_mem_cons ha).symm
    match bs with
    | [] => simp [List.cons_lt_cons_iff, hpos.ne', hpos.asymm]
    | b :: bs =>
      rw [List.cons_append, List.cons_append, List.cons_lt_cons_iff, List.cons_lt_cons_iff,
        ih (List.not_mem_of_not_mem_cons ha) (List.not_mem_of_not_mem_cons hb), List.cons.injEq,
        and_or_left, or_assoc, and_assoc]

/-- Every field on its own. -/
theorem embeds_fold (t : FieldType) : Embeds t.NulFree t.Lt (fold t) := by
  match t with
  | .integer =>
    intro x y _ _ r r'
    have h := embeds_bigEndian 4 (fun x : BitVec 32 => x.toNat ^^^ 2 ^ 31)
      (fun x => Nat.xor_lt_two_pow x.isLt (by decide)) xor_inj x y trivial trivial r r'
    simp only [toInt_lt_iff] at h
    simpa only [fold, foldInteger_eq, FieldType.Lt] using h
  | .timestamp =>
    intro x y _ _ r r'
    have h := embeds_bigEndian 8 (fun x : BitVec 64 => x.toNat ^^^ 2 ^ 63)
      (fun x => Nat.xor_lt_two_pow x.isLt (by decide)) xor_inj x y trivial trivial r r'
    simp only [toInt_lt_iff] at h
    simpa only [fold, foldTimestamp_eq, FieldType.Lt] using h
  | .u64 =>
    intro x y _ _ r r'
    exact embeds_bigEndian 8 BitVec.toNat (fun x => x.isLt) (fun _ _ => BitVec.eq_of_toNat_eq)
      x y trivial trivial r r'
  | .varchar maxLength =>
    intro x y hx hy r r'
    have hext : x = y ↔ x.chars = y.chars := by
      cases x
      cases y
      simp
    simp only [fold, foldVarchar, FieldType.Lt, List.append_assoc, List.singleton_append]
    rw [append_nul_lt_iff hx hy, x.lt_iff, hext]

/-- Fields one after another: the first one that differs decides. -/
theorem embeds_key (ts : List FieldType) :
    Embeds (α := Key ts) Key.NulFree Key.Lt foldKey := by
  induction ts with
  | nil =>
    intro .nil .nil _ _ r r'
    simp [foldKey, Key.Lt]
  | cons t ts ih =>
    intro (.cons x k) (.cons y k') hx hy r r'
    simp only [foldKey, Key.Lt, List.append_assoc]
    rw [embeds_fold t x y hx.1 hy.1, ih k k' hx.2 hy.2, Key.cons.injEq, and_or_left, or_assoc,
      and_assoc]

/-! ## Reading back -/

theorem take_toLE (n v : Nat) (rest : List Byte) : (toLE n v ++ rest).take n = toLE n v := by
  rw [List.take_append_of_le_length (by simp), List.take_of_length_le (by simp)]

theorem drop_toLE (n v : Nat) (rest : List Byte) : (toLE n v ++ rest).drop n = rest := by
  rw [List.drop_append_of_le_length (by simp), List.drop_of_length_le (by simp), List.nil_append]

/-- A number that was stored with its bytes swapped is read back by swapping them. -/
theorem bswap_ofLE_toLE_bswap {n v : Nat} (hv : v < 256 ^ n) :
    bswap n (ofLE (toLE n (bswap n v))) = v := by
  have h := bswap_ofLE (toLE n (bswap n v))
  rw [length_toLE] at h
  rw [h, toLE_bswap, ofBE_toLE_reverse hv]

theorem splitNul_append {as : List Byte} (ha : 0 ∉ as) (rest : List Byte) :
    splitNul (as ++ 0 :: rest) = some (as, rest) := by
  induction as with
  | nil => rfl
  | cons a as ih =>
    have hne : a ≠ 0 := (List.ne_of_not_mem_cons ha).symm
    rw [List.cons_append, splitNul, if_neg hne, ih (List.not_mem_of_not_mem_cons ha)]
    rfl

theorem unfoldInteger_foldInteger (x : BitVec 32) (rest : List Byte) :
    unfoldInteger (foldInteger x ++ rest) = some (x, rest) := by
  have hlt : x.toNat ^^^ 2 ^ 31 < 2 ^ 32 := Nat.xor_lt_two_pow x.isLt (by decide)
  have hval : (BitVec.ofNat 64 (x.toNat ^^^ 2 ^ 31) ^^^ (1#64 <<< 31)).setWidth 32 = x := by
    apply BitVec.eq_of_toNat_eq
    rw [BitVec.toNat_setWidth, BitVec.toNat_xor, BitVec.toNat_ofNat,
      Nat.mod_eq_of_lt (hlt.trans (by decide))]
    show (x.toNat ^^^ 2 ^ 31 ^^^ 2 ^ 31) % 2 ^ 32 = _
    rw [Nat.xor_assoc, Nat.xor_self, Nat.xor_zero, Nat.mod_eq_of_lt x.isLt]
  rw [foldInteger_eq, unfoldInteger, if_pos (by simp), take_toLE, drop_toLE,
    bswap_ofLE_toLE_bswap hlt, hval]

theorem unfoldTimestamp_foldTimestamp (x : BitVec 64) (rest : List Byte) :
    unfoldTimestamp (foldTimestamp x ++ rest) = some (x, rest) := by
  have hlt : x.toNat ^^^ 2 ^ 63 < 2 ^ 64 := Nat.xor_lt_two_pow x.isLt (by decide)
  have hval : BitVec.ofNat 64 (x.toNat ^^^ 2 ^ 63) ^^^ (1#64 <<< 63) = x := by
    apply BitVec.eq_of_toNat_eq
    rw [BitVec.toNat_xor, BitVec.toNat_ofNat, Nat.mod_eq_of_lt hlt]
    show x.toNat ^^^ 2 ^ 63 ^^^ 2 ^ 63 = _
    rw [Nat.xor_assoc, Nat.xor_self, Nat.xor_zero]
  rw [foldTimestamp_eq, unfoldTimestamp, if_pos (by simp), take_toLE, drop_toLE,
    bswap_ofLE_toLE_bswap hlt, hval]

theorem unfoldU64_foldU64 (x : BitVec 64) (rest : List Byte) :
    unfoldU64 (foldU64 x ++ rest) = some (x, rest) := by
  rw [foldU64, unfoldU64, if_pos (by simp), take_toLE, drop_toLE, bswap_ofLE_toLE_bswap x.isLt,
    BitVec.ofNat_toNat, BitVec.setWidth_eq]

theorem unfoldVarchar_foldVarchar {maxLength : Nat} (x : Varchar maxLength) (hx : 0 ∉ x.chars)
    (rest : List Byte) : unfoldVarchar maxLength (foldVarchar x ++ rest) = some (x, rest) := by
  rw [foldVarchar, unfoldVarchar, List.append_assoc, List.singleton_append, splitNul_append hx,
    Option.bind_some, dif_pos ⟨x.length_le, x.length_lt⟩]

/-- A field is read back, whatever follows it. -/
theorem unfold_fold (t : FieldType) (x : t.Value) (hx : t.NulFree x) (rest : List Byte) :
    unfold t (fold t x ++ rest) = some (x, rest) :=
  match t with
  | .integer => unfoldInteger_foldInteger x rest
  | .timestamp => unfoldTimestamp_foldTimestamp x rest
  | .u64 => unfoldU64_foldU64 x rest
  | .varchar _ => unfoldVarchar_foldVarchar x hx rest

theorem unfoldKey_foldKey {ts : List FieldType} (k : Key ts) (hk : k.NulFree)
    (rest : List Byte) : unfoldKey ts (foldKey k ++ rest) = some (k, rest) := by
  induction k with
  | nil => rfl
  | @cons t ts x k ih =>
    simp only [foldKey, unfoldKey, List.append_assoc]
    rw [unfold_fold t x hk.1, Option.bind_some, ih hk.2]
    rfl

/-- **Folding embeds the order of keys**: the bytes of two keys compare as the fields
    do, the bytes of one are not the beginning of those of the other, and the fields
    are read back whatever follows the bytes. -/
theorem fold_embeds {ts : List FieldType} (k k' : Key ts) (hk : k.NulFree) (hk' : k'.NulFree) :
    (foldKey k < foldKey k' ↔ k.Lt k') ∧
      (foldKey k <+: foldKey k' → foldKey k = foldKey k') ∧
      ∀ rest, unfoldKey ts (foldKey k ++ rest) = some (k, rest) := by
  refine ⟨?_, ?_, unfoldKey_foldKey k hk⟩
  · have h := embeds_key ts k k' hk hk' [] []
    simpa using h
  · rintro ⟨rest, hrest⟩
    -- what is read back from the longer key is both keys
    have h := unfoldKey_foldKey k hk rest
    have h' := unfoldKey_foldKey k' hk' []
    rw [List.append_nil, ← hrest, h] at h'
    rw [(Prod.mk.inj (Option.some.inj h')).1]

/-- Two customers of one district. -/
theorem fold_embeds_customer :
    let k : Key customerWdl := .cons 1#32 (.cons 2#32 (.cons ⟨[66, 65, 82], by decide, by decide⟩
      (.cons ⟨[74], by decide, by decide⟩ .nil)))
    let k' : Key customerWdl := .cons 1#32 (.cons 2#32
      (.cons ⟨[66, 65, 82, 65], by decide, by decide⟩ (.cons ⟨[65], by decide, by decide⟩ .nil)))
    (foldKey k < foldKey k' ↔ k.Lt k') ∧ foldKey k =
      [128, 0, 0, 1, 128, 0, 0, 2, 66, 65, 82, 0, 74, 0] := by
  intro k k'
  have hk : k.NulFree := ⟨trivial, trivial, (by decide : (0 : Byte) ∉ [66, 65, 82]),
    (by decide : (0 : Byte) ∉ [74]), trivial⟩
  have hk' : k'.NulFree := ⟨trivial, trivial, (by decide : (0 : Byte) ∉ [66, 65, 82, 65]),
    (by decide : (0 : Byte) ∉ [65]), trivial⟩
  exact ⟨(fold_embeds k k' hk hk').1, by decide⟩

end Tabby.KeyFold
