import Mathlib.Algebra.Group.Nat.Defs
import Mathlib.Data.List.Basic

/-! # Text in C

    The functions of the C library that read text, on lists of characters: the
    strings that `fgets` hands out, the words that `%s` conversions read, and the
    numbers of `atoi` and `inet_aton`. An address is the number whose most
    significant byte is written first.

    * `fgetsAll_eq_lines`: lines that fit the buffer are handed out whole.
    * `atoi_digits`: on digits, `atoi` gives the number they stand for.
-/

namespace CText

/-- The string in a buffer ends before the first NUL. -/
def cstr (s : List Char) : List Char := s.takeWhile (· != '\x00')

def isspace (c : Char) : Bool :=
  c == ' ' || c == '\t' || c == '\n' || c == '\x0b' || c == '\x0c' || c == '\r'

/-- The words that conversions `%s` read one after another. -/
def tokens (s : List Char) : List (List Char) :=
  (s.splitOnP isspace).filter fun t => !t.isEmpty

/-! ## Lines -/

/-- The strings that calls `fgets(buf, size, f)` return until the end of the file, with
    `cur` read into the buffer already. -/
def fgetsFrom (size : Nat) : List Char → List Char → List (List Char)
  | cur, [] => if cur = [] then [] else [cur]
  | cur, c :: s =>
    if c = '\n' ∨ cur.length + 2 = size then (cur ++ [c]) :: fgetsFrom size [] s
    else fgetsFrom size (cur ++ [c]) s

def fgetsAll (size : Nat) (file : List Char) : List (List Char) := fgetsFrom size [] file

/-- The lines of a file, each with its newline, after the beginning `cur` of one. -/
def linesFrom : List Char → List Char → List (List Char)
  | cur, [] => if cur = [] then [] else [cur]
  | cur, c :: s =>
    if c = '\n' then (cur ++ [c]) :: linesFrom [] s else linesFrom (cur ++ [c]) s

def lines (file : List Char) : List (List Char) := linesFrom [] file

/-- The line that `cur` begins is at least as long as `cur`. -/
theorem exists_line_ge {cur : List Char} (hcur : cur ≠ []) (s : List Char) :
    ∃ l ∈ linesFrom cur s, cur.length ≤ l.length := by
  induction s generalizing cur with
  | nil => exact ⟨cur, by simp [linesFrom, hcur], Nat.le_refl _⟩
  | cons c s ih =>
    rw [linesFrom]
    split
    · exact ⟨cur ++ [c], List.mem_cons_self, by simp⟩
    · obtain ⟨l, hl, hle⟩ := ih (show cur ++ [c] ≠ [] by simp)
      rw [List.length_append] at hle
      exact ⟨l, hl, by omega⟩

theorem fgetsFrom_eq_linesFrom {size : Nat} (s : List Char) :
    ∀ cur : List Char, (∀ l ∈ linesFrom cur s, l.length < size) →
      fgetsFrom size cur s = linesFrom cur s := by
  induction s with
  | nil =>
    intro cur _
    rfl
  | cons c s ih =>
    intro cur hshort
    rw [fgetsFrom, linesFrom]
    rw [linesFrom] at hshort
    by_cases hc : c = '\n'
    · rw [if_pos hc] at hshort
      rw [if_pos (.inl hc), if_pos hc, ih [] fun l hl => hshort l (List.mem_cons_of_mem _ hl)]
    · rw [if_neg hc] at hshort ⊢
      by_cases hfull : cur.length + 2 = size
      · -- The buffer is full, so that the line cannot go on.
        rw [if_pos (.inr hfull)]
        cases s with
        | nil => simp [fgetsFrom, linesFrom]
        | cons d s =>
          exfalso
          rw [linesFrom] at hshort
          split at hshort
          · have := hshort _ List.mem_cons_self
            simp only [List.length_append, List.length_singleton] at this
            omega
          · obtain ⟨l, hl, hle⟩ := exists_line_ge (show cur ++ [c] ++ [d] ≠ [] by simp) s
            have := hshort l hl
            simp only [List.length_append, List.length_singleton] at hle
            omega
      · rw [if_neg (by simp [hc, hfull]), ih _ hshort]

/-- Lines that fit the buffer with their newline are handed out whole. -/
theorem fgetsAll_eq_lines {size : Nat} {file : List Char}
    (hshort : ∀ l ∈ lines file, l.length < size) : fgetsAll size file = lines file :=
  fgetsFrom_eq_linesFrom file [] hshort

/-! ## Numbers -/

/-- The value of a digit in bases up to 16. -/
def digitVal (c : Char) : Option Nat :=
  if '0' ≤ c ∧ c ≤ '9' then some (c.toNat - '0'.toNat)
  else if 'a' ≤ c ∧ c ≤ 'f' then some (c.toNat - 'a'.toNat + 10)
  else if 'A' ≤ c ∧ c ≤ 'F' then some (c.toNat - 'A'.toNat + 10)
  else none

def isdigit (c : Char) : Bool := '0' ≤ c && c ≤ '9'

/-- The number that the digits at the beginning stand for, after `acc`, and the rest. -/
def number (base acc : Nat) : List Char → Nat × List Char
  | [] => (acc, [])
  | c :: s =>
    match digitVal c with
    | some d => if d < base then number base (acc * base + d) s else (acc, c :: s)
    | none => (acc, c :: s)

/-- The value of a string of digits. -/
def decimal (s : List Char) : Nat := (number 10 0 s).1

/-- A number that fits an `int`. -/
def atoi (s : List Char) : Int :=
  match s.dropWhile isspace with
  | '-' :: s => -decimal s
  | '+' :: s => decimal s
  | s => decimal s

/-- `strtoul` with base 0: a number in base 16, 8 or 10 by the way it begins. -/
def strtoul (s : List Char) : Nat × List Char :=
  match s with
  | '0' :: x :: c :: s' =>
    if (x == 'x' || x == 'X') && (digitVal c).isSome then number 16 0 (c :: s')
    else number 8 0 s
  | '0' :: _ => number 8 0 s
  | _ => number 10 0 s

/-- The last part of an address that has `more` parts less than four. -/
def inetAtonLast (more word val : Nat) (rest : List Char) : Option Nat :=
  if rest.head?.all isspace && val < 256 ^ (more + 1) then
    some (word * 256 ^ (more + 1) + val)
  else none

/-- The parts of an address after those in `word`, of which `more` may follow the first. -/
def inetAtonParts (more word : Nat) (s : List Char) : Option Nat :=
  if s.head?.any isdigit && (strtoul s).1 ≤ 0xffffffff then
    match strtoul s, more with
    | (_, '.' :: _), 0 => none
    | (val, '.' :: rest), more + 1 =>
      if val ≤ 0xff then inetAtonParts more (word * 256 + val) rest else none
    | (val, rest), more => inetAtonLast more word val rest
  else none

/-- `inet_aton`: the address, or `none` where it returns 0 and stores nothing. -/
def inetAton (s : List Char) : Option (BitVec 32) := (inetAtonParts 3 0 s).map (BitVec.ofNat 32)

example : inetAton "10.0.0.1".toList = some 0x0a000001 := by decide +kernel

/-- On digits, `atoi` gives the number they stand for. -/
theorem atoi_digits {s : List Char} (hs : s.all isdigit = true) : atoi s = decimal s := by
  cases s with
  | nil => rfl
  | cons c s =>
    have hc : isdigit c = true := by
      rw [List.all_cons, Bool.and_eq_true] at hs
      exact hs.1
    have hne : ∀ d : Char, isdigit d = false → c ≠ d := by
      rintro d hd rfl
      rw [hd] at hc
      cases hc
    have hspace : isspace c = false := by
      simp only [isspace, Bool.or_eq_false_iff, beq_eq_false_iff_ne]
      exact ⟨⟨⟨⟨⟨hne _ rfl, hne _ rfl⟩, hne _ rfl⟩, hne _ rfl⟩, hne _ rfl⟩, hne _ rfl⟩
    have hdrop : (c :: s).dropWhile isspace = c :: s := by
      rw [List.dropWhile_cons, if_neg (by simp [hspace])]
    unfold atoi
    rw [hdrop]
    split
    next heq => exact absurd (List.cons.inj heq).1 (hne _ rfl)
    next heq => exact absurd (List.cons.inj heq).1 (hne _ rfl)
    next => rfl

end CText
