import Libdbos.Framework.CText

/-! # Firewall Rules

    `firewall_parse` of `apps/ufirewall/firewall.c` reads `ufw.rules` line by
    line. The buffers for the words of a line and the address that `inet_aton`
    stores are declared outside the loop: a word that is missing, or one that is
    no address, leaves what an earlier line has put there, since the code takes
    only a negative result of `inet_aton` for a failure.

    `meaning` is what a line says by itself. The rules stored are the meanings of
    the lines if and only if every line that needs a meaning has one
    (`rules_mean_lines`).
-/

namespace Ufirewall

open CText

/-! ## Model -/

/-- A rule; one for `bind` has no address. -/
inductive Rule where
  | bind (port : BitVec 16)
  | connect (allow : Bool) (port : BitVec 16) (ip mask : BitVec 32)
  deriving DecidableEq, Repr

/-- What `firewall_parse` keeps from line to line; all of it is uninitialised at first. -/
structure Buffers where
  port : List Char
  ip : List Char
  mask : List Char
  inp : BitVec 32
  deriving DecidableEq, Repr

/-- A conversion `%s` into a buffer of `size` bytes that holds `old`: without a word the
    buffer is left alone, and `none` means that it overflows. -/
def scanInto (size : Nat) (old : List Char) : Option (List Char) → Option (List Char)
  | none => some old
  | some word => if word.length < size then some word else none

/-- `sscanf` with one conversion. -/
def Buffers.scanPort (b : Buffers) (words : List (List Char)) : Option Buffers :=
  (scanInto 8 b.port words[0]?).map fun port => { b with port }

/-- `sscanf` with three conversions. -/
def Buffers.scanConnect (b : Buffers) (words : List (List Char)) : Option Buffers :=
  (scanInto 8 b.port words[0]?).bind fun port =>
    (scanInto 20 b.ip words[1]?).bind fun ip =>
      (scanInto 20 b.mask words[2]?).map fun mask => { b with port, ip, mask }

/-- The port of a rule, 0 for any; the `int` of `atoi` is cut to 16 bits. -/
def portOf (word : List Char) : BitVec 16 :=
  if word = ['*'] then 0 else BitVec.ofInt 16 (atoi word)

/-- The result of `inet_aton` and the address after it. -/
def callInetAton (word : List Char) (inp : BitVec 32) : Int × BitVec 32 :=
  match inetAton word with
  | some address => (1, address)
  | none => (0, inp)

inductive LineResult where
  /-- A comment or a blank line. -/
  | skip
  | rule (r : Rule) (b : Buffers)
  /-- The parser returns -1. -/
  | error
  /-- A word does not fit its buffer. -/
  | overflow

def parseBind (b : Buffers) (words : List (List Char)) : LineResult :=
  match b.scanPort words with
  | none => .overflow
  | some b => .rule (.bind (portOf b.port)) b

/-- The two branches for `connect`, which differ in the type of the rule. -/
def parseConnect (allow : Bool) (b : Buffers) (words : List (List Char)) : LineResult :=
  match b.scanConnect words with
  | none => .overflow
  | some b =>
    let ip := callInetAton b.ip b.inp
    if ip.1 < 0 then .error
    else
      let mask := callInetAton b.mask ip.2
      if mask.1 < 0 then .error
      else .rule (.connect allow (portOf b.port) ip.2 mask.2) { b with inp := mask.2 }

def allowBind : List Char := "allow bind".toList
def allowConnect : List Char := "allow connect".toList
def denyConnect : List Char := "deny connect".toList

/-- The words after a keyword. -/
def wordsAfter (keyword str : List Char) : List (List Char) := tokens (str.drop keyword.length)

/-- The body of the loop. -/
def parseLine (b : Buffers) (str : List Char) : LineResult :=
  if "#".toList.isPrefixOf str then .skip
  else if str = ['\n'] then .skip
  else if allowBind.isPrefixOf str then parseBind b (wordsAfter allowBind str)
  else if allowConnect.isPrefixOf str then parseConnect true b (wordsAfter allowConnect str)
  else if denyConnect.isPrefixOf str then parseConnect false b (wordsAfter denyConnect str)
  else .error

inductive ParseResult where
  /-- The rules, the one inserted last first. -/
  | ok (rules : List Rule)
  | failed
  | overflow
  deriving DecidableEq

/-- The loop, with the rules inserted so far. -/
def parseLines (rules : List Rule) (b : Buffers) : List (List Char) → ParseResult
  | [] => .ok rules
  | l :: ls =>
    match parseLine b (cstr l) with
    | .skip => parseLines rules b ls
    | .rule r b' => parseLines (r :: rules) b' ls
    | .error => .failed
    | .overflow => .overflow

/-- `firewall_parse` on the contents of the file, `none` where it cannot be opened. -/
def firewallParse (b : Buffers) : Option (List Char) → ParseResult
  | none => .failed
  | some file => parseLines [] b (fgetsAll 100 file)

/-! ## The rules in the order of the file -/

/-- The rule that each line stores. -/
def storedRules (b : Buffers) : List (List Char) → List Rule
  | [] => []
  | l :: ls =>
    match parseLine b (cstr l) with
    | .rule r b' => r :: storedRules b' ls
    | _ => storedRules b ls

theorem parseLines_ok {rules₀ rules : List Rule} {b : Buffers} {ls : List (List Char)}
    (h : parseLines rules₀ b ls = .ok rules) : rules = (storedRules b ls).reverse ++ rules₀ := by
  induction ls generalizing rules₀ b with
  | nil =>
    obtain rfl := ParseResult.ok.inj h
    rfl
  | cons l ls ih =>
    rw [parseLines] at h
    rw [storedRules]
    split at h
    next hl => rw [ih h, hl]
    next r b' hl => rw [ih h, hl, List.reverse_cons, List.append_assoc, List.singleton_append]
    next => cases h
    next => cases h

/-- The list of rules is the file backwards. -/
theorem firewallParse_ok {b : Buffers} {file : List Char} {rules : List Rule}
    (h : firewallParse b (some file) = .ok rules) :
    rules = (storedRules b (fgetsAll 100 file)).reverse := by
  rw [parseLines_ok h, List.append_nil]

/-! ## What a line says -/

/-- The port that a word stands for: any for the wildcard, or a number from 1 to 65535. -/
def portMeaning (word : List Char) : Option (BitVec 16) :=
  if word = ['*'] then some 0
  else if word.all isdigit ∧ 1 ≤ decimal word ∧ decimal word ≤ 65535 then
    some (BitVec.ofNat 16 (decimal word))
  else none

def connectMeaning (allow : Bool) : List (List Char) → Option Rule
  | port :: ip :: mask :: _ =>
    (portMeaning port).bind fun port =>
      (inetAton ip).bind fun ip => (inetAton mask).map fun mask => .connect allow port ip mask
  | _ => none

/-- The rule that a line stands for by itself. -/
def meaning (str : List Char) : Option Rule :=
  if allowBind.isPrefixOf str then
    (wordsAfter allowBind str).head?.bind fun port => (portMeaning port).map .bind
  else if allowConnect.isPrefixOf str then connectMeaning true (wordsAfter allowConnect str)
  else if denyConnect.isPrefixOf str then connectMeaning false (wordsAfter denyConnect str)
  else none

/-- Whether a line is neither a comment nor blank. -/
def IsRuleLine (str : List Char) : Prop :=
  ¬ "#".toList.isPrefixOf str = true ∧ str ≠ ['\n']

instance decidableIsRuleLine : DecidablePred IsRuleLine := fun _ =>
  inferInstanceAs (Decidable (_ ∧ _))

/-- Whether a line begins with the keyword of a rule. -/
def hasKeyword (str : List Char) : Bool :=
  allowBind.isPrefixOf str || allowConnect.isPrefixOf str || denyConnect.isPrefixOf str

theorem portOf_eq {word : List Char} {port : BitVec 16} (h : portMeaning word = some port) :
    portOf word = port := by
  unfold portMeaning at h
  unfold portOf
  split at h
  next hany => rw [if_pos hany, Option.some.inj h]
  next hany =>
    rw [if_neg hany]
    split at h
    next hnum =>
      rw [atoi_digits hnum.1, ← Option.some.inj h]
      exact BitVec.ofInt_natCast ..
    next => cases h

theorem scanInto_some {size : Nat} {old word : List Char} {buf : List Char}
    (h : scanInto size old (some word) = some buf) : buf = word := by
  simp only [scanInto] at h
  split at h
  · exact (Option.some.inj h).symm
  · cases h

theorem callInetAton_some {word : List Char} {a inp : BitVec 32} (h : inetAton word = some a) :
    callInetAton word inp = (1, a) := by
  unfold callInetAton
  rw [h]

/-- A line with all its words, each of them well formed, stores its meaning, whatever the
    buffers hold. -/
theorem parseConnect_eq {allow : Bool} {b b' : Buffers} {words : List (List Char)} {r r' : Rule}
    (hparse : parseConnect allow b words = .rule r b')
    (hmeans : connectMeaning allow words = some r') : r = r' := by
  match words, hmeans with
  | port :: ip :: mask :: _, hmeans =>
    simp only [connectMeaning, Option.bind_eq_some_iff, Option.map_eq_some_iff] at hmeans
    obtain ⟨p, hp, i, hi, m, hm, rfl⟩ := hmeans
    unfold parseConnect at hparse
    split at hparse
    next => cases hparse
    next c hscan =>
      simp only [Buffers.scanConnect, Option.bind_eq_some_iff, Option.map_eq_some_iff] at hscan
      obtain ⟨port', hport, ip', hip, mask', hmask, rfl⟩ := hscan
      obtain rfl := scanInto_some hport
      obtain rfl := scanInto_some hip
      obtain rfl := scanInto_some hmask
      simp only [callInetAton_some hi, callInetAton_some hm, portOf_eq hp] at hparse
      exact (LineResult.rule.inj hparse).1.symm

theorem parseBind_eq {b b' : Buffers} {words : List (List Char)} {r r' : Rule}
    (hparse : parseBind b words = .rule r b')
    (hmeans : (words.head?.bind fun port => (portMeaning port).map .bind) = some r') : r = r' := by
  match words, hmeans with
  | port :: _, hmeans =>
    simp only [List.head?_cons, Option.bind_some, Option.map_eq_some_iff] at hmeans
    obtain ⟨p, hp, rfl⟩ := hmeans
    unfold parseBind at hparse
    split at hparse
    next => cases hparse
    next c hscan =>
      simp only [Buffers.scanPort, Option.map_eq_some_iff] at hscan
      obtain ⟨port', hport, rfl⟩ := hscan
      obtain rfl := scanInto_some hport
      rw [← (LineResult.rule.inj hparse).1, portOf_eq hp]

/-- A line with a keyword stores a rule or overflows a buffer. -/
def LineResult.Stores (res : LineResult) : Prop := res = .overflow ∨ ∃ r b, res = .rule r b

theorem parseBind_stores (b : Buffers) (words : List (List Char)) : (parseBind b words).Stores := by
  unfold parseBind
  split
  · exact .inl rfl
  · exact .inr ⟨_, _, rfl⟩

/-- `inet_aton` never returns a negative number. -/
theorem parseConnect_stores (allow : Bool) (b : Buffers) (words : List (List Char)) :
    (parseConnect allow b words).Stores := by
  have hle (word : List Char) (inp : BitVec 32) : ¬(callInetAton word inp).1 < 0 := by
    unfold callInetAton
    split <;> exact of_decide_eq_true rfl
  unfold parseConnect
  split
  · exact .inl rfl
  · dsimp only
    rw [if_neg (hle _ _), if_neg (hle _ _)]
    exact .inr ⟨_, _, rfl⟩

/-- The three ways in which a line is taken. -/
theorem parseLine_cases (b : Buffers) (str : List Char) :
    (parseLine b str = .skip ∧ ¬ IsRuleLine str) ∨
    (parseLine b str = .error ∧ IsRuleLine str ∧ hasKeyword str = false) ∨
    ((parseLine b str).Stores ∧ IsRuleLine str ∧ hasKeyword str = true) := by
  unfold parseLine
  split
  next hcomment => exact .inl ⟨rfl, fun h => h.1 hcomment⟩
  next hcomment =>
  split
  next hblank => exact .inl ⟨rfl, fun h => h.2 hblank⟩
  next hblank =>
  right
  unfold hasKeyword
  split
  next h => exact .inr ⟨parseBind_stores _ _, ⟨hcomment, hblank⟩, by simp [h]⟩
  next hbind =>
  split
  next h => exact .inr ⟨parseConnect_stores _ _ _, ⟨hcomment, hblank⟩, by simp [h]⟩
  next hallow =>
  split
  next h => exact .inr ⟨parseConnect_stores _ _ _, ⟨hcomment, hblank⟩, by simp [h]⟩
  next hdeny => exact .inl ⟨rfl, ⟨hcomment, hblank⟩, by simp [hbind, hallow, hdeny]⟩

/-- A line that stores a rule stores its meaning, if it has one. -/
theorem meaning_of_rule {b b' : Buffers} {str : List Char} {r : Rule}
    (h : parseLine b str = .rule r b') (hwell : IsRuleLine str → (meaning str).isSome) :
    IsRuleLine str ∧ meaning str = some r := by
  unfold parseLine at h
  split at h
  · cases h
  next hcomment =>
  split at h
  · cases h
  next hblank =>
  refine ⟨⟨hcomment, hblank⟩, ?_⟩
  obtain ⟨r', hr'⟩ := Option.isSome_iff_exists.mp (hwell ⟨hcomment, hblank⟩)
  rw [hr']
  unfold meaning at hr'
  split at h
  next hbind =>
    rw [if_pos hbind] at hr'
    rw [parseBind_eq h hr']
  next hbind =>
  rw [if_neg hbind] at hr'
  split at h
  next hallow =>
    rw [if_pos hallow] at hr'
    rw [parseConnect_eq h hr']
  next hallow =>
  rw [if_neg hallow] at hr'
  split at h
  next hdeny =>
    rw [if_pos hdeny] at hr'
    rw [parseConnect_eq h hr']
  · cases h

/-- The rules that a file stands for, one for each line that is neither a comment nor blank. -/
def meanings (ls : List (List Char)) : List (Option Rule) :=
  ((ls.map cstr).filter IsRuleLine).map meaning

theorem storedRules_eq {rules₀ rules : List Rule} {b : Buffers} {ls : List (List Char)}
    (h : parseLines rules₀ b ls = .ok rules)
    (hwell : ∀ l ∈ ls, IsRuleLine (cstr l) → (meaning (cstr l)).isSome) :
    (storedRules b ls).map some = meanings ls := by
  induction ls generalizing rules₀ b with
  | nil => rfl
  | cons l ls ih =>
    have hrest := fun l' hl' => hwell l' (List.mem_cons_of_mem l hl')
    rw [parseLines] at h
    rw [storedRules, meanings, List.map_cons, List.filter_cons]
    split at h
    next hl =>
      have hnot : ¬ IsRuleLine (cstr l) := by
        rcases parseLine_cases b (cstr l) with h | h | ⟨h | ⟨_, _, h⟩, -⟩
        · exact h.2
        · exact nomatch hl.symm.trans h.1
        · exact nomatch hl.symm.trans h
        · exact nomatch hl.symm.trans h
      rw [hl, if_neg (by simpa using hnot)]
      exact ih h hrest
    next r b' hl =>
      obtain ⟨hrule, hmeans⟩ := meaning_of_rule hl (hwell l List.mem_cons_self)
      rw [hl, if_pos (by simpa using hrule), List.map_cons, List.map_cons, hmeans]
      exact congrArg (some r :: ·) (ih h hrest)
    next => cases h
    next => cases h

/-- The parser fails at a line that has no keyword and needs one. -/
def IsUnknown (str : List Char) : Prop := IsRuleLine str ∧ hasKeyword str = false

theorem parseLines_failed_iff {rules : List Rule} {b : Buffers} {ls : List (List Char)}
    (hfits : parseLines rules b ls ≠ .overflow) :
    parseLines rules b ls = .failed ↔ ∃ l ∈ ls, IsUnknown (cstr l) := by
  induction ls generalizing rules b with
  | nil => simp [parseLines]
  | cons l ls ih =>
    rw [List.exists_mem_cons_iff]
    rw [parseLines] at hfits ⊢
    rcases parseLine_cases b (cstr l) with ⟨hl, hnot⟩ | ⟨hl, hrule⟩ | ⟨hl | ⟨r, b', hl⟩, hrule⟩ <;>
      simp only [hl] at hfits ⊢
    · rw [ih hfits, or_iff_right fun h => hnot h.1]
    · exact iff_of_true trivial (.inl hrule)
    · exact absurd rfl hfits
    · rw [ih hfits, or_iff_right fun h => Bool.false_ne_true (h.2.symm.trans hrule.2)]

/-- **Each rule means what its line says**: for a file whose lines are shorter than 99
    characters and whose words fit the buffers, if and only if the file has an unknown line, for
    which the parser fails, or every line that needs a rule is well formed. -/
theorem rules_mean_lines (b : Buffers) (file : List Char)
    (hshort : ∀ l ∈ lines file, l.length ≤ 99)
    (hfits : firewallParse b (some file) ≠ .overflow) :
    (firewallParse b (some file) = .failed ∨ ∃ rules, firewallParse b (some file) = .ok rules ∧
      rules.reverse.map some = meanings (lines file)) ↔
    (∃ l ∈ lines file, IsUnknown (cstr l)) ∨
      ∀ l ∈ lines file, IsRuleLine (cstr l) → (meaning (cstr l)).isSome := by
  have hlines : fgetsAll 100 file = lines file :=
    fgetsAll_eq_lines fun l hl => Nat.lt_succ_of_le (hshort l hl)
  rw [firewallParse, hlines] at hfits ⊢
  rw [parseLines_failed_iff hfits]
  refine or_congr_right' fun hknown => ?_
  have hfailed := mt (parseLines_failed_iff hfits).mp hknown
  constructor
  · rintro ⟨rules, -, hmeans⟩ l hl hrule
    have hmem : meaning (cstr l) ∈ meanings (lines file) :=
      List.mem_map_of_mem (List.mem_filter.mpr ⟨List.mem_map_of_mem hl, by simpa using hrule⟩)
    rw [← hmeans, List.mem_map] at hmem
    obtain ⟨r, -, hr⟩ := hmem
    rw [← hr]
    rfl
  · intro hwell
    cases hparse : parseLines [] b (lines file) with
    | overflow => exact absurd hparse hfits
    | failed => exact absurd hparse hfailed
    | ok rules =>
      refine ⟨rules, rfl, ?_⟩
      rw [parseLines_ok hparse, List.append_nil, List.reverse_reverse]
      exact storedRules_eq hparse hwell

def plainFile : List Char :=
  "# web\nallow bind 80\n\nallow connect * 0.0.0.0 0.0.0.0\n".toList

def noBuffers : Buffers := ⟨[], [], [], 0⟩

theorem rules_mean_lines_plain : firewallParse noBuffers (some plainFile) = .failed ∨
    ∃ rules, firewallParse noBuffers (some plainFile) = .ok rules ∧
      rules.reverse.map some = meanings (lines plainFile) :=
  (rules_mean_lines noBuffers plainFile (by decide +kernel) (by decide +kernel)).mpr
    (.inr (by decide +kernel))

/-- Two rules of which the second has no mask: it takes the one of the line before. -/
def maskless : List Char := "deny connect 80 10.0.0.1 255.0.0.0\nallow connect 80 8.8.8.8\n".toList

theorem missing_mask_accepted : (∀ l ∈ lines maskless, l.length ≤ 99) ∧
    firewallParse noBuffers (some maskless) =
      .ok [.connect true 80 0x08080808 0xff000000, .connect false 80 0x0a000001 0xff000000] ∧
    meanings (lines maskless) = [some (.connect false 80 0x0a000001 0xff000000), none] := by
  decide +kernel

end Ufirewall
