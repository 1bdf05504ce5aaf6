import Mathlib.Logic.Function.Basic

/-! # Locks Inside Shared Words

    A table of words, one per key, in which one bit of every word is a
    lock. Agents take the lock of a word by swapping a locked word in for
    an unlocked one, and give it back by storing an unlocked word. Other
    parties may change the rest of a word at any time, as the hardware
    does with the accessed bit of a page-table entry.

    `Step` lists the moves that respect the lock. From any run of such
    moves it follows that a lock has at most one holder (`Inv`), and that
    while an agent holds a lock nobody else stores into its word
    (`Step.leaf_of_held`). To verify a program, show that each of its
    steps is such a move.
-/

namespace WordLock

variable {Agent Key W : Type}

/-- The words, and the key each agent holds the lock of. -/
structure Locks (Agent Key W : Type) where
  leaf : Key → W
  holder : Agent → Option Key

section

variable (locked : W → Bool) (tweak : W → W → Prop)

/-- The moves of agent `a` that respect the locks. -/
inductive Step [DecidableEq Agent] [DecidableEq Key] (a : Agent) :
    Locks Agent Key W → Locks Agent Key W → Prop where
  | stay {L} : Step a L L
  | acquire {L} (k : Key) (w : W) : L.holder a = none → locked (L.leaf k) = false →
      locked w = true →
      Step a L ⟨Function.update L.leaf k w, Function.update L.holder a (some k)⟩
  | release {L} (k : Key) (w : W) : L.holder a = some k → locked w = false →
      Step a L ⟨Function.update L.leaf k w, Function.update L.holder a none⟩
  | tweak {L} (k : Key) (w : W) : tweak (L.leaf k) w →
      Step a L ⟨Function.update L.leaf k w, L.holder⟩

/-- Locked words and holders correspond one to one. -/
structure Inv (L : Locks Agent Key W) : Prop where
  exclusive : ∀ a b k, L.holder a = some k → L.holder b = some k → a = b
  held_locked : ∀ a k, L.holder a = some k → locked (L.leaf k) = true
  locked_held : ∀ k, locked (L.leaf k) = true → ∃ a, L.holder a = some k

variable {locked tweak}

/-- Nobody holds anything and no word is locked. -/
theorem Inv.of_free {L : Locks Agent Key W} (hholder : ∀ a, L.holder a = none)
    (hleaf : ∀ k, locked (L.leaf k) = false) : Inv locked L where
  exclusive := fun a b k ha => by simp [hholder] at ha
  held_locked := fun a k ha => by simp [hholder] at ha
  locked_held := fun k hk => by simp [hleaf] at hk

/-- A lock that is taken while the word is unlocked had no holder. -/
theorem Inv.not_held {L : Locks Agent Key W} (hinv : Inv locked L) {k : Key}
    (hk : locked (L.leaf k) = false) (a : Agent) : L.holder a ≠ some k := by
  intro ha
  rw [hinv.held_locked a k ha] at hk
  cases hk

variable [DecidableEq Agent] [DecidableEq Key]

theorem Inv.acquire {L : Locks Agent Key W} (hinv : Inv locked L) {a : Agent} {k : Key} {w : W}
    (hnone : L.holder a = none) (hk : locked (L.leaf k) = false) (hw : locked w = true) :
    Inv locked ⟨Function.update L.leaf k w, Function.update L.holder a (some k)⟩ := by
  have hfree := hinv.not_held hk
  refine ⟨?_, ?_, ?_⟩
  · intro b c j hb hc
    by_cases hba : b = a <;> by_cases hca : c = a
    · rw [hba, hca]
    · simp only [hba, Function.update_self, Function.update_of_ne hca, Option.some.injEq] at hb hc
      exact absurd (hb ▸ hc) (hfree c)
    · simp only [hca, Function.update_self, Function.update_of_ne hba, Option.some.injEq] at hb hc
      exact absurd (hc ▸ hb) (hfree b)
    · simp only [Function.update_of_ne hba, Function.update_of_ne hca] at hb hc
      exact hinv.exclusive b c j hb hc
  · intro b j hb
    by_cases hjk : j = k
    · simpa [hjk] using hw
    · by_cases hba : b = a
      · simp only [hba, Function.update_self, Option.some.injEq] at hb
        exact absurd hb.symm hjk
      · simp only [Function.update_of_ne hba] at hb
        simpa [Function.update_of_ne hjk] using hinv.held_locked b j hb
  · intro j hj
    by_cases hjk : j = k
    · exact ⟨a, by simp [hjk]⟩
    · simp only [Function.update_of_ne hjk] at hj
      obtain ⟨b, hb⟩ := hinv.locked_held j hj
      have hba : b ≠ a := by
        rintro rfl
        rw [hnone] at hb
        cases hb
      exact ⟨b, by simp [Function.update_of_ne hba, hb]⟩

theorem Inv.release {L : Locks Agent Key W} (hinv : Inv locked L) {a : Agent} {k : Key} {w : W}
    (ha : L.holder a = some k) (hw : locked w = false) :
    Inv locked ⟨Function.update L.leaf k w, Function.update L.holder a none⟩ := by
  -- Whoever still holds a lock is another agent, so it holds another key.
  have hother : ∀ b j, Function.update L.holder a none b = some j →
      L.holder b = some j ∧ j ≠ k := by
    intro b j hb
    by_cases hba : b = a
    · simp [hba] at hb
    · rw [Function.update_of_ne hba] at hb
      refine ⟨hb, ?_⟩
      rintro rfl
      exact hba (hinv.exclusive b a _ hb ha)
  refine ⟨?_, ?_, ?_⟩
  · intro b c j hb hc
    exact hinv.exclusive b c j (hother b j hb).1 (hother c j hc).1
  · intro b j hb
    obtain ⟨hb, hjk⟩ := hother b j hb
    simpa [Function.update_of_ne hjk] using hinv.held_locked b j hb
  · intro j hj
    by_cases hjk : j = k
    · simp [hjk, hw] at hj
    · simp only [Function.update_of_ne hjk] at hj
      obtain ⟨b, hb⟩ := hinv.locked_held j hj
      have hba : b ≠ a := by
        rintro rfl
        rw [ha] at hb
        exact hjk (Option.some.inj hb).symm
      exact ⟨b, by simp [Function.update_of_ne hba, hb]⟩

omit [DecidableEq Agent] in
theorem Inv.change {L : Locks Agent Key W} (hinv : Inv locked L) {k : Key} {w : W}
    (hw : locked w = locked (L.leaf k)) :
    Inv locked ⟨Function.update L.leaf k w, L.holder⟩ := by
  have hsame : ∀ j, locked (Function.update L.leaf k w j) = locked (L.leaf j) := by
    intro j
    by_cases hjk : j = k
    · simp [hjk, hw]
    · rw [Function.update_of_ne hjk]
  refine ⟨hinv.exclusive, ?_, ?_⟩
  · intro a j ha
    exact (hsame j).trans (hinv.held_locked a j ha)
  · intro j hj
    exact hinv.locked_held j ((hsame j).symm.trans hj)

/-- **Mutual exclusion is kept** by every move that respects the locks. -/
theorem Step.inv {a : Agent} {L L' : Locks Agent Key W}
    (htweak : ∀ v w, tweak v w → locked w = locked v)
    (hinv : Inv locked L) (hstep : Step locked tweak a L L') : Inv locked L' := by
  cases hstep with
  | stay => exact hinv
  | acquire k w hnone hk hw => exact hinv.acquire hnone hk hw
  | release k w ha hw => exact hinv.release ha hw
  | tweak k w hw => exact hinv.change (htweak _ _ hw)

/-- While an agent holds a lock, the moves of the others at most tweak
    the word. -/
theorem Step.leaf_of_held {a b : Agent} {k : Key} {L L' : Locks Agent Key W}
    (hinv : Inv locked L) (hstep : Step locked tweak a L L')
    (hb : L.holder b = some k) (hba : b ≠ a) :
    L'.leaf k = L.leaf k ∨ tweak (L.leaf k) (L'.leaf k) := by
  cases hstep with
  | stay => exact Or.inl rfl
  | acquire j w _ hj _ =>
    have hkj : k ≠ j := fun h => hinv.not_held hj b (h ▸ hb)
    exact Or.inl (Function.update_of_ne hkj _ _)
  | release j w ha _ =>
    have hkj : k ≠ j := fun h => hba (hinv.exclusive b a k hb (h ▸ ha))
    exact Or.inl (Function.update_of_ne hkj _ _)
  | tweak j w hw =>
    by_cases hkj : k = j
    · subst hkj
      exact Or.inr (by simpa using hw)
    · exact Or.inl (Function.update_of_ne hkj _ _)

end

end WordLock
