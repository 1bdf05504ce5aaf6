import Mathlib.Logic.Function.Basic

/-! # Translation Caches

    A cache of translations, as far as invalidation is concerned. For each
    address it records when the translation it holds was taken out of the
    page tables; time is a counter that the user of the library advances.

    `Since a b` says that the cache holds no translation of `a` from before
    time `b`. Every operation keeps it, and the two flushes establish it.
-/

/-- The translations of a core. -/
structure Tlb (A : Type) where
  cached : A → Option Nat
  clock : Nat

namespace Tlb

variable {A : Type} [DecidableEq A] (t : Tlb A)

/-- A use of `a`: what is cached stays, a miss caches a translation. -/
def access (a : A) : Tlb A :=
  { t with cached := Function.update t.cached a (some ((t.cached a).getD t.clock)) }

/-- Invalidate one address. -/
def flushOne (a : A) : Tlb A := { t with cached := Function.update t.cached a none }

/-- Invalidate everything. -/
def flushAll : Tlb A := { t with cached := fun _ => none }

/-- Time passes. -/
def tick : Tlb A := { t with clock := t.clock + 1 }

/-- No translation of `a` from before `b` is cached. -/
def Since (a : A) (b : Nat) : Prop := ∀ n, t.cached a = some n → b ≤ n

variable {t} {a : A} {b : Nat}

theorem Since.access (h : t.Since a b) (hb : b ≤ t.clock) (x : A) : (t.access x).Since a b := by
  intro n hn
  simp only [Tlb.access, Function.update_apply] at hn
  split at hn
  · rename_i hax
    subst hax
    cases hc : t.cached a with
    | none =>
      rw [hc] at hn
      cases hn
      exact hb
    | some m =>
      rw [hc] at hn
      cases hn
      exact h m hc
  · exact h n hn

theorem since_flushOne (t : Tlb A) (a : A) (b : Nat) : (t.flushOne a).Since a b := by
  intro n hn
  simp [flushOne] at hn

theorem Since.flushOne (h : t.Since a b) (x : A) : (t.flushOne x).Since a b := by
  intro n hn
  simp only [Tlb.flushOne, Function.update_apply] at hn
  split at hn
  · cases hn
  · exact h n hn

omit [DecidableEq A] in
theorem since_flushAll (t : Tlb A) (a : A) (b : Nat) : t.flushAll.Since a b := by
  intro n hn
  cases hn

end Tlb
