import Mathlib.Logic.Function.Basic

/-! # Ring Buffers with Free-Running Counters

    A ring of `cap` places whose two counters are never reduced: entry
    number `n` of the history lives in place `n % cap`, from the time it is
    written until the reader's counter has passed `n`.

    `Unread cap slots head hist` says that the places hold the entries of
    the history that the reader, at number `head`, has still to read. The
    writer keeps it as long as it is less than `cap` entries ahead.
-/

namespace RingBuffer

variable {α : Type} {cap head head' : Nat} {slots : Nat → α} {hist : List α} {x : α}

/-- Every entry from number `head` on is in its place. -/
def Unread (cap : Nat) (slots : Nat → α) (head : Nat) (hist : List α) : Prop :=
  ∀ n, head ≤ n → ∀ x, hist[n]? = some x → slots (n % cap) = x

/-- Two numbers less than `cap` apart have different places. -/
theorem mod_ne {n m : Nat} (hlt : n < m) (hnear : m < n + cap) : n % cap ≠ m % cap := by
  intro heq
  obtain ⟨d, rfl⟩ := Nat.exists_eq_add_of_lt hlt
  have hd : (d + 1) % cap = 0 := by
    have h := Nat.sub_mod_eq_zero_of_mod_eq heq.symm
    rwa [show n + d + 1 - n = d + 1 by omega] at h
  rw [Nat.mod_eq_of_lt (by omega)] at hd
  omega

theorem unread_nil : Unread cap slots head [] := by
  intro n _ x hx
  simp at hx

/-- Reading on. -/
theorem Unread.advance (h : Unread cap slots head hist) (hle : head ≤ head') :
    Unread cap slots head' hist :=
  fun n hn => h n (Nat.le_trans hle hn)

/-- The place of the next entry is free while there is room. -/
theorem Unread.fill (h : Unread cap slots head hist) (hroom : hist.length < head + cap) :
    Unread cap (Function.update slots (hist.length % cap) x) head hist := by
  intro n hn y hy
  have hlt : n < hist.length := (List.getElem?_eq_some_iff.1 hy).1
  rw [Function.update_of_ne (mod_ne hlt (by omega))]
  exact h n hn y hy

/-- An entry whose place has been written is appended. -/
theorem Unread.append (h : Unread cap slots head hist) (hx : slots (hist.length % cap) = x) :
    Unread cap slots head (hist ++ [x]) := by
  intro n hn y hy
  by_cases hlt : n < hist.length
  · rw [List.getElem?_append_left hlt] at hy
    exact h n hn y hy
  · have hlen : n < (hist ++ [x]).length := (List.getElem?_eq_some_iff.1 hy).1
    have hn' : n = hist.length := by
      rw [List.length_append, List.length_singleton] at hlen
      omega
    subst hn'
    rw [List.getElem?_append_right (Nat.le_refl _), Nat.sub_self] at hy
    rw [hx]
    exact Option.some.inj hy

end RingBuffer
