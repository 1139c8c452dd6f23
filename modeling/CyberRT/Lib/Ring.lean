import Mathlib.Data.List.Basic

/-!
# A log kept in a ring of slots

The elements of a growing list `log` are written to `L` slots in turn, element `n` to slot `n % L`.
-/

namespace Lib

open List

variable {α : Type*} {L N p : Nat} {slots : Nat → α} {log : List α}

def InRing (L : Nat) (slots : Nat → α) (log : List α) : Prop :=
  ∀ n x, log[n]? = some x → log.length ≤ n + L → slots (n % L) = x

theorem inRing_nil (L : Nat) (slots : Nat → α) : InRing L slots [] := by
  intro n x hn
  simp at hn

theorem mod_ne_of_lt {m n : Nat} (hmn : m < n) (hn : n < m + L) : m % L ≠ n % L := by
  intro h
  have hdvd : L ∣ n - m := Nat.dvd_of_mod_eq_zero (Nat.sub_mod_eq_zero_of_mod_eq h.symm)
  have := Nat.le_of_dvd (by omega) hdvd
  omega

theorem InRing.push (h : InRing L slots log) (x : α) :
    InRing L (Function.update slots (log.length % L) x) (log ++ [x]) := by
  intro n y hn hlast
  rw [length_append, length_singleton] at hlast
  rcases Nat.lt_trichotomy n log.length with hlt | rfl | hgt
  · rw [Function.update_of_ne (mod_ne_of_lt hlt (by omega))]
    rw [getElem?_append_left hlt] at hn
    exact h n y hn (by omega)
  all_goals grind

def newest (L N p : Nat) : Nat := p + (N - 1 - p) / L * L

theorem newest_mod (L N p : Nat) : newest L N p % L = p % L :=
  Nat.add_mul_mod_self_right p _ L

theorem le_newest (L N p : Nat) : p ≤ newest L N p := Nat.le_add_right _ _

theorem newest_lt (hp : p < N) : newest L N p < N := by
  have : (N - 1 - p) / L * L ≤ N - 1 - p := Nat.div_mul_le_self _ _
  unfold newest
  omega

theorem le_newest_add (hL : 0 < L) : N ≤ newest L N p + L := by
  have : N - 1 - p < (N - 1 - p) / L * L + L := Nat.lt_div_mul_add hL
  unfold newest
  omega

theorem InRing.newest (h : InRing L slots log) (hL : 0 < L)
    (hp : p < log.length) : log[newest L log.length p]? = some (slots (p % L)) := by
  have hlt := newest_lt (L := L) hp
  rw [← newest_mod L log.length p, getElem?_eq_getElem hlt]
  exact congrArg some (h _ _ (getElem?_eq_getElem hlt) (le_newest_add hL)).symm

end Lib
