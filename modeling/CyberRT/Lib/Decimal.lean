import Mathlib.Data.List.Induction
import Mathlib.Data.Nat.Digits.Defs

/-!
# Decimal numerals one behind the other

The numerals of two numbers, written without anything between them, can be read in more than one
way: `1` and `11` give the text of `11` and `1`.
-/

namespace Lib

open List Nat

abbrev digits (n : Nat) : List Char := toDigits 10 n

theorem digits_injective {n m : Nat} (h : digits n = digits m) : n = m := by
  have := congrArg (fun ds => Nat.ofDigitChars 10 ds 0) h
  simpa [digits, ofDigitChars_toDigits] using this

theorem digits_append {n : Nat} (hn : 0 < n) (m : Nat) :
    digits n ++ digits m = digits (n * 10 ^ (digits m).length + m) := by
  induction m using Nat.strongRecOn with
  | ind m ih =>
    by_cases hm : m < 10
    · have hlen : (digits m).length = 1 := by
        rw [digits, toDigits_of_lt_base hm]
        rfl
      rw [digits, digits, toDigits_append_toDigits (by decide) hn hm, hlen]
      congr 1
      omega
    · -- the last digit goes to the end of both sides
      have hlast : digits m = digits (m / 10) ++ digits (m % 10) := by
        unfold digits
        rw [toDigits_of_base_le (by decide) (by omega),
          toDigits_of_lt_base (mod_lt m (by decide : 0 < 10))]
      have hlen : (digits m).length = (digits (m / 10)).length + 1 := by
        rw [digits, toDigits_of_base_le (by decide) (by omega)]
        simp
      have hpos : 0 < n * 10 ^ (digits (m / 10)).length + m / 10 := by
        have := Nat.pow_pos (n := (digits (m / 10)).length) (show 0 < 10 by decide)
        have := mul_pos hn this
        omega
      rw [hlen, hlast, ← append_assoc, ih (m / 10) (by omega), digits, digits,
        toDigits_append_toDigits (by decide) hpos (mod_lt m (by decide))]
      congr 1
      have := div_add_mod m 10
      rw [pow_succ]
      grind

theorem eq_digits_of_append {n : Nat} {e f : List Char} (he : e ≠ [])
    (h : digits n = e ++ f) : e = digits (n / 10 ^ f.length) := by
  induction f using List.reverseRecOn generalizing n with
  | nil => simpa using h.symm
  | append_singleton f x ih =>
    have hlen := congrArg List.length h
    have hn : 10 ≤ n := by
      by_contra hlt
      rw [digits, toDigits_of_lt_base (by omega)] at hlen
      have := length_pos_iff.2 he
      simp only [length_append, length_cons, length_nil] at hlen
      omega
    rw [digits, toDigits_of_base_le (by decide) hn, ← append_assoc] at h
    have hinit := (append_inj' h rfl).1
    rw [ih hinit, Nat.div_div_eq_div_mul, length_append, Nat.pow_add, Nat.mul_comm]
    rfl

theorem digits_eq_append {n a q : Nat} (h : digits n = digits a ++ digits q) :
    0 < a ∧ n = a * 10 ^ (digits q).length + q := by
  rcases Nat.eq_zero_or_pos a with rfl | ha
  · -- the value would be that of the rest, and the length is not
    have hval := congrArg (fun ds => Nat.ofDigitChars 10 ds 0) h
    simp only [digits, ofDigitChars_append, ofDigitChars_toDigits (show 1 < 10 by decide)
      (show 10 ≤ 10 by decide)] at hval
    have hlen := congrArg List.length h
    rw [hval, length_append] at hlen
    have : 0 < (digits 0).length := length_toDigits_pos
    omega
  · rw [digits_append ha] at h
    exact ⟨ha, digits_injective h⟩

/-- **Another reading**: the digits of `q` close `c` and open `b`. -/
def Shifted (a b c d : Nat) : Prop :=
  0 < a ∧ ∃ q, 0 < q ∧ c = a * 10 ^ (digits q).length + q ∧ b = q * 10 ^ (digits d).length + d

variable {a b c d : Nat}

theorem shifted_of_append {e : List Char} (he : e ≠ [])
    (hc : digits c = digits a ++ e) (hb : digits b = e ++ digits d) : Shifted a b c d := by
  have hq := eq_digits_of_append he hb
  rw [hq] at hc hb
  obtain ⟨ha, hc⟩ := digits_eq_append hc
  obtain ⟨hq, hb⟩ := digits_eq_append hb
  exact ⟨ha, _, hq, hc, hb⟩

theorem Shifted.append_eq (h : Shifted a b c d) : digits a ++ digits b = digits c ++ digits d := by
  obtain ⟨ha, q, hq, rfl, rfl⟩ := h
  rw [← digits_append ha, ← digits_append hq, append_assoc]

theorem digits_append_eq_iff : digits a ++ digits b = digits c ++ digits d ↔
    (a = c ∧ b = d) ∨ Shifted a b c d ∨ Shifted c d a b := by
  constructor
  · intro h
    rcases append_eq_append_iff.1 h with ⟨e, hc, hb⟩ | ⟨e, ha, hd⟩
    · by_cases he : e = []
      · subst he
        rw [append_nil] at hc
        exact .inl ⟨(digits_injective hc).symm, digits_injective hb⟩
      · exact .inr (.inl (shifted_of_append he hc hb))
    · by_cases he : e = []
      · subst he
        rw [append_nil] at ha
        exact .inl ⟨digits_injective ha, (digits_injective hd).symm⟩
      · exact .inr (.inr (shifted_of_append he ha hd))
  · rintro (⟨rfl, rfl⟩ | h | h)
    · rfl
    · exact h.append_eq
    · exact h.append_eq.symm

theorem Shifted.lt (h : Shifted a b c d) : a < c := by
  obtain ⟨ha, q, hq, rfl, -⟩ := h
  have := Nat.pow_pos (n := (digits q).length) (show 0 < 10 by decide)
  have := Nat.le_mul_of_pos_right a this
  omega

end Lib
