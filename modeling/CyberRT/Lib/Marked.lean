import Mathlib.Order.Bounds.Basic
import Mathlib.Data.List.Induction
import Mathlib.Order.MinMax

/-!
# Extremes with the least element for "none"

A running minimum in a variable that is `⊥` as long as there is none (`markedMin`), and the first
value in such a variable (`markedFirst`).
-/

namespace Lib

open List

variable {α : Type*} [LinearOrder α] [OrderBot α]

variable {l : List α}

def markedMin (b t : α) : α := if b = ⊥ then t else min b t

def markedFirst (b t : α) : α := if b = ⊥ then t else b

theorem markedMin_bot (b : α) : markedMin b ⊥ = ⊥ := by
  unfold markedMin
  grind

theorem markedMin_ne_bot {b t : α} (ht : t ≠ ⊥) : markedMin b t ≠ ⊥ := by
  unfold markedMin
  grind

theorem foldl_markedMin_mem (h : l ≠ []) : l.foldl markedMin ⊥ ∈ l := by
  induction l using List.reverseRecOn with
  | nil => exact absurd rfl h
  | append_singleton l t ih =>
    rw [foldl_append, foldl_cons, foldl_nil, mem_append, mem_singleton, markedMin]
    grind

theorem foldl_markedMin_le (h : ⊥ ∉ l) : ∀ t ∈ l, l.foldl markedMin ⊥ ≤ t := by
  induction l using List.reverseRecOn with
  | nil => exact fun _ ht => nomatch ht
  | append_singleton l t ih =>
    have hl : ⊥ ∉ l := fun hm => h (mem_append_left _ hm)
    intro u hu
    rw [foldl_append, foldl_cons, foldl_nil, markedMin]
    rcases mem_append.1 hu with hu | hu
    · have hle := ih hl u hu
      split
      · -- there is a value already
        have hmem := foldl_markedMin_mem (ne_nil_of_mem hu)
        grind
      · exact (min_le_left _ _).trans hle
    · grind

theorem isLeast_markedMin_iff (h : l ≠ []) :
    IsLeast {t | t ∈ l} (l.foldl markedMin ⊥) ↔ (⊥ ∈ l → l.getLast? = some ⊥) := by
  have hmem := foldl_markedMin_mem h
  induction l using List.reverseRecOn with
  | nil => exact absurd rfl h
  | append_singleton l t _ =>
    rw [getLast?_append, getLast?_singleton, Option.some_or]
    by_cases ht : t = ⊥
    · subst ht
      refine iff_of_true ⟨hmem, fun u _ => ?_⟩ fun _ => rfl
      rw [foldl_append, foldl_cons, foldl_nil, markedMin_bot]
      exact bot_le
    · have hne : (l ++ [t]).foldl markedMin ⊥ ≠ ⊥ := by
        rw [foldl_append, foldl_cons, foldl_nil]
        exact markedMin_ne_bot ht
      refine ⟨fun hleast hbot => absurd (le_bot_iff.1 (hleast.2 hbot)) hne, fun hbot => ?_⟩
      refine ⟨hmem, fun u hu => foldl_markedMin_le (fun hb => ?_) u hu⟩
      exact ht (Option.some.inj (hbot hb))

theorem foldl_markedFirst_of_ne {b : α} (hb : b ≠ ⊥) (l : List α) : l.foldl markedFirst b = b := by
  induction l with
  | nil => rfl
  | cons t l ih => rw [foldl_cons, markedFirst, if_neg hb, ih]

theorem foldl_markedFirst_cons (a : α) (l : List α) :
    (a :: l).foldl markedFirst ⊥ = if a = ⊥ then l.foldl markedFirst ⊥ else a := by
  rw [foldl_cons, markedFirst, if_pos rfl]
  split
  · rename_i ha
    rw [ha]
  · rename_i ha
    exact foldl_markedFirst_of_ne ha l

theorem foldl_markedFirst_eq_bot : l.foldl markedFirst ⊥ = ⊥ ↔ ∀ t ∈ l, t = ⊥ := by
  induction l with
  | nil => simp
  | cons a l ih =>
    rw [foldl_markedFirst_cons]
    by_cases ha : a = ⊥
    · rw [if_pos ha, ih]
      simp [ha]
    · simp [ha]

theorem foldl_markedFirst_mem (h : l ≠ []) : l.foldl markedFirst ⊥ ∈ l := by
  induction l with
  | nil => exact absurd rfl h
  | cons a l ih =>
    rw [foldl_markedFirst_cons]
    grind

/-- **The first value is the least one** if there is a `⊥` and nothing else, or if there is none and
the first one is. -/
theorem isLeast_markedFirst_iff (h : l ≠ []) :
    IsLeast {t | t ∈ l} (l.foldl markedFirst ⊥) ↔
      (⊥ ∈ l → ∀ t ∈ l, t = ⊥) ∧ (⊥ ∉ l → ∀ a ∈ l.head?, ∀ t ∈ l, a ≤ t) := by
  have hmem := foldl_markedFirst_mem h
  by_cases hbot : ⊥ ∈ l
  · rw [← foldl_markedFirst_eq_bot]
    refine ⟨fun hleast => ⟨fun _ => le_bot_iff.1 (hleast.2 hbot), fun hn => absurd hbot hn⟩, ?_⟩
    intro hall
    refine ⟨hmem, fun t _ => ?_⟩
    rw [hall.1 hbot]
    exact bot_le
  · cases l with
    | nil => exact absurd rfl h
    | cons a l =>
      have ha : a ≠ ⊥ := fun ha => hbot (ha ▸ mem_cons_self)
      rw [foldl_markedFirst_cons, if_neg ha] at hmem ⊢
      refine ⟨fun hleast => ⟨fun hb => absurd hb hbot, fun _ b hb t ht => ?_⟩,
        fun hle => ⟨hmem, ?_⟩⟩
      · cases hb
        exact hleast.2 ht
      · exact fun t ht => hle.2 hbot a rfl t ht

theorem isLeast_flatMap_iff {α β : Type*} [PartialOrder α] {cs : List β} {ts : β → List α}
    {b : β → α} (h : ∀ c ∈ cs, IsLeast {t | t ∈ ts c} (b c)) {x : α} :
    IsLeast {t | t ∈ cs.flatMap ts} x ↔ IsLeast {t | t ∈ cs.map b} x := by
  have hb : ∀ c ∈ cs, b c ∈ cs.flatMap ts := fun c hc => mem_flatMap.2 ⟨c, hc, (h c hc).1⟩
  refine ⟨fun ⟨hx, hle⟩ => ⟨?_, ?_⟩, fun ⟨hx, hle⟩ => ⟨?_, ?_⟩⟩
  · obtain ⟨c, hc, hxc⟩ := mem_flatMap.1 hx
    exact mem_map.2 ⟨c, hc, le_antisymm ((h c hc).2 hxc) (hle (hb c hc))⟩
  · intro t ht
    obtain ⟨c, hc, rfl⟩ := mem_map.1 ht
    exact hle (hb c hc)
  · grind
  · intro t ht
    obtain ⟨c, hc, htc⟩ := mem_flatMap.1 ht
    exact (hle (mem_map_of_mem hc)).trans ((h c hc).2 htc)

theorem isGreatest_foldl_max (h : l ≠ []) : IsGreatest {t | t ∈ l} (l.foldl max ⊥) := by
  induction l using List.reverseRecOn with
  | nil => exact absurd rfl h
  | append_singleton l t ih =>
    rw [foldl_append, foldl_cons, foldl_nil]
    by_cases hl : l = []
    · subst hl
      simp [IsGreatest, upperBounds]
    · obtain ⟨hmem, hup⟩ := ih hl
      refine ⟨?_, fun u hu => ?_⟩
      · grind
      · rcases mem_append.1 hu with hu | hu
        · exact (hup hu).trans (le_max_left _ _)
        · grind

end Lib
