import Mathlib.Data.List.Nodup

/-!
# Linked lists

`Chain next o l`: from the pointer `o` the nodes of `l` are reached, one behind the other, and then
a null pointer.
-/

namespace Lib

open Function List

variable {α : Type*} {next : α → Option α} {o : Option α} {a e : α} {l l₁ l₂ : List α}

def Chain (next : α → Option α) : Option α → List α → Prop
  | o, [] => o = none
  | o, a :: l => o = some a ∧ Chain next (next a) l

theorem Chain.eq_nil (h : Chain next none l) : l = [] := by
  cases l with
  | nil => rfl
  | cons a l => cases h.1

theorem Chain.eq_cons (h : Chain next (some a) l) : ∃ l', l = a :: l' ∧ Chain next (next a) l' := by
  cases l with
  | nil => cases h
  | cons b l =>
    obtain ⟨rfl⟩ := Option.some.inj h.1
    exact ⟨l, rfl, h.2⟩

theorem Chain.unique {l' : List α} (h : Chain next o l) (h' : Chain next o l') : l = l' := by
  induction l generalizing o l' with
  | nil =>
    rw [show o = none from h] at h'
    exact h'.eq_nil.symm
  | cons a l ih =>
    rw [h.1] at h'
    obtain ⟨l'', rfl, h''⟩ := h'.eq_cons
    rw [ih h.2 h'']

theorem Chain.behind (h : Chain next o (l₁ ++ a :: l₂)) : Chain next (next a) l₂ := by
  induction l₁ generalizing o with
  | nil => exact h.2
  | cons b l₁ ih => exact ih h.2

theorem chain_congr {next' : α → Option α} (h : ∀ a ∈ l, next' a = next a) :
    Chain next' o l ↔ Chain next o l := by
  induction l generalizing o with
  | nil => exact Iff.rfl
  | cons a l ih => rw [Chain, Chain, h a mem_cons_self, ih fun b hb => h b (mem_cons_of_mem a hb)]

section
variable [DecidableEq α]

theorem chain_update (ha : a ∉ l) (v : Option α) :
    Chain (update next a v) o l ↔ Chain next o l := by
  refine chain_congr fun b hb => ?_
  grind

theorem Chain.insert (h : Chain next o (l₁ ++ a :: l₂)) (hnodup : (l₁ ++ a :: l₂).Nodup)
    (he : e ∉ l₁ ++ a :: l₂) (hnext : next e = next a) :
    Chain (update next a (some e)) o (l₁ ++ a :: e :: l₂) := by
  induction l₁ generalizing o with
  | nil =>
    rw [nil_append, nodup_cons] at hnodup
    rw [nil_append, mem_cons, not_or] at he
    refine ⟨h.1, by rw [update_self], ?_⟩
    rw [update_of_ne he.1, hnext, chain_update hnodup.1]
    exact h.2
  | cons b l₁ ih =>
    rw [cons_append, nodup_cons] at hnodup
    rw [cons_append, mem_cons, not_or] at he
    have hba : b ≠ a := by grind
    refine ⟨h.1, ?_⟩
    rw [update_of_ne hba]
    exact ih h.2 hnodup.2 he.2

end

/-!
## Memory cells with one owner each

`cell o` is the cell that `o` owns, if it owns one. `OneOwner cell mem`: no cell has two owners, and
a cell that is owned is in use.
-/

variable {O V : Type*} {cell : O → Option Nat} {mem : Nat → Option V} {o o' : O} {v w : Nat}

structure OneOwner (cell : O → Option Nat) (mem : Nat → Option V) : Prop where
  unique : ∀ o o' v, cell o = some v → cell o' = some v → o = o'
  inUse : ∀ o v, cell o = some v → mem v ≠ none

theorem OneOwner.ne_of_free (h : OneOwner cell mem) (hv : mem v = none) (ho : cell o = some w) :
    w ≠ v := by
  rintro rfl
  exact h.inUse o w ho hv

theorem OneOwner.ne_of_ne (h : OneOwner cell mem) (hv : cell o = some v) (hw : cell o' = some w)
    (hne : o' ≠ o) : w ≠ v := by
  rintro rfl
  exact hne (h.unique o' o w hw hv)

section
variable [DecidableEq O]

section
variable (h : OneOwner cell mem)
include h

theorem OneOwner.alloc (hv : mem v = none) (x : V) :
    OneOwner (update cell o (some v)) (update mem v (some x)) where
  unique p q u hp hq := by
    have hfree := h.inUse
    have hunique := h.unique
    grind
  inUse p u hp := by
    have hfree := h.inUse
    grind

theorem OneOwner.free (ho : cell o = some v) :
    OneOwner (update cell o none) (update mem v none) where
  unique p q u hp hq := by
    have hunique := h.unique
    grind
  inUse p u hp := by
    have hfree := h.inUse
    have hunique := h.unique
    grind

theorem OneOwner.swap {o₁ o₂ o₃ : O} (h₁ : cell o₁ = some v)
    (h₂ : cell o₂ = some w) (h₁₂ : o₁ ≠ o₂) :
    OneOwner (update (update (update cell o₁ (some w)) o₂ none) o₃ (some v)) mem where
  unique p q u hp hq := by
    have hunique := h.unique
    grind
  inUse p u hp := by
    have hfree := h.inUse
    grind

end

end

end Lib
