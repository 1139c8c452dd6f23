import Mathlib.Algebra.Order.BigOperators.Group.List
import Mathlib.Algebra.Order.Ring.Nat

/-!
# Search along edges

`search adj goal fuel visited queue`: a search that takes places from a queue, passes over those
that it has visited, ends at the goal, and puts the neighbours of all others into the queue.
-/

namespace Lib

open List Relation

/-! ## What a search knows -/

section

variable {α : Type*} {adj : α → List α} {goal start x : α} {visited queue : List α}

structure Met (adj : α → List α) (goal start : α) (visited queue : List α) : Prop where
  reached : ∀ y, y ∈ visited ∨ y ∈ queue → ReflTransGen (fun a b => b ∈ adj a) start y
  closed : ∀ x ∈ visited, ∀ y ∈ adj x, y ∈ visited ∨ y ∈ queue
  start : start ∈ visited ∨ start ∈ queue
  goal : goal ∉ visited

theorem Met.begin (adj : α → List α) (goal start : α) : Met adj goal start [] [start] where
  reached y hy := by grind
  closed x hx := absurd hx not_mem_nil
  start := .inr (mem_singleton.2 rfl)
  goal := not_mem_nil

section
variable (h : Met adj goal start visited (x :: queue))
include h

theorem Met.pass (hx : x ∈ visited) : Met adj goal start visited queue := by
  have hmet : ∀ y, y ∈ visited ∨ y ∈ x :: queue → y ∈ visited ∨ y ∈ queue := by grind
  exact ⟨fun y hy => h.reached y (hy.imp_right (mem_cons_of_mem x)),
    fun z hz y hy => hmet y (h.closed z hz y hy), hmet start h.start, h.goal⟩

theorem Met.visit (hgoal : x ≠ goal) : Met adj goal start (x :: visited) (queue ++ adj x) := by
  have hx := h.reached x (.inr mem_cons_self)
  have hmet : ∀ y, y ∈ visited ∨ y ∈ x :: queue → y ∈ x :: visited ∨ y ∈ queue ++ adj x := by grind
  refine ⟨?_, ?_, hmet start h.start, ?_⟩
  · rintro y (hy | hy)
    · rcases mem_cons.1 hy with rfl | hy
      · exact hx
      · exact h.reached y (.inl hy)
    · rcases mem_append.1 hy with hy | hy
      · exact h.reached y (.inr (mem_cons_of_mem x hy))
      · exact hx.tail hy
  · intro z hz y hy
    rcases mem_cons.1 hz with rfl | hz
    · exact .inr (mem_append_right _ hy)
    · exact hmet y (h.closed z hz y hy)
  · rw [mem_cons, not_or]
    exact ⟨Ne.symm hgoal, h.goal⟩

end

theorem Met.not_reached (h : Met adj goal start visited []) :
    ¬ ReflTransGen (fun a b => b ∈ adj a) start goal := by
  intro hpath
  have hvisited : ∀ y, ReflTransGen (fun a b => b ∈ adj a) start y → y ∈ visited := by
    intro y hy
    induction hy with
    | refl => exact h.start.resolve_right not_mem_nil
    | tail _ hstep ih => exact (h.closed _ ih _ hstep).resolve_right not_mem_nil
  exact h.goal (hvisited goal hpath)

end

/-! ## The search -/

variable {α : Type*} [DecidableEq α] (adj : α → List α) (goal : α)

def search : Nat → List α → List α → Option Bool
  | 0, _, _ => none
  | _ + 1, visited, [] => some (decide (goal ∈ visited))
  | fuel + 1, visited, x :: queue =>
    if x ∈ visited then search fuel visited queue
    else if x = goal then some true
    else search fuel (x :: visited) (queue ++ adj x)

/-! ## The search ends -/

def edgesLeft (places visited : List α) : Nat :=
  (places.map fun x => if x ∈ visited then 0 else (adj x).length).sum

variable {adj goal} {places visited queue : List α} {x : α}

theorem edgesLeft_cons_le (adj : α → List α) (places visited : List α) (x : α) :
    edgesLeft adj places (x :: visited) ≤ edgesLeft adj places visited := by
  refine sum_le_sum fun y _ => ?_
  grind

theorem edgesLeft_visit (hx : x ∉ visited) (hmem : x ∈ places) :
    edgesLeft adj places (x :: visited) + (adj x).length ≤ edgesLeft adj places visited := by
  induction places with
  | nil => cases hmem
  | cons y places ih =>
    have hle := edgesLeft_cons_le adj places visited x
    unfold edgesLeft at ih hle ⊢
    grind

theorem search_ends (hplaces : ∀ x, adj x ≠ [] → x ∈ places) :
    ∀ {fuel : Nat} {visited queue : List α},
      edgesLeft adj places visited + queue.length < fuel →
      ∃ found, search adj goal fuel visited queue = some found
  | 0, _, _, h => absurd h (Nat.not_lt_zero _)
  | _ + 1, _, [], _ => ⟨_, rfl⟩
  | fuel + 1, visited, x :: queue, h => by
    rw [length_cons] at h
    unfold search
    split
    · exact search_ends hplaces (by omega)
    · rename_i hx
      split
      · exact ⟨true, rfl⟩
      · have hleft : edgesLeft adj places (x :: visited) + (adj x).length ≤
            edgesLeft adj places visited := by
          by_cases hadj : adj x = []
          · rw [hadj]
            exact edgesLeft_cons_le adj places visited x
          · exact edgesLeft_visit hx (hplaces x hadj)
        refine search_ends hplaces ?_
        rw [length_append]
        omega

/-! ## What it finds -/

theorem Met.search {start : α} {fuel : Nat} {found : Bool} (h : Met adj goal start visited queue)
    (hfound : search adj goal fuel visited queue = some found) :
    found = true ↔ ReflTransGen (fun a b => b ∈ adj a) start goal := by
  induction fuel generalizing visited queue with
  | zero => cases hfound
  | succ fuel ih =>
    cases queue with
    | nil =>
      rw [Lib.search, decide_eq_false h.goal] at hfound
      cases hfound
      exact ⟨nofun, fun hpath => absurd hpath h.not_reached⟩
    | cons x queue =>
      rw [Lib.search] at hfound
      split at hfound
      · rename_i hx
        exact ih (h.pass hx) hfound
      · split at hfound
        · rename_i hgoal
          cases hfound
          subst hgoal
          exact ⟨fun _ => h.reached x (.inr mem_cons_self), fun _ => rfl⟩
        · rename_i hgoal
          exact ih (h.visit hgoal) hfound

theorem search_spec (hplaces : ∀ x, adj x ≠ [] → x ∈ places) (start goal : α) :
    ∃ fuel found, (∀ n, fuel ≤ n → search adj goal n [] [start] = some found) ∧
      (found = true ↔ ReflTransGen (fun a b => b ∈ adj a) start goal) := by
  have hsome : ∀ n, edgesLeft adj places [] + 2 ≤ n →
      ∃ found, search adj goal n [] [start] = some found := by
    intro n hn
    exact search_ends hplaces (by rw [length_singleton]; omega)
  obtain ⟨found, hfound⟩ := hsome _ (Nat.le_refl _)
  refine ⟨edgesLeft adj places [] + 2, found, fun n hn => ?_, (Met.begin _ _ _).search hfound⟩
  obtain ⟨found', hfound'⟩ := hsome n hn
  have hiff := (Met.begin adj goal start).search hfound
  have hiff' := (Met.begin adj goal start).search hfound'
  rw [hfound', Option.some.injEq, Bool.eq_iff_iff, hiff', hiff]

end Lib
