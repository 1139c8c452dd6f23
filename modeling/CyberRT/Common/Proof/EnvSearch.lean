import Mathlib.Data.List.Basic
import CyberRT.Common.File

/-!
# Where `GetFilePathWithEnv` ends and what it finds

From an empty element that is not the last the search does not move on, since `continue` skips the
step of `begin`; so it ends exactly when none of these stands before the first candidate that exists
(`Advances`).
-/

namespace Common

open Lib List Option

/-- **What the search is to find**: the first candidate that exists, of the elements that are not
empty. -/
def firstExisting (files : Path → Bool) (path : Path) (elements : List Path) : Option Path :=
  ((elements.filter (· ≠ [])).map (candidate path)).find? (pathExists files)

def Advances (files : Path → Bool) (path : Path) : List Path → Prop
  | e :: e' :: es =>
    e ≠ [] ∧ (pathExists files (candidate path e) = true ∨ Advances files path (e' :: es))
  | _ => True

instance Advances.decidable (files : Path → Bool) (path : Path) :
    ∀ es, Decidable (Advances files path es)
  | [] => isTrue trivial
  | [_] => isTrue trivial
  | e :: e' :: es =>
    have := Advances.decidable files path (e' :: es)
    inferInstanceAs (Decidable (e ≠ [] ∧ (_ ∨ Advances files path (e' :: es))))

variable {files : Path → Bool} {path : Path} {e : Path} {es : List Path}

theorem firstExisting_exists (he : e ≠ []) (hex : pathExists files (candidate path e) = true) :
    firstExisting files path (e :: es) = some (candidate path e) := by
  simp [firstExisting, he, hex]

theorem firstExisting_missing (he : e ≠ []) (hex : pathExists files (candidate path e) = false) :
    firstExisting files path (e :: es) = firstExisting files path es := by
  simp [firstExisting, he, hex]

section
variable {s : Path} {pos : Nat} {rest : Path}

theorem findIdx?_colon (he : ':' ∉ e) : e.findIdx? (· = ':') = none := by
  grind

theorem find_last (hs : s.drop pos = e) (he : ':' ∉ e) : find s ':' pos = none := by
  rw [find, hs, findIdx?_colon he, map_none]

section
variable (hs : s.drop pos = e ++ ':' :: rest)
include hs

theorem find_front (he : ':' ∉ e) : find s ':' pos = some (pos + e.length) := by
  rw [find, hs, findIdx?_append, findIdx?_colon he]
  simp [findIdx?_cons]

theorem substr_front : substr s pos (some (pos + e.length)) = e := by
  rw [substr, hs, Nat.add_sub_cancel_left, take_left]

theorem drop_front : s.drop (pos + e.length + 1) = rest := by
  rw [Nat.add_assoc, ← drop_drop, hs, ← drop_drop, drop_left]
  rfl

end

end

namespace EnvSearch

variable {envPath : Path} {s : EnvSearch}

theorem body_last (hs : envPath.drop s.begin = e) (he : ':' ∉ e) :
    body files envPath path s =
      if e = [] then .next { s with index := none }
      else if pathExists files (candidate path e) then
        .brk { s with index := none, found := some (candidate path e) }
      else .next { s with index := none, begin := 0 } := by
  simp only [body, find_last hs he, substr, hs, List.isEmpty_iff, elim_none]

theorem body_front {rest : Path} (hs : envPath.drop s.begin = e ++ ':' :: rest) (he : ':' ∉ e) :
    body files envPath path s =
      if e = [] then .next { s with index := some (s.begin + e.length) }
      else if pathExists files (candidate path e) then
        .brk { s with index := some (s.begin + e.length), found := some (candidate path e) }
      else
        .next { s with
          index := some (s.begin + e.length)
          begin := s.begin + e.length + 1 } := by
  simp only [body, find_front hs he, substr_front hs, List.isEmpty_iff, elim_some]

variable {b : Nat} {index : Option Nat}

theorem loop_stuck {rest : Path} (hs : envPath.drop b = ':' :: rest) (fuel : Nat) :
    doLoop (fun s => s.index.isSome) (body files envPath path) fuel ⟨b, index, none⟩ = none := by
  have hbody : ∀ s : EnvSearch, s.begin = b →
      body files envPath path s = .next { s with index := some b } := by
    intro s hb
    rw [body_front (e := []) (by rw [hb]; exact hs) not_mem_nil, if_pos rfl]
    simp [hb]
  rw [doLoop, hbody _ rfl]
  refine loop_forever (I := fun s => s.begin = b ∧ s.index = some b) (fun s hI => ?_) fuel
    ⟨rfl, rfl⟩
  exact ⟨by simp [hI.2], _, hbody s hI.1, hI.1, rfl⟩

theorem doLoop_last (hs : envPath.drop b = e) (he : ':' ∉ e) :
    (doLoop (fun s => s.index.isSome) (body files envPath path) 1 ⟨b, index, none⟩).map found =
      some (firstExisting files path [e]) := by
  rw [doLoop, body_last hs he]
  by_cases hnil : e = []
  · simp [hnil, loop, firstExisting]
  · cases hex : pathExists files (candidate path e) with
    | true => simp [hnil, firstExisting, hex]
    | false => simp [hnil, loop, firstExisting, hex]

theorem doLoop_front {rest : Path} (hs : envPath.drop b = e ++ ':' :: rest) (he : ':' ∉ e)
    (hnil : e ≠ []) (hex : pathExists files (candidate path e) = false) (fuel : Nat) :
    doLoop (fun s => s.index.isSome) (body files envPath path) fuel ⟨b, index, none⟩ =
      loop (fun s => s.index.isSome) (body files envPath path) fuel
        ⟨b + e.length + 1, some (b + e.length), none⟩ := by
  rw [doLoop, body_front hs he, if_neg hnil, hex]
  rfl

theorem doLoop_iff (hne : es ≠ []) (hcolon : ∀ e ∈ es, ':' ∉ e)
    (hs : envPath.drop b = [':'].intercalate es) :
    (Advances files path es → ∃ fuel,
      (doLoop (fun s => s.index.isSome) (body files envPath path) fuel ⟨b, index, none⟩).map found =
        some (firstExisting files path es)) ∧ (¬ Advances files path es → ∀ fuel,
      doLoop (fun s => s.index.isSome) (body files envPath path) fuel ⟨b, index, none⟩ = none) := by
  induction es generalizing b index with
  | nil => exact absurd rfl hne
  | cons e es ih =>
    have he := hcolon e mem_cons_self
    cases es with
    | nil =>
      rw [intercalate_singleton] at hs
      exact ⟨fun _ => ⟨1, doLoop_last hs he⟩, fun h => absurd trivial h⟩
    | cons e' es =>
      by_cases hnil : e = []
      · -- the search cannot get past this element
        subst hnil
        exact ⟨fun h => absurd rfl h.1, fun _ fuel => loop_stuck hs fuel⟩
      · cases hex : pathExists files (candidate path e) with
        | true =>
          refine ⟨fun _ => ⟨0, ?_⟩, fun h => absurd ⟨hnil, .inl hex⟩ h⟩
          rw [doLoop, body_front hs he, if_neg hnil, if_pos hex, firstExisting_exists hnil hex]
          rfl
        | false =>
          obtain ⟨hends, hstuck⟩ := @ih (b + e.length + 1) (some (b + e.length))
            (cons_ne_nil e' es) (fun x hx => hcolon x (mem_cons_of_mem e hx))
            (drop_front hs)
          rw [firstExisting_missing hnil hex]
          constructor
          · intro h
            obtain ⟨fuel, hrun⟩ := hends (h.2.resolve_left (by simp [hex]))
            refine ⟨fuel + 1, ?_⟩
            rw [doLoop_front hs he hnil hex, loop_eq_doLoop rfl, hrun]
          · intro h fuel
            have hnever := hstuck fun hadv => h ⟨hnil, .inr hadv⟩
            rw [doLoop_front hs he hnil hex]
            cases fuel with
            | zero => rfl
            | succ fuel => exact (loop_eq_doLoop rfl fuel).trans (hnever fuel)

end EnvSearch

theorem not_mem_of_mem_splitOn {α : Type*} [DecidableEq α] {a : α} :
    ∀ {l e : List α}, e ∈ l.splitOn a → a ∉ e
  | [], e, he => by
    rw [splitOn_nil, mem_singleton] at he
    subst he
    exact not_mem_nil
  | c :: l, e, he => by
    rw [splitOn_cons_eq_if_modifyHead] at he
    split at he
    · rcases mem_cons.1 he with rfl | he
      · exact not_mem_nil
      · exact not_mem_of_mem_splitOn he
    · rename_i hc
      cases hl : l.splitOn a with
      | nil =>
        rw [hl] at he
        cases he
      | cons e' es =>
        rw [hl, modifyHead_cons] at he
        rcases mem_cons.1 he with rfl | he
        · have hne : c ≠ a := by simpa using hc
          have he' : a ∉ e' := not_mem_of_mem_splitOn (hl ▸ mem_cons_self)
          simp [hne.symm, he']
        · exact not_mem_of_mem_splitOn (hl ▸ mem_cons_of_mem e' he)

theorem EnvSearch.run_iff (files : Path → Bool) (envPath path : Path) :
    (Advances files path (envPath.splitOn ':') → ∃ fuel, (run files envPath path fuel).map found =
      some (firstExisting files path (envPath.splitOn ':'))) ∧
    (¬ Advances files path (envPath.splitOn ':') → ∀ fuel, run files envPath path fuel = none) := by
  apply doLoop_iff (splitOn_ne_nil ':' envPath)
  · intro e he
    exact not_mem_of_mem_splitOn he
  · rw [drop_zero, intercalate_splitOn]

def Searched (path : Path) : Prop :=
  path ≠ [] ∧ path.head? ≠ some '/' ∧ path.head? ≠ some '.'
deriving Decidable

def elements (env : Option Path) : List Path := (env.map (List.splitOn ':')).getD []

/-- **What the function is to return**: `true` and the first candidate that exists; without one it
falls back to the path itself. -/
def RightPath (files : Path → Bool) (env : Option Path) (path : Path) (result : Bool × Path) :
    Prop :=
  match if Searched path then firstExisting files path (elements env) else none with
  | some p => result = (true, p)
  | none => result.1 = pathExists files path ∧ (result.1 = true → result.2 = path)

theorem rightPath_of_not_searched {env : Option Path} (h : ¬ Searched path) (filePath : Path)
    (fuel : Nat) :
    ∃ result, getFilePathWithEnv files env path filePath fuel = some result ∧
      RightPath files env path result := by
  simp only [RightPath, if_neg h]
  unfold getFilePathWithEnv
  by_cases hnil : path = []
  · subst hnil
    exact ⟨_, rfl, rfl, nofun⟩
  · rw [if_neg (by simp [hnil])]
    by_cases habs : path.head? = some '/'
    · rw [if_pos (by simp [pathIsAbsolute, habs])]
      exact ⟨_, rfl, rfl, fun _ => rfl⟩
    · have hdot : path.head? = some '.' := by
        by_contra hdot
        exact h ⟨hnil, habs, hdot⟩
      rw [if_neg (by simp [pathIsAbsolute, habs])]
      simp only [if_pos hdot]
      exact ⟨_, rfl, rfl, fun hex => if_pos hex⟩

theorem getFilePathWithEnv_searched (h : Searched path) (env : Option Path) (filePath : Path)
    (fuel : Nat) :
    getFilePathWithEnv files env path filePath fuel =
      ((env.elim (some none) fun envPath => (EnvSearch.run files envPath path fuel).map (·.found)).map
        fun found => found.elim
          (pathExists files path, if pathExists files path then path else filePath) (true, ·)) := by
  obtain ⟨hnil, habs, hdot⟩ := h
  unfold getFilePathWithEnv
  rw [if_neg (by simp [hnil]), if_neg (by simp [pathIsAbsolute, habs])]
  simp only [if_neg hdot]
  cases env with
  | none => rfl
  | some envPath =>
    simp only [elim_some, Option.map_map]
    congr 1
    grind

/-- **`GetFilePathWithEnv` ends, with the right path**, exactly if the path is not one that is
searched for or no empty element is in the way of the search. -/
theorem returns_rightPath_iff (files : Path → Bool) (env : Option Path) (path filePath : Path) :
    (∃ fuel result, getFilePathWithEnv files env path filePath fuel = some result ∧
      RightPath files env path result) ↔
      (Searched path → Advances files path (elements env)) := by
  by_cases hpath : Searched path
  · -- the fallback is right if the search has found nothing
    have hright : ∀ found, found = firstExisting files path (elements env) →
        RightPath files env path (found.elim
          (pathExists files path, if pathExists files path then path else filePath) (true, ·)) := by
      intro found hfound
      simp only [RightPath, if_pos hpath, ← hfound]
      grind
    simp only [getFilePathWithEnv_searched hpath, hpath, forall_const]
    cases env with
    | none => exact iff_of_true ⟨0, _, rfl, hright none rfl⟩ trivial
    | some envPath =>
      have hrun := EnvSearch.run_iff files envPath path
      constructor
      · intro h
        obtain ⟨fuel, result, hresult, -⟩ := h
        by_contra hadv
        simp [hrun.2 hadv fuel] at hresult
      · intro hadv
        obtain ⟨fuel, hfound⟩ := hrun.1 hadv
        refine ⟨fuel, _, ?_, hright _ rfl⟩
        rw [elim_some, hfound]
        rfl
  · obtain ⟨result, hresult⟩ := rightPath_of_not_searched hpath filePath 0
    exact iff_of_true ⟨0, result, hresult⟩ fun h => absurd h hpath

/-- The variable `:/usr`, with the file in `/usr`. -/
theorem not_returns_leadingColon :
    ¬ ∃ fuel result, getFilePathWithEnv (· == "/usr/a".toList) (some ":/usr".toList) "a".toList []
        fuel = some result ∧
      RightPath (· == "/usr/a".toList) (some ":/usr".toList) "a".toList result := by
  intro h
  obtain ⟨fuel, result, hresult, -⟩ := h
  have hnever := (EnvSearch.run_iff (· == "/usr/a".toList) ":/usr".toList "a".toList).2
    (by decide) fuel
  rw [getFilePathWithEnv_searched (by decide), elim_some, hnever] at hresult
  cases hresult

end Common
