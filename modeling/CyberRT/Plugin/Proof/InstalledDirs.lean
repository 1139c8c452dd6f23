import CyberRT.Common.Proof.EnvSearch
import CyberRT.Plugin.PluginManager

/-!
# The directories of `LoadInstalledPlugins`

The loop over the search path comes to every element (`run_scan`), but the default that is to stand
in for an empty one never reaches it.
-/

namespace Plugin

open Common Lib List

structure PathScan where
  begin : Nat
  index : Option Nat
  visited : List String

namespace PathScan

variable (directoryExists : String → Bool) (path : Path)

def body (s : PathScan) : Pass PathScan :=
  let index := find path ':' s.begin
  let p := String.ofList (substr path s.begin index)
  .next ⟨index.elim 0 (· + 1), index, if directoryExists p then s.visited ++ [p] else s.visited⟩

def run (fuel : Nat) (s : PathScan) : Option PathScan :=
  doLoop (fun s => s.index.isSome) (body directoryExists path) fuel s

variable {directoryExists path} {es : List Path} {b : Nat} {index : Option Nat} {seen : List String}

theorem run_scan (hne : es ≠ []) (hcolon : ∀ e ∈ es, ':' ∉ e)
    (hs : path.drop b = [':'].intercalate es) : ∃ n, ∀ fuel ≥ n,
      (run directoryExists path fuel ⟨b, index, seen⟩).map visited =
        some (seen ++ (es.map String.ofList).filter directoryExists) := by
  induction es generalizing b index seen with
  | nil => exact absurd rfl hne
  | cons e es ih =>
    have he := hcolon e mem_cons_self
    cases es with
    | nil =>
      rw [intercalate_singleton] at hs
      refine ⟨1, fun fuel hfuel => ?_⟩
      obtain ⟨fuel, rfl⟩ := Nat.exists_eq_succ_of_ne_zero (Nat.ne_zero_of_lt hfuel)
      simp only [run, doLoop, body, find_last hs he, substr, hs, loop]
      grind
    | cons e' es =>
      obtain ⟨n, hn⟩ := @ih (b + e.length + 1) (some (b + e.length))
        (if directoryExists (String.ofList e) then seen ++ [String.ofList e] else seen)
        (cons_ne_nil e' es) (fun x hx => hcolon x (mem_cons_of_mem e hx)) (drop_front hs)
      refine ⟨n + 1, fun fuel hfuel => ?_⟩
      obtain ⟨fuel, rfl⟩ := Nat.exists_eq_succ_of_ne_zero (Nat.ne_zero_of_lt hfuel)
      have hbody : body directoryExists path ⟨b, index, seen⟩ = .next ⟨b + e.length + 1,
          some (b + e.length),
          if directoryExists (String.ofList e) then seen ++ [String.ofList e] else seen⟩ := by
        simp only [body, find_front hs he, substr_front hs, Option.elim_some]
      rw [run, doLoop, hbody]
      refine (congrArg _ (loop_eq_doLoop rfl fuel)).trans ((hn fuel (by omega)).trans ?_)
      grind

end PathScan

namespace PluginManager

variable (disk : Disk) (getEnv : String → String)

/-- `LoadInstalledPlugins`: the directories that it loads from, in order. -/
def installedDirs (fuel : Nat) : Option (List String) :=
  let user :=
    if getEnv "APOLLO_PLUGIN_SEARCH_IN_BAZEL_OUTPUT" = "1" then
      disk.indexDirs (getEnv "APOLLO_ROOT_DIR" ++ "/bazel-bin")
    else []
  -- the default that is set here is a new variable, which ends with its block
  let pluginIndexPath := getEnv "APOLLO_PLUGIN_INDEX_PATH"
  (PathScan.run disk.directoryExists pluginIndexPath.toList fuel ⟨0, none, []⟩).map
    fun s => user ++ s.visited

def defaultIndexPath : String := getEnv "APOLLO_DISTRIBUTION_HOME" ++ "/share/cyber_plugin_index"

/-- **What it is to load from.** -/
def intendedDirs : List String :=
  scannedDirs disk fun var =>
    if var = "APOLLO_PLUGIN_INDEX_PATH" ∧ getEnv var = "" then defaultIndexPath getEnv
    else getEnv var

theorem installedDirs_eq :
    ∃ n, ∀ fuel ≥ n, installedDirs disk getEnv fuel = some (scannedDirs disk getEnv) := by
  obtain ⟨n, hn⟩ : ∃ n, ∀ fuel ≥ n, (PathScan.run disk.directoryExists
      (getEnv "APOLLO_PLUGIN_INDEX_PATH").toList fuel ⟨0, none, []⟩).map PathScan.visited =
        some ([] ++ (pathElements (getEnv "APOLLO_PLUGIN_INDEX_PATH")).filter disk.directoryExists) :=
    PathScan.run_scan (splitOn_ne_nil ':' _) (fun e he => not_mem_of_mem_splitOn he)
      (by rw [drop_zero, intercalate_splitOn])
  refine ⟨n, fun fuel hfuel => ?_⟩
  obtain ⟨s, hs, hv⟩ := Option.map_eq_some_iff.1 (hn fuel hfuel)
  simp only [installedDirs, hs, Option.map_some, hv, nil_append]
  rfl

variable {disk getEnv}

/-- **The directories that are visited.** `stat("")` finds nothing. -/
theorem visits_intended_iff (hstat : disk.directoryExists "" = false) :
    (∃ n, ∀ fuel ≥ n, installedDirs disk getEnv fuel = some (intendedDirs disk getEnv)) ↔
      getEnv "APOLLO_PLUGIN_INDEX_PATH" ≠ "" ∨
        ∀ dir ∈ pathElements (defaultIndexPath getEnv), disk.directoryExists dir = false := by
  obtain ⟨n, hn⟩ := installedDirs_eq disk getEnv
  have heq : (∃ n, ∀ fuel ≥ n, installedDirs disk getEnv fuel = some (intendedDirs disk getEnv)) ↔
      scannedDirs disk getEnv = intendedDirs disk getEnv := by
    refine ⟨fun ⟨m, hm⟩ => ?_, fun h => ⟨n, fun fuel hfuel => h ▸ hn fuel hfuel⟩⟩
    have := hm (max n m) (Nat.le_max_right n m)
    grind
  rw [heq]
  by_cases hempty : getEnv "APOLLO_PLUGIN_INDEX_PATH" = ""
  · have hnone : (pathElements "").filter disk.directoryExists = [] := by
      simp [pathElements, hstat]
    simp [intendedDirs, scannedDirs, hempty, hnone]
  · simp [intendedDirs, scannedDirs, hempty]

def everyDir : Disk :=
  ⟨fun _ => [], fun _ => [], (· ≠ ""), fun _ => none, fun _ => none, fun _ => none, fun _ => none⟩

def onlyHome (var : String) : String := if var = "APOLLO_DISTRIBUTION_HOME" then "/apollo" else ""

theorem visits_intended_indexPath :
    ∃ n, ∀ fuel ≥ n, installedDirs everyDir (fun _ => "/a:/b") fuel =
      some (intendedDirs everyDir fun _ => "/a:/b") :=
  (visits_intended_iff (by decide)).2 (.inl (by decide))

theorem not_visits_default : ¬ ∃ n, ∀ fuel ≥ n, installedDirs everyDir onlyHome fuel =
    some (intendedDirs everyDir onlyHome) := by
  rintro ⟨n, hn⟩
  obtain ⟨m, hm⟩ := installedDirs_eq everyDir onlyHome
  have h := hn (max n m) (Nat.le_max_left n m)
  rw [hm _ (Nat.le_max_right n m)] at h
  exact absurd h (by decide)

end PluginManager

end Plugin
