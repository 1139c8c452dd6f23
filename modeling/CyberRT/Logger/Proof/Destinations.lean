import CyberRT.Lib.Run
import CyberRT.Logger.AsyncLogger
import Mathlib.Data.List.TakeWhile

/-!
# Who holds the spin flag of an `AsyncLogger`

`Write` looks the level of its message up while it holds the flag, and `log_level_map.at` throws.
-/

namespace Logger

open Function Lib

namespace FlagSystem

variable {ι : Type*} [DecidableEq ι]

/-- **The flag is held only by a thread in its critical section.** -/
def HeldInside (s : FlagSystem ι) : Prop := ∀ i, s.flag = some i → (s.pc i).holds = true

def LevelKnown (s : FlagSystem ι) : FlagEvent ι → Prop
  | .call _ _ => True
  | .step i => ∀ c text, s.pc i = .inside (some (c, text)) → (logLevelMap c).isSome = true

def Inv (s : FlagSystem ι) : Prop := ∀ i, (s.pc i).holds = true ↔ s.flag = some i

variable {s : FlagSystem ι} {ev : FlagEvent ι}

theorem Inv.step (h : s.Inv) (hok : s.LevelKnown ev) : (s.step ev).Inv := by
  intro j
  have hj := h j
  cases ev with
  | call i message =>
    simp only [FlagSystem.step]
    split
    · grind [FlagPc.holds, update_apply]
    · exact hj
  | step i =>
    have hi := h i
    simp only [FlagSystem.step, LevelKnown] at hok ⊢
    split
    · exact hj
    · split <;> grind [FlagPc.holds, update_apply]
    · grind [FlagPc.holds, update_apply]
    · split <;> grind [FlagPc.holds, update_apply]
    · grind [FlagPc.holds, update_apply]

theorem Inv.levelKnown (h : s.Inv) (hnext : (s.step ev).HeldInside) : s.LevelKnown ev := by
  cases ev with
  | call i message => trivial
  | step i =>
    intro c text hpc
    cases hl : logLevelMap c with
    | some level => rfl
    | none =>
      -- the thread is gone and the flag is still its own
      have hflag := (h i).1 (by rw [hpc]; rfl)
      have hheld := hnext i
      simp [FlagSystem.step, hpc, hl, hflag, FlagPc.holds] at hheld

/-- **Who holds the flag**, over every interleaving of the threads: only a thread in its critical
section, exactly if every message that is appended begins with a letter of the map. -/
theorem held_inside_iff (evs : List (FlagEvent ι)) :
    Always step HeldInside init evs ↔ Along step LevelKnown init evs :=
  always_iff_along_of_inv (P := Inv) (by simp [Inv, FlagPc.holds, init])
    (fun _ h i hi => (h i).2 hi) (fun _ _ h hok => h.step hok) fun _ _ h hnext => h.levelKnown hnext

theorem not_held_inside_other :
    ¬ Always step HeldInside (init : FlagSystem Unit)
      [.call () (some ('D', [])), .step (), .step ()] := by
  intro h
  exact absurd (h.last () rfl) (by decide)

end FlagSystem

/-!
## Where a message goes

`module_name` is declared before the loop of `FlushBuffer` and `FindModuleName` leaves it alone if
the message has no brackets.
-/

open Common (find)
open List

variable {logDir : Text}

def splitBrackets (message : Text) : Option (Text × Text × Text) :=
  match message.dropWhile (· ≠ '[') with
  | [] => none
  | _ :: rest =>
    match rest.dropWhile (· ≠ ']') with
    | [] => none
    | _ :: after => some (message.takeWhile (· ≠ '['), rest.takeWhile (· ≠ ']'), after)

def ownName (msg : Msg) : Option Text := (splitBrackets msg.message).map fun parts => parts.2.1

def stripped (message : Text) : Text :=
  match splitBrackets message with
  | none => message
  | some (before, _, after) => before ++ after

def orGroup (processGroup name : Text) : Text := if name.isEmpty then processGroup else name

variable (processGroup : Text)

def destination (msg : Msg) : Text :=
  orGroup processGroup ((ownName msg).getD [])

def entryOf (msg : Msg) : Entry := ⟨decide (msg.level > 0), msg.ts, stripped msg.message⟩

/-- **Each message of the batch goes to the log of its own module, without the brackets.** -/
def WritesOwn (loggers : ModuleLoggerMap logDir) (batch : List Msg) : Prop :=
  (flushBuffer processGroup loggers batch).writes =
    batch.map fun msg => (logFileOf logDir (destination processGroup msg), entryOf msg)

variable (batch : List Msg)

def Unmixed : Prop :=
  ∀ pre msg suf, batch = pre ++ msg :: suf → ownName msg = none →
    ∀ name, pre.reverse.findSome? ownName = some name → name = [] ∨ name = processGroup

theorem find_of_dropWhile_nil {s : Text} {c : Char} (pos : Nat)
    (h : (s.drop pos).dropWhile (· ≠ c) = []) : find s c pos = none := by
  have hall := dropWhile_eq_nil_iff.1 h
  rw [find, findIdx?_eq_none_iff.2, Option.map_none]
  simpa using hall

theorem find_of_dropWhile_cons {s rest : Text} {c d : Char} (pos : Nat)
    (h : (s.drop pos).dropWhile (· ≠ c) = d :: rest) :
    ∃ n, find s c pos = some (pos + n) ∧ (s.drop pos).takeWhile (· ≠ c) = (s.drop pos).take n ∧
      s.drop (pos + n) = c :: rest := by
  have hcut : (s.drop pos).dropWhile (· ≠ c) =
      (s.drop pos).drop ((s.drop pos).findIdx fun a => !decide (a ≠ c)) :=
    dropWhile_eq_drop_findIdx_not
  have hlt : (s.drop pos).findIdx (fun a => !decide (a ≠ c)) < (s.drop pos).length := by grind
  have hsome : (s.drop pos).findIdx? (fun a => !decide (a ≠ c)) = some _ :=
    findIdx?_eq_some_iff_findIdx_eq.2 ⟨hlt, rfl⟩
  obtain ⟨_, hfound, -⟩ := findIdx?_eq_some_iff_getElem.1 hsome
  rw [hcut, drop_eq_getElem_cons hlt] at h
  obtain ⟨rfl, hrest⟩ := List.cons.inj h
  refine ⟨_, ?_, takeWhile_eq_take_findIdx_not, ?_⟩
  · rw [find]
    simpa using congrArg (Option.map (pos + ·)) hsome
  · rw [← drop_drop, drop_eq_getElem_cons hlt, hrest]
    exact congrArg (· :: rest) (by simpa using hfound)

theorem cutBrackets_eq (message moduleName : Text) :
    cutBrackets message moduleName =
      match splitBrackets message with
      | none => (message, moduleName)
      | some (before, name, after) => (before ++ after, name) := by
  unfold cutBrackets splitBrackets
  cases hleft : message.dropWhile (· ≠ '[') with
  | nil => rw [find_of_dropWhile_nil 0 hleft]
  | cons l rest =>
    obtain ⟨lpos, hlpos, hbefore, hdrop⟩ := find_of_dropWhile_cons 0 hleft
    rw [Nat.zero_add] at hlpos hdrop
    have hskip : (message.drop lpos).dropWhile (· ≠ ']') = rest.dropWhile (· ≠ ']') := by
      rw [hdrop]
      rfl
    rw [hlpos]
    dsimp only
    cases hright : rest.dropWhile (· ≠ ']') with
    | nil => rw [find_of_dropWhile_nil lpos (hskip.trans hright)]
    | cons r after =>
      obtain ⟨n, hrpos, hname, hafter⟩ := find_of_dropWhile_cons lpos (hskip.trans hright)
      -- the search for the right bracket starts at the left one, which it passes
      rw [hdrop] at hname
      obtain ⟨k, rfl⟩ : ∃ k, n = k + 1 := by
        cases n with
        | zero => cases hname
        | succ k => exact ⟨k, rfl⟩
      have hmid : message.drop (lpos + 1) = rest := by
        rw [← drop_drop, hdrop]
        rfl
      have hend : message.drop (lpos + (k + 1 + 1)) = after := by
        rw [← Nat.add_assoc, ← drop_drop, hafter]
        rfl
      have hrest : rest.takeWhile (· ≠ ']') = rest.take k := (List.cons.inj hname).2
      grind

theorem findModuleName_fst (processGroup message moduleName : Text) :
    (findModuleName processGroup message moduleName).1 = stripped message := by
  dsimp only [findModuleName, stripped]
  rw [cutBrackets_eq]
  split <;> rfl

theorem findModuleName_snd (processGroup moduleName : Text) (msg : Msg) :
    (findModuleName processGroup msg.message moduleName).2 =
      orGroup processGroup ((ownName msg).getD moduleName) := by
  dsimp only [findModuleName, ownName, orGroup]
  rw [cutBrackets_eq]
  split <;> simp [*]

theorem provide_snd (loggers : ModuleLoggerMap logDir) (name : Text) :
    (loggers.provide name).2 = logFileOf logDir name := by
  unfold ModuleLoggerMap.provide
  split
  · rename_i file hfile
    exact loggers.own name file hfile
  · rfl

def nextName (processGroup name : Text) (msg : Msg) : Text :=
  orGroup processGroup ((ownName msg).getD name)

def handed (processGroup logDir : Text) : Text → List Msg → List (LogFile × Entry)
  | _, [] => []
  | name, msg :: batch =>
    (logFileOf logDir (nextName processGroup name msg), entryOf msg) ::
      handed processGroup logDir (nextName processGroup name msg) batch

theorem pass_eq (s : Flushing logDir) (msg : Msg) :
    (s.pass processGroup msg).moduleName = nextName processGroup s.moduleName msg ∧
      (s.pass processGroup msg).writes = s.writes ++
        [(logFileOf logDir (nextName processGroup s.moduleName msg), entryOf msg)] := by
  dsimp only [Flushing.pass, nextName, entryOf]
  rw [provide_snd, findModuleName_snd, findModuleName_fst]
  exact ⟨rfl, rfl⟩

theorem foldl_pass_writes (s : Flushing logDir) :
    (batch.foldl (Flushing.pass processGroup) s).writes =
      s.writes ++ handed processGroup logDir s.moduleName batch := by
  induction batch generalizing s with
  | nil => exact (append_nil _).symm
  | cons msg batch ih =>
    obtain ⟨hname, hwrites⟩ := pass_eq processGroup s msg
    rw [foldl_cons, ih, hname, hwrites, append_assoc]
    rfl

theorem logFileOf_inj {name name' : Text} :
    logFileOf logDir name = logFileOf logDir name' ↔ name = name' :=
  ⟨fun h => congrArg LogFile.symlinkBasename h, fun h => congrArg _ h⟩

theorem handed_eq_iff (processGroup name : Text) (batch : List Msg) :
    handed processGroup logDir name batch =
        batch.map (fun msg => (logFileOf logDir (destination processGroup msg), entryOf msg)) ↔
      Along (nextName processGroup)
        (fun name msg => nextName processGroup name msg = destination processGroup msg)
        name batch := by
  induction batch generalizing name with
  | nil => exact iff_of_true rfl trivial
  | cons msg batch ih =>
    rw [handed, map_cons, List.cons.injEq, Prod.mk.injEq, logFileOf_inj, ih]
    exact and_congr_left' (and_iff_left rfl)

theorem orGroup_idem (processGroup name : Text) :
    orGroup processGroup (orGroup processGroup name) = orGroup processGroup name := by
  cases name <;> simp [orGroup]

theorem orGroup_eq_group_iff {processGroup name : Text} :
    orGroup processGroup name = processGroup ↔ name = [] ∨ name = processGroup := by
  cases name <;> simp [orGroup]

theorem foldl_nextName :
    orGroup processGroup (batch.foldl (nextName processGroup) []) =
      orGroup processGroup ((batch.reverse.findSome? ownName).getD []) := by
  induction batch using List.reverseRecOn with
  | nil => rfl
  | append_singleton batch msg ih =>
    rw [foldl_append, foldl_cons, foldl_nil, reverse_append,
      reverse_singleton, singleton_append, findSome?_cons, nextName, orGroup_idem]
    grind

/-- **A batch is written as it should be exactly if no message without brackets comes after one of
another module.** -/
theorem writesOwn_iff (processGroup : Text) (loggers : ModuleLoggerMap logDir) (batch : List Msg) :
    WritesOwn processGroup loggers batch ↔ Unmixed processGroup batch := by
  rw [WritesOwn, flushBuffer, foldl_pass_writes, nil_append, handed_eq_iff, along_iff]
  refine forall_congr' fun pre => forall_congr' fun msg => forall_congr' fun suf =>
    forall_congr' fun _ => ?_
  rw [nextName, destination]
  cases ownName msg with
  | some name => exact iff_of_true rfl nofun
  | none =>
    rw [Option.getD_none, foldl_nextName]
    change _ = processGroup ↔ _
    rw [orGroup_eq_group_iff]
    cases pre.reverse.findSome? ownName with
    | none => simp
    | some name => simp

def planningThenPlain : List Msg :=
  [⟨1, "I1 [planning]go".toList, 0⟩, ⟨2, "I2 plain".toList, 0⟩]

/-- The second line goes to the module of the first. -/
theorem not_writesOwn_planningThenPlain :
    ¬ WritesOwn "mainboard".toList (ModuleLoggerMap.empty : ModuleLoggerMap [])
      planningThenPlain := by
  unfold WritesOwn
  decide +kernel

end Logger
