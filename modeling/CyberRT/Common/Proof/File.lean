import Mathlib.Data.List.Basic
import CyberRT.Common.File

/-!
# The commands of a copy

`IsValidPath` rejects nothing: the string of illegal characters is made from a C string that begins
with a NUL (`isValidPath_eq_true`).
-/

namespace Common

open List

def Clean (s : Path) : Prop := ∀ c ∈ s, c ∉ rejected

instance (s : Path) : Decidable (Clean s) := List.decidableBAll _ s

theorem isValidPath_eq_true (path : Path) : isValidPath path = true := by
  have hnil : cString rejected = [] := by decide
  simp [isValidPath, hnil]

theorem guardDir_eq (source target : Path) (opens ensured : Bool) (copy : Bool × List Path) :
    (guardDir source target opens ensured copy).2 = if opens && ensured then copy.2 else [] := by
  cases opens <;> cases ensured <;> simp [guardDir, isValidPath_eq_true]

mutual
def unopenedIn : List DirEntry → List (List Path)
  | [] => []
  | e :: es =>
    if e.name = ['.'] ∨ e.name = ['.', '.'] then unopenedIn es
    else (unopened e).map (e.name :: ·) ++ unopenedIn es

def unopened : DirEntry → List (List Path)
  | .dir _ opens ensured entries => if opens && ensured then unopenedIn entries else []
  | .other _ opens _ _ => if opens then [] else [[]]
end

def unopenedDir (opens ensured : Bool) (entries : List DirEntry) : List (List Path) :=
  if opens && ensured then unopenedIn entries else []

def commandFor (source target : Path) (names : List Path) : Path :=
  copyCommand (names.foldl subPath source) (names.foldl subPath target)

mutual
theorem commands_copyEntries : ∀ (es : List DirEntry) (source target : Path),
    (copyEntries source target es).2 = (unopenedIn es).map (commandFor source target)
  | [], _, _ => by rw [copyEntries, unopenedIn, map_nil]
  | e :: es, source, target => by
    have hrest := commands_copyEntries es source target
    rw [copyEntries, unopenedIn]
    dsimp only
    split
    · exact hrest
    · rw [hrest, commands_copyEntry e, map_append, map_map]
      rfl

theorem commands_copyEntry : ∀ (e : DirEntry) (source target : Path),
    (copyEntry source target e).2 = (unopened e).map (commandFor source target)
  | .dir _ opens ensured entries, source, target => by
    rw [copyEntry, guardDir_eq, unopened, commands_copyEntries entries]
    split <;> rfl
  | .other _ opens writable copies, source, target => by
    cases opens <;> simp [copyEntry, copyFile, unopened, commandFor]
end

theorem commands_copyDir (source target : Path) (opens ensured : Bool) (entries : List DirEntry) :
    (copyDir source target opens ensured entries).2 =
      (unopenedDir opens ensured entries).map (commandFor source target) := by
  rw [copyDir, guardDir_eq, unopenedDir, commands_copyEntries]
  split <;> rfl

theorem clean_append {s t : Path} : Clean (s ++ t) ↔ Clean s ∧ Clean t := forall_mem_append

theorem clean_cons {c : Char} {s : Path} : Clean (c :: s) ↔ c ∉ rejected ∧ Clean s :=
  forall_mem_cons

theorem clean_foldl_subPath {dir : Path} {names : List Path} :
    Clean (names.foldl subPath dir) ↔ Clean dir ∧ ∀ name ∈ names, Clean name := by
  induction names generalizing dir with
  | nil => simp
  | cons name names ih =>
    have hslash : '/' ∉ rejected := by decide
    simp only [foldl_cons, ih, subPath, clean_append, clean_cons, hslash, not_false_iff,
      true_and, forall_mem_cons, and_assoc]

theorem clean_copyCommand {source target : Path} :
    Clean (copyCommand source target) ↔ Clean source ∧ Clean target := by
  have hcp : Clean "cp -r ".toList := by decide
  have hblank : ' ' ∉ rejected := by decide
  constructor
  · intro h
    obtain ⟨hleft, hright⟩ := clean_append.1 h
    exact ⟨(clean_append.1 hleft).2, (clean_cons.1 hright).2⟩
  · intro h
    exact clean_append.2 ⟨clean_append.2 ⟨hcp, h.1⟩, clean_cons.2 ⟨hblank, h.2⟩⟩

theorem clean_commandFor {source target : Path} {names : List Path} :
    Clean (commandFor source target names) ↔
      Clean source ∧ Clean target ∧ ∀ name ∈ names, Clean name := by
  rw [commandFor, clean_copyCommand, clean_foldl_subPath, clean_foldl_subPath]
  exact ⟨fun h => ⟨h.1.1, h.2⟩, fun h => ⟨⟨h.1, h.2.2⟩, h.2⟩⟩

/-- **The commands of a `CopyDir` have no illegal character** exactly if, for every entry that it
reaches and cannot open, the arguments and the names on the way to the entry have none. -/
theorem commands_clean_iff (source target : Path) (opens ensured : Bool)
    (entries : List DirEntry) :
    (∀ command ∈ (copyDir source target opens ensured entries).2, Clean command) ↔
      ∀ names ∈ unopenedDir opens ensured entries,
        Clean source ∧ Clean target ∧ ∀ name ∈ names, Clean name := by
  simp only [commands_copyDir, forall_mem_map, clean_commandFor]

/-- A directory with a dangling link that is named `;reboot;`. -/
theorem not_commands_clean_danglingLink :
    ¬ ∀ command ∈ (copyDir "a".toList "b".toList true true
      [.other ";reboot;".toList false true true]).2, Clean command := by
  decide

/-! ## `DeleteFile` -/

namespace FileEntry

mutual
def removable : FileEntry → Bool
  | .file stats types removes => stats && types && removes
  | .dir stats types opens removes entries =>
    stats && types && opens && removes && removableAll entries
  | .other _ => false

def removableAll : List FileEntry → Bool
  | [] => true
  | e :: es => e.typed && (removable e || e.bare) && removableAll es
end

/-- The answer is false. -/
def refused : FileEntry → Bool
  | .file stats types removes => stats && (!types || !removes)
  | .dir stats types opens _ entries => stats && (!types || !opens || !entries.all typed)
  | .other stats => stats

theorem deleteEntries_fst (es : List FileEntry) : (deleteEntries es).1 = es.all typed := by
  induction es with
  | nil => rfl
  | cons e es ih =>
    rw [deleteEntries, List.all_cons]
    cases e.typed <;> simp [ih]

theorem deleteEntries_fst_of_nil {es : List FileEntry} (h : (deleteEntries es).2 = []) :
    (deleteEntries es).1 = true := by
  induction es with
  | nil => rfl
  | cons e es ih =>
    rw [deleteEntries] at h ⊢
    cases ht : e.typed with
    | false => simp [ht] at h
    | true =>
      simp only [ht, Bool.not_true, Bool.false_eq_true, if_false, List.append_eq_nil_iff] at h ⊢
      exact ih h.2

theorem deleteFile_fst (e : FileEntry) : (deleteFile e).1 = !e.refused := by
  cases e with
  | file stats types removes => cases stats <;> cases types <;> cases removes <;> rfl
  | other stats => rfl
  | dir stats types opens removes entries =>
    have := deleteEntries_fst entries
    simp only [deleteFile, refused]
    grind

mutual
theorem deleteFile_snd : ∀ e : FileEntry, (deleteFile e).2 = none ↔ e.removable = true
  | .file stats types removes => by cases stats <;> cases types <;> cases removes <;> decide
  | .other stats => by simp [deleteFile, removable]
  | .dir stats types opens removes entries => by
    have hall := deleteEntries_iff entries
    simp only [deleteFile, removable, remove, bare]
    grind

theorem deleteEntries_iff : ∀ es : List FileEntry,
    deleteEntries es = (true, []) ↔ removableAll es = true
  | [] => by simp [deleteEntries, removableAll]
  | e :: es => by
    have he := remove_iff e
    have hes := deleteEntries_iff es
    simp only [deleteEntries, removableAll]
    cases e.typed <;> cases hl : (deleteFile e).2.bind remove <;> grind

theorem remove_iff : ∀ e : FileEntry,
    (deleteFile e).2.bind remove = none ↔ (e.removable || e.bare) = true
  | .file stats types removes => by cases stats <;> cases types <;> cases removes <;> decide
  | .other stats => by simp [deleteFile, removable, remove, bare]
  | .dir stats types opens removes entries => by
    have hall := deleteEntries_iff entries
    have hnil : (deleteEntries entries).2 = [] → deleteEntries entries = (true, []) :=
      fun h => Prod.ext (deleteEntries_fst_of_nil h) h
    have hempty : entries = [] → removableAll entries = true := by
      rintro rfl
      simp [removableAll]
    cases stats <;> cases types <;> cases opens <;>
      try (simp [deleteFile, removable, remove, bare]; done)
    -- the loop has run, and `remove` is tried twice on what it has left
    by_cases h : removes = true ∧ (deleteEntries entries).2 = []
    · have hdone := hnil h.2
      simp [deleteFile, removable, remove, bare, h.1, hdone, hall.1 hdone]
    · have hkept : (FileEntry.dir true true true removes (deleteEntries entries).2).remove =
          some (.dir true true true removes (deleteEntries entries).2) :=
        if_neg (by simpa [bare] using h)
      have hsnd : (deleteFile (.dir true true true removes entries)).2 =
          some (.dir true true true removes (deleteEntries entries).2) := by
        simp only [deleteFile, hkept]
        cases (deleteEntries entries).1 <;> rfl
      rw [hsnd, Option.bind_some, hkept]
      simp only [removable, bare]
      grind
end

/-- **What `DeleteFile` answers**, for every tree and all failures in it: that it answers true only
if the path is gone holds exactly for what can be removed from the bottom up, and for what the call
refuses at once. -/
theorem deleteFile_answer_iff (e : FileEntry) :
    ((deleteFile e).1 = true → (deleteFile e).2 = none) ↔ (e.removable || e.refused) = true := by
  rw [deleteFile_snd, deleteFile_fst]
  grind

/-- A directory with one file that cannot be removed. -/
theorem not_deleteFile_answer_kept :
    ¬ ((deleteFile (.dir true true true true [.file true true false])).1 = true →
      (deleteFile (.dir true true true true [.file true true false])).2 = none) := by
  simp [deleteFile, deleteEntries, remove, bare, typed]

end FileEntry

end Common
