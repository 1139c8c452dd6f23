import CyberRT.Lib.Loop

/-!
# Paths and copies (`common/file.cc`)

`GetFilePathWithEnv` looks for a relative path in the directories that an environment variable
lists.
-/

namespace Common

open Lib

abbrev Path := List Char

def cString (s : Path) : Path := s.takeWhile (· ≠ '\x00')

def pathExists (files : Path → Bool) (path : Path) : Bool :=
  !(cString path).isEmpty && files (cString path)

def pathIsAbsolute (path : Path) : Bool := path.head? = some '/'

def find (s : Path) (c : Char) (pos : Nat) : Option Nat :=
  ((s.drop pos).findIdx? (· = c)).map (pos + ·)

def substr (s : Path) (pos : Nat) : Option Nat → Path
  | some e => (s.drop pos).take (e - pos)
  | none => s.drop pos

def candidate (path dir : Path) : Path :=
  if dir.getLast? ≠ some '/' then dir ++ '/' :: path else dir ++ path

structure EnvSearch where
  begin : Nat
  index : Option Nat
  found : Option Path

namespace EnvSearch

variable (files : Path → Bool) (envPath path : Path)

def body (s : EnvSearch) : Pass EnvSearch :=
  let index := find envPath ':' s.begin
  let p := substr envPath s.begin index
  if p.isEmpty then .next { s with index := index }
  else
    let p := candidate path p
    if pathExists files p then .brk { s with index := index, found := some p }
    else
      -- `npos + 1` is 0
      .next { s with index := index, begin := index.elim 0 (· + 1) }

def run (fuel : Nat) : Option EnvSearch :=
  doLoop (fun s => s.index.isSome) (body files envPath path) fuel ⟨0, none, none⟩

end EnvSearch

/-- `GetFilePathWithEnv(path, env_var, file_path)`: the value returned and `*file_path`. -/
def getFilePathWithEnv (files : Path → Bool) (env : Option Path) (path filePath : Path)
    (fuel : Nat) : Option (Bool × Path) :=
  if path.isEmpty then some (false, filePath)
  else if pathIsAbsolute path then some (pathExists files path, path)
  else
    let relativePathExists := pathExists files path
    let filePath := if relativePathExists then path else filePath
    if path.head? = some '.' then some (relativePathExists, filePath)
    else
      match env with
      | none => some (relativePathExists, filePath)
      | some envPath =>
        (EnvSearch.run files envPath path fuel).map fun s =>
          match s.found with
          | some p => (true, p)
          | none => (relativePathExists, filePath)

def rejected : List Char := ['\x00', '<', '>', ':', '"', '|', '?', '*', ';']

def isValidPath (path : Path) : Bool := path.all fun ch => !(cString rejected).contains ch

/-- An entry of a directory. Of a directory: whether `opendir` and `EnsureDirectory` of the target
succeed, and what `readdir` returns. Of anything else: whether the source and the target can be
opened, and whether `cp` succeeds. -/
inductive DirEntry where
  | dir (name : Path) (opens ensured : Bool) (entries : List DirEntry)
  | other (name : Path) (opens writable copies : Bool)

def DirEntry.name : DirEntry → Path
  | .dir name _ _ _ => name
  | .other name _ _ _ => name

def copyCommand (source target : Path) : Path := "cp -r ".toList ++ source ++ ' ' :: target

def copyFile (source target : Path) (opens writable copies : Bool) : Bool × List Path :=
  if !opens then (copies, [copyCommand source target])
  else (writable, [])

def subPath (dir name : Path) : Path := dir ++ '/' :: name

def guardDir (source target : Path) (opens ensured : Bool) (copy : Bool × List Path) :
    Bool × List Path :=
  if !opens then (false, [])
  else if !isValidPath source || !isValidPath target then (false, [])
  else if ensured then copy
  else (false, [])

mutual
def copyEntries (source target : Path) : List DirEntry → Bool × List Path
  | [] => (true, [])
  | e :: es =>
    let rest := copyEntries source target es
    if e.name = ['.'] ∨ e.name = ['.', '.'] then rest
    else
      let result := copyEntry (subPath source e.name) (subPath target e.name) e
      (result.1 && rest.1, result.2 ++ rest.2)

def copyEntry (source target : Path) : DirEntry → Bool × List Path
  | .dir _ opens ensured entries =>
    guardDir source target opens ensured (copyEntries source target entries)
  | .other _ opens writable copies => copyFile source target opens writable copies
end

def copyDir (source target : Path) (opens ensured : Bool) (entries : List DirEntry) :
    Bool × List Path :=
  guardDir source target opens ensured (copyEntries source target entries)

/-!
## `DeleteFile` (`common/file.cc`)

What the calls on a path give is kept with its entry: whether `stat` finds it, `lstat` tells its
type, `opendir` opens it and `remove` removes it (a directory only if it is empty).
-/

/-- A regular file, a directory with its entries in the order of `readdir`, or something else: a
symbolic link, which `stat` follows, or a special file. -/
inductive FileEntry where
  | file (stats types removes : Bool)
  | dir (stats types opens removes : Bool) (entries : List FileEntry)
  | other (stats : Bool)

namespace FileEntry

def pathExists : FileEntry → Bool
  | .file stats _ _ => stats
  | .dir stats _ _ _ _ => stats
  | .other stats => stats

/-- `GetType` succeeds. -/
def typed : FileEntry → Bool
  | .file _ types _ => types
  | .dir _ types _ _ _ => types
  | .other _ => false

/-- `remove` removes the entry as it is. -/
def bare : FileEntry → Bool
  | .file _ _ removes => removes
  | .dir _ _ _ removes entries => removes && entries.isEmpty
  | .other _ => false

def remove (e : FileEntry) : Option FileEntry := if e.bare then none else some e

mutual
/-- The result, and what is left. -/
def deleteFile : FileEntry → Bool × Option FileEntry
  | .file stats types removes =>
    if !stats then (true, some (.file stats types removes))
    else if !types then (false, some (.file stats types removes))
    else if removes then (true, none)
    else (false, some (.file stats types removes))
  | .other stats => (!stats, some (.other stats))
  | .dir stats types opens removes entries =>
    if !stats then (true, some (.dir stats types opens removes entries))
    else if !types then (false, some (.dir stats types opens removes entries))
    else if !opens then (false, some (.dir stats types opens removes entries))
    else
      let swept := deleteEntries entries
      let left := FileEntry.dir stats types opens removes swept.2
      if swept.1 then (true, left.remove) else (false, some left)

/-- The loop over the entries: whether it comes to its end, and what is left of them. -/
def deleteEntries : List FileEntry → Bool × List FileEntry
  | [] => (true, [])
  | e :: es =>
    if !e.typed then (false, e :: es)
    else
      -- the result of the nested call is not looked at
      let left := (deleteFile e).2.bind remove
      let rest := deleteEntries es
      (rest.1, left.toList ++ rest.2)
end

end FileEntry

end Common
