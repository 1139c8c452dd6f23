import CyberRT.ClassLoader.ClassLoader

/-!
# `PluginManager` (`plugin_manager/plugin_manager.cc`, `plugin_manager/plugin_description.cc`)

An index file is named after a plugin and holds the path of its description, with the path of the
library and the classes in it.
-/

namespace Plugin

open ClassLoader Function

structure Document where
  path : String
  classes : List (String × String)

structure Disk where
  indexFiles : String → List String
  indexDirs : String → List String
  directoryExists : String → Bool
  getContent : String → Option String
  findDescription : String → Option String
  findLibrary : String → Option String
  loadFile : String → Option Document

structure PluginDescription where
  name : String
  descriptionPath : String
  actualDescriptionPath : String
  libraryPath : String
  actualLibraryPath : String
  classNameBaseClassNameMap : List (String × String)
  deriving DecidableEq

namespace PluginDescription

def addClass (classes : List (String × String)) (c : String × String) : List (String × String) :=
  if classes.any fun d => d.1 = c.1 then classes
  else if c.1 = "" ∨ c.2 = "" then classes
  else classes ++ [c]

def parseFromDescriptionFile (disk : Disk) (name filePath : String) : Option PluginDescription :=
  match disk.findDescription filePath with
  | none => none
  | some actualDescriptionPath =>
    match disk.loadFile actualDescriptionPath with
    | none => none
    | some doc =>
      match disk.findLibrary doc.path with
      | none => none
      | some actualLibraryPath =>
        some ⟨name, filePath, actualDescriptionPath, doc.path, actualLibraryPath,
          doc.classes.foldl addClass []⟩

def parseFromIndexFile (disk : Disk) (dir name : String) : Option PluginDescription :=
  (disk.getContent (dir ++ "/" ++ name)).bind (parseFromDescriptionFile disk name)

def declares (d : PluginDescription) (name : String × String) : Bool :=
  name ∈ d.classNameBaseClassNameMap

end PluginDescription

structure PluginManager where
  classLoaderManager : ClassLoaderManager
  pluginDescriptionMap : String → Option PluginDescription
  pluginLoadedMap : String → Option Bool
  pluginClassPluginNameMap : String × String → Option String

namespace PluginManager

def init : PluginManager := ⟨ClassLoaderManager.init, fun _ => none, fun _ => none, fun _ => none⟩

def addPlugin (pm : PluginManager) (d : PluginDescription) : PluginManager :=
  { pm with
    pluginLoadedMap := update pm.pluginLoadedMap d.name (some false)
    pluginDescriptionMap := update pm.pluginDescriptionMap d.name (some d)
    pluginClassPluginNameMap :=
      d.classNameBaseClassNameMap.foldl (fun names c => update names c (some d.name))
        pm.pluginClassPluginNameMap }

variable (disk : Disk)

def loadIndex (dir : String) (s : PluginManager × Bool) (name : String) : PluginManager × Bool :=
  if (s.1.pluginDescriptionMap name).isSome then s
  else
    match PluginDescription.parseFromIndexFile disk dir name with
    | none => (s.1, false)
    | some d => (s.1.addPlugin d, s.2)

def findPluginIndexAndLoad (pm : PluginManager) (dir : String) : PluginManager × Bool :=
  (disk.indexFiles dir).foldl (loadIndex disk dir) (pm, true)

def pathElements (path : String) : List String := (path.toList.splitOn ':').map String.ofList

/-- The directories that `LoadInstalledPlugins` scans, those of the user first. -/
def scannedDirs (getEnv : String → String) : List String :=
  (if getEnv "APOLLO_PLUGIN_SEARCH_IN_BAZEL_OUTPUT" = "1" then
    disk.indexDirs (getEnv "APOLLO_ROOT_DIR" ++ "/bazel-bin")
  else []) ++
    (pathElements (getEnv "APOLLO_PLUGIN_INDEX_PATH")).filter disk.directoryExists

def loadInstalledPlugins (getEnv : String → String) (pm : PluginManager) : PluginManager :=
  (scannedDirs disk getEnv).foldl (fun pm dir => (findPluginIndexAndLoad disk pm dir).1) pm

variable (libs : Libraries) (pm : PluginManager) (name : String × String)

def loadLibrary (path : String) : PluginManager × Bool :=
  let loaded := pm.classLoaderManager.loadLibrary libs path
  ({ pm with classLoaderManager := loaded.1 }, loaded.2)

def isLibraryLoaded : Bool :=
  match pm.pluginClassPluginNameMap name with
  | none => false
  | some pluginName => (pm.pluginLoadedMap pluginName).getD false

def checkAndLoadPluginLibrary : PluginManager × Bool :=
  if pm.isLibraryLoaded name then (pm, true)
  else
    match pm.pluginClassPluginNameMap name with
    | none => (pm, false)
    | some pluginName =>
      match pm.pluginDescriptionMap pluginName with
      | none => (pm, false)
      | some d => pm.loadLibrary libs d.actualLibraryPath

def createInstance : PluginManager × Option (ClassObj String) :=
  let checked := pm.checkAndLoadPluginLibrary libs name
  if !checked.2 then (checked.1, none)
  else
    let made := checked.1.classLoaderManager.createClassObj libs name.swap
    ({ checked.1 with classLoaderManager := made.1 }, made.2)

end PluginManager

/-!
## Which libraries `IsLibraryLoaded` knows of

`LoadPlugin` loads a library and enters it in `plugin_loaded_map_`; `CreateInstance` loads one and
does not.
-/

inductive PluginCall where
  | loadPlugin (path : String)
  | findPluginIndexAndLoad (dir : String)
  | createInstance (name : String × String)

/-- The name of a plugin without an index file. -/
def pluginName (libraryPath : String) : String :=
  String.ofList (libraryPath.toList.flatMap fun c => if c = '/' then ['_', '_'] else [c])

namespace PluginManager

variable (disk : Disk) (libs : Libraries) (pm : PluginManager)

def loadPlugin (path : String) : PluginManager × Bool :=
  match PluginDescription.parseFromDescriptionFile disk "" path with
  | none => (pm, false)
  | some d =>
    let d := { d with name := pluginName d.libraryPath }
    if (pm.pluginDescriptionMap d.name).isSome then (pm, true)
    else
      let loaded := pm.loadLibrary libs d.actualLibraryPath
      if !loaded.2 then (loaded.1, false)
      else
        let pm := loaded.1.addPlugin d
        ({ pm with pluginLoadedMap := update pm.pluginLoadedMap d.name (some true) }, true)

def call : PluginCall → PluginManager
  | .loadPlugin path => (pm.loadPlugin disk libs path).1
  | .findPluginIndexAndLoad dir => (findPluginIndexAndLoad disk pm dir).1
  | .createInstance name => (pm.createInstance libs name).1

end PluginManager

end Plugin
