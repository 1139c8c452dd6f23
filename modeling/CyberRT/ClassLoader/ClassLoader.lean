import Mathlib.Data.List.Sort

/-!
# `ClassLoader` (`class_loader/class_loader.cc`, `class_loader/utility`)

A library registers its classes while it is opened: each gets a factory in a table by base class and
class name, in place of a factory of another library with the same names.
-/

namespace ClassLoader

open Function

structure Libraries where
  opens : String → Bool
  classes : String → List (String × String)

structure ClassFactory (ι : Type*) where
  baseClassName : String
  className : String
  relativeLibraryPath : String
  relativeClassLoaders : List ι
  deriving DecidableEq

structure Registry (ι : Type*) where
  factories : List (ClassFactory ι)
  openedLibraries : List String

variable {ι : Type*} [DecidableEq ι]

namespace ClassFactory

variable (f : ClassFactory ι)

def addOwnedClassLoader (loader : ι) : ClassFactory ι :=
  if loader ∈ f.relativeClassLoaders then f
  else { f with relativeClassLoaders := f.relativeClassLoaders ++ [loader] }

def removeOwnedClassLoader (loader : ι) : ClassFactory ι :=
  { f with relativeClassLoaders := f.relativeClassLoaders.erase loader }

def isOwnedBy (loader : ι) : Bool := loader ∈ f.relativeClassLoaders

omit [DecidableEq ι] in
def isOwnedByAnybody : Bool := !f.relativeClassLoaders.isEmpty

def IsFor (name : String × String) : Prop :=
  f.baseClassName = name.1 ∧ f.className = name.2
deriving Decidable

end ClassFactory

/-! ## The functions of `utility` -/

namespace Registry

variable (r : Registry ι) (path : String)

def getAllClassFactoryObjectsOfLibrary : List (ClassFactory ι) :=
  r.factories.filter fun f => f.relativeLibraryPath = path

def isLibraryLoadedByAnybody : Bool := path ∈ r.openedLibraries

def isLibraryLoaded (loader : ι) : Bool :=
  let isLibLoadedByAnyone := r.isLibraryLoadedByAnybody path
  let factories := r.getAllClassFactoryObjectsOfLibrary path
  if isLibLoadedByAnyone && factories.length == 0 then true
  else
    let owned := factories.filter fun f => f.isOwnedBy loader
    isLibLoadedByAnyone && decide (owned.length ≤ factories.length)

/-- `RegisterClass<Derived, Base>(class_name, base_class_name)`, while the library is opened for the
loader. -/
def registerClass (loader : ι) (r : Registry ι) (name : String × String) : Registry ι :=
  { r with
    factories :=
      r.factories.filter (fun f => ¬ f.IsFor name) ++ [⟨name.1, name.2, path, [loader]⟩] }

def loadLibrary (libs : Libraries) (path : String) (loader : ι) : Registry ι × Bool :=
  if r.isLibraryLoadedByAnybody path then
    -- the library is open: only attach to its factories
    ({ r with
      factories := r.factories.map fun f =>
        if f.relativeLibraryPath = path then f.addOwnedClassLoader loader else f }, true)
  else if libs.opens path then
    let r := (libs.classes path).foldl (registerClass path loader) r
    ({ r with openedLibraries := r.openedLibraries ++ [path] }, true)
  else (r, false)

def destroyClassFactoryObjectsOfLibrary (loader : ι) : Registry ι :=
  { r with
    factories := r.factories.filterMap fun f =>
      if f.relativeLibraryPath = path ∧ f.isOwnedBy loader = true then
        let f := f.removeOwnedClassLoader loader
        if !f.isOwnedByAnybody then none else some f
      else some f }

def unloadLibrary (loader : ι) : Registry ι :=
  if path ∈ r.openedLibraries then
    let r := r.destroyClassFactoryObjectsOfLibrary path loader
    if (r.getAllClassFactoryObjectsOfLibrary path).isEmpty then
      { r with openedLibraries := r.openedLibraries.erase path }
    else r
  else r

omit [DecidableEq ι] in
def findFactory (name : String × String) : Option (ClassFactory ι) :=
  r.factories.find? fun f => f.IsFor name

def createClassObj (name : String × String) (loader : ι) : Option (ClassFactory ι) :=
  (r.findFactory name).filter fun f => f.isOwnedBy loader

def isClassValid (name : String × String) (loader : ι) : Bool :=
  (r.findFactory name).any fun f => f.isOwnedBy loader

end Registry

/-! ## The loaders -/

structure ClassObj (ι : Type*) where
  loader : ι
  library : String

structure State (ι : Type*) where
  registry : Registry ι
  loadlibRefCount : ι → Int
  classobjRefCount : ι → Int
  objects : List (ClassObj ι)

structure Conf (ι : Type*) where
  libs : Libraries
  libraryPath : ι → String

inductive Event (ι : Type*) where
  | loadLibrary (loader : ι)
  | unloadLibrary (loader : ι)
  | createClassObj (loader : ι) (name : String × String)
  | deleteObj (n : Nat)

namespace State

variable (conf : Conf ι) (s : State ι)

omit [DecidableEq ι] in
def init : State ι := ⟨⟨[], []⟩, fun _ => 0, fun _ => 0, []⟩

def loadLibrary (loader : ι) : State ι :=
  { s with
    loadlibRefCount := update s.loadlibRefCount loader (s.loadlibRefCount loader + 1)
    registry := (s.registry.loadLibrary conf.libs (conf.libraryPath loader) loader).1 }

def unloadLibrary (loader : ι) : State ι :=
  if s.classobjRefCount loader > 0 then s
  else
    let count := s.loadlibRefCount loader - 1
    if count = 0 then
      { s with
        loadlibRefCount := update s.loadlibRefCount loader count
        registry := s.registry.unloadLibrary (conf.libraryPath loader) loader }
    else
      { s with
        loadlibRefCount := update s.loadlibRefCount loader (if count < 0 then 0 else count) }

def loadOnDemand (loader : ι) : State ι :=
  if !s.registry.isLibraryLoaded (conf.libraryPath loader) loader then s.loadLibrary conf loader
  else s

def makeClassObj (loader : ι) (name : String × String) : State ι × Option (ClassObj ι) :=
  match s.registry.createClassObj name loader with
  | none => (s, none)
  | some f =>
    let obj := ⟨loader, f.relativeLibraryPath⟩
    ({ s with
      classobjRefCount := update s.classobjRefCount loader (s.classobjRefCount loader + 1)
      objects := s.objects ++ [obj] }, some obj)

def createClassObj (loader : ι) (name : String × String) : State ι × Option (ClassObj ι) :=
  (s.loadOnDemand conf loader).makeClassObj loader name

def deleteObj (n : Nat) : State ι :=
  match s.objects[n]? with
  | none => s
  | some obj =>
    { s with
      classobjRefCount := update s.classobjRefCount obj.loader (s.classobjRefCount obj.loader - 1)
      objects := s.objects.eraseIdx n }

def step : Event ι → State ι
  | .loadLibrary loader => s.loadLibrary conf loader
  | .unloadLibrary loader => s.unloadLibrary conf loader
  | .createClassObj loader name => (s.createClassObj conf loader name).1
  | .deleteObj n => s.deleteObj n

end State

/-! ## `ClassLoaderManager` (`class_loader/class_loader_manager.cc`) -/

structure ClassLoaderManager where
  loaders : State String
  libpathLoaderMap : List String

namespace ClassLoaderManager

variable (libs : Libraries) (m : ClassLoaderManager)

def conf (libs : Libraries) : Conf String := ⟨libs, id⟩

def init : ClassLoaderManager := ⟨State.init, []⟩

def isLibraryValid (path : String) : Bool := path ∈ m.libpathLoaderMap

/-- `LoadLibrary(library_path)`. A new `ClassLoader` loads its library; whether that succeeded is
not asked. -/
def loadLibrary (path : String) : ClassLoaderManager × Bool :=
  let m :=
    if !m.isLibraryValid path then
      { loaders := m.loaders.loadLibrary (conf libs) path
        libpathLoaderMap := m.libpathLoaderMap.orderedInsert (· ≤ ·) path }
    else m
  (m, m.isLibraryValid path)

def createClassObj (name : String × String) : ClassLoaderManager × Option (ClassObj String) :=
  match m.libpathLoaderMap.find? fun path => m.loaders.registry.isClassValid name path with
  | none => (m, none)
  | some path =>
    let made := m.loaders.createClassObj (conf libs) path name
    ({ m with loaders := made.1 }, made.2)

end ClassLoaderManager

end ClassLoader
