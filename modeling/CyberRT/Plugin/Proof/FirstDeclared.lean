import CyberRT.ClassLoader.Proof.Manager
import CyberRT.Plugin.PluginManager

/-!
# The plugin that an instance is taken from

A plugin of a name that was seen before is passed over. A class of a plugin of another name is not:
the last plugin that declares a class gets it (`Scans`).
-/

namespace Plugin

open ClassLoader Function Lib List Option PluginDescription

def keepIndex (disk : Disk) (dir : String) (kept : List PluginDescription) (name : String) :
    List PluginDescription :=
  if kept.any fun d => d.name = name then kept
  else
    match parseFromIndexFile disk dir name with
    | none => kept
    | some d => kept ++ [d]

def scanned (disk : Disk) (dirs : List String) : List PluginDescription :=
  dirs.foldl (fun kept dir => (disk.indexFiles dir).foldl (keepIndex disk dir) kept) []

def firstDeclaring (kept : List PluginDescription) (name : String × String) :
    Option PluginDescription :=
  kept.find? fun d => d.declares name

def lastDeclaring (kept : List PluginDescription) (name : String × String) :
    Option PluginDescription :=
  kept.reverse.find? fun d => d.declares name

namespace PluginManager

/-- **The instance is an object from the library of the first plugin that declares the class.** -/
def CreatesFirst (libs : Libraries) (kept : List PluginDescription) (pm : PluginManager)
    (name : String × String) : Prop :=
  ∀ d, firstDeclaring kept name = some d →
    ∃ obj, (pm.createInstance libs name).2 = some obj ∧ obj.library = d.actualLibraryPath

def step (libs : Libraries) (pm : PluginManager) (name : String × String) : PluginManager :=
  (pm.createInstance libs name).1

end PluginManager

/-- The condition, for every declared class: the first and the last plugin that declare it have one
library, which opens and registers the class, and no other library that gets loaded does. -/
def Consistent (libs : Libraries) (kept : List PluginDescription) : Prop :=
  ∀ name d, firstDeclaring kept name = some d →
    (∀ d', lastDeclaring kept name = some d' → d'.actualLibraryPath = d.actualLibraryPath) ∧
    libs.opens d.actualLibraryPath = true ∧ name.swap ∈ libs.classes d.actualLibraryPath ∧
    ∀ name' d', lastDeclaring kept name' = some d' → libs.opens d'.actualLibraryPath = true →
      name.swap ∈ libs.classes d'.actualLibraryPath → d'.actualLibraryPath = d.actualLibraryPath

namespace PluginManager

variable {libs : Libraries} {disk : Disk} {pm : PluginManager} {kept : List PluginDescription}
  {d : PluginDescription}

structure Scans (pm : PluginManager) (kept : List PluginDescription) : Prop where
  descriptions : ∀ n, pm.pluginDescriptionMap n = kept.find? fun d => d.name = n
  classes : ∀ name, pm.pluginClassPluginNameMap name = (lastDeclaring kept name).map (·.name)
  loaded : ∀ n, pm.pluginLoadedMap n ≠ some true
  names : ∀ d ∈ kept, kept.find? (fun e => e.name = d.name) = some d

theorem scans_init : Scans init [] := ⟨fun _ => rfl, fun _ => rfl, nofun, nofun⟩

theorem foldl_update_classes (classes : List (String × String)) (pluginName : String)
    (names : String × String → Option String) (name : String × String) :
    classes.foldl (fun names c => update names c (some pluginName)) names name =
      if name ∈ classes then some pluginName else names name := by
  induction classes generalizing names with
  | nil => rfl
  | cons c classes ih =>
    rw [foldl_cons, ih, update_apply]
    grind

theorem lastDeclaring_append (kept : List PluginDescription) (d : PluginDescription)
    (name : String × String) :
    lastDeclaring (kept ++ [d]) name =
      if d.declares name then some d else lastDeclaring kept name := by
  rw [lastDeclaring, reverse_append, reverse_singleton, singleton_append, find?_cons]
  cases d.declares name <;> rfl

theorem Scans.addPlugin (h : pm.Scans kept) (hnew : kept.find? (fun e => e.name = d.name) = none) :
    (pm.addPlugin d).Scans (kept ++ [d]) where
  descriptions n := by
    rw [find?_append, ← h.descriptions]
    dsimp only [PluginManager.addPlugin]
    rw [update_apply]
    split
    · subst n
      rw [h.descriptions, hnew]
      simp
    · rename_i hne
      simp [Ne.symm hne]
  classes name := by
    rw [lastDeclaring_append]
    dsimp only [PluginManager.addPlugin]
    rw [foldl_update_classes, h.classes, apply_ite (Option.map _), declares]
    exact if_congr decide_eq_true_iff.symm rfl rfl
  loaded n := by
    dsimp only [PluginManager.addPlugin]
    rw [update_apply]
    split
    · nofun
    · exact h.loaded n
  names e he := by
    rw [find?_append]
    rcases mem_append.1 he with hold | hlast
    · rw [h.names e hold, some_or]
    · grind

theorem parseFromIndexFile_name {dir name : String}
    (h : parseFromIndexFile disk dir name = some d) : d.name = name := by
  obtain ⟨path, -, hparse⟩ := bind_eq_some_iff.1 h
  unfold parseFromDescriptionFile at hparse
  grind

theorem Scans.loadIndex (h : pm.Scans kept) (dir : String) (success : Bool) (name : String) :
    (PluginManager.loadIndex disk dir (pm, success) name).1.Scans
      (keepIndex disk dir kept name) := by
  have hseen : (pm.pluginDescriptionMap name).isSome = kept.any fun d => d.name = name := by
    rw [h.descriptions, isSome_find?]
  unfold PluginManager.loadIndex keepIndex
  rw [← hseen]
  split
  · exact h
  · rename_i hnew
    cases hparse : parseFromIndexFile disk dir name with
    | none => exact h
    | some d =>
      apply h.addPlugin
      rw [parseFromIndexFile_name hparse, ← h.descriptions]
      exact not_isSome_iff_eq_none.1 hnew

theorem loadIndex_classLoaderManager (dir : String) (s : PluginManager × Bool) (name : String) :
    (loadIndex disk dir s name).1.classLoaderManager = s.1.classLoaderManager := by
  unfold loadIndex
  split
  · rfl
  · split <;> rfl

theorem scans_loadInstalledPlugins (disk : Disk) (getEnv : String → String) :
    (loadInstalledPlugins disk getEnv init).Scans (scanned disk (scannedDirs disk getEnv)) ∧
      (loadInstalledPlugins disk getEnv init).classLoaderManager = ClassLoaderManager.init := by
  -- the two scans side by side, file by file in each directory
  let R (pm : PluginManager) (kept : List PluginDescription) : Prop :=
    pm.Scans kept ∧ pm.classLoaderManager = ClassLoaderManager.init
  have hdir : ∀ (dir : String) (files : List String) (s : PluginManager × Bool) kept, R s.1 kept →
      R (files.foldl (loadIndex disk dir) s).1 (files.foldl (keepIndex disk dir) kept) := by
    intro dir files s kept h
    induction files generalizing s kept with
    | nil => exact h
    | cons name files ih =>
      exact ih _ _ ⟨h.1.loadIndex dir s.2 name, (loadIndex_classLoaderManager dir s name).trans h.2⟩
  have hinit : R init [] := ⟨scans_init, rfl⟩
  exact foldl_rel hinit fun dir _ pm kept h => hdir dir _ (pm, true) kept h

theorem exists_lastDeclaring {name : String × String} (h : firstDeclaring kept name = some d) :
    ∃ d', lastDeclaring kept name = some d' := by
  rw [← isSome_iff_exists, lastDeclaring, find?_isSome]
  have hdeclares := find?_some h
  exact ⟨d, mem_reverse.2 (mem_of_find?_eq_some h), hdeclares⟩

theorem Scans.createInstance_eq (h : pm.Scans kept) {name : String × String}
    (hlast : lastDeclaring kept name = some d) :
    pm.createInstance libs name =
      let made := (pm.classLoaderManager.loadLibrary libs d.actualLibraryPath).1.createClassObj libs
        name.swap
      ({ pm with classLoaderManager := made.1 }, made.2) := by
  have hmem : d ∈ kept := mem_reverse.1 (mem_of_find?_eq_some hlast)
  have hname : pm.pluginClassPluginNameMap name = some d.name := by
    rw [h.classes, hlast]
    rfl
  have hloaded : pm.isLibraryLoaded name = false := by
    have hnot := h.loaded d.name
    simp only [isLibraryLoaded, hname]
    cases hflag : pm.pluginLoadedMap d.name with
    | none => rfl
    | some flag => grind
  have hcheck : pm.checkAndLoadPluginLibrary libs name =
      pm.loadLibrary libs d.actualLibraryPath := by
    rw [checkAndLoadPluginLibrary, hloaded, hname]
    simp [h.descriptions, h.names d hmem]
  simp [createInstance, hcheck, loadLibrary, ClassLoaderManager.loadLibrary_snd]

theorem Scans.createInstance_of_none (h : pm.Scans kept) {name : String × String}
    (hlast : lastDeclaring kept name = none) : pm.createInstance libs name = (pm, none) := by
  have hname : pm.pluginClassPluginNameMap name = none := by
    rw [h.classes, hlast]
    rfl
  simp [createInstance, checkAndLoadPluginLibrary, isLibraryLoaded, hname]

structure Ready (libs : Libraries) (kept : List PluginDescription) (pm : PluginManager) : Prop where
  scans : pm.Scans kept
  good : pm.classLoaderManager.Good libs

theorem ready_loadInstalledPlugins (disk : Disk) (getEnv : String → String) :
    Ready libs (scanned disk (scannedDirs disk getEnv))
      (loadInstalledPlugins disk getEnv init) := by
  obtain ⟨hscans, hloaders⟩ := scans_loadInstalledPlugins disk getEnv
  refine ⟨hscans, ?_⟩
  rw [hloaders]
  exact ClassLoaderManager.good_init

section

variable {name : String × String}

section
variable (h : Ready libs kept pm)
include h

theorem Ready.step (name : String × String) : Ready libs kept (pm.step libs name) := by
  cases hlast : lastDeclaring kept name with
  | none =>
    rw [PluginManager.step, h.scans.createInstance_of_none hlast]
    exact h
  | some d =>
    rw [PluginManager.step, h.scans.createInstance_eq hlast]
    exact ⟨⟨h.scans.descriptions, h.scans.classes, h.scans.loaded, h.scans.names⟩,
      (h.good.loadLibrary _).createClassObj _⟩

theorem Ready.mem_step (hlast : lastDeclaring kept name = some d) (path : String) :
    path ∈ (pm.step libs name).classLoaderManager.libpathLoaderMap ↔
      path = d.actualLibraryPath ∨ path ∈ pm.classLoaderManager.libpathLoaderMap := by
  rw [PluginManager.step, h.scans.createInstance_eq hlast]
  rw [((h.good.loadLibrary _).createClassObj_frame _).1, ClassLoaderManager.mem_loadLibrary]

theorem Ready.libraryOf_step (hlast : lastDeclaring kept name = some d) (n : String × String) :
    (pm.step libs name).classLoaderManager.libraryOf n =
      if d.actualLibraryPath ∉ pm.classLoaderManager.libpathLoaderMap ∧
          libs.opens d.actualLibraryPath = true ∧ n ∈ libs.classes d.actualLibraryPath then
        some d.actualLibraryPath
      else pm.classLoaderManager.libraryOf n := by
  rw [PluginManager.step, h.scans.createInstance_eq hlast]
  rw [((h.good.loadLibrary _).createClassObj_frame _).2, h.good.libraryOf_loadLibrary]

theorem Ready.createsFirst_iff_libraryOf (name : String × String) :
    CreatesFirst libs kept pm name ↔
      ∀ d, firstDeclaring kept name = some d →
        (pm.step libs name).classLoaderManager.libraryOf name.swap = some d.actualLibraryPath := by
  refine forall_congr' fun d => forall_congr' fun hfirst => ?_
  obtain ⟨d', hlast⟩ := exists_lastDeclaring hfirst
  have hgood := h.good.loadLibrary d'.actualLibraryPath
  rw [PluginManager.step, h.scans.createInstance_eq hlast]
  rw [hgood.createClassObj_snd, (hgood.createClassObj_frame _).2]
  simp only [map_eq_some_iff]
  grind

end

end

structure InPlace (libs : Libraries) (kept : List PluginDescription) (pm : PluginManager) :
    Prop where
  ready : Ready libs kept pm
  loads : ∀ path ∈ pm.classLoaderManager.libpathLoaderMap,
    ∃ name d, lastDeclaring kept name = some d ∧ d.actualLibraryPath = path
  found : ∀ name d, firstDeclaring kept name = some d →
    d.actualLibraryPath ∈ pm.classLoaderManager.libpathLoaderMap →
    pm.classLoaderManager.libraryOf name.swap = some d.actualLibraryPath

theorem InPlace.step (h : InPlace libs kept pm) (hcons : Consistent libs kept)
    (name : String × String) : InPlace libs kept (pm.step libs name) := by
  cases hlast : lastDeclaring kept name with
  | none =>
    rw [PluginManager.step, h.ready.scans.createInstance_of_none hlast]
    exact h
  | some d =>
    refine ⟨h.ready.step name, fun path hpath => ?_, fun n e hfirst hmem => ?_⟩
    · rcases (h.ready.mem_step hlast path).1 hpath with rfl | hold
      · exact ⟨name, d, hlast, rfl⟩
      · exact h.loads path hold
    · obtain ⟨-, hopens, hreg, hothers⟩ := hcons n e hfirst
      rw [h.ready.libraryOf_step hlast]
      split
      · grind
      · -- the library that was loaded is not the one of the class, or was there before
        refine h.found n e hfirst (((h.ready.mem_step hlast _).1 hmem).elim (fun heq => ?_) id)
        grind

theorem InPlace.createsFirst (h : InPlace libs kept pm) (hcons : Consistent libs kept)
    (name : String × String) : CreatesFirst libs kept pm name := by
  rw [h.ready.createsFirst_iff_libraryOf]
  intro d hfirst
  obtain ⟨d', hlast⟩ := exists_lastDeclaring hfirst
  apply (h.step hcons name).found name d hfirst
  rw [h.ready.mem_step hlast]
  exact .inl ((hcons name d hfirst).1 d' hlast).symm

structure Fresh (libs : Libraries) (kept : List PluginDescription) (pm : PluginManager) : Prop where
  ready : Ready libs kept pm
  unloaded : pm.classLoaderManager = ClassLoaderManager.init

section
variable (h : Fresh libs kept pm)
include h

theorem Fresh.inPlace : InPlace libs kept pm := by
  refine ⟨h.ready, fun path hpath => ?_, fun name d _ hmem => ?_⟩
  · rw [h.unloaded] at hpath
    exact absurd hpath not_mem_nil
  · rw [h.unloaded] at hmem
    exact absurd hmem not_mem_nil

theorem Fresh.of_createsFirst {name : String × String}
    {d' : PluginDescription} (hfirst : firstDeclaring kept name = some d)
    (hlast : lastDeclaring kept name = some d') (hright : CreatesFirst libs kept pm name) :
    d'.actualLibraryPath = d.actualLibraryPath ∧ libs.opens d'.actualLibraryPath = true ∧
      name.swap ∈ libs.classes d'.actualLibraryPath := by
  have hlib := h.ready.createsFirst_iff_libraryOf name |>.1 hright d hfirst
  rw [h.ready.libraryOf_step hlast] at hlib
  split at hlib
  · grind
  · rw [h.unloaded] at hlib
    cases hlib

theorem Fresh.not_createsFirst {name name' : String × String}
    {d₁ d₂ : PluginDescription} (hfirst : firstDeclaring kept name = some d)
    (hlast₁ : lastDeclaring kept name = some d₁) (hlast₂ : lastDeclaring kept name' = some d₂)
    (hsame : d₁.actualLibraryPath = d.actualLibraryPath)
    (hopens : libs.opens d₂.actualLibraryPath = true)
    (hreg : name.swap ∈ libs.classes d₂.actualLibraryPath)
    (hne : d₂.actualLibraryPath ≠ d.actualLibraryPath) :
    ¬ CreatesFirst libs kept ((pm.step libs name).step libs name') name := by
  have hready := h.ready.step name
  intro hright
  have hlib := (hready.step name').createsFirst_iff_libraryOf name |>.1 hright d hfirst
  have hthere : d₁.actualLibraryPath ∈
      ((pm.step libs name).step libs name').classLoaderManager.libpathLoaderMap :=
    (hready.mem_step hlast₂ _).2 (.inr ((h.ready.mem_step hlast₁ _).2 (.inl rfl)))
  have hnew : d₂.actualLibraryPath ∉ (pm.step libs name).classLoaderManager.libpathLoaderMap := by
    rw [h.ready.mem_step hlast₁, h.unloaded, hsame]
    exact fun hmem => hmem.elim hne not_mem_nil
  rw [(hready.step name').libraryOf_step hlast₁, if_neg fun hnot => hnot.1 hthere,
    hready.libraryOf_step hlast₂, if_pos ⟨hnew, hopens, hreg⟩] at hlib
  exact hne (Option.some.inj hlib)

end

/-- **Every instance is from the first plugin that declares its class, whatever instances are
created before it, exactly if the plugins are consistent.** -/
theorem createsFirst_iff (libs : Libraries) (disk : Disk) (getEnv : String → String) :
    (∀ calls, Along (step libs) (CreatesFirst libs (scanned disk (scannedDirs disk getEnv)))
      (loadInstalledPlugins disk getEnv init) calls) ↔
      Consistent libs (scanned disk (scannedDirs disk getEnv)) := by
  have hfresh : Fresh libs (scanned disk (scannedDirs disk getEnv))
      (loadInstalledPlugins disk getEnv init) :=
    ⟨ready_loadInstalledPlugins disk getEnv, (scans_loadInstalledPlugins disk getEnv).2⟩
  constructor
  · intro hall name d hfirst
    obtain ⟨d₁, hlast⟩ := exists_lastDeclaring hfirst
    obtain ⟨hsame, hopens, hreg⟩ := hfresh.of_createsFirst hfirst hlast (hall [name]).1
    refine ⟨fun d' hd' => ?_, hsame ▸ hopens, hsame ▸ hreg, fun name' d₂ hlast₂ hopens₂ hreg₂ => ?_⟩
    · grind
    · by_contra hne
      exact hfresh.not_createsFirst hfirst hlast hlast₂ hsame hopens₂ hreg₂ hne
        (hall [name, name', name]).2.2.1
  · intro hcons calls
    exact along_of_inv hfresh.inPlace (fun _ name h => h.createsFirst hcons name)
      fun _ name h => h.step hcons name

def twoPlugins : Disk where
  indexFiles dir := if dir = "user" then ["mine"] else if dir = "opt" then ["theirs"] else []
  indexDirs _ := []
  directoryExists _ := true
  getContent path := some path
  findDescription path := some path
  findLibrary path := some path
  loadFile path :=
    if path = "user/mine" then some ⟨"libmine.so", [("Circle", "Shape")]⟩
    else some ⟨"libtheirs.so", [("Circle", "Shape")]⟩

def twoLibraries : Libraries := ⟨fun _ => true, fun _ => [("Shape", "Circle")]⟩

def twoDirs (name : String) : String := if name = "APOLLO_PLUGIN_INDEX_PATH" then "user:opt" else ""

/-- The object is from the plugin that was scanned last. -/
theorem not_createsFirst_twoPlugins :
    ¬ ∀ calls, Along (step twoLibraries)
      (CreatesFirst twoLibraries (scanned twoPlugins (scannedDirs twoPlugins twoDirs)))
      (loadInstalledPlugins twoPlugins twoDirs init) calls := by
  intro h
  have hright := (h [("Circle", "Shape")]).1
    ⟨"mine", "user/mine", "user/mine", "libmine.so", "libmine.so", [("Circle", "Shape")]⟩
    (by decide +kernel)
  exact absurd hright (by decide +kernel)

end PluginManager

/-! ## Which libraries `IsLibraryLoaded` knows of -/

namespace PluginManager

variable (disk : Disk) (libs : Libraries) (pm : PluginManager)

/-- The manager has a loader for the library, which opens. -/
def Loaded (path : String) : Prop :=
  path ∈ pm.classLoaderManager.libpathLoaderMap ∧ libs.opens path = true

/-- **`IsLibraryLoaded` tells what is loaded.** -/
def TellsLoaded : Prop :=
  ∀ name n d, pm.pluginClassPluginNameMap name = some n → pm.pluginDescriptionMap n = some d →
    (pm.isLibraryLoaded name = true ↔ pm.Loaded libs d.actualLibraryPath)

/-- A new plugin that is loaded at once has a library that opens and that no other plugin has, one
that is found has a library that is not loaded, and no instance loads a library. -/
def Mirrors : PluginCall → Prop
  | .loadPlugin path => ∀ d, parseFromDescriptionFile disk "" path = some d →
      libs.opens d.actualLibraryPath = true ∧ ∀ n d', pm.pluginDescriptionMap n = some d' →
        n = pluginName d.libraryPath ∨ d'.actualLibraryPath ≠ d.actualLibraryPath
  | .findPluginIndexAndLoad dir => ∀ name d,
      parseFromIndexFile disk dir name = some d →
        ¬ pm.Loaded libs d.actualLibraryPath
  | .createInstance name => ∀ n d, pm.pluginClassPluginNameMap name = some n →
      pm.pluginDescriptionMap n = some d →
        pm.isLibraryLoaded name = true ∨ libs.opens d.actualLibraryPath = false

def Mirrored : Prop :=
  ∀ n d, pm.pluginDescriptionMap n = some d →
    (pm.pluginLoadedMap n = some true ↔ pm.Loaded libs d.actualLibraryPath)

variable {disk libs pm}

theorem loadLibrary_spec (libs : Libraries) (pm : PluginManager) (path : String) :
    (pm.loadLibrary libs path).2 = true ∧ ∀ q, (pm.loadLibrary libs path).1.Loaded libs q ↔
      pm.Loaded libs q ∨ q = path ∧ libs.opens path = true := by
  by_cases hp : path ∈ pm.classLoaderManager.libpathLoaderMap
  · simp only [loadLibrary, ClassLoaderManager.loadLibrary, ClassLoaderManager.isLibraryValid, hp,
      decide_true, Bool.not_true, Bool.false_eq_true, if_false, Loaded, true_and]
    grind
  · simp only [loadLibrary, ClassLoaderManager.loadLibrary, ClassLoaderManager.isLibraryValid, hp,
      decide_false, Bool.not_false, if_true, Loaded, List.mem_orderedInsert, true_or, decide_true,
      true_and]
    grind

section
variable (h : pm.Mirrored libs)
include h

theorem Mirrored.tells : pm.TellsLoaded libs := by
  intro name n d hname hd
  rw [← h n d hd, isLibraryLoaded, hname]
  cases hn : pm.pluginLoadedMap n <;> simp [hn]

theorem Mirrored.addPlugin {d : PluginDescription}
    (hd : ¬ pm.Loaded libs d.actualLibraryPath) : (pm.addPlugin d).Mirrored libs := by
  intro n d' hn
  simp only [PluginManager.addPlugin] at hn ⊢
  by_cases heq : n = d.name
  · subst heq
    rw [update_self, Option.some.injEq] at hn
    subst hn
    rw [update_self]
    exact iff_of_false (by simp) hd
  · rw [update_of_ne heq] at hn ⊢
    exact h n d' hn

theorem Mirrored.find {dir : String} (hok : pm.Mirrors disk libs (.findPluginIndexAndLoad dir)) :
    (findPluginIndexAndLoad disk pm dir).1.Mirrored libs := by
  suffices ∀ (l : List String) (s : PluginManager × Bool), s.1.Mirrored libs →
      s.1.classLoaderManager = pm.classLoaderManager →
      (l.foldl (loadIndex disk dir) s).1.Mirrored libs from this _ (pm, true) h rfl
  intro l
  induction l with
  | nil => exact fun s hs _ => hs
  | cons name l ih =>
    intro s hs hsame
    rw [List.foldl_cons, loadIndex]
    split
    · exact ih s hs hsame
    · split
      · exact ih _ hs hsame
      · rename_i d hd
        refine ih _ (hs.addPlugin fun hl => hok name d hd ?_) hsame
        rwa [Loaded, hsame] at hl

theorem Mirrored.loadPlugin {path : String} (hok : pm.Mirrors disk libs (.loadPlugin path)) :
    (pm.loadPlugin disk libs path).1.Mirrored libs := by
  unfold PluginManager.loadPlugin
  cases hp : parseFromDescriptionFile disk "" path with
  | none => exact h
  | some d =>
    obtain ⟨hopens, hother⟩ := hok d hp
    obtain ⟨htrue, hloaded⟩ := loadLibrary_spec libs pm d.actualLibraryPath
    dsimp only
    split
    · exact h
    · rw [htrue, Bool.not_true, if_neg Bool.false_ne_true]
      intro n d' hn
      refine Iff.trans ?_ (hloaded d'.actualLibraryPath).symm
      simp only [PluginManager.addPlugin, PluginManager.loadLibrary] at hn ⊢
      by_cases heq : n = pluginName d.libraryPath
      · grind
      · rw [update_of_ne heq] at hn ⊢
        have hne := (hother n d' hn).resolve_left heq
        rw [update_of_ne heq, h n d' hn]
        simp [hne]

theorem Mirrored.createInstance {name : String × String}
    (hok : pm.Mirrors disk libs (.createInstance name)) :
    (pm.createInstance libs name).1.Mirrored libs := by
  have hchecked : (pm.checkAndLoadPluginLibrary libs name).1.Mirrored libs := by
    unfold checkAndLoadPluginLibrary
    split
    · exact h
    · rename_i hflag
      split
      · exact h
      · rename_i n hn
        split
        · exact h
        · rename_i d hd
          obtain ⟨-, hloaded⟩ := loadLibrary_spec libs pm d.actualLibraryPath
          have hclosed := (hok n d hn hd).resolve_left hflag
          intro n' d' hn'
          refine (h n' d' hn').trans ((hloaded d'.actualLibraryPath).trans ?_).symm
          simp [hclosed]
  unfold PluginManager.createInstance
  dsimp only
  split
  · exact hchecked
  · intro n d hn
    have hmap : ∀ m : ClassLoaderManager,
        (m.createClassObj libs name.swap).1.libpathLoaderMap = m.libpathLoaderMap := by
      intro m
      unfold ClassLoaderManager.createClassObj
      split <;> rfl
    simp only [Loaded, hmap]
    exact hchecked n d hn

end

/-- **Which libraries `IsLibraryLoaded` knows of**: over every sequence of calls that meet the
condition, exactly those that have been loaded. -/
theorem tells_loaded_of_mirrors (disk : Disk) (libs : Libraries) (calls : List PluginCall)
    (h : Along (call disk libs) (Mirrors disk libs) init calls) :
    Always (call disk libs) (TellsLoaded libs) init calls := by
  refine (h.always (P := Mirrored libs) nofun fun pm c hpm hok => ?_).imp fun _ hpm => hpm.tells
  cases c with
  | loadPlugin path => exact hpm.loadPlugin hok
  | findPluginIndexAndLoad dir => exact hpm.find hok
  | createInstance name => exact hpm.createInstance hok

/-- A plugin is found, another one is loaded, and an instance of a class of the second is made. -/
theorem tells_loaded_plugin :
    Always (call twoPlugins twoLibraries) (TellsLoaded twoLibraries) init
      [.findPluginIndexAndLoad "opt", .loadPlugin "user/mine",
        .createInstance ("Circle", "Shape")] := by
  refine tells_loaded_of_mirrors twoPlugins twoLibraries _
    ⟨fun _ _ _ h => (by cases h.1), fun d hd => ⟨rfl, fun n d' hd' => .inr ?_⟩,
      fun _ _ _ _ => .inl (by decide +kernel), trivial⟩
  -- the only plugin so far has the other library
  have hfound : d'.actualLibraryPath = "libtheirs.so" := by
    simp [call, findPluginIndexAndLoad, twoPlugins, loadIndex, init, addPlugin, parseFromIndexFile,
      parseFromDescriptionFile, update_apply] at hd'
    grind
  have hmine : d.actualLibraryPath = "libmine.so" := by
    simp [parseFromDescriptionFile, twoPlugins] at hd
    grind
  rw [hfound, hmine]
  decide

/-- An instance is created, and its library is not known to be loaded. -/
theorem not_tells_loaded_instance : ¬ Always (call twoPlugins twoLibraries)
    (TellsLoaded twoLibraries) init
    [.findPluginIndexAndLoad "user", .createInstance ("Circle", "Shape")] := by
  intro h
  have hlast := h.last ("Circle", "Shape") "mine"
    ⟨"mine", "user/mine", "user/mine", "libmine.so", "libmine.so", [("Circle", "Shape")]⟩
    (by decide +kernel) (by decide +kernel)
  exact absurd (hlast.2 ⟨by decide +kernel, rfl⟩) (by decide +kernel)

end PluginManager

end Plugin
