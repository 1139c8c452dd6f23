import CyberRT.ClassLoader.Proof.Closing

/-!
# Loading on demand

`CreateClassObj` loads the library when nobody has it open (`isLibraryLoaded_eq`).
-/

namespace ClassLoader

open Lib List Registry

variable {ι : Type*}

namespace Registry

variable {r : Registry ι} {path : String} {loader : ι}

theorem findFactory_registerClass (r : Registry ι) (n name : String × String) :
    (registerClass path loader r n).findFactory name =
      if n = name then some ⟨name.1, name.2, path, [loader]⟩ else r.findFactory name := by
  unfold findFactory registerClass
  rw [find?_append, find?_filter]
  split
  · subst n
    -- the old factory has been taken out
    rw [find?_eq_none.2 (by simp), Option.none_or]
    exact find?_cons_of_pos (decide_eq_true ⟨rfl, rfl⟩)
  · rename_i hne
    rw [find?_cons_of_neg, find?_nil, Option.or_none]
    · refine congrArg (List.find? · r.factories) (funext fun f => ?_)
      simp only [decide_eq_true_eq, decide_eq_decide]
      refine ⟨And.right, fun hf => ⟨fun hn => hne ?_, hf⟩⟩
      exact Prod.ext (hn.1.symm.trans hf.1) (hn.2.symm.trans hf.2)
    · intro hf
      have hn : n.1 = name.1 ∧ n.2 = name.2 := of_decide_eq_true hf
      exact hne (Prod.ext hn.1 hn.2)

theorem findFactory_foldl_registerClass (r : Registry ι) (names : List (String × String))
    (name : String × String) :
    (names.foldl (registerClass path loader) r).findFactory name =
      if name ∈ names then some ⟨name.1, name.2, path, [loader]⟩ else r.findFactory name := by
  induction names generalizing r with
  | nil => rfl
  | cons n names ih =>
    rw [foldl_cons, ih, findFactory_registerClass]
    grind

theorem findFactory_loadLibrary [DecidableEq ι] (libs : Libraries)
    (hopen : path ∉ r.openedLibraries) (name : String × String) :
    (r.loadLibrary libs path loader).1.findFactory name =
      if libs.opens path = true ∧ name ∈ libs.classes path then
        some ⟨name.1, name.2, path, [loader]⟩
      else r.findFactory name := by
  unfold loadLibrary isLibraryLoadedByAnybody
  rw [if_neg (by simpa using hopen)]
  by_cases hopens : libs.opens path = true
  · simp only [hopens, true_and]
    exact findFactory_foldl_registerClass r (libs.classes path) name
  · rw [if_neg hopens, if_neg fun h => hopens h.1]

def Attached (r : Registry ι) (name : String × String) (loader : ι) : Prop :=
  ∃ f, r.findFactory name = some f ∧ loader ∈ f.relativeClassLoaders

theorem createClassObj_isSome_iff [DecidableEq ι] (name : String × String) :
    (r.createClassObj name loader).isSome = true ↔ r.Attached name loader := by
  unfold createClassObj Attached
  cases r.findFactory name with
  | none => simp
  | some f => simp [ClassFactory.isOwnedBy]

end Registry

namespace State

variable [DecidableEq ι] {conf : Conf ι} {s : State ι} {loader : ι} {name : String × String}

/-- **A class of the loader's library is made.** -/
def Creates (conf : Conf ι) (s : State ι) (loader : ι) (name : String × String) : Prop :=
  conf.libs.opens (conf.libraryPath loader) = true →
    name ∈ conf.libs.classes (conf.libraryPath loader) →
    (s.createClassObj conf loader name).2.isSome = true

/-- The library of the table's factory for the class. -/
def libraryOf (s : State ι) (name : String × String) : Option String :=
  (s.registry.findFactory name).map (·.relativeLibraryPath)

theorem makeClassObj_isSome_iff :
    (s.makeClassObj loader name).2.isSome = true ↔ s.registry.Attached name loader := by
  rw [← Registry.createClassObj_isSome_iff]
  unfold makeClassObj
  split <;> rename_i heq <;> rw [heq] <;> rfl

theorem attached_loadLibrary (hopens : conf.libs.opens (conf.libraryPath loader) = true)
    (hmem : name ∈ conf.libs.classes (conf.libraryPath loader))
    (hopen : conf.libraryPath loader ∉ s.registry.openedLibraries) :
    (s.loadLibrary conf loader).registry.Attached name loader :=
  ⟨_, (findFactory_loadLibrary conf.libs hopen name).trans (if_pos ⟨hopens, hmem⟩),
    mem_singleton_self loader⟩

theorem createClassObj_isSome_iff (hopens : conf.libs.opens (conf.libraryPath loader) = true)
    (hmem : name ∈ conf.libs.classes (conf.libraryPath loader)) :
    (s.createClassObj conf loader name).2.isSome = true ↔
      (conf.libraryPath loader ∈ s.registry.openedLibraries → s.registry.Attached name loader) := by
  rw [createClassObj, makeClassObj_isSome_iff, loadOnDemand, isLibraryLoaded_eq]
  by_cases hopen : conf.libraryPath loader ∈ s.registry.openedLibraries
  · grind
  · rw [if_pos (by simpa using hopen)]
    exact iff_of_true (attached_loadLibrary hopens hmem hopen) fun h => absurd h hopen

/-- **The owners of a factory are the loaders of its library that have loads outstanding.** -/
theorem Good.attached_iff (h : s.Good conf) : s.registry.Attached name loader ↔
    s.Outstanding conf loader ∧ s.libraryOf name = some (conf.libraryPath loader) := by
  unfold Attached libraryOf
  cases hf : s.registry.findFactory name with
  | none => simp
  | some f =>
    have howner := h.tracks.owners f (mem_of_find?_eq_some hf) loader
    simp only [Option.some.injEq, exists_eq_left', howner, Option.map_some, eq_comm]
    exact and_comm

/-- **In every state reached while libraries are closed when they should be, the loader gets an
object exactly if no loader has a load of its library outstanding, or it has one itself and the
table's factory for the class is of that library.** -/
theorem creates_iff (conf : Conf ι) (evs : List (Event ι))
    (hok : Along (step conf) (StepOk conf) init evs) (loader : ι) (name : String × String) :
    let s := evs.foldl (step conf) init
    s.Creates conf loader name ↔
      (conf.libs.opens (conf.libraryPath loader) = true →
        name ∈ conf.libs.classes (conf.libraryPath loader) → s.Held conf (conf.libraryPath loader) →
        s.Outstanding conf loader ∧ s.libraryOf name = some (conf.libraryPath loader)) := by
  intro s
  have h : s.Good conf := hok.inv good_init fun _ _ hgood => hgood.step
  refine forall_congr' fun hopens => forall_congr' fun hmem => ?_
  rw [createClassObj_isSome_iff hopens hmem, h.mem_opened_iff, h.attached_iff]

def shapeConf : Conf Bool :=
  ⟨⟨fun _ => true, fun _ => [("Shape", "Circle")]⟩, fun _ => "libshape.so"⟩

def released : List (Event Bool) := [.loadLibrary false, .loadLibrary true, .unloadLibrary true]

/-- One of two loaders lets go of the library, and the other asks for an object. -/
theorem creates_holder :
    Creates shapeConf (released.foldl (step shapeConf) init) false ("Shape", "Circle") := by
  have hok : Along (step shapeConf) (StepOk shapeConf) init released :=
    ⟨trivial, trivial, fun _ _ _ => ⟨⟨"Shape", "Circle", "libshape.so", [false, true]⟩, by decide,
      rfl⟩, trivial⟩
  exact (creates_iff shapeConf released hok false ("Shape", "Circle")).2 fun _ _ _ =>
    ⟨⟨rfl, by decide⟩, by decide⟩

/-- It asks for one itself. -/
theorem not_creates_released :
    ¬ Creates shapeConf (released.foldl (step shapeConf) init) true ("Shape", "Circle") := by
  intro h
  exact absurd (h rfl (by decide)) (by decide)

end State

/-!
## The loaders of a `ClassLoaderManager`

A class has one factory in the table, whose owner is the loader of its library, so the order in
which the loaders are asked makes no difference: an object is of the library that has registered the
class last (`Good.createClassObj_snd`).
-/

namespace ClassLoaderManager

variable {libs : Libraries} {m : ClassLoaderManager} {path : String} {name : String × String}

attribute [local simp] isLibraryValid

def libraryOf (m : ClassLoaderManager) (name : String × String) : Option String :=
  (m.loaders.registry.findFactory name).map (·.relativeLibraryPath)

structure Good (libs : Libraries) (m : ClassLoaderManager) : Prop where
  loaders : m.loaders.Good (conf libs)
  counts : ∀ path, 0 < m.loaders.loadlibRefCount path ↔ path ∈ m.libpathLoaderMap

theorem good_init : Good libs init :=
  ⟨State.good_init, fun _ => iff_of_false (Int.lt_irrefl 0) not_mem_nil⟩

theorem Good.outstanding_iff (h : m.Good libs) (path : String) :
    m.loaders.Outstanding (conf libs) path ↔ libs.opens path = true ∧ path ∈ m.libpathLoaderMap :=
  and_congr_right fun _ => h.counts path

theorem Good.mem_opened_iff (h : m.Good libs) (path : String) :
    path ∈ m.loaders.registry.openedLibraries ↔
      libs.opens path = true ∧ path ∈ m.libpathLoaderMap := by
  rw [h.loaders.mem_opened_iff, ← h.outstanding_iff]
  exact ⟨fun hheld => hheld.elim fun _ hout => hout.1 ▸ hout.2, fun hout => ⟨path, rfl, hout⟩⟩

theorem loadLibrary_snd (libs : Libraries) (m : ClassLoaderManager) (path : String) :
    (m.loadLibrary libs path).2 = true := by
  by_cases hmem : path ∈ m.libpathLoaderMap <;> simp [loadLibrary, hmem]

theorem mem_loadLibrary (libs : Libraries) (m : ClassLoaderManager) (path p : String) :
    p ∈ (m.loadLibrary libs path).1.libpathLoaderMap ↔ p = path ∨ p ∈ m.libpathLoaderMap := by
  by_cases hmem : path ∈ m.libpathLoaderMap
  · simp only [loadLibrary, isLibraryValid, hmem, decide_true, Bool.not_true, Bool.false_eq_true,
      if_false]
    exact ⟨.inr, fun hp => hp.elim (fun heq => heq ▸ hmem) id⟩
  · simp [loadLibrary, hmem]

section
variable (h : m.Good libs)
include h

theorem Good.loadLibrary (path : String) : (m.loadLibrary libs path).1.Good libs := by
  unfold ClassLoaderManager.loadLibrary
  by_cases hmem : path ∈ m.libpathLoaderMap
  · simpa [hmem] using h
  · rw [if_pos (by simpa using hmem)]
    refine ⟨h.loaders.loadLibrary path, fun p => ?_⟩
    dsimp only [State.loadLibrary]
    rw [mem_orderedInsert, Function.update_apply]
    have hnonneg := h.loaders.nonneg path
    split
    · grind
    · rename_i hne
      rw [h.counts]
      exact ⟨.inr, fun hp => hp.resolve_left hne⟩

theorem Good.libraryOf_loadLibrary (path : String) (name : String × String) :
    (m.loadLibrary libs path).1.libraryOf name =
      if path ∉ m.libpathLoaderMap ∧ libs.opens path = true ∧ name ∈ libs.classes path then
        some path
      else m.libraryOf name := by
  unfold libraryOf ClassLoaderManager.loadLibrary
  by_cases hmem : path ∈ m.libpathLoaderMap
  · simp [hmem]
  · have hclosed : path ∉ m.loaders.registry.openedLibraries :=
      fun hopen => hmem ((h.mem_opened_iff path).1 hopen).2
    rw [if_pos (by simpa using hmem)]
    dsimp only [State.loadLibrary, conf, id]
    rw [findFactory_loadLibrary libs hclosed name]
    grind

theorem Good.isClassValid_iff {f : ClassFactory String}
    (hf : m.loaders.registry.findFactory name = some f) (path : String) :
    m.loaders.registry.isClassValid name path = true ↔ path = f.relativeLibraryPath := by
  have hmem := mem_of_find?_eq_some hf
  rw [isClassValid, hf, Option.any_some, ClassFactory.isOwnedBy, decide_eq_true_eq,
    h.loaders.tracks.owners f hmem]
  refine ⟨And.left, fun heq => ⟨heq, ?_⟩⟩
  rw [h.outstanding_iff, ← h.mem_opened_iff, heq]
  exact h.loaders.tracks.library f hmem

theorem Good.createClassObj_eq (name : String × String) :
    m.createClassObj libs name =
      match m.loaders.registry.findFactory name with
      | none => (m, none)
      | some f =>
        ({ m with loaders := (m.loaders.makeClassObj f.relativeLibraryPath name).1 },
          some ⟨f.relativeLibraryPath, f.relativeLibraryPath⟩) := by
  unfold ClassLoaderManager.createClassObj
  cases hf : m.loaders.registry.findFactory name with
  | none =>
    have hnone : m.libpathLoaderMap.find?
        (fun path => m.loaders.registry.isClassValid name path) = none :=
      find?_eq_none.2 fun path _ => by simp [isClassValid, hf]
    rw [hnone]
  | some f =>
    have hmem := mem_of_find?_eq_some hf
    have hopen := h.loaders.tracks.library f hmem
    have hvalid := h.isClassValid_iff hf
    have hfound : m.libpathLoaderMap.find?
        (fun path => m.loaders.registry.isClassValid name path) = some f.relativeLibraryPath := by
      cases hfind : m.libpathLoaderMap.find?
          (fun path => m.loaders.registry.isClassValid name path) with
      | none =>
        exact absurd ((hvalid _).2 rfl) (find?_eq_none.1 hfind _ ((h.mem_opened_iff _).1 hopen).2)
      | some path => rw [(hvalid path).1 (find?_some hfind)]
    rw [hfound]
    -- the library is open, so that nothing is loaded on demand
    have hdemand : m.loaders.loadOnDemand (conf libs) f.relativeLibraryPath = m.loaders := by
      rw [State.loadOnDemand, isLibraryLoaded_eq, decide_eq_true]
      · rfl
      · exact hopen
    have hmade : (m.loaders.makeClassObj f.relativeLibraryPath name).2 =
        some ⟨f.relativeLibraryPath, f.relativeLibraryPath⟩ := by
      have hcreate : m.loaders.registry.createClassObj name f.relativeLibraryPath = some f := by
        rw [Registry.createClassObj, hf, Option.filter_some, if_pos]
        simpa only [isClassValid, hf, Option.any_some] using (hvalid _).2 rfl
      rw [State.makeClassObj, hcreate]
    simp only [State.createClassObj, hdemand, hmade]

theorem Good.createClassObj_snd (name : String × String) :
    (m.createClassObj libs name).2 = (m.libraryOf name).map fun path => ⟨path, path⟩ := by
  rw [h.createClassObj_eq, libraryOf]
  cases m.loaders.registry.findFactory name <;> rfl

theorem Good.createClassObj_frame (name : String × String) :
    (m.createClassObj libs name).1.libpathLoaderMap = m.libpathLoaderMap ∧
      ∀ n, (m.createClassObj libs name).1.libraryOf n = m.libraryOf n := by
  rw [h.createClassObj_eq]
  cases m.loaders.registry.findFactory name with
  | none => exact ⟨rfl, fun _ => rfl⟩
  | some f =>
    refine ⟨rfl, fun n => ?_⟩
    dsimp only [libraryOf, State.makeClassObj]
    split <;> rfl

theorem Good.createClassObj (name : String × String) :
    (m.createClassObj libs name).1.Good libs := by
  rw [h.createClassObj_eq]
  cases m.loaders.registry.findFactory name with
  | none => exact h
  | some f =>
    refine ⟨h.loaders.makeClassObj _ name, fun path => ?_⟩
    rw [← h.counts]
    dsimp only [State.makeClassObj]
    split <;> rfl

end

end ClassLoaderManager

end ClassLoader
