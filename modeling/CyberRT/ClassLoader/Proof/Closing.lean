import Mathlib.Data.List.Perm.Basic
import CyberRT.ClassLoader.ClassLoader
import CyberRT.Lib.Run

/-!
# When a library is closed

`Good`: a library is open while some loader has a load of it outstanding, and these loaders own each
of its factories.
-/

namespace ClassLoader

open Function Lib List ClassFactory

variable {ι : Type*}

/-! ## What is to hold -/

namespace State

def Outstanding (conf : Conf ι) (s : State ι) (loader : ι) : Prop :=
  conf.libs.opens (conf.libraryPath loader) = true ∧ 0 < s.loadlibRefCount loader

def Held (conf : Conf ι) (s : State ι) (path : String) : Prop :=
  ∃ loader, conf.libraryPath loader = path ∧ Outstanding conf s loader

variable [DecidableEq ι]

def Closes (conf : Conf ι) (s : State ι) (ev : Event ι) (path : String) : Prop :=
  path ∈ s.registry.openedLibraries ∧ path ∉ (s.step conf ev).registry.openedLibraries

/-- **A library is closed exactly by the `UnloadLibrary` after which no load of it is outstanding**,
and not while there is an object of it. -/
def ClosesRight (conf : Conf ι) (s : State ι) (ev : Event ι) : Prop :=
  ∀ path,
    (s.Closes conf ev path ↔
      (∃ loader, ev = .unloadLibrary loader ∧ conf.libraryPath loader = path) ∧
        s.Held conf path ∧ ¬ (s.step conf ev).Held conf path) ∧
    (s.Closes conf ev path → ∀ obj ∈ s.objects, obj.library ≠ path)

/-- The condition: if `UnloadLibrary` is the last of its loader and another loader has an
outstanding load of the library, then the table has a factory of the library. -/
def StepOk (conf : Conf ι) (s : State ι) : Event ι → Prop
  | .unloadLibrary loader =>
    s.classobjRefCount loader ≤ 0 → s.loadlibRefCount loader = 1 →
      (∃ other, other ≠ loader ∧ conf.libraryPath other = conf.libraryPath loader ∧
        Outstanding conf s other) →
      ∃ f ∈ s.registry.factories, f.relativeLibraryPath = conf.libraryPath loader
  | _ => True

end State

/-! ## The registry -/

namespace Registry

variable {r : Registry ι} {path : String} {loader : ι} {f : ClassFactory ι}

theorem mem_foldl_registerClass {names : List (String × String)}
    (h : f ∈ (names.foldl (registerClass path loader) r).factories) :
    f ∈ r.factories ∨ f.relativeLibraryPath = path ∧ f.relativeClassLoaders = [loader] := by
  induction names generalizing r with
  | nil => exact .inl h
  | cons name names ih =>
    rcases ih h with hmem | hnew
    · simp only [registerClass, mem_append, mem_filter, mem_singleton] at hmem
      grind
    · exact .inr hnew

theorem openedLibraries_foldl_registerClass (names : List (String × String)) :
    (names.foldl (registerClass path loader) r).openedLibraries = r.openedLibraries := by
  induction names generalizing r with
  | nil => rfl
  | cons name names ih => exact ih

structure Tracks (libraryPath : ι → String) (out : ι → Prop) (r : Registry ι) : Prop where
  nodup : r.openedLibraries.Nodup
  opened : ∀ path, path ∈ r.openedLibraries ↔ ∃ l, libraryPath l = path ∧ out l
  library : ∀ f ∈ r.factories, f.relativeLibraryPath ∈ r.openedLibraries
  distinct : ∀ f ∈ r.factories, f.relativeClassLoaders.Nodup
  owners : ∀ f ∈ r.factories, ∀ l,
    l ∈ f.relativeClassLoaders ↔ libraryPath l = f.relativeLibraryPath ∧ out l

theorem Tracks.congr {libraryPath : ι → String} {out out' : ι → Prop}
    (h : r.Tracks libraryPath out) (hout : ∀ l, out l ↔ out' l) : r.Tracks libraryPath out' := by
  obtain rfl : out = out' := funext fun l => propext (hout l)
  exact h

variable [DecidableEq ι]

theorem isLibraryLoaded_eq (r : Registry ι) (path : String) (loader : ι) :
    r.isLibraryLoaded path loader = decide (path ∈ r.openedLibraries) := by
  have hle := length_filter_le (fun f => f.isOwnedBy loader)
    (r.getAllClassFactoryObjectsOfLibrary path)
  simp only [isLibraryLoaded, isLibraryLoadedByAnybody, hle, decide_true, Bool.and_true]
  grind

theorem mem_destroy :
    f ∈ (r.destroyClassFactoryObjectsOfLibrary path loader).factories ↔
      ∃ g ∈ r.factories,
        if g.relativeLibraryPath = path ∧ loader ∈ g.relativeClassLoaders then
          f = g.removeOwnedClassLoader loader ∧ f.relativeClassLoaders ≠ []
        else f = g := by
  simp only [destroyClassFactoryObjectsOfLibrary, mem_filterMap, isOwnedBy,
    decide_eq_true_eq]
  refine exists_congr fun g => and_congr_right fun _ => ?_
  split
  · rw [isOwnedByAnybody, Bool.not_not]
    grind
  · rw [Option.some.injEq, eq_comm]

/-! ## Loading -/

section

variable {libraryPath : ι → String} {out : ι → Prop} {libs : Libraries}

theorem addOwnedClassLoader_mem {l : ι} :
    l ∈ (f.addOwnedClassLoader loader).relativeClassLoaders ↔
      l ∈ f.relativeClassLoaders ∨ l = loader := by
  unfold addOwnedClassLoader
  grind

theorem addOwnedClassLoader_nodup (h : f.relativeClassLoaders.Nodup) :
    (f.addOwnedClassLoader loader).relativeClassLoaders.Nodup := by
  unfold addOwnedClassLoader
  grind

theorem addOwnedClassLoader_library :
    (f.addOwnedClassLoader loader).relativeLibraryPath = f.relativeLibraryPath := by
  unfold addOwnedClassLoader
  split <;> rfl

theorem Tracks.attach (h : r.Tracks libraryPath out)
    (hopen : libraryPath loader ∈ r.openedLibraries) :
    Tracks libraryPath (fun l => out l ∨ l = loader)
      { r with
        factories := r.factories.map fun f =>
          if f.relativeLibraryPath = libraryPath loader then f.addOwnedClassLoader loader
          else f } where
  nodup := h.nodup
  opened path := by
    rw [h.opened]
    constructor
    · grind
    · intro hpath
      obtain ⟨l, rfl, hout | rfl⟩ := hpath
      · exact ⟨l, rfl, hout⟩
      · exact (h.opened _).1 hopen
  library g hg := by
    obtain ⟨f, hf, rfl⟩ := mem_map.1 hg
    split
    · rw [addOwnedClassLoader_library]
      exact h.library f hf
    · exact h.library f hf
  distinct g hg := by
    obtain ⟨f, hf, rfl⟩ := mem_map.1 hg
    split
    · exact addOwnedClassLoader_nodup (h.distinct f hf)
    · exact h.distinct f hf
  owners g hg l := by
    obtain ⟨f, hf, rfl⟩ := mem_map.1 hg
    split
    · rw [addOwnedClassLoader_mem, addOwnedClassLoader_library, h.owners f hf]
      grind
    · rw [h.owners f hf]
      grind

omit [DecidableEq ι] in
theorem Tracks.register (h : r.Tracks libraryPath out)
    (hopen : libraryPath loader ∉ r.openedLibraries) (names : List (String × String)) :
    Tracks libraryPath (fun l => out l ∨ l = loader)
      { names.foldl (registerClass (libraryPath loader) loader) r with
        openedLibraries :=
          (names.foldl (registerClass (libraryPath loader) loader) r).openedLibraries ++
            [libraryPath loader] } := by
  have hnone : ∀ l, libraryPath l = libraryPath loader → ¬ out l := fun l hl hout =>
    hopen ((h.opened _).2 ⟨l, hl, hout⟩)
  simp only [openedLibraries_foldl_registerClass]
  have hnodup : (r.openedLibraries ++ [libraryPath loader]).Nodup := by
    rw [← concat_eq_append]
    exact h.nodup.concat hopen
  refine ⟨hnodup, fun path => ?_, fun f hf => ?_, fun f hf => ?_, fun f hf l => ?_⟩
  · simp only [mem_append, mem_singleton, h.opened path]
    grind
  · rcases mem_foldl_registerClass hf with hold | ⟨hlib, -⟩
    · exact mem_append_left _ (h.library f hold)
    · grind
  · rcases mem_foldl_registerClass hf with hold | ⟨-, hown⟩
    · exact h.distinct f hold
    · grind
  · rcases mem_foldl_registerClass hf with hold | ⟨hlib, hown⟩
    · -- another library's factory: the loader is no owner of it
      rw [h.owners f hold]
      refine and_congr_right fun hl => ⟨.inl, fun hout => hout.resolve_right fun heq => hopen ?_⟩
      rw [← heq, hl]
      exact h.library f hold
    · grind

theorem Tracks.loadLibrary (h : r.Tracks libraryPath out)
    (hout : ∀ l, out l → libs.opens (libraryPath l) = true) (loader : ι) :
    Tracks libraryPath (fun l => out l ∨ l = loader ∧ libs.opens (libraryPath loader) = true)
      (r.loadLibrary libs (libraryPath loader) loader).1 := by
  unfold Registry.loadLibrary isLibraryLoadedByAnybody
  by_cases hopen : libraryPath loader ∈ r.openedLibraries
  · have hopens : libs.opens (libraryPath loader) = true := by
      obtain ⟨l, hl, hheld⟩ := (h.opened _).1 hopen
      rw [← hl]
      exact hout l hheld
    rw [if_pos (decide_eq_true hopen)]
    exact (h.attach hopen).congr fun l => by simp only [hopens, and_true]
  · rw [if_neg (by simpa using hopen)]
    by_cases hopens : libs.opens (libraryPath loader) = true
    · rw [if_pos hopens]
      exact (h.register hopen _).congr fun l => by simp only [hopens, and_true]
    · rw [if_neg hopens]
      exact h.congr fun l => by simp only [hopens, and_false, or_false, Bool.false_eq_true]

/-! ## Letting go -/

section
variable (h : r.Tracks libraryPath out) {g : ClassFactory ι}
include h

theorem Tracks.exists_destroy_iff :
    (∃ g ∈ (r.destroyClassFactoryObjectsOfLibrary (libraryPath loader) loader).factories,
      g.relativeLibraryPath = libraryPath loader) ↔
      (∃ f ∈ r.factories, f.relativeLibraryPath = libraryPath loader) ∧
        ∃ l, l ≠ loader ∧ libraryPath l = libraryPath loader ∧ out l := by
  constructor
  · intro hstays
    obtain ⟨g, hg, hlib⟩ := hstays
    obtain ⟨f, hf, heq⟩ := mem_destroy.1 hg
    split at heq
    · rename_i hown
      obtain ⟨rfl, hne⟩ := heq
      refine ⟨⟨f, hf, hown.1⟩, ?_⟩
      obtain ⟨l, hl⟩ := exists_mem_of_ne_nil _ hne
      have hmem := ((h.distinct f hf).mem_erase_iff).1 hl
      obtain ⟨hpath, hout⟩ := (h.owners f hf l).1 hmem.2
      exact ⟨l, hmem.1, hpath.trans hown.1, hout⟩
    · -- the loader was no owner, but the library is open
      rename_i hown
      subst heq
      obtain ⟨l, hpath, hout⟩ := (h.opened _).1 (h.library g hf)
      refine ⟨⟨g, hf, hlib⟩, l, fun heq => hown ⟨hlib, ?_⟩, hpath.trans hlib, hout⟩
      rw [← heq]
      exact (h.owners g hf l).2 ⟨hpath, hout⟩
  · intro hother
    obtain ⟨⟨f, hf, hlib⟩, l, hne, hpath, hout⟩ := hother
    have hmem : l ∈ f.relativeClassLoaders := (h.owners f hf l).2 ⟨hpath.trans hlib.symm, hout⟩
    by_cases hown : loader ∈ f.relativeClassLoaders
    · refine ⟨f.removeOwnedClassLoader loader, mem_destroy.2 ⟨f, hf, ?_⟩, hlib⟩
      rw [if_pos ⟨hlib, hown⟩]
      exact ⟨rfl, ne_nil_of_mem ((mem_erase_of_ne hne).2 hmem)⟩
    · refine ⟨f, mem_destroy.2 ⟨f, hf, ?_⟩, hlib⟩
      rw [if_neg fun hboth => hown hboth.2]

theorem Tracks.of_mem_destroy
    (hg : g ∈ (r.destroyClassFactoryObjectsOfLibrary (libraryPath loader) loader).factories) :
    g.relativeClassLoaders.Nodup ∧ g.relativeLibraryPath ∈ r.openedLibraries ∧
      ∀ l, l ∈ g.relativeClassLoaders ↔
        libraryPath l = g.relativeLibraryPath ∧ out l ∧ l ≠ loader := by
  obtain ⟨f, hf, heq⟩ := mem_destroy.1 hg
  split at heq
  · obtain ⟨rfl, -⟩ := heq
    refine ⟨(h.distinct f hf).erase loader, h.library f hf, fun l => ?_⟩
    rw [removeOwnedClassLoader, (h.distinct f hf).mem_erase_iff, h.owners f hf]
    exact ⟨fun hl => ⟨hl.2.1, hl.2.2, hl.1⟩, fun hl => ⟨hl.2.2, hl.1, hl.2.1⟩⟩
  · rename_i hown
    subst heq
    refine ⟨h.distinct g hf, h.library g hf, fun l => ?_⟩
    rw [h.owners g hf]
    refine and_congr_right fun hl => ⟨fun hout => ⟨hout, fun heq => hown ?_⟩, And.left⟩
    subst heq
    exact ⟨hl.symm, (h.owners g hf l).2 ⟨hl, hout⟩⟩

theorem Tracks.mem_unloadLibrary_iff (path : String) :
    path ∈ (r.unloadLibrary (libraryPath loader) loader).openedLibraries ↔
      path ∈ r.openedLibraries ∧
        (path = libraryPath loader →
          (∃ f ∈ r.factories, f.relativeLibraryPath = path) ∧
            ∃ l, l ≠ loader ∧ libraryPath l = path ∧ out l) := by
  have hempty : ((r.destroyClassFactoryObjectsOfLibrary (libraryPath loader)
      loader).getAllClassFactoryObjectsOfLibrary (libraryPath loader)).isEmpty = true ↔
      ¬ ((∃ f ∈ r.factories, f.relativeLibraryPath = libraryPath loader) ∧
        ∃ l, l ≠ loader ∧ libraryPath l = libraryPath loader ∧ out l) := by
    rw [← h.exists_destroy_iff, List.isEmpty_iff, getAllClassFactoryObjectsOfLibrary,
      filter_eq_nil_iff]
    simp only [decide_eq_true_eq, not_exists, not_and]
  unfold unloadLibrary
  by_cases hopen : libraryPath loader ∈ r.openedLibraries
  · rw [if_pos hopen]
    by_cases hgone : ((r.destroyClassFactoryObjectsOfLibrary (libraryPath loader)
        loader).getAllClassFactoryObjectsOfLibrary (libraryPath loader)).isEmpty = true
    · rw [if_pos hgone]
      change path ∈ r.openedLibraries.erase _ ↔ _
      rw [h.nodup.mem_erase_iff, and_comm]
      grind
    · rw [if_neg hgone]
      change path ∈ r.openedLibraries ↔ _
      grind
  · grind

theorem Tracks.mem_destroy_of_mem_unload
    (hg : g ∈ (r.unloadLibrary (libraryPath loader) loader).factories) :
    g ∈ (r.destroyClassFactoryObjectsOfLibrary (libraryPath loader) loader).factories := by
  unfold unloadLibrary at hg
  split at hg
  · grind
  · rename_i hopen
    refine mem_destroy.2 ⟨g, hg, ?_⟩
    rw [if_neg]
    intro hown
    exact hopen (hown.1 ▸ h.library g hg)

theorem Tracks.unloadLibrary (hok : (∃ l, l ≠ loader ∧ libraryPath l = libraryPath loader ∧ out l) →
      ∃ f ∈ r.factories, f.relativeLibraryPath = libraryPath loader) :
    Tracks libraryPath (fun l => out l ∧ l ≠ loader)
      (r.unloadLibrary (libraryPath loader) loader) where
  nodup := by
    unfold Registry.unloadLibrary
    split
    · dsimp only
      split
      · exact h.nodup.erase _
      · exact h.nodup
    · exact h.nodup
  opened path := by
    rw [h.mem_unloadLibrary_iff, h.opened]
    constructor
    · grind
    · intro hpath
      obtain ⟨l, hl, hout, hne⟩ := hpath
      refine ⟨⟨l, hl, hout⟩, fun heq => ?_⟩
      subst heq
      exact ⟨hok ⟨l, hne, hl, hout⟩, l, hne, hl, hout⟩
  library g hg := by
    have hmem := h.mem_destroy_of_mem_unload hg
    refine (h.mem_unloadLibrary_iff _).2 ⟨(h.of_mem_destroy hmem).2.1, fun heq => ?_⟩
    rw [heq]
    exact h.exists_destroy_iff.1 ⟨g, hmem, heq⟩
  distinct g hg := (h.of_mem_destroy (h.mem_destroy_of_mem_unload hg)).1
  owners g hg := (h.of_mem_destroy (h.mem_destroy_of_mem_unload hg)).2.2

end

end

end Registry

/-! ## The invariant -/

namespace State

variable [DecidableEq ι] {conf : Conf ι} {s : State ι} {ev : Event ι}

structure Good (conf : Conf ι) (s : State ι) : Prop where
  tracks : s.registry.Tracks conf.libraryPath (s.Outstanding conf)
  nonneg : ∀ loader, 0 ≤ s.loadlibRefCount loader
  counted : ∀ loader, s.classobjRefCount loader = s.objects.countP (·.loader = loader)
  made : ∀ obj ∈ s.objects,
    obj.library = conf.libraryPath obj.loader ∧ s.Outstanding conf obj.loader

theorem good_init : Good conf (init : State ι) where
  tracks := by
    refine ⟨nodup_nil, fun path => ?_, nofun, nofun, nofun⟩
    refine iff_of_false not_mem_nil fun h => ?_
    obtain ⟨_, -, -, hpos⟩ := h
    exact absurd hpos (Int.lt_irrefl 0)
  nonneg _ := Int.le_refl 0
  counted _ := rfl
  made := nofun

section
variable (h : s.Good conf)
include h

theorem Good.mem_opened_iff (path : String) :
    path ∈ s.registry.openedLibraries ↔ s.Held conf path :=
  h.tracks.opened path

theorem Good.classobjRefCount_pos {obj : ClassObj ι} (hobj : obj ∈ s.objects) :
    0 < s.classobjRefCount obj.loader := by
  have hpos : 0 < s.objects.countP (·.loader = obj.loader) :=
    countP_pos_iff.2 ⟨obj, hobj, decide_eq_true rfl⟩
  rw [h.counted]
  omega

theorem Good.loadLibrary (loader : ι) : (s.loadLibrary conf loader).Good conf := by
  have hout : ∀ l, (s.loadLibrary conf loader).Outstanding conf l ↔ s.Outstanding conf l ∨
      l = loader ∧ conf.libs.opens (conf.libraryPath loader) = true := by
    have := h.nonneg loader
    simp only [Outstanding, State.loadLibrary]
    grind
  constructor
  · exact (h.tracks.loadLibrary (fun l hl => hl.1) loader).congr fun l => (hout l).symm
  · exact (forall_update_iff _ fun _ count => 0 ≤ count).2
      ⟨by have := h.nonneg loader; omega, fun l _ => h.nonneg l⟩
  · exact h.counted
  · intro obj hobj
    exact ⟨(h.made obj hobj).1, (hout _).2 (.inl (h.made obj hobj).2)⟩

omit h in
theorem outstanding_unload_of_ne_one {loader : ι} (hne : s.loadlibRefCount loader ≠ 1) (l : ι) :
    (s.unloadLibrary conf loader).Outstanding conf l ↔ s.Outstanding conf l := by
  unfold unloadLibrary
  split
  · rfl
  · rw [if_neg (by omega)]
    refine and_congr_right fun _ => ?_
    dsimp only
    by_cases hl : l = loader
    · subst hl
      rw [update_self]
      split <;> omega
    · rw [update_of_ne hl]

end

theorem outstanding_unload_of_one {loader : ι} (hobj : s.classobjRefCount loader ≤ 0)
    (hone : s.loadlibRefCount loader = 1) (l : ι) :
    (s.unloadLibrary conf loader).Outstanding conf l ↔ s.Outstanding conf l ∧ l ≠ loader := by
  unfold unloadLibrary
  rw [if_neg (by omega), if_pos (by omega)]
  simp only [Outstanding]
  by_cases hl : l = loader
  · subst hl
    grind
  · rw [update_of_ne hl]
    exact ⟨fun hnew => ⟨hnew, hl⟩, And.left⟩

theorem outstanding_step {l : ι} (hl : s.Outstanding conf l) :
    (s.step conf ev).Outstanding conf l ∨ ev = .unloadLibrary l ∧ s.classobjRefCount l ≤ 0 := by
  have hload : ∀ loader, (s.loadLibrary conf loader).Outstanding conf l := by
    intro loader
    refine ⟨hl.1, ?_⟩
    have hpos := hl.2
    simp only [loadLibrary, update_apply]
    grind
  cases ev with
  | loadLibrary loader => exact .inl (hload loader)
  | unloadLibrary loader =>
    by_cases hone : s.loadlibRefCount loader = 1
    · by_cases hobj : s.classobjRefCount loader ≤ 0
      · by_cases heq : l = loader
        · grind
        · exact .inl ((outstanding_unload_of_one hobj hone l).2 ⟨hl, heq⟩)
      · left
        change (s.unloadLibrary conf loader).Outstanding conf l
        rw [unloadLibrary, if_pos (by omega)]
        exact hl
    · exact .inl ((outstanding_unload_of_ne_one hone l).2 hl)
  | createClassObj loader name =>
    left
    have hdemand : (s.loadOnDemand conf loader).Outstanding conf l := by
      unfold loadOnDemand
      grind
    change (s.createClassObj conf loader name).1.Outstanding conf l
    unfold createClassObj makeClassObj
    split <;> exact hdemand
  | deleteObj n =>
    left
    change (s.deleteObj n).Outstanding conf l
    unfold deleteObj
    split <;> exact hl

section
variable (h : s.Good conf)
include h

theorem Good.unloadLibrary {loader : ι}
    (hok : s.StepOk conf (.unloadLibrary loader)) : (s.unloadLibrary conf loader).Good conf := by
  by_cases hobj : s.classobjRefCount loader > 0
  · rw [State.unloadLibrary, if_pos hobj]
    exact h
  have hstep : ∀ count, 0 ≤ count → ∀ l, 0 ≤ update s.loadlibRefCount loader count l :=
    fun count hcount => (forall_update_iff _ fun _ count => 0 ≤ count).2
      ⟨hcount, fun l _ => h.nonneg l⟩
  by_cases hone : s.loadlibRefCount loader = 1
  · have hobj : s.classobjRefCount loader ≤ 0 := by omega
    have hout : ∀ l, (s.unloadLibrary conf loader).Outstanding conf l ↔
        s.Outstanding conf l ∧ l ≠ loader := outstanding_unload_of_one hobj hone
    have hmade : ∀ obj ∈ s.objects, (s.unloadLibrary conf loader).Outstanding conf obj.loader := by
      intro obj hmem
      refine (hout _).2 ⟨(h.made obj hmem).2, fun heq => ?_⟩
      have hpos := h.classobjRefCount_pos hmem
      rw [heq] at hpos
      omega
    have htracks := (h.tracks.unloadLibrary (hok hobj hone)).congr fun l => (hout l).symm
    rw [State.unloadLibrary, if_neg (by omega), if_pos (by omega)] at hmade htracks ⊢
    exact ⟨htracks, hstep _ (by omega), h.counted,
      fun obj hmem => ⟨(h.made obj hmem).1, hmade obj hmem⟩⟩
  · have hout := @outstanding_unload_of_ne_one ι _ conf s loader hone
    have htracks := h.tracks.congr fun l => (hout l).symm
    rw [State.unloadLibrary, if_neg hobj, if_neg (by omega)] at htracks hout ⊢
    exact ⟨htracks, hstep _ (by split <;> omega), h.counted,
      fun obj hmem => ⟨(h.made obj hmem).1, (hout _).2 (h.made obj hmem).2⟩⟩

theorem Good.loadOnDemand (loader : ι) : (s.loadOnDemand conf loader).Good conf := by
  unfold State.loadOnDemand
  split
  · exact h.loadLibrary loader
  · exact h

theorem Good.of_createClassObj {loader : ι} {name : String × String}
    {f : ClassFactory ι} (hf : s.registry.createClassObj name loader = some f) :
    f.relativeLibraryPath = conf.libraryPath loader ∧ s.Outstanding conf loader := by
  obtain ⟨hfind, hown⟩ := Option.filter_eq_some_iff.1 hf
  have hmem := (h.tracks.owners f (mem_of_find?_eq_some hfind) loader).1 (of_decide_eq_true hown)
  exact ⟨hmem.1.symm, hmem.2⟩

theorem Good.makeClassObj (loader : ι) (name : String × String) :
    (s.makeClassObj loader name).1.Good conf := by
  unfold State.makeClassObj
  split
  · exact h
  · rename_i f hf
    obtain ⟨hlib, hout⟩ := h.of_createClassObj hf
    refine ⟨h.tracks, h.nonneg, fun l => ?_, fun obj hobj => ?_⟩
    · dsimp only
      rw [countP_append, update_apply, h.counted]
      by_cases hl : l = loader
      · subst hl
        simp
      · simp [hl, Ne.symm hl, h.counted]
    · rcases mem_append.1 hobj with hold | hnew
      · exact h.made obj hold
      · obtain rfl := mem_singleton.1 hnew
        exact ⟨hlib, hout⟩

theorem Good.deleteObj (n : Nat) : (s.deleteObj n).Good conf := by
  unfold State.deleteObj
  split
  · exact h
  · rename_i obj hobj
    refine ⟨h.tracks, h.nonneg, fun l => ?_, fun o ho => h.made o (mem_of_mem_eraseIdx ho)⟩
    obtain ⟨hn, rfl⟩ := List.getElem?_eq_some_iff.1 hobj
    have hperm := (getElem_cons_eraseIdx_perm hn).countP_eq fun o => decide (o.loader = l)
    dsimp only
    rw [update_apply, h.counted, h.counted]
    grind

theorem Good.step (hok : s.StepOk conf ev) : (s.step conf ev).Good conf := by
  cases ev with
  | loadLibrary loader => exact h.loadLibrary loader
  | unloadLibrary loader => exact h.unloadLibrary hok
  | createClassObj loader name => exact (h.loadOnDemand loader).makeClassObj loader name
  | deleteObj n => exact h.deleteObj n

end

/-! ## The result -/

theorem closesRight_of_stepOk (h : s.Good conf) (hok : s.StepOk conf ev) :
    s.ClosesRight conf ev := by
  intro path
  have hcloses : s.Closes conf ev path ↔ s.Held conf path ∧ ¬ (s.step conf ev).Held conf path :=
    and_congr (h.mem_opened_iff path) (not_congr ((h.step hok).mem_opened_iff path))
  constructor
  · rw [hcloses]
    refine ⟨fun hheld => ⟨?_, hheld⟩, And.right⟩
    obtain ⟨⟨l, hl, hout⟩, hnot⟩ := hheld
    rcases outstanding_step hout with hnew | ⟨hev, -⟩
    · exact absurd ⟨l, hl, hnew⟩ hnot
    · exact ⟨l, hev, hl⟩
  · intro hclose obj hobj hlib
    -- the loader of the object cannot have let go of the library
    obtain ⟨hmade, hout⟩ := h.made obj hobj
    apply (hcloses.1 hclose).2
    rcases outstanding_step hout with hnew | ⟨-, hzero⟩
    · exact ⟨obj.loader, hmade.symm.trans hlib, hnew⟩
    · have hpos := h.classobjRefCount_pos hobj
      omega

theorem stepOk_of_closesRight (h : s.Good conf) (hright : s.ClosesRight conf ev) :
    s.StepOk conf ev := by
  cases ev with
  | unloadLibrary loader =>
    intro hobj hone hother
    by_contra hnone
    obtain ⟨other, hne, hpath, hout⟩ := hother
    have hopen : conf.libraryPath loader ∈ s.registry.openedLibraries :=
      (h.mem_opened_iff _).2 ⟨other, hpath, hout⟩
    have hclose : s.Closes conf (.unloadLibrary loader) (conf.libraryPath loader) := by
      refine ⟨hopen, fun hmem => hnone ?_⟩
      rw [step, unloadLibrary, if_neg (by omega), if_pos (by omega)] at hmem
      exact (((h.tracks.mem_unloadLibrary_iff _).1 hmem).2 rfl).1
    -- the other loader is still holding it
    apply ((hright _).1.1 hclose).2.2
    rcases outstanding_step hout with hnew | ⟨hev, -⟩
    · exact ⟨other, hpath, hnew⟩
    · cases hev
      exact absurd rfl hne
  | loadLibrary | createClassObj | deleteObj => exact trivial

/-- **Every library is closed when it should be, exactly if no loader lets go of a library without
factories that another loader holds.** -/
theorem along_closesRight_iff (conf : Conf ι) (evs : List (Event ι)) :
    Along (step conf) (ClosesRight conf) init evs ↔ Along (step conf) (StepOk conf) init evs :=
  along_congr good_init (fun _ _ h => ⟨stepOk_of_closesRight h, closesRight_of_stepOk h⟩)
    fun _ _ h hright => h.step (stepOk_of_closesRight h hright)

def bareConf : Conf Bool := ⟨⟨fun _ => true, fun _ => []⟩, fun _ => "libbare.so"⟩

/-- Two loaders of a library without classes: the first to let go closes it under the other. -/
theorem not_closesRight_bare :
    ¬ Along (step bareConf) (ClosesRight bareConf) init
      [.loadLibrary false, .loadLibrary true, .unloadLibrary false] := by
  intro h
  have hright := ((h.2.2.1 "libbare.so").1.1 ⟨by decide, by decide⟩).2.2
  exact hright ⟨true, rfl, rfl, by decide⟩

end State

end ClassLoader
