import Mathlib.Order.Nat
import CyberRT.Base.Proof.MapSteps

/-!
# `AtomicHashMap` under any number of threads

The buckets stay in order and lose no entry, and a `Has` or `Get` finds a key that was set before it
was called (`Inv.run`).
-/

namespace Base.MapSystem

open Lib

variable {ι K V : Type*} {conf : MapConf K V} {s : MapSystem ι K V} {L : Nat → List Nat} {i : ι}
  {m : MapMemory K V}

attribute [local simp] MapPc.setCall

theorem own_found (call : MapCall K V) (a : Nat) :
    (found call a).setCall = (MapPc.first call).setCall ∧ (found call a).oldCell = none := by
  cases call <;> exact ⟨rfl, rfl⟩

theorem own_notFound (call : MapCall K V) (prev : NodeRef) (target : Option Nat) :
    (notFound call prev target).setCall = (MapPc.first call).setCall ∧
      (notFound call prev target).oldCell = none := by
  cases call <;> exact ⟨rfl, rfl⟩

theorem own_visit (call : MapCall K V) (prev : NodeRef) (target : Option Nat) :
    (MapPc.visit call prev target).setCall = (MapPc.first call).setCall ∧
      (MapPc.visit call prev target).oldCell = none := by
  cases call <;> exact ⟨rfl, rfl⟩

theorem ready_own {pc : MapPc K V} (h : pc.ready = true) :
    pc.setCall = none ∧ pc.oldCell = none := by
  cases pc with
  | idle => exact ⟨rfl, rfl⟩
  | hasResult k due found => exact ⟨rfl, rfl⟩
  | getResult k due value => exact ⟨rfl, rfl⟩
  | _ => cases h

theorem Returned.put [DecidableEq ι] {stored : List (K × V)}
    {completed : List K} (h : s.Returned) (pc : MapPc K V) (hsub : s.stored ⊆ stored)
    (hpc : ∀ k due r, pc = .getResult k due (some r) → ∃ v, r = some v ∧ (k, v) ∈ stored) :
    Returned ⟨m, Function.update s.pcs i pc, stored, completed⟩ :=
  (Function.forall_update_iff s.pcs fun _ pc => ∀ k due r, pc = .getResult k due (some r) →
    ∃ v, r = some v ∧ (k, v) ∈ stored).2 ⟨hpc, fun j _ k due r hj => by
      obtain ⟨v, hv, hmem⟩ := h j k due r hj
      exact ⟨v, hv, hsub hmem⟩⟩

variable [LinearOrder K] {target : Option Nat} {prev : NodeRef}

theorem own_visitStep (m : MapMemory K V) (call : MapCall K V) (prev : NodeRef)
    (target : Option Nat) :
    (visitStep m call prev target).setCall = (MapPc.first call).setCall ∧
      (visitStep m call prev target).oldCell = none := by
  unfold visitStep
  split
  · exact own_notFound call prev none
  · split
    · exact own_visit call prev _
    · split
      · exact own_visit call _ _
      · split
        · exact own_found call _
        · exact own_notFound call prev _

theorem knows_notFound {call : MapCall K V} (hcall : CallOk conf m L call)
    (hgap : Gap m (conf.index call.key) (L (conf.index call.key)) call.key prev target)
    (hmust : mustFind call = false) : Knows conf m L (notFound call prev target) := by
  cases call with
  | has k due =>
    intro hdue
    exact absurd (hmust.symm.trans hdue) (by decide)
  | get k due =>
    intro hdue
    exact absurd (hmust.symm.trans hdue) (by decide)
  | set c =>
    have hnone : c.newValue = none := by simpa [mustFind] using hmust
    exact ⟨hgap, hnone, hcall.2 c rfl hnone⟩

theorem knows_found {call : MapCall K V} {a : Nat}
    (hcall : CallOk conf m L call) (h : LinkedAt conf m L a call.key) :
    Knows conf m L (found call a) := by
  cases call with
  | has k due => exact fun _ => rfl
  | get k due => exact h
  | set c => exact ⟨h, hcall.2 c rfl⟩

section
variable (h : Inv conf s L)
include h

theorem Inv.knows_visitStep {call : MapCall K V}
    (hknows : Knows conf s.mem L (.visit call prev target)) :
    Knows conf s.mem L (visitStep s.mem call prev target) := by
  obtain ⟨hcall, hprev, hmem, hfind⟩ := hknows
  -- a key that must be found is not behind a target that is none or greater
  have hnot : ∀ (_ : ∀ e ∈ target, ∀ k, s.mem.keyAt e = some k → call.key < k),
      mustFind call = false := by
    grind
  cases target with
  | none => exact knows_notFound hcall ⟨hprev, nofun⟩ (hnot nofun)
  | some a =>
    have ha : a ∈ L (conf.index call.key) := hmem a rfl
    obtain ⟨k, hk, -⟩ := h.indexed _ a ha
    simp only [visitStep, hk]
    split
    · -- the target's key is too small
      rename_i hlt
      refine ⟨hcall, ⟨ha, k, hk, hlt⟩, fun e he => mem_of_next (h.bucket _) ha he, fun hf => ?_⟩
      exact le_of_present_behind (h.bucket _) (h.sorted _) ha hk hlt (hcall.1 hf)
    · rename_i hge
      split
      · rename_i heq
        exact knows_found hcall ⟨ha, heq ▸ hk⟩
      · rename_i hne
        have hall : ∀ e ∈ some a, ∀ k', s.mem.keyAt e = some k' → call.key < k' := by grind
        refine knows_notFound hcall ⟨hprev, fun e he => ?_⟩ (hnot hall)
        grind

theorem Inv.knows_first {call : MapCall K V} (hcall : CallOk conf s.mem L call) :
    Knows conf s.mem L (.visit call (.head (conf.index call.key))
      (s.mem.next (.head (conf.index call.key)))) :=
  ⟨hcall, rfl, fun _ he => mem_of_chain (h.bucket _) he,
    fun hf => le_of_present (h.bucket _) (h.sorted _) (hcall.1 hf)⟩

theorem Inv.stay : ∃ L', Inv conf s L' ∧ Grows s.mem L s.mem L' :=
  ⟨L, h, Grows.of_keyAt fun _ _ _ => rfl⟩

theorem kept_of_grows {s' : MapSystem ι K V} {L' : Nat → List Nat}
    (h' : Inv conf s' L') (hgrows : Grows s.mem L s'.mem L') : s.Kept s' := by
  intro b l l' hl hl'
  rw [hl.unique (h.bucket b), hl'.unique (h'.bucket b)]
  exact hgrows b

theorem Inv.read {k : K} {due : Bool} {a ptr : Nat} (hpc : s.pcs i = .deref k due a ptr)
    (hcur : (s.mem.entries a).map MapEntry.valuePtr = some ptr) :
    ∃ v, s.mem.vals ptr = some v ∧ (k, v) ∈ s.stored := by
  have hknows := h.knows i
  rw [hpc] at hknows
  obtain ⟨hmem, hkey⟩ := hknows
  obtain ⟨e, he, rfl⟩ := Option.map_eq_some_iff.1 hcur
  obtain ⟨x, hx, hstored⟩ := h.values _ a hmem e he
  obtain rfl : e.key = k := by simpa [MapMemory.keyAt, he] using hkey
  exact ⟨x, hx, hstored⟩

end

section
variable [DecidableEq ι]

theorem Inv.finish {k : K} (h : Inv conf (s.put i .idle m) L ∧ Grows s.mem L m L)
    (hk : Present s.mem (L (conf.index k)) k) :
    ∃ L', Inv conf (s.finish i k m) L' ∧ Grows s.mem L (s.finish i k m).mem L' :=
  ⟨L, h.1.addCompleted (Present.mono h.2 hk), h.2⟩

section
variable (h : Inv conf s L)
include h

theorem Inv.threadStep (i : ι) (addr cell : Nat) :
    ∃ L', Inv conf (s.threadStep conf i addr cell) L' ∧
      Grows s.mem L (s.threadStep conf i addr cell).mem L' := by
  have hknows := h.knows i
  unfold MapSystem.threadStep
  cases hpc : s.pcs i with
  | idle => exact h.stay
  | hasResult k due found => exact h.stay
  | getResult k due value => exact h.stay
  | first call =>
    rw [hpc] at hknows
    refine ⟨L, h.move hpc _ ?_ ?_ ?_ (h.knows_first hknows)⟩
    all_goals cases call <;> rfl
  | visit call prev target =>
    rw [hpc] at hknows
    obtain ⟨hset, hold⟩ := own_visitStep s.mem call prev target
    obtain ⟨hset', hold'⟩ := own_visit call prev target
    refine ⟨L, h.move hpc _ ?_ ?_ (hold.trans hold'.symm) (h.knows_visitStep hknows)⟩
    · rw [MapPc.freshEntry, hset, MapPc.freshEntry, hset']
    · rw [MapPc.freshCell, hset, MapPc.freshCell, hset']
  | loadPtr k due a =>
    rw [hpc] at hknows
    dsimp only
    split
    · exact h.stay
    · exact ⟨L, h.move hpc _ rfl rfl rfl hknows⟩
  | deref k due a ptr => exact ⟨L, h.move hpc _ rfl rfl rfl fun _ => by simp⟩
  | newValue c a =>
    rw [hpc] at hknows
    dsimp only
    split
    · rename_i hsome
      have hne : c.newValue ≠ none := Option.isSome_iff_ne_none.1 hsome
      exact ⟨L, h.move hpc _ rfl rfl rfl ⟨hknows.1, hne⟩⟩
    · rename_i hnone
      split
      · rename_i hfree
        exact ⟨L, h.newValue hpc (by simpa using hnone) (by simpa using hfree) _⟩
      · exact h.stay
  | loadOld c a =>
    rw [hpc] at hknows
    dsimp only
    split
    · exact h.stay
    · exact ⟨L, h.move hpc _ rfl rfl rfl hknows⟩
  | casValue c a old =>
    rw [hpc] at hknows
    obtain ⟨hlinked, hnew⟩ := hknows
    dsimp only
    split
    · rename_i e v he hv
      split
      · rename_i hold
        subst hold
        exact ⟨L, (h.addStored (c.key, c.arg)).swap hpc he hv List.mem_cons_self⟩
      · -- another `Set` was faster: the search begins again, and the key must be found
        refine ⟨L, h.move hpc _ rfl rfl rfl ⟨fun _ => ⟨a, hlinked⟩, fun c' hc' hnone => ?_⟩⟩
        grind
    · exact h.stay
  | deleteOld c old => exact ⟨L, h.deleteOld hpc⟩
  | deleteEntry c =>
    rw [hpc] at hknows
    dsimp only
    split
    · rename_i hnone
      refine Inv.finish (h.move hpc _ ?_ ?_ rfl trivial) hknows.1
      · simp [MapPc.freshEntry, hnone]
      · simp [MapPc.freshCell, hknows.2]
    · rename_i a ha
      split
      · exact h.stay
      · rename_i e he
        exact Inv.finish (h.deleteEntry hpc ha he) hknows.1
  | newEntry c prev target =>
    rw [hpc] at hknows
    dsimp only
    split
    · rename_i hsome
      have hne : c.newEntry ≠ none := Option.isSome_iff_ne_none.1 hsome
      exact ⟨L, h.move hpc _ rfl rfl rfl ⟨hknows, hne⟩⟩
    · split
      · rename_i hfree
        exact ⟨L, h.newEntry hpc (by simpa using hfree.1) (by simpa using hfree.2)⟩
      · exact h.stay
  | storeNext c prev target =>
    dsimp only
    split
    · exact h.stay
    · rename_i a ha
      exact ⟨L, h.storeNext hpc ha⟩
  | casNext c prev target =>
    rw [hpc] at hknows
    obtain ⟨⟨-, hnoval, harg⟩, -⟩ := hknows
    dsimp only
    split
    · exact h.stay
    · rename_i a ha
      split
      · rename_i hprev
        exact (h.addStored (c.key, c.arg)).link hpc ha hprev List.mem_cons_self
      · refine ⟨L, h.move hpc _ rfl rfl rfl ⟨fun hf => ?_, fun c' hc' _ => ?_⟩⟩
        · simp [mustFind, hnoval] at hf
        · cases hc'
          exact harg
  | deleteValue c =>
    rw [hpc] at hknows
    obtain ⟨hpresent, hnoval, hnoentry⟩ := hknows
    simp only [hnoval]
    refine Inv.finish (h.move hpc _ ?_ ?_ rfl trivial) hpresent
    · simp [MapPc.freshEntry, hnoentry]
    · simp [MapPc.freshCell, hnoval]

theorem Inv.call {call : MapCall K V} (hready : (s.pcs i).ready = true)
    (hnew : ∀ c, call = .set c → c.newEntry = none ∧ c.newValue = none)
    (hcall : CallOk conf s.mem L call) :
    Inv conf (s.put i (.first call) s.mem) L ∧ Grows s.mem L s.mem L := by
  obtain ⟨hset, hold⟩ := ready_own hready
  refine h.move rfl _ ?_ ?_ hold.symm hcall
  · rw [MapPc.freshEntry, MapPc.freshEntry, hset]
    cases call with
    | has k due => rfl
    | get k due => rfl
    | set c => simp [(hnew c rfl).1]
  · rw [MapPc.freshCell, MapPc.freshCell, hset]
    cases call with
    | has k due => rfl
    | get k due => rfl
    | set c => simp [(hnew c rfl).2]

theorem Inv.step (ev : MapEvent ι K V) :
    ∃ L', Inv conf (s.step conf ev) L' ∧ Grows s.mem L (s.step conf ev).mem L' := by
  cases ev with
  | has i k =>
    simp only [MapSystem.step]
    split
    · rename_i hready
      exact ⟨L, h.call hready nofun ⟨fun hdue => h.completed k (of_decide_eq_true hdue), nofun⟩⟩
    · exact h.stay
  | get i k =>
    simp only [MapSystem.step]
    split
    · rename_i hready
      exact ⟨L, h.call hready nofun ⟨fun hdue => h.completed k (of_decide_eq_true hdue), nofun⟩⟩
    · exact h.stay
  | set i k v moves =>
    simp only [MapSystem.step]
    split
    · rename_i hready
      refine ⟨L, h.call hready (fun c hc => ?_) ⟨nofun, fun c hc _ => ?_⟩⟩
      all_goals grind
    · exact h.stay
  | step i addr cell => exact h.threadStep i addr cell

theorem Inv.run (evs : List (MapEvent ι K V)) :
    ∃ L', Inv conf (evs.foldl (MapSystem.step conf) s) L' ∧
      Grows s.mem L (evs.foldl (MapSystem.step conf) s).mem L' := by
  induction evs generalizing s L with
  | nil => exact h.stay
  | cons ev evs ih =>
    obtain ⟨L₁, h₁, hg₁⟩ := h.step ev
    obtain ⟨L₂, h₂, hg₂⟩ := ih h₁
    exact ⟨L₂, h₂, hg₁.trans hg₂⟩

end

theorem visitStep_ne_getResult (m : MapMemory K V) (call : MapCall K V) (prev : NodeRef)
    (target : Option Nat) (k : K) (due : Bool) (r : Option V) :
    visitStep m call prev target ≠ .getResult k due (some r) := by
  have hfound : ∀ a, found call a ≠ .getResult k due (some r) := by cases call <;> nofun
  have hnot : ∀ target, notFound call prev target ≠ .getResult k due (some r) := by
    cases call <;> nofun
  unfold visitStep
  grind

theorem Returned.threadStep (hret : s.Returned) (h : Inv conf s L) {addr cell : Nat}
    (hcur : s.PointerCurrent (.step i addr cell)) : (s.threadStep conf i addr cell).Returned := by
  have hsub : s.stored ⊆ s.stored := fun _ => id
  have hcons : ∀ p : K × V, s.stored ⊆ p :: s.stored := fun p => List.subset_cons_self p s.stored
  unfold MapSystem.threadStep
  cases hpc : s.pcs i with
  | idle => exact hret
  | hasResult k due found => exact hret
  | getResult k due value => exact hret
  | first call => exact hret.put _ hsub (by simp)
  | visit call prev target =>
    exact hret.put _ hsub fun k due r heq =>
      absurd heq (visitStep_ne_getResult s.mem call prev target k due r)
  | loadPtr k due a =>
    dsimp only
    split
    · exact hret
    · exact hret.put _ hsub (by simp)
  | deref k due a ptr =>
    simp only [PointerCurrent, hpc] at hcur
    refine hret.put _ hsub fun k' due' r heq => ?_
    cases heq
    exact h.read hpc hcur
  | newValue c a =>
    dsimp only
    split
    · exact hret.put _ hsub (by simp)
    · split
      · exact hret.put _ hsub (by simp)
      · exact hret
  | loadOld c a =>
    dsimp only
    split
    · exact hret
    · exact hret.put _ hsub (by simp)
  | casValue c a old =>
    dsimp only
    split
    · split
      · exact hret.put _ (hcons _) (by simp)
      · exact hret.put _ hsub (by simp)
    · exact hret
  | deleteOld c old => exact hret.put _ hsub (by simp)
  | deleteEntry c =>
    dsimp only
    split
    · exact hret.put _ hsub (by simp)
    · split
      · exact hret
      · exact hret.put _ hsub (by simp)
  | newEntry c prev target =>
    dsimp only
    split
    · exact hret.put _ hsub (by simp)
    · split
      · exact hret.put _ hsub (by simp)
      · exact hret
  | storeNext c prev target =>
    dsimp only
    split
    · exact hret
    · exact hret.put _ hsub (by simp)
  | casNext c prev target =>
    dsimp only
    split
    · exact hret
    · split
      · exact hret.put _ (hcons _) (by simp)
      · exact hret.put _ hsub (by simp)
  | deleteValue c =>
    dsimp only
    split <;> exact hret.put _ hsub (by simp)

theorem Returned.step (hret : s.Returned) (h : Inv conf s L) {ev : MapEvent ι K V}
    (hcur : s.PointerCurrent ev) : (s.step conf ev).Returned := by
  have hcall : ∀ i call, Returned (if (s.pcs i).ready then s.put i (.first call) s.mem else s) := by
    intro i call
    split
    · exact hret.put _ (fun _ => id) nofun
    · exact hret
  cases ev with
  | has i k => exact hcall i _
  | get i k => exact hcall i _
  | set i k v moves => exact hcall i _
  | step i addr cell => exact hret.threadStep h hcur

theorem always_inv (conf : MapConf K V) (evs : List (MapEvent ι K V)) :
    Always (MapSystem.step conf) (fun s => ∃ L, Inv conf s L) (init : MapSystem ι K V) evs :=
  always_iff.2 fun pre _ _ => by
    obtain ⟨L, h, -⟩ := (Inv.init : Inv conf (init : MapSystem ι K V) _).run pre
    exact ⟨L, h⟩

/-- **The map under any run.** At each point the buckets are in strict order, and each `Has` and
`Get` of a key that had been set has found it; from one point to a later one no entry is lost. -/
theorem always_found_and_returned (conf : MapConf K V) (evs : List (MapEvent ι K V)) :
    Always (MapSystem.step conf) (fun s => s.Sorted ∧ s.Found) (init : MapSystem ι K V) evs ∧
      (∀ pre mid suf, evs = pre ++ mid ++ suf →
        (pre.foldl (MapSystem.step conf) (init : MapSystem ι K V)).Kept
          (mid.foldl (MapSystem.step conf) (pre.foldl (MapSystem.step conf) init))) ∧
      (Along (MapSystem.step conf) PointerCurrent (init : MapSystem ι K V) evs →
        Always (MapSystem.step conf) Returned (init : MapSystem ι K V) evs) := by
  refine ⟨?_, fun pre mid suf hevs => ?_, fun hcur => ?_⟩
  · refine (always_inv conf evs).imp fun s h => ?_
    obtain ⟨L, h⟩ := h
    exact ⟨h.isSorted, h.found⟩
  · obtain ⟨L, h⟩ := always_iff.1 (always_inv conf evs) pre (mid ++ suf) (by simpa using hevs)
    obtain ⟨L', h', hgrows⟩ := h.run mid
    exact kept_of_grows h h' hgrows
  · have hall : Always (MapSystem.step conf) (fun s => (∃ L, Inv conf s L) ∧ s.Returned)
        (init : MapSystem ι K V) evs := by
      refine hcur.always ⟨⟨_, Inv.init⟩, nofun⟩ fun s ev hs hok => ?_
      obtain ⟨⟨L, h⟩, hret⟩ := hs
      obtain ⟨L', h', -⟩ := h.step ev
      exact ⟨⟨L', h'⟩, hret.step h hok⟩
    exact hall.imp fun s hs => hs.2

end

def oneBucket : MapConf Nat Nat := ⟨0, UInt64.ofNat, fun v => v⟩

def getUnderWay : List (MapEvent Bool Nat Nat) :=
  .set false 5 10 false :: List.replicate 6 (.step false 0 0) ++
    .get true 5 :: List.replicate 3 (.step true 0 0)

def promptRead : List (MapEvent Bool Nat Nat) := getUnderWay ++ [.step true 0 0]

theorem returned_promptRead :
    Always (MapSystem.step oneBucket) Returned (init : MapSystem Bool Nat Nat) promptRead ∧
      (promptRead.foldl (MapSystem.step oneBucket) init).pcs true =
        MapPc.getResult 5 true (some (some 10)) :=
  ⟨(always_found_and_returned oneBucket promptRead).2.2 (by decide +kernel), by decide +kernel⟩

def staleRead : List (MapEvent Bool Nat Nat) :=
  getUnderWay ++ .set false 5 20 false :: List.replicate 7 (.step false 1 1) ++
    .set false 6 30 false :: List.replicate 7 (.step false 1 0) ++ [.step true 0 0]

theorem not_returned_staleRead :
    ¬ Always (MapSystem.step oneBucket) Returned (init : MapSystem Bool Nat Nat) staleRead ∧
      (staleRead.foldl (MapSystem.step oneBucket) init).pcs true =
        MapPc.getResult 5 true (some (some 30)) ∧
      (staleRead.foldl (MapSystem.step oneBucket) (init : MapSystem Bool Nat Nat)).stored =
        [(6, 30), (5, 20), (5, 10)] := by
  have hpc : (staleRead.foldl (MapSystem.step oneBucket) init).pcs true =
      MapPc.getResult 5 true (some (some 30)) := by decide +kernel
  have hstored : (staleRead.foldl (MapSystem.step oneBucket) (init : MapSystem Bool Nat Nat)).stored
      = [(6, 30), (5, 20), (5, 10)] := by decide +kernel
  refine ⟨fun h => ?_, hpc, hstored⟩
  obtain ⟨v, hv, hmem⟩ := h.last true 5 true (some 30) hpc
  grind

end Base.MapSystem
