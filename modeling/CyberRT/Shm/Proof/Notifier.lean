import CyberRT.Lib.Ring
import CyberRT.Lib.Run
import CyberRT.Shm.ConditionNotifier

/-!
# Whole calls on a `ConditionNotifier`

After `N` notifications the infos and the sequence numbers of the last `kBufLength` of them are in
their slots (`Tracks`, by `Lib.InRing`).
-/

namespace Shm

open Lib List

variable {I : Type*} {ind : Indicator I} {log : List I}

structure Indicator.Tracks (ind : Indicator I) (log : List I) : Prop where
  next : ind.nextSeq = log.length
  infos : InRing kBufLength ind.infos log
  seqs : InRing kBufLength ind.seqs (List.range log.length)

theorem Indicator.Tracks.put (h : ind.Tracks log) (info : I) :
    (ind.put info).Tracks (log ++ [info]) := by
  refine ⟨?_, ?_, ?_⟩
  · rw [length_append, length_singleton, ← h.next]
    rfl
  · have hpush := h.infos.push info
    rwa [← h.next] at hpush
  · have hpush := h.seqs.push log.length
    rw [length_range, ← h.next] at hpush
    rw [length_append, length_singleton, range_succ, ← h.next]
    exact hpush

theorem Indicator.Tracks.puts (h : ind.Tracks log)
    (hist : List I) : (hist.foldl Indicator.put ind).Tracks (log ++ hist) := by
  induction hist generalizing ind log with
  | nil => rwa [append_nil]
  | cons info hist ih =>
    have := ih (h.put info)
    rwa [append_assoc] at this

theorem Indicator.tracks_puts [Inhabited I] (hist : List I) :
    (hist.foldl Indicator.put .fresh).Tracks hist := by
  have hfresh : (Indicator.fresh : Indicator I).Tracks [] := ⟨rfl, inRing_nil _ _, inRing_nil _ _⟩
  exact hfresh.puts hist

namespace ConditionNotifier

theorem listenLoop_eq (c : ConditionNotifier I) (hrun : c.isShutdown = false) (timeoutUs : Int) :
    c.listenLoop timeoutUs =
      match c.listenPass with
      | some (info, c') => (some info, c')
      | none => (none, c) := by
  fun_induction listenLoop c timeoutUs with
  | case1 _ h => simp [hrun] at h
  | case2 _ _ info c' hp => rw [hp]
  | case3 _ _ hp _ ih => exact ih
  | case4 _ _ hp _ => rw [hp]

end ConditionNotifier

namespace NotifierRun

variable {s : NotifierRun I}

structure Inv (s : NotifierRun I) : Prop where
  running : s.notifier.isShutdown = false
  tracks : s.notifier.indicator.Tracks s.log
  le : s.notifier.nextSeq ≤ s.log.length
  below : ∀ r ∈ s.returned, r.1 < s.notifier.nextSeq
  sorted : (s.returned.map (·.1)).Pairwise (· < ·)
  infos : ∀ r ∈ s.returned, s.log[r.1]? = some r.2

theorem inv_start [Inhabited I] (hist : List I) : Inv (start hist) where
  running := rfl
  tracks := Indicator.tracks_puts hist
  le := Nat.le_of_eq (Indicator.tracks_puts hist).next
  below := by simp [start]
  sorted := by simp [start]
  infos := by simp [start]

theorem Inv.resumes (h : Inv s) (timeoutMs : Int) : s.Resumes (s.notifier.listen timeoutMs) := by
  have hnext := h.tracks.next
  rw [ConditionNotifier.listen, ConditionNotifier.listenLoop_eq _ h.running,
    ConditionNotifier.listenPass]
  by_cases hpos : s.notifier.nextSeq = s.log.length
  · rw [if_neg (by omega)]
    exact .inl ⟨hpos, rfl⟩
  · have hlt : s.notifier.nextSeq < s.log.length := Nat.lt_of_le_of_ne h.le hpos
    -- the slot has the newest of its notifications: its sequence and its info
    have hseq := h.tracks.seqs.newest (by decide) (p := s.notifier.nextSeq) (by rwa [length_range])
    have hinfo := h.tracks.infos.newest (by decide) hlt
    have hnew := newest_lt (L := kBufLength) hlt
    rw [length_range, getElem?_range hnew, Option.some.injEq] at hseq
    rw [if_pos (by omega)]
    dsimp only
    rw [← hseq, if_pos (le_newest ..)]
    exact .inr ⟨_, _, le_newest .., hnew, newest_mod .., le_newest_add (by decide), hinfo, rfl⟩

theorem Inv.notify (h : Inv s) (info : I) : Inv (s.step (.notify info)) := by
  have hn : s.notifier.notify info =
      (true, { s.notifier with indicator := s.notifier.indicator.put info }) := by
    simp [ConditionNotifier.notify, h.running]
  simp only [step, hn]
  refine ⟨h.running, h.tracks.put info, ?_, h.below, h.sorted, fun r hr => ?_⟩
  · rw [length_append]
    exact Nat.le_add_right_of_le h.le
  · obtain ⟨hlt, -⟩ := List.getElem?_eq_some_iff.1 (h.infos r hr)
    rw [getElem?_append_left hlt]
    exact h.infos r hr

theorem Inv.listen (h : Inv s) (timeoutMs : Int) : Inv (s.step (.listen timeoutMs)) := by
  rcases h.resumes timeoutMs with ⟨-, hr⟩ | ⟨a, info, hle, hlt, -, -, hinfo, hr⟩
  · simp only [step, hr]
    exact h
  · simp only [step, hr, Nat.add_sub_cancel]
    refine ⟨h.running, h.tracks, hlt, fun r hr => ?_, ?_, fun r hr => ?_⟩
    · rcases mem_append.1 hr with hr | hr
      · have := h.below r hr
        change r.1 < a + 1
        omega
      · grind
    · rw [map_append, pairwise_append]
      refine ⟨h.sorted, by simp, fun m hm n hn => ?_⟩
      obtain ⟨r, hr, rfl⟩ := mem_map.1 hm
      have := h.below r hr
      grind
    · rcases mem_append.1 hr with hr | hr
      · exact h.infos r hr
      · grind

theorem Inv.step (h : Inv s) (op : NotifierOp I) : Inv (s.step op) := by
  cases op with
  | notify info => exact h.notify info
  | listen timeoutMs => exact h.listen timeoutMs

theorem inv_run [Inhabited I] (hist : List I) (ops : List (NotifierOp I)) :
    Inv (ops.foldl NotifierRun.step (start hist)) :=
  List.foldlRecOn ops _ (inv_start hist) fun _ hs op _ => hs.step op

def Gapless (first : Nat) (s : NotifierRun I) : Prop :=
  first ≤ s.notifier.nextSeq ∧ s.returned.map (·.1) = List.range' first (s.notifier.nextSeq - first)

theorem Gapless.step {first : Nat} (hg : Gapless first s) (h : Inv s) (op : NotifierOp I)
    (hlag : s.LagsLittle op) : Gapless first (s.step op) := by
  cases op with
  | notify info =>
    have hn : s.notifier.notify info =
        (true, { s.notifier with indicator := s.notifier.indicator.put info }) := by
      simp [ConditionNotifier.notify, h.running]
    simp only [NotifierRun.step, hn]
    exact hg
  | listen timeoutMs =>
    rcases h.resumes timeoutMs with ⟨-, hr⟩ | ⟨a, info, hle, hlt, hmod, -, -, hr⟩
    · simp only [NotifierRun.step, hr]
      exact hg
    · -- a later number of the slot would be a whole lap ahead
      have ha : a = s.notifier.nextSeq := by
        by_contra hne
        have hlag' : s.log.length ≤ s.notifier.nextSeq + kBufLength := hlag
        exact mod_ne_of_lt (L := kBufLength) (Nat.lt_of_le_of_ne hle (Ne.symm hne)) (by omega)
          hmod.symm
      obtain ⟨hfirst, hret⟩ := hg
      simp only [NotifierRun.step, hr, Nat.add_sub_cancel, ha]
      refine ⟨Nat.le_succ_of_le hfirst, ?_⟩
      rw [map_append, hret, Nat.succ_sub hfirst, range'_concat, Nat.one_mul,
        Nat.add_sub_cancel' hfirst]
      rfl

end NotifierRun

/-!
## What a listener takes from the ring, a step at a time

A slot is *settled* when no `Notify` call is between its two stores into it: then its info is that
of its sequence number, or nothing was stored in it yet and its sequence number is the 0 it started
with.
-/

open Function

namespace NotifierSys

variable {I : Type*} {s : NotifierSys I} {n : Nat} {ph : NotifyPhase}
  {calls : Nat → Option (NotifyCall I)} {info : I}

structure Ordered (s : NotifierSys I) : Prop where
  below : ∀ r ∈ s.returned, r.1 < s.nextSeq
  sorted : (s.returned.map (·.1)).Pairwise (· > ·)

theorem Ordered.step (h : Ordered s) (a : NotifierStep I) : Ordered (s.step a) := by
  cases a with
  | take info => exact ⟨h.below, h.sorted⟩
  | storeInfo n =>
    simp only [NotifierSys.step, storeInfo]
    split <;> exact ⟨h.below, h.sorted⟩
  | storeSeq n =>
    simp only [NotifierSys.step, storeSeq]
    split <;> exact ⟨h.below, h.sorted⟩
  | listen =>
    simp only [NotifierSys.step, listen]
    split
    · split <;> exact ⟨h.below, h.sorted⟩
    · split
      · rename_i hle
        exact ⟨fun r hr => Nat.lt_of_lt_of_le (h.below r hr) hle, h.sorted⟩
      · exact ⟨h.below, h.sorted⟩
    · refine ⟨fun r hr => ?_, ?_⟩
      · rcases mem_cons.1 hr with rfl | hr
        · exact Nat.lt_succ_self _
        · exact Nat.lt_succ_of_lt (h.below r hr)
      · simp only [map_cons, pairwise_cons]
        refine ⟨fun n hn => ?_, h.sorted⟩
        obtain ⟨r, hr, rfl⟩ := mem_map.1 hn
        exact h.below r hr

theorem Ordered.nodup (h : Ordered s) : (s.returned.map (·.1)).Nodup :=
  h.sorted.imp fun hgt => Nat.ne_of_gt hgt

def Settled (s : NotifierSys I) (j : Nat) : Prop :=
  ∀ n, n % kBufLength = j → s.phaseOf n ≠ some .infoStored

def SlotOk (s : NotifierSys I) (j : Nat) : Prop :=
  s.passed (s.indicator.seqs j) = some (s.indicator.infos j) ∨
    (s.indicator.seqs j = 0 ∧ (j = 0 → s.indicator.nextSeq = 0 ∨ s.phaseOf 0 = some .taken))

structure Inv (s : NotifierSys I) : Prop where
  taken : ∀ n, (s.calls n).isSome ↔ n < s.indicator.nextSeq
  stored : ∀ n info, s.calls n = some ⟨info, .infoStored⟩ →
    s.indicator.infos (n % kBufLength) = info
  settled : ∀ j, s.Settled j → s.SlotOk j
  behind : s.phase = .behind → s.nextSeq = 0 → 0 < s.indicator.nextSeq
  matched : ∀ idx, s.phase = .matched idx →
    s.passed s.nextSeq = some (s.indicator.infos idx)
  faithful : ∀ r ∈ s.returned, s.passed r.1 = some r.2

theorem inv_init [Inhabited I] : Inv (init : NotifierSys I) where
  taken n := by simp [init, Indicator.fresh]
  stored n info h := by simp [init] at h
  settled j _ := .inr ⟨rfl, fun _ => .inl rfl⟩
  behind h := by simp [init] at h
  matched idx h := by simp [init] at h
  faithful r hr := by simp [init] at hr

theorem phaseOf_eq (h : s.calls n = some ⟨info, ph⟩) : s.phaseOf n = some ph := by
  simp [phaseOf, h]

theorem of_phaseOf (h : s.phaseOf n = some ph) : ∃ info, s.calls n = some ⟨info, ph⟩ := by
  obtain ⟨⟨info, ph'⟩, hc, rfl⟩ := Option.map_eq_some_iff.1 h
  exact ⟨info, hc⟩

theorem map_info_update (h : calls n = some ⟨info, ph⟩) (next : NotifyPhase) (m : Nat) :
    (update calls n (some ⟨info, next⟩) m).map (·.info) = (calls m).map (·.info) := by
  grind

theorem isSome_update {c c' : NotifyCall I} (h : calls n = some c) (m : Nat) :
    (update calls n (some c') m).isSome = (calls m).isSome := by
  grind

theorem Inv.slotOk_of_ne (h : Inv s) {s' : NotifierSys I}
    {ph ph' : NotifyPhase} (hn : s.calls n = some ⟨info, ph⟩)
    (hcalls : s'.calls = update s.calls n (some ⟨info, ph'⟩)) {j : Nat}
    (hjn : j ≠ n % kBufLength) (hseq : s'.indicator.seqs j = s.indicator.seqs j)
    (hinfo : s'.indicator.infos j = s.indicator.infos j)
    (hnext : s'.indicator.nextSeq = s.indicator.nextSeq) (hj : s'.Settled j) : s'.SlotOk j := by
  have hphase : ∀ m, m % kBufLength = j → s'.phaseOf m = s.phaseOf m := by
    intro m hm
    have hmn : m ≠ n := by
      rintro rfl
      exact hjn hm.symm
    rw [phaseOf, hcalls, update_of_ne hmn]
    rfl
  have hj' : s.Settled j := fun m hm hp => hj m hm ((hphase m hm).trans hp)
  rw [SlotOk, passed, hcalls, map_info_update hn, hseq, hinfo, hnext]
  refine (h.settled j hj').imp_right fun ⟨h0, hfirst⟩ => ⟨h0, fun hj0 => ?_⟩
  rw [hphase 0 (by rw [hj0, Nat.zero_mod])]
  exact hfirst hj0

namespace Inv

section
variable (h : Inv s)
include h

theorem take (info : I) : Inv (s.take info) := by
  have hnone : s.calls s.indicator.nextSeq = none := by
    rw [← Option.not_isSome_iff_eq_none, h.taken]
    exact Nat.lt_irrefl _
  have hcall : ∀ m c, s.calls m = some c → (s.take info).calls m = some c := by
    intro m c hm
    have hne : m ≠ s.indicator.nextSeq := by grind
    exact (update_of_ne hne ..).trans hm
  have hpassed : ∀ m i, s.passed m = some i → (s.take info).passed m = some i := by
    intro m i hm
    obtain ⟨c, hc, rfl⟩ := Option.map_eq_some_iff.1 hm
    rw [passed, hcall m c hc]
    rfl
  have hphase : ∀ m ph, s.phaseOf m = some ph → (s.take info).phaseOf m = some ph := by
    intro m ph hm
    obtain ⟨i, hc⟩ := of_phaseOf hm
    exact phaseOf_eq (hcall m _ hc)
  have hnew : (s.take info).phaseOf s.indicator.nextSeq = some .taken := phaseOf_eq (update_self ..)
  constructor
  · intro n
    change (update s.calls s.indicator.nextSeq _ n).isSome ↔ n < s.indicator.nextSeq + 1
    by_cases hn : n = s.indicator.nextSeq
    · simp [hn]
    · rw [update_of_ne hn, h.taken]
      omega
  · intro n i hn
    by_cases hne : n = s.indicator.nextSeq
    · rw [hne] at hn
      have := hnew.symm.trans (phaseOf_eq hn)
      cases this
    · exact h.stored n i ((update_of_ne hne ..).symm.trans hn)
  · intro j hj
    have hj' : s.Settled j := fun n hn hp => hj n hn (hphase n _ hp)
    rcases h.settled j hj' with hp | ⟨h0, hfirst⟩
    · exact .inl (hpassed _ _ hp)
    · refine .inr ⟨h0, fun hj0 => .inr ?_⟩
      grind
  · intro _ _
    exact Nat.succ_pos _
  · intro idx hidx
    exact hpassed _ _ (h.matched idx hidx)
  · intro r hr
    exact hpassed _ _ (h.faithful r hr)

theorem storeInfo (n : Nat) (hok : s.ExclusiveSlot (.storeInfo n)) : Inv (s.storeInfo n) := by
  unfold NotifierSys.storeInfo
  split
  case h_2 => exact h
  rename_i info hn
  obtain ⟨hphase, hothers⟩ := hok (phaseOf_eq hn)
  have hpassed := map_info_update hn .infoStored
  constructor
  · intro m
    rw [isSome_update hn]
    exact h.taken m
  · -- no other call is between its stores into this slot
    intro m i hm
    by_cases hmn : m = n
    · grind
    · simp only [update_of_ne hmn] at hm
      have hlt : m < s.indicator.nextSeq := (h.taken m).1 (by rw [hm]; rfl)
      have hslot : m % kBufLength ≠ n % kBufLength := fun he => hothers m hlt he (phaseOf_eq hm)
      simp only [update_of_ne hslot]
      exact h.stored m i hm
  · intro j hj
    have hjn : j ≠ n % kBufLength := by
      rintro rfl
      exact hj n rfl (phaseOf_eq (update_self ..))
    exact h.slotOk_of_ne hn rfl hjn rfl (update_of_ne hjn ..) rfl hj
  · exact h.behind
  · intro idx hidx
    have hne : idx ≠ n % kBufLength := by
      rintro rfl
      exact hphase hidx
    simp only [passed, hpassed, update_of_ne hne]
    exact h.matched idx hidx
  · intro r hr
    simp only [passed, hpassed]
    exact h.faithful r hr

theorem storeSeq (n : Nat) : Inv (s.storeSeq n) := by
  unfold NotifierSys.storeSeq
  split
  case h_2 => exact h
  rename_i info hn
  have hpassed := map_info_update hn .done
  constructor
  · intro m
    rw [isSome_update hn]
    exact h.taken m
  · intro m i hm
    by_cases hmn : m = n
    · subst hmn
      simp at hm
    · simp only [update_of_ne hmn] at hm
      exact h.stored m i hm
  · intro j hj
    by_cases hjn : j = n % kBufLength
    · -- the slot is settled by this store
      subst hjn
      simp only [SlotOk, passed, update_self, h.stored n info hn]
      exact .inl rfl
    · exact h.slotOk_of_ne hn rfl hjn (update_of_ne hjn ..) rfl rfl hj
  · exact h.behind
  · intro idx hidx
    simp only [passed, hpassed]
    exact h.matched idx hidx
  · intro r hr
    simp only [passed, hpassed]
    exact h.faithful r hr

theorem passed_slot (hok : s.ExclusiveSlot .listen) (hb : s.phase = .behind)
    (hle : s.nextSeq ≤ s.indicator.seqs (s.nextSeq % kBufLength)) :
    s.passed (s.indicator.seqs (s.nextSeq % kBufLength)) =
      some (s.indicator.infos (s.nextSeq % kBufLength)) := by
  obtain ⟨htaken, hothers⟩ := hok hb hle
  by_cases hs : s.Settled (s.nextSeq % kBufLength)
  · rcases h.settled _ hs with hp | ⟨h0, hfirst⟩
    · exact hp
    · -- the slot as it started: the position is 0 and the first call has not stored its info
      have hpos : s.nextSeq = 0 := by omega
      have hslot : s.nextSeq % kBufLength = 0 := by rw [hpos, Nat.zero_mod]
      have hlt := h.behind hb hpos
      grind
  · -- a call between its stores is the one whose sequence the slot has
    simp only [Settled, not_forall, not_not] at hs
    obtain ⟨m, hm, hp⟩ := hs
    obtain ⟨info, hc⟩ := of_phaseOf hp
    have hlt : m < s.indicator.nextSeq := (h.taken m).1 (by rw [hc]; rfl)
    rw [← hothers m hlt hm hp, ← hm, h.stored m info hc, passed, hc]
    rfl

theorem listen (hok : s.ExclusiveSlot .listen) : Inv s.listen := by
  unfold NotifierSys.listen
  split
  · split
    · refine ⟨h.taken, h.stored, h.settled, fun _ hpos => ?_, nofun, h.faithful⟩
      grind
    · exact h
  · rename_i hb
    dsimp only
    split
    · rename_i hle
      refine ⟨h.taken, h.stored, h.settled, nofun, fun idx hidx => ?_, h.faithful⟩
      obtain rfl : s.nextSeq % kBufLength = idx := by simpa using hidx
      exact h.passed_slot hok hb hle
    · exact ⟨h.taken, h.stored, h.settled, nofun, nofun, h.faithful⟩
  · rename_i idx hm
    refine ⟨h.taken, h.stored, h.settled, nofun, nofun, fun r hr => ?_⟩
    rcases mem_cons.1 hr with rfl | hr
    · exact h.matched idx hm
    · exact h.faithful r hr

theorem step (a : NotifierStep I) (hok : s.ExclusiveSlot a) : Inv (s.step a) := by
  cases a with
  | take info => exact h.take info
  | storeInfo n => exact h.storeInfo n hok
  | storeSeq n => exact h.storeSeq n
  | listen => exact h.listen hok

end

end Inv

/-- **In every interleaving in which the stores into a slot and the loads from it exclude one
another, the listener returns what was passed to the calls it consumes, each once.** -/
theorem faithful_always [Inhabited I] (steps : List (NotifierStep I))
    (h : Along step ExclusiveSlot init steps) :
    Always step Faithful (init : NotifierSys I) steps := by
  have hinv : Always step (fun s => Inv s ∧ Ordered s) (init : NotifierSys I) steps :=
    h.always ⟨inv_init, by simp [init], by simp [init]⟩
      fun s a hs ha => ⟨hs.1.step a ha, hs.2.step a⟩
  exact hinv.imp fun s hs => ⟨hs.1.faithful, hs.2.nodup⟩

/-- Two calls, whose stores end in the other order, and a listener between their steps. -/
theorem faithful_always_two : Always step Faithful (init : NotifierSys Nat)
    [.take 5, .take 6, .storeInfo 1, .listen, .storeInfo 0, .listen, .storeSeq 1, .listen,
      .storeSeq 0, .listen, .listen, .listen] :=
  faithful_always _ (by decide +kernel)

/-- The first call has taken number 0 and stored nothing, and the listener returns the info that
the indicator started with. -/
theorem not_faithful_first : ¬ Always step Faithful (init : NotifierSys Nat)
    [.take 5, .listen, .listen, .listen] := by
  decide +kernel

end NotifierSys

end Shm
