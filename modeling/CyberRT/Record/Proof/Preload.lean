import CyberRT.Record.Proof.ViewerMessages
import CyberRT.Record.Proof.PlayTasks

/-!
# Preloading

`FillPlayTaskBuffer` either stops in front of a message, where it keeps its iterator, or comes to
the end and keeps nothing, so that the iterator in the viewer is still the one at the first message
(`fillPlayTaskBuffer_spec`).
-/

namespace Record

open Lib List Option RecordViewer

variable {v : RecordViewer} {itr : Option SingleMessage} {base : List SingleMessage} {fuel :
  Nat}

namespace PlayTaskProducer

variable {p : PlayTaskProducer} {s t : Player} {m : SingleMessage} {l ms : List SingleMessage}
  {start : Option SingleMessage × RecordViewer}

variable (p) in
def Advances (v : RecordViewer) (itr : Option SingleMessage) (t : RecordViewer) : Prop :=
  v.update p.fuel = some (itr, t)

theorem Advances.unique {i i' : Option SingleMessage} {t t' : RecordViewer}
    (h : p.Advances v i t) (h' : p.Advances v i' t') : i = i' ∧ t = t' :=
  Next.unique ⟨_, h⟩ ⟨_, h'⟩

theorem iterates_of_passes (hstart : p.viewer.beginIterator p.fuel = some start)
    (h : Passes p.Advances start l (itr, v)) : p.viewer.Iterates l itr :=
  ⟨_, start, v, hstart, h.mono fun _ _ _ hn => ⟨_, hn⟩⟩

structure Filling (p : PlayTaskProducer) (start : Option SingleMessage × RecordViewer)
    (l : List SingleMessage) (itr : Option SingleMessage) (s : Player) : Prop where
  passes : Passes p.Advances start l (itr, s.viewer)
  pushed : s.pushed.map PlayTask.message = p.playable l
  buffered : s.taskBuffer.length = s.pushed.length
  top : s.producer = .top
  first : s.currItr = start.1
  last : itr = none → l ≠ [] → p.Advances s.viewer none s.viewer
  room : (p.playable l.dropLast).length ≤ p.preloadSize

theorem Filling.length_taskBuffer (h : Filling p start l itr s) :
    s.taskBuffer.length = (p.playable l).length := by
  rw [h.buffered, ← h.pushed, length_map]

theorem Filling.advance
    (h : Filling p start l (some m) s) (hroom : ¬ p.preloadSize < s.taskBuffer.length)
    (hv : s.viewer.update p.fuel = some (itr, v)) :
    Filling p start (l ++ [m]) itr { p.pushMessage s m with viewer := v } where
  passes := h.passes.snoc hv
  pushed := by
    rw [playable_append, ← h.pushed]
    exact messages_pushMessage p s m
  buffered := length_pushMessage p s m h.buffered
  top := (producer_pushMessage p s m).trans h.top
  first := (currItr_pushMessage p s m).trans h.first
  last hnone _ := by
    subst hnone
    exact update_last hv
  room := by
    rw [dropLast_concat, ← h.length_taskBuffer]
    exact Nat.le_of_not_lt hroom

inductive Filled (p : PlayTaskProducer) (start : Option SingleMessage × RecordViewer) (s : Player) :
    Prop
  | ended {l : List SingleMessage} (h : Filling p start l none s)
  | full {l : List SingleMessage} {m : SingleMessage}
      (passes : Passes p.Advances start l (some m, s.viewer))
      (pushed : s.pushed.map PlayTask.message = p.playable l) (top : s.producer = .top)
      (kept : s.currItr = some m) (room : p.preloadSize < (p.playable l).length)

theorem fillLoop_spec (h : Filling p start l itr s)
    (ht : p.fillLoop fuel s itr = some t) : Filled p start t := by
  induction fuel generalizing l itr s with
  | zero => cases ht
  | succ fuel ih =>
    cases itr with
    | none =>
      cases ht
      exact .ended h
    | some m =>
      rw [fillLoop] at ht
      split at ht
      · rename_i hfull
        cases ht
        exact .full h.passes h.pushed h.top rfl (by rw [← h.length_taskBuffer]; exact hfull)
      · rename_i hroom
        obtain ⟨⟨itr, v⟩, hv, hrest⟩ := bind_eq_some_iff.1 ht
        rw [viewer_pushMessage] at hv
        exact ih (h.advance hroom hv) hrest

theorem fillLoop_returns
    (h : Passes p.Advances (itr, s.viewer) l (none, v)) (hfuel : l.length < fuel) :
    ∃ t, p.fillLoop fuel s itr = some t := by
  induction fuel generalizing l itr s with
  | zero => exact absurd hfuel (Nat.not_lt_zero _)
  | succ fuel ih =>
    cases itr with
    | none => exact ⟨s, rfl⟩
    | some m =>
      rw [fillLoop]
      split
      · exact ⟨_, rfl⟩
      · obtain ⟨itr, v', l', rfl, hv, hrest⟩ := h.cons_inv
        dsimp only
        rw [viewer_pushMessage, hv]
        exact ih (s := { p.pushMessage s m with viewer := v' }) hrest (Nat.lt_of_succ_lt_succ hfuel)

theorem length_lt_of_iterate (h : v.iterate fuel = some ms) : ms.length < fuel := by
  induction fuel generalizing v ms with
  | zero => cases h
  | succ fuel ih =>
    obtain ⟨⟨itr, u⟩, -, hrest⟩ := bind_eq_some_iff.1 h
    cases itr with
    | none =>
      cases hrest
      exact Nat.succ_pos _
    | some m =>
      obtain ⟨l, hl, rfl⟩ := map_eq_some_iff.1 hrest
      exact Nat.succ_lt_succ (ih hl)

theorem fillPlayTaskBuffer_spec (h : p.fillPlayTaskBuffer = some s) :
    ∃ start, p.viewer.beginIterator p.fuel = some start ∧ Filled p start s := by
  obtain ⟨⟨itr, v⟩, hstart, hloop⟩ := bind_eq_some_iff.1 h
  have hfilling : Filling p (itr, v) [] itr { p.init with viewer := v, currItr := itr } :=
    ⟨.refl _, rfl, rfl, rfl, rfl, fun _ hne => absurd rfl hne, Nat.zero_le _⟩
  exact ⟨(itr, v), hstart, fillLoop_spec hfilling hloop⟩

theorem fillPlayTaskBuffer_returns (h : p.viewer.messages p.fuel = some ms) :
    ∃ s, p.fillPlayTaskBuffer = some s := by
  obtain ⟨⟨itr, v⟩, t, hstart, hpass⟩ := passes_of_messages h
  have hlen : ms.length < p.fuel + 1 := by
    unfold messages at h
    dsimp only at h
    split at h
    · exact Nat.lt_succ_of_lt (length_lt_of_iterate h)
    · cases h
      exact Nat.succ_pos _
  rw [fillPlayTaskBuffer, hstart]
  exact fillLoop_returns (s := { p.init with viewer := v, currItr := itr }) hpass hlen

def position (s : Player) : Option SingleMessage × RecordViewer :=
  match s.producer with
  | .top => (s.currItr, s.viewer)
  | .next itr | .fill itr => (itr, s.viewer)
  | .wait m | .push m => (some m, s.viewer)
  | .advance | .stopped => (none, s.viewer)

/-- From `start` on the iterator has passed some messages, and a task was pushed for each of them
that has a writer; those for `base` were pushed before. -/
def Follows (p : PlayTaskProducer) (start : Option SingleMessage × RecordViewer)
    (base : List SingleMessage) (s : Player) : Prop :=
  match s.producer with
  | .advance => ∃ l m, Passes p.Advances start l (some m, s.viewer) ∧
      s.pushed.map PlayTask.message = p.playable (base ++ (l ++ [m]))
  | _ => ∃ l, Passes p.Advances start l (position s) ∧
      s.pushed.map PlayTask.message = p.playable (base ++ l)

attribute [local simp] position Follows

theorem position_congr (hk : KeepsProducer s t) : position t = position s := by
  unfold position
  rw [hk.producer, hk.viewer, hk.currItr]

theorem follows_congr (hk : KeepsProducer s t) :
    Follows p start base t ↔ Follows p start base s := by
  unfold Follows
  rw [hk.producer, hk.viewer, hk.pushed, position_congr hk]

theorem follows_produce (hmode : p.preloadFillBufferMode = true)
    (h : Follows p start base s) : Follows p start base (p.produce s) := by
  unfold produce
  cases hpc : s.producer with
  | top => simpa [hpc, hmode] using h
  | next itr =>
    cases itr with
    | none => simpa [hpc, hmode] using h
    | some m => simpa [hpc] using h
  | wait m =>
    dsimp only
    split
    · exact h
    · simpa [hpc] using h
  | fill itr =>
    cases itr with
    | none => simpa [hpc] using h
    | some m =>
      dsimp only
      split
      · simpa [hpc] using h
      · simpa [hpc] using h
  | push m =>
    simp only [Follows, position, hpc] at h
    obtain ⟨l, hpass, hpushed⟩ := h
    refine ⟨l, m, ?_, ?_⟩
    · simpa using hpass
    · rw [← append_assoc, playable_append, ← hpushed]
      exact messages_pushMessage p s m
  | advance =>
    simp only [Follows, hpc] at h
    obtain ⟨l, m, hpass, hpushed⟩ := h
    dsimp only
    split
    · simp only [Follows, hpc]
      exact ⟨l, m, hpass, hpushed⟩
    · rename_i itr v hv
      exact ⟨l ++ [m], hpass.snoc hv, hpushed⟩
  | stopped => exact h

theorem follows_run (hmode : p.preloadFillBufferMode = true)
    (h : Follows p start base s) (events : List PlayEvent) :
    Follows p start base (p.run s events) := by
  induction events generalizing s with
  | nil => exact h
  | cons event events ih =>
    refine ih ?_
    cases event with
    | produce => exact follows_produce hmode h
    | consume => exact (follows_congr s.keepsProducer_consume).2 h

theorem follows_top (htop : s.producer = .top)
    (hpass : Passes p.Advances start l (s.currItr, s.viewer))
    (hpushed : s.pushed.map PlayTask.message = p.playable (base ++ l)) :
    Follows p start base s := by
  simp only [Follows, position, htop]
  exact ⟨l, hpass, hpushed⟩

def Rest (p : PlayTaskProducer) (s : Player) (l : List SingleMessage) : Prop :=
  ∃ v, match s.producer with
  | .advance => ∃ m, Passes p.Advances (some m, s.viewer) (m :: l) (none, v)
  | .stopped => True
  | _ => Passes p.Advances (position s) l (none, v)

def stepsLeft (s : Player) (l : List SingleMessage) : Nat :=
  match s.producer with
  | .top => 5 * l.length + 4
  | .next none => 0
  | .next (some _) => 5 * l.length + 3
  | .wait _ => 5 * l.length + 2
  | .fill _ => 5 * l.length + 1
  | .push _ => 5 * l.length
  | .advance => 5 * l.length + 2
  | .stopped => 0

attribute [local simp] stepsLeft

theorem Follows.rest (h : Follows p start base s)
    (hms : Passes p.Advances start ms (none, v)) : ∃ l, Rest p s l := by
  unfold Follows at h
  split at h
  · rename_i hpc
    obtain ⟨l, m, hpass, -⟩ := h
    obtain ⟨r, -, hr⟩ := hpass.left hms fun _ _ _ _ _ => Advances.unique
    obtain ⟨itr, v', l', rfl, -, -⟩ := hr.cons_inv
    refine ⟨l', v, ?_⟩
    rw [hpc]
    exact ⟨m, hr⟩
  · obtain ⟨l, hpass, -⟩ := h
    obtain ⟨r, -, hr⟩ := hpass.left hms fun _ _ _ _ _ => Advances.unique
    refine ⟨r, v, ?_⟩
    grind

theorem rest_congr (hk : KeepsProducer s t) : Rest p t l ↔ Rest p s l := by
  unfold Rest
  rw [hk.producer, hk.viewer, position_congr hk]

section
variable (hmode : p.preloadFillBufferMode = true)
include hmode

theorem rest_produce (hempty : s.taskBuffer = [])
    (hrest : Rest p s l) (hrun : s.producer ≠ .stopped) :
    (p.produce s).producer = .stopped ∨
      ∃ l', Rest p (p.produce s) l' ∧ stepsLeft (p.produce s) l' < stepsLeft s l := by
  have hroom : ¬ p.preloadSize < s.taskBuffer.length := by
    rw [hempty]
    exact Nat.not_lt_zero _
  obtain ⟨v, hrest⟩ := hrest
  unfold produce
  cases hpc : s.producer with
  | top =>
    simp only [position, hpc] at hrest
    refine .inr ⟨l, ⟨v, ?_⟩, ?_⟩
    · simpa [hmode] using hrest
    · simp only [hmode, if_true, stepsLeft, hpc]
      cases s.currItr <;> simp
  | next itr =>
    simp only [position, hpc] at hrest
    cases itr with
    | none => exact .inl (by simp [hmode])
    | some m => exact .inr ⟨l, ⟨v, hrest⟩, by simp [hpc]⟩
  | wait m =>
    simp only [position, hpc] at hrest
    dsimp only
    rw [if_neg hroom]
    exact .inr ⟨l, ⟨v, hrest⟩, by simp [hpc]⟩
  | fill itr =>
    simp only [position, hpc] at hrest
    cases itr with
    | none => exact .inr ⟨l, ⟨v, hrest⟩, by simp [hpc]⟩
    | some m =>
      dsimp only
      rw [if_neg hroom]
      exact .inr ⟨l, ⟨v, hrest⟩, by simp [hpc]⟩
  | push m =>
    simp only [position, hpc] at hrest
    obtain ⟨itr, v', l', rfl, -, -⟩ := hrest.cons_inv
    refine .inr ⟨l', ⟨v, m, ?_⟩, ?_⟩
    · simpa using hrest
    · simp only [stepsLeft, hpc, length_cons]
      omega
  | advance =>
    simp only [hpc] at hrest
    obtain ⟨m, hpass⟩ := hrest
    obtain ⟨itr, v', l', heq, hv, hpass'⟩ := hpass.cons_inv
    obtain ⟨-, rfl⟩ := List.cons.inj heq
    rw [hv]
    exact .inr ⟨l, ⟨v, hpass'⟩, by simp [hpc]⟩
  | stopped => exact absurd hpc hrun

theorem exists_stopped (n : Nat) (s : Player)
    (l : List SingleMessage) (hrest : Rest p s l) (hn : stepsLeft s l ≤ n) :
    ∃ more, (p.run s more).producer = .stopped := by
  induction n using Nat.strong_induction_on generalizing s l with
  | _ n ih =>
    obtain ⟨k, hempty, -⟩ := s.drain
    have hk := s.keepsProducer_iterate k
    by_cases hrun : s.producer = .stopped
    · exact ⟨[], hrun⟩
    · have hsteps : stepsLeft (Player.consume^[k] s) l = stepsLeft s l := by
        unfold stepsLeft
        rw [hk.producer]
      have hrun' : (Player.consume^[k] s).producer ≠ .stopped := by
        rw [hk.producer]
        exact hrun
      rcases rest_produce hmode hempty ((rest_congr hk).2 hrest) hrun' with
        hstop | ⟨l', hrest', hlt⟩
      · refine ⟨List.replicate k .consume ++ [.produce], ?_⟩
        rw [run_append, run_consume]
        exact hstop
      · rw [hsteps] at hlt
        obtain ⟨more, hmore⟩ := ih _ (Nat.lt_of_lt_of_le hlt hn) _ l' hrest' (Nat.le_refl _)
        refine ⟨List.replicate k .consume ++ .produce :: more, ?_⟩
        rw [run_append, run_consume]
        exact hmore

omit hmode in
theorem pushedInOrder_of_follows (hstart : p.viewer.beginIterator p.fuel = some start)
    (h : Follows p start [] s) : p.PushedInOrder s := by
  unfold Follows at h
  split at h
  · rename_i hpc
    obtain ⟨l, m, hpass, hpushed⟩ := h
    refine ⟨l, some m, iterates_of_passes hstart hpass, fun hstop => ?_, .inr ⟨m, rfl, hpushed⟩⟩
    rw [hpc] at hstop
    cases hstop
  · obtain ⟨l, hpass, hpushed⟩ := h
    refine ⟨l, (position s).1, iterates_of_passes hstart hpass, fun hstop => ?_, .inl hpushed⟩
    rw [position, hstop]

omit hmode in
theorem passes_last {q : Option SingleMessage × RecordViewer}
    (hlast : p.Advances v none v) (h : Passes p.Advances (some m, v) l q) :
    l = [] ∧ q = (some m, v) ∨ l = [m] ∧ q = (none, v) := by
  cases h with
  | refl => exact .inl ⟨rfl, rfl⟩
  | step hv hrest =>
    obtain ⟨rfl, rfl⟩ := hlast.unique hv
    obtain ⟨rfl, rfl⟩ := hrest.eq_nil
    exact .inr ⟨rfl, rfl⟩

omit hmode in
theorem pushedInOrder_of_follows_again (hms : p.viewer.Iterates ms none)
    (hlast : p.Advances v none v) (hw : m.channelName ∉ p.writers)
    (h : Follows p (some m, v) ms s) : p.PushedInOrder s := by
  have hm : p.playable [m] = [] := by simp [playable, hw]
  refine ⟨ms, none, hms, fun _ => rfl, .inl ?_⟩
  unfold Follows at h
  split at h
  · obtain ⟨l, m', hpass, hpushed⟩ := h
    rcases passes_last hlast hpass with ⟨rfl, hq⟩ | ⟨-, hq⟩
    · obtain ⟨hm', -⟩ := Prod.mk.inj hq
      cases hm'
      rw [hpushed, playable_append, nil_append, hm, append_nil]
    · cases hq
  · obtain ⟨l, hpass, hpushed⟩ := h
    rcases passes_last hlast hpass with ⟨rfl, -⟩ | ⟨rfl, -⟩
    · rw [hpushed, append_nil]
    · rw [hpushed, playable_append, hm, append_nil]

omit hmode in
theorem Filled.follows (h : Filled p start s) :
    Follows p start [] s ∨ ∃ l m, Filling p start l none s ∧ l.head? = some m ∧
      p.Advances s.viewer none s.viewer ∧ Follows p (some m, s.viewer) l s := by
  cases h with
  | full passes pushed top kept room =>
    exact .inl (follows_top top (by rw [kept]; exact passes) pushed)
  | @ended l h =>
    obtain ⟨itr, v⟩ := start
    cases itr with
    | none =>
      obtain ⟨rfl, hq⟩ := h.passes.eq_nil
      have hv : s.viewer = v := (Prod.mk.inj hq).2
      exact .inl (follows_top h.top (by rw [h.first, hv]; exact .refl _) h.pushed)
    | some m =>
      obtain ⟨itr', v', l', rfl, hv, hrest⟩ := h.passes.cons_inv
      refine .inr ⟨m :: l', m, h, rfl, h.last rfl (by simp), ?_⟩
      refine follows_top h.top (l := []) (by rw [h.first]; exact .refl _) ?_
      rw [append_nil]
      exact h.pushed

theorem inOrder_of_leavesOver
    (hfuel : ∀ n ms, p.viewer.messages n = some ms → p.viewer.messages p.fuel = some ms)
    (h : p.LeavesOver) (hs : p.fillPlayTaskBuffer = some s) (events : List PlayEvent) :
    p.PushedInOrder (p.run s events) := by
  obtain ⟨start, hstart, hfilled⟩ := fillPlayTaskBuffer_spec hs
  rcases hfilled.follows with hfollows | ⟨l, m, hfilling, hhead, hlast, hfollows⟩
  · exact pushedInOrder_of_follows hstart (follows_run hmode hfollows events)
  · have hl := iterates_of_passes hstart hfilling.passes
    obtain ⟨n, hn⟩ := messages_iff.2 hl
    refine pushedInOrder_of_follows_again hl hlast (fun hw => ?_)
      (follows_run hmode hfollows events)
    exact absurd (h l m (hfuel n l hn) hhead hw) (Nat.not_lt.2 hfilling.room)

theorem exists_completed
    (hms : p.viewer.messages p.fuel = some ms) (hs : p.fillPlayTaskBuffer = some s)
    (events : List PlayEvent) : ∃ more, (p.run s (events ++ more)).producer = .stopped := by
  obtain ⟨start, hstart, hfilled⟩ := fillPlayTaskBuffer_spec hs
  have hrest : ∃ l, Rest p (p.run s events) l := by
    rcases hfilled.follows with hfollows | ⟨l, m, -, -, hlast, hfollows⟩
    · obtain ⟨start', t, hstart', hpass⟩ := passes_of_messages hms
      obtain rfl : start = start' := Option.some.inj (hstart.symm.trans hstart')
      exact (follows_run hmode hfollows events).rest hpass
    · exact (follows_run hmode hfollows events).rest (.step hlast (.refl _))
  obtain ⟨l, hrest⟩ := hrest
  obtain ⟨more, hmore⟩ := exists_stopped hmode _ _ l hrest (Nat.le_refl _)
  exact ⟨more, by rw [run_append]; exact hmore⟩

omit hmode in
theorem PushedInOrder.length_le (h : p.PushedInOrder s) (hms : p.viewer.Iterates ms none) :
    s.pushed.length ≤ (p.playable ms).length := by
  obtain ⟨l, itr, hl, -, hpushed⟩ := h
  obtain ⟨r, rfl, hr⟩ := hl.left hms
  have hlen : (s.pushed.map PlayTask.message).length = s.pushed.length := length_map _
  rw [← hlen]
  rcases hpushed with hpushed | ⟨m, hm, hpushed⟩
  · rw [hpushed, playable_append, length_append]
    exact Nat.le_add_right _ _
  · obtain ⟨r', rfl⟩ := hr m hm
    rw [hpushed, append_cons l m r', playable_append _ (l ++ [m]) r', length_append]
    exact Nat.le_add_right _ _

theorem exists_pushed_again (htop : s.producer = .top)
    (hitr : s.currItr = some m) (hw : m.channelName ∈ p.writers) :
    ∃ events, (p.run s events).pushed.length = s.pushed.length + 1 := by
  obtain ⟨k, hempty, -⟩ := s.drain
  obtain ⟨hproducer, -, hcurr, -, hpushed⟩ := s.keepsProducer_iterate k
  rw [htop] at hproducer
  rw [hitr] at hcurr
  refine ⟨List.replicate k .consume ++ List.replicate 5 .produce, ?_⟩
  rw [run_append, run_consume, ← hpushed]
  simp [run, step, produce, List.replicate, hmode, hproducer, hcurr, hempty, pushMessage, hw]

theorem leavesOver_of_pushesOnce (h : p.PushesOnce) : p.LeavesOver := by
  intro ms m hms hhead hw
  have hiter := messages_iff.1 ⟨_, hms⟩
  obtain ⟨s, hs⟩ := h.returns ms hms
  obtain ⟨start, hstart, hfilled⟩ := fillPlayTaskBuffer_spec hs
  cases hfilled with
  | full passes pushed top kept room =>
    obtain ⟨r, rfl, hr⟩ := (iterates_of_passes hstart passes).left hiter
    obtain ⟨r', rfl⟩ := hr _ rfl
    rw [dropLast_append_of_ne_nil (cons_ne_nil _ _), playable_append, length_append]
    omega
  | ended hfilling =>
    obtain rfl := (iterates_of_passes hstart hfilling.passes).unique hiter
    have hfirst : s.currItr = some m := by
      rw [hfilling.first]
      obtain ⟨itr, v⟩ := start
      cases itr with
      | none =>
        obtain ⟨rfl, -⟩ := hfilling.passes.eq_nil
        cases hhead
      | some m' =>
        obtain ⟨-, -, l', rfl, -, -⟩ := hfilling.passes.cons_inv
        exact hhead
    obtain ⟨events, hlen⟩ := exists_pushed_again hmode hfilling.top hfirst hw
    have hle := (h.inOrder s hs events).length_le hiter
    rw [hlen, ← hfilling.pushed, length_map] at hle
    exact absurd hle (Nat.not_succ_le_self _)

end

end PlayTaskProducer

/-- **Preloading pushes each message once exactly when it leaves some over**: when the messages do
not all go into the buffer at once, or there is no message or no writer for the first one. -/
theorem PlayTaskProducer.pushesOnce_iff_leavesOver (p : PlayTaskProducer)
    (hmode : p.preloadFillBufferMode = true)
    (hfuel : ∀ n ms, p.viewer.messages n = some ms → p.viewer.messages p.fuel = some ms) :
    p.PushesOnce ↔ p.LeavesOver := by
  refine ⟨leavesOver_of_pushesOnce hmode, fun h => ⟨?_, ?_, ?_⟩⟩
  · exact fun ms hms => fillPlayTaskBuffer_returns hms
  · exact fun s hs events => inOrder_of_leavesOver hmode hfuel h hs events
  · exact fun ms hms s hs events => exists_completed hmode hms hs events

def secondOnly : PlayTaskProducer :=
  ⟨[⟨defaultHeader, [.message ⟨"/test/channel1", 1000000000, []⟩ false,
    .message ⟨"/test/channel2", 3000000000, []⟩ false]⟩], 1000000000, 3000000000, [], false,
    ["/test/channel2"], true, 0, 10⟩

theorem pushesOnce_secondOnly : secondOnly.PushesOnce := by
  have hms : secondOnly.viewer.messages secondOnly.fuel = some
      [⟨"/test/channel1", 1000000000, []⟩, ⟨"/test/channel2", 3000000000, []⟩] := by
    decide +kernel
  refine (PlayTaskProducer.pushesOnce_iff_leavesOver secondOnly rfl fun n ms hn => ?_).2
    fun ms m hms' hhead hw => ?_
  · rw [hms, RecordViewer.Iterates.unique (RecordViewer.messages_iff.1 ⟨_, hms⟩)
      (RecordViewer.messages_iff.1 ⟨n, hn⟩)]
  · cases hms'
    cases hhead
    exact absurd hw (by decide)

def twoMessages : PlayTaskProducer :=
  ⟨[recordingAt [1000000000, 3000000000]], 1000000000, 3000000000, [], false, ["/test/channel1"],
    true, 0, 10⟩

/-- Both are in the buffer at once, and the thread begins with the first one again. -/
theorem not_pushesOnce_twoMessages :
    (twoMessages.fillPlayTaskBuffer.map fun s =>
      (twoMessages.run s (List.replicate 5 .produce)).pushed.map (·.message.time)) =
        some [1000000000, 3000000000, 1000000000] ∧ ¬ twoMessages.PushesOnce := by
  refine ⟨by decide +kernel, fun h => ?_⟩
  have hleaves := PlayTaskProducer.leavesOver_of_pushesOnce rfl h
    [⟨"/test/channel1", 1000000000, []⟩, ⟨"/test/channel1", 3000000000, []⟩] _ (by decide +kernel)
    rfl (by decide)
  exact absurd hleaves (by decide)

end Record
