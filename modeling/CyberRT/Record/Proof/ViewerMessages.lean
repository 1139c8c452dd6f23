import CyberRT.Record.Proof.Reading
import CyberRT.Record.Player

/-!
# What an iteration gives

An iteration gives what is pending of the selected channels, in the order of time (`iterate_spec`),
and it ends (`iterate_ends`).
-/

namespace Record

open Lib List Option RecordReader UInt64 RecordViewer Nat

variable {fuel : Nat} {r : Option SingleMessage} {t : RecordViewer} {l : List SingleMessage}

namespace RecordViewer

section
variable {v : RecordViewer} {m : SingleMessage}

theorem le_time_of_mem_readIn {r : RecordReader × Bool}
    (h : m ∈ readIn v.windows r) : v.currBeginTime ≤ m.time := by
  obtain ⟨w, hw, hlo, -⟩ := scan_mem h
  have hcurr := (mem_windowsFrom (mem_filter.1 hw).1).1
  exact le_iff_toNat_le.2 (le_trans hcurr hlo)

theorem Inv.takeFirst (h : Inv v) {rest : List SingleMessage} (hb : v.msgBuffer = m :: rest) :
    Inv { v with msgBuffer := rest } ∧ v.pending = m :: pending { v with msgBuffer := rest } ∧
      ∀ x ∈ pending { v with msgBuffer := rest }, m.time ≤ x.time := by
  have hsorted := h.sorted
  have hearlier := h.earlier
  rw [hb] at hsorted hearlier
  obtain ⟨hhead, htail⟩ := pairwise_cons.1 hsorted
  refine ⟨⟨h.last, h.readers, htail, fun x hx => hearlier x (mem_cons_of_mem m hx)⟩, ?_, ?_⟩
  · rw [pending, hb]
    rfl
  · intro x hx
    rcases mem_append.1 hx with hx | hx
    · exact hhead x hx
    · obtain ⟨r, -, hx⟩ := mem_flatMap.1 hx
      exact UInt64.le_trans (UInt64.le_of_lt (hearlier m mem_cons_self)) (le_time_of_mem_readIn hx)

structure Updates (v : RecordViewer) (r : Option SingleMessage) (t : RecordViewer) : Prop where
  inv : Inv t
  channels : t.channels = v.channels
  windows_le : t.windows.length ≤ v.windows.length
  none : r = none → v.pending.filter v.selected = []
  some : ∀ m, r = some m → (v.pending.filter v.selected).Perm (m :: t.pending.filter t.selected) ∧
    (∀ x ∈ t.pending, m.time ≤ x.time) ∧ t.pending.length < v.pending.length

theorem selected_congr (h : t.channels = v.channels) : t.selected = v.selected := by
  funext m
  rw [selected, selected, h]

theorem Updates.of_fills {u t : RecordViewer} (h : Updates u r t)
    (hf : Fills v u) : Updates v r t where
  inv := h.inv
  channels := h.channels.trans hf.channels
  windows_le := le_trans h.windows_le hf.windows_le
  none hr := by
    have hnil := h.none hr
    rw [selected_congr hf.channels] at hnil
    exact ((hf.pending.filter _).symm.trans (by rw [hnil])).eq_nil
  some m hr := by
    obtain ⟨hperm, hle, hlt⟩ := h.some m hr
    rw [selected_congr hf.channels] at hperm
    exact ⟨(hf.pending.filter _).symm.trans hperm, hle, by rw [← hf.pending.length_eq]; exact hlt⟩

theorem refill_spec (h : Inv v) (hf : v.refill fuel = some t) :
    Fills v t ∧ (t.msgBuffer = [] → t.pending = []) := by
  unfold refill at hf
  split at hf
  · exact fillBuffer_spec h hf
  · cases hf
    refine ⟨⟨h, .refl _, rfl, le_refl _⟩, fun hnil => ?_⟩
    grind

theorem update_spec (h : Inv v) (hu : v.update fuel = some (r, t)) : Updates v r t := by
  induction fuel generalizing v with
  | zero => cases hu
  | succ fuel ih =>
    obtain ⟨u, hfill, hrest⟩ := bind_eq_some_iff.1 hu
    obtain ⟨hfills, hempty⟩ := refill_spec h hfill
    refine Updates.of_fills ?_ hfills
    split at hrest
    · rename_i hnil
      cases hrest
      refine ⟨hfills.inv, rfl, le_refl _, fun _ => ?_, by simp⟩
      rw [hempty hnil]
      rfl
    · rename_i m rest hb
      obtain ⟨hinv, hpending, hle⟩ := hfills.inv.takeFirst hb
      split at hrest
      · rename_i hsel
        cases hrest
        refine ⟨hinv, rfl, le_refl _, by simp, ?_⟩
        rintro x ⟨⟩
        rw [hpending, filter_cons_of_pos hsel, length_cons]
        exact ⟨.refl _, hle, lt_succ_self _⟩
      · rename_i hsel
        have hupd := ih hinv hrest
        have hfilter : u.pending.filter u.selected =
            (pending { u with msgBuffer := rest }).filter u.selected := by
          rw [hpending, filter_cons_of_neg hsel]
        refine ⟨hupd.inv, hupd.channels, hupd.windows_le, ?_, fun x hx => ?_⟩
        · rw [hfilter]
          exact hupd.none
        · obtain ⟨hperm, hle', hlt⟩ := hupd.some x hx
          rw [hfilter, hpending, length_cons]
          exact ⟨hperm, hle', lt_succ_of_lt hlt⟩

def size (v : RecordViewer) : Nat := v.windows.length + v.pending.length

theorem update_ends (h : Inv v) (hf : v.size + 1 < fuel) : ∃ r t, v.update fuel = some (r, t) := by
  induction fuel generalizing v with
  | zero => exact absurd hf (not_lt_zero _)
  | succ fuel ih =>
    have hrefill : ∃ u, v.refill fuel = some u := by
      unfold refill
      split
      · refine fillBuffer_ends h ?_
        rw [size] at hf
        omega
      · exact ⟨v, rfl⟩
    obtain ⟨u, hu⟩ := hrefill
    obtain ⟨hfills, -⟩ := refill_spec h hu
    rw [update, hu, bind_some]
    split
    · exact ⟨_, _, rfl⟩
    · rename_i m rest hb
      split
      · exact ⟨_, _, rfl⟩
      · obtain ⟨hinv, hpending, -⟩ := hfills.inv.takeFirst hb
        refine ih hinv ?_
        have hlen := hfills.pending.length_eq
        have hwin := hfills.windows_le
        have hsame : windows { u with msgBuffer := rest } = u.windows := rfl
        rw [hpending, length_cons] at hlen
        rw [size] at hf ⊢
        rw [hsame]
        omega

theorem iterate_spec (h : Inv v)
    (hi : v.iterate fuel = some l) : l.Perm (v.pending.filter v.selected) ∧ Sorted l := by
  induction fuel generalizing v l with
  | zero => cases hi
  | succ fuel ih =>
    obtain ⟨⟨r, t⟩, hu, hrest⟩ := bind_eq_some_iff.1 hi
    have hupd := update_spec h hu
    cases r with
    | none =>
      cases hrest
      rw [hupd.none rfl]
      exact ⟨.refl _, .nil⟩
    | some m =>
      obtain ⟨hperm, hle, -⟩ := hupd.some m rfl
      obtain ⟨l', hl', rfl⟩ := map_eq_some_iff.1 hrest
      obtain ⟨hperm', hsorted⟩ := ih hupd.inv hl'
      refine ⟨(hperm'.cons m).trans hperm.symm, pairwise_cons.2 ⟨fun x hx => ?_, hsorted⟩⟩
      exact hle x (mem_of_mem_filter (hperm'.subset hx))

theorem iterate_ends (h : Inv v) (hf : v.size + 2 < fuel) : ∃ l, v.iterate fuel = some l := by
  induction fuel generalizing v with
  | zero => exact absurd hf (not_lt_zero _)
  | succ fuel ih =>
    obtain ⟨r, t, hu⟩ : ∃ r t, v.update fuel = some (r, t) := update_ends h (by omega)
    rw [iterate, hu]
    cases r with
    | none => exact ⟨[], rfl⟩
    | some m =>
      have hupd := update_spec h hu
      obtain ⟨-, -, hlt⟩ := hupd.some m rfl
      have hwin := hupd.windows_le
      obtain ⟨l, hl⟩ := ih hupd.inv (by rw [size] at hf ⊢; omega)
      exact ⟨m :: l, by simp [hl]⟩

end

theorem messages_spec {v : RecordViewer} (h : Inv v.reset) (hm : v.messages fuel = some l) :
    l.Perm (v.reset.pending.filter v.reset.selected) ∧ Sorted l := by
  unfold messages at hm
  dsimp only at hm
  split at hm
  · exact iterate_spec h hm
  · rename_i hinvalid
    cases hm
    have hlt : v.endTime < v.beginTime := by simpa [isValid, reset] using hinvalid
    have hnil : v.reset.pending = [] := by
      have hwin : v.reset.windows = [] := windowsFrom_eq_nil (lt_iff_toNat_lt.1 hlt)
      rw [pending, hwin]
      exact flatMap_eq_nil_iff.2 fun r _ => scan_nil _
    rw [hnil]
    exact ⟨.refl _, .nil⟩

theorem messages_end {v : RecordViewer} (h : Inv v.reset) : ∃ fuel l, v.messages fuel = some l := by
  unfold messages
  dsimp only
  split
  · exact ⟨v.reset.size + 3, iterate_ends h (lt_succ_self _)⟩
  · exact ⟨0, [], rfl⟩

theorem update_endless {v : RecordViewer} (h : v.endTime = -1) (hu : v.update fuel = some (r, t)) :
    t.endTime = -1 ∧ r ≠ none := by
  induction fuel generalizing v with
  | zero => cases hu
  | succ fuel ih =>
    obtain ⟨u, hfill, hrest⟩ := bind_eq_some_iff.1 hu
    have hfull : u.endTime = -1 ∧ u.msgBuffer ≠ [] := by
      unfold refill at hfill
      split at hfill
      · have hexit := loop_exit (I := fun v : RecordViewer => v.endTime = -1) (fun s s' hs _ hb => by
          cases hb
          exact hs) h hfill
        rcases hexit with ⟨hend, hcond⟩ | ⟨s, -, -, hb⟩
        · refine ⟨hend, fun hnil => ?_⟩
          have hle : u.currBeginTime ≤ u.endTime := by grind
          rw [hnil, decide_eq_true hle] at hcond
          cases hcond
        · cases hb
      · grind
    grind

theorem iterate_endless {v : RecordViewer} (h : v.endTime = -1) (fuel : Nat) :
    v.iterate fuel = none := by
  induction fuel generalizing v with
  | zero => rfl
  | succ fuel ih =>
    rw [iterate]
    cases hu : v.update fuel with
    | none => rfl
    | some x =>
      obtain ⟨hend, hr⟩ := update_endless h hu
      grind

end RecordViewer

theorem readIn_openReader (f : RecordFile) (b e : Nat) :
    readIn (windowsFrom b e) (openReader f, false) =
      (f.occs.filter (Readable time ((windowsFrom b e).filter (Overlaps f.header ·)) ·)).map
        Occ.entry := by
  have hitems : (openReader f).items = sectionItems f.sections := rfl
  have hspaced : Spaced ((windowsFrom b e).filter (Overlaps f.header ·)) :=
    (spaced_windowsFrom b e).sublist filter_sublist
  have hall : reach time [] ((windowsFrom b e).filter (Overlaps f.header ·)) =
      (windowsFrom b e).filter (Overlaps f.header ·) := filter_eq_self.2 fun _ _ => rfl
  have hscan := scan_items time hspaced
    (f.chunks.map fun c => (c.1.beginTime.toNat, c.2)) (by
      intro c hc
      obtain ⟨c', hc', rfl⟩ := List.mem_map.1 hc
      obtain ⟨m, hm, hb⟩ := (chunksOf_covers f.wellFormed c' hc').begin_mem
      exact ⟨m, hm, le_of_eq (by rw [time, hb])⟩) []
  rw [hall] at hscan
  rw [readIn, hitems, sectionItems_eq f.wellFormed]
  exact hscan

theorem messages_eq_occs (f : RecordFile) : f.messages = f.occs.map Occ.entry := by
  rw [RecordFile.occs, occs_entries, flatMap_map]
  rfl

section
variable (rs : List Recording) (lo hi : UInt64) (cs : List String)

theorem readers_viewer : (viewer rs lo hi cs).reset.readers.Perm
    (rs.map fun r => (openReader r.file, false)) := by
  have hsort := perm_insertionSort (fun lhs rhs => readerLt rhs lhs = false)
    (rs.map fun r => openReader r.file)
  have hmap := (hsort.map fun r => (r, false)).map fun r : RecordReader × Bool => (r.1.reset, false)
  refine hmap.trans ?_
  rw [List.map_map, List.map_map]
  exact .refl _

theorem inv_viewer (hlast : (viewer rs lo hi cs).endTime.toNat + stepNanoSec < 2 ^ 64) :
    Inv (viewer rs lo hi cs).reset where
  last := hlast
  readers r hr := by
    obtain ⟨q, -, rfl⟩ := List.mem_map.1 ((readers_viewer _ _ _ _).subset hr)
    exact ⟨⟨rfl, .inl q.file.wellFormed⟩, by simp⟩
  sorted := .nil
  earlier := by simp [RecordViewer.reset]

theorem bounds_viewer : lo ≤ (viewer rs lo hi cs).beginTime ∧
    (viewer rs lo hi cs).endTime ≤ hi := by
  unfold viewer create updateTime
  grind

theorem pending_viewer :
    (viewer rs lo hi cs).reset.pending.Perm
      (rs.flatMap fun r => (r.file.occs.filter
        (ReadableIn (viewer rs lo hi cs) r.file ·)).map Occ.entry) := by
  have hread := (readers_viewer rs lo hi cs).flatMap_right
    (readIn (viewer rs lo hi cs).reset.windows)
  rw [flatMap_map] at hread
  refine hread.trans (List.Perm.of_eq (flatMap_congr fun r _ => ?_))
  exact readIn_openReader r.file _ _

end

theorem perm_filter_iff {α β : Type*} {p q : α → Bool} {l : List α} (f : α → β)
    (h : ∀ x ∈ l, p x = true → q x = true) :
    ((l.filter p).map f).Perm ((l.filter q).map f) ↔ ∀ x ∈ l, q x = true → p x = true := by
  constructor
  · intro hperm
    have hlen := hperm.length_eq
    have hsub : (l.filter p).Sublist (l.filter q) := by
      have : l.filter p = (l.filter q).filter p := by
        rw [List.filter_filter]
        refine filter_congr fun x hx => ?_
        cases hp : p x with
        | false => rfl
        | true => rw [h x hx hp]; rfl
      rw [this]
      exact filter_sublist
    intro x hx hq
    have hmem : x ∈ l.filter p := by grind
    exact (mem_filter.1 hmem).2
  · intro hqp
    rw [filter_congr fun x hx => Bool.eq_iff_iff.2 ⟨h x hx, hqp x hx⟩]

def stored (recordings : List Recording) : List (Recording × Occ Nat SingleMessage) :=
  recordings.flatMap fun r => r.file.occs.map (r, ·)

theorem filter_stored (rs : List Recording) (p : Recording → Occ Nat SingleMessage → Bool) :
    ((stored rs).filter fun x => p x.1 x.2).map (·.2.entry) =
      rs.flatMap fun r => (r.file.occs.filter (p r)).map Occ.entry := by
  rw [stored, filter_flatMap, map_flatMap]
  refine flatMap_congr fun r _ => ?_
  rw [List.filter_map, List.map_map]
  rfl

section
variable (rs : List Recording) (lo hi : UInt64) (cs : List String)

theorem wanted_eq : wanted rs lo hi cs = ((stored rs).filter fun x =>
      decide (Qualifies lo hi cs x.2.entry)).map (·.2.entry) := by
  rw [filter_stored rs fun _ o => decide (Qualifies lo hi cs o.entry), wanted, filter_flatMap]
  refine flatMap_congr fun r _ => ?_
  rw [messages_eq_occs, List.filter_map]
  rfl

theorem ReadableIn.between {f : RecordFile} {o : Occ Nat SingleMessage}
    (h : ReadableIn (viewer rs lo hi cs) f o) : lo ≤ o.entry.time ∧ o.entry.time ≤ hi := by
  obtain ⟨w, hw, hlo, hhi, -⟩ := h
  obtain ⟨hb, -, he⟩ := mem_windowsFrom (mem_filter.1 hw).1
  obtain ⟨hbegin, hend⟩ := bounds_viewer rs lo hi cs
  have hmem : o.entry ∈ o.chunksBefore ++ o.before ++ [o.entry] := mem_append_right _ mem_cons_self
  refine ⟨UInt64.le_trans hbegin (le_iff_toNat_le.2 (le_trans hb hlo)),
    UInt64.le_trans (le_iff_toNat_le.2 ?_) hend⟩
  exact le_trans (hhi _ hmem) he

theorem messages_viewer (hlast : (viewer rs lo hi cs).endTime.toNat + stepNanoSec < 2 ^ 64)
        (hm : (viewer rs lo hi cs).messages fuel = some l) :
    l.Perm (((stored rs).filter fun x =>
      decide (ReadableIn (viewer rs lo hi cs) x.1.file x.2) &&
        (viewer rs lo hi cs).selected x.2.entry).map (·.2.entry)) ∧
      Sorted l := by
  obtain ⟨hperm, hsorted⟩ := messages_spec (inv_viewer rs lo hi cs hlast) hm
  refine ⟨hperm.trans (((pending_viewer _ _ _ _).filter _).trans ?_), hsorted⟩
  rw [filter_stored rs fun r o =>
    decide (ReadableIn (viewer rs lo hi cs) r.file o) &&
      (viewer rs lo hi cs).selected o.entry, filter_flatMap]
  refine List.Perm.of_eq (flatMap_congr fun r _ => ?_)
  rw [List.filter_map, List.filter_filter]
  refine congrArg _ (filter_congr fun o _ => ?_)
  rw [Bool.and_comm]
  rfl

theorem selected_viewer (m : SingleMessage) :
    (viewer rs lo hi cs).selected m = true ↔ cs = [] ∨ m.channelName ∈ cs := by
  simp [selected, viewer, create, updateTime]

theorem messages_endless (hmax : (viewer rs lo hi cs).endTime = -1)
    (fuel : Nat) : (viewer rs lo hi cs).messages fuel = none := by
  have hvalid : (viewer rs lo hi cs).reset.isValid = true := by
    have hle : (viewer rs lo hi cs).beginTime ≤ -1 :=
      le_iff_toNat_le.2 (le_of_lt_succ (toNat_lt _))
    rw [← hmax] at hle
    simpa [RecordViewer.isValid, RecordViewer.reset] using hle
  rw [RecordViewer.messages, if_pos hvalid]
  have hreset : (viewer rs lo hi cs).reset.endTime = -1 := hmax
  exact iterate_endless hreset fuel

end

/-- **A viewer gives what it is asked for exactly when it loses nothing.** Only an end time within a
second of the largest number is left out, where the windows go round. -/
theorem yields_iff (recordings : List Recording) (beginTime endTime : UInt64)
    (channels : List String)
    (hlast : (viewer recordings beginTime endTime channels).endTime = -1 ∨
      (viewer recordings beginTime endTime channels).endTime.toNat + stepNanoSec < 2 ^ 64) :
    Yields (viewer recordings beginTime endTime channels)
        (wanted recordings beginTime endTime channels) ↔
      Lossless recordings beginTime endTime channels := by
  rcases hlast with hmax | hlast
  · refine ⟨fun h => ?_, fun h => absurd hmax h.1⟩
    obtain ⟨⟨fuel, l, hl⟩, -⟩ := h
    rw [messages_endless _ _ _ _ hmax] at hl
    cases hl
  · have hne : (viewer recordings beginTime endTime channels).endTime ≠ -1 := by
      intro hmax
      rw [hmax] at hlast
      exact absurd hlast (by decide)
    -- what is given is a part of what is wanted
    have hiff := perm_filter_iff (l := stored recordings) (p := fun x =>
        decide (ReadableIn (viewer recordings beginTime endTime channels) x.1.file x.2) &&
          (viewer recordings beginTime endTime channels).selected x.2.entry)
      (q := fun x => decide (Qualifies beginTime endTime channels x.2.entry)) (·.2.entry) (by
        intro x _ hx
        obtain ⟨hread, hsel⟩ := Bool.and_eq_true_iff.1 hx
        obtain ⟨hb, he⟩ := ReadableIn.between _ _ _ _ (of_decide_eq_true hread)
        exact decide_eq_true ⟨hb, he, (selected_viewer _ _ _ _ _).1 hsel⟩)
    rw [← wanted_eq] at hiff
    constructor
    · rintro ⟨⟨fuel, l, hl⟩, hall⟩
      obtain ⟨hperm, -⟩ := hall fuel l hl
      have hgiven := (messages_viewer _ _ _ _ hlast hl).1
      refine ⟨hne, fun r hr o ho hq => ?_⟩
      have hx := hiff.1 (hgiven.symm.trans hperm) (r, o)
        (mem_flatMap.2 ⟨r, hr, List.mem_map_of_mem ho⟩) (decide_eq_true hq)
      exact of_decide_eq_true (Bool.and_eq_true_iff.1 hx).1
    · rintro ⟨-, hread⟩
      refine ⟨messages_end (inv_viewer _ _ _ _ hlast), fun fuel l hl => ?_⟩
      obtain ⟨hgiven, hsorted⟩ := messages_viewer _ _ _ _ hlast hl
      refine ⟨hgiven.trans (hiff.2 fun x hx hq => ?_), hsorted⟩
      obtain ⟨r, hr, hx⟩ := mem_flatMap.1 hx
      obtain ⟨o, ho, rfl⟩ := List.mem_map.1 hx
      have hq := of_decide_eq_true hq
      exact Bool.and_eq_true_iff.2 ⟨decide_eq_true (hread r hr o ho hq),
        (selected_viewer _ _ _ _ _).2 hq.2.2⟩

def defaultHeader : Header := ⟨20000000000, 16777216, 0, 0, 0, 0, 0, false⟩

def recordingAt (times : List UInt64) : Recording :=
  ⟨defaultHeader, times.map fun t => .message ⟨"/test/channel1", t, []⟩ false⟩

theorem yields_in_order : Yields (viewer [recordingAt [1000000000, 3000000000]] 0 (-1) [])
    (wanted [recordingAt [1000000000, 3000000000]] 0 (-1) []) :=
  (yields_iff [recordingAt [1000000000, 3000000000]] 0 (-1) [] (by decide +kernel)).2
    (by decide +kernel)

/-- Two messages two seconds apart, the later one first: the reader stops in front of it in the
first window, and when it comes to the other one the window has moved on. -/
theorem messages_reverse :
    (viewer [recordingAt [3000000000, 1000000000]] 0 (-1) []).messages 10 =
      some [⟨"/test/channel1", 3000000000, []⟩] := by
  decide +kernel

theorem not_yields_reverse : ¬ Yields (viewer [recordingAt [3000000000, 1000000000]] 0 (-1) [])
    (wanted [recordingAt [3000000000, 1000000000]] 0 (-1) []) := by
  intro h
  have hlen := (h.2 10 _ messages_reverse).1.length_eq
  have hwanted : (wanted [recordingAt [3000000000, 1000000000]] 0 (-1) []).length = 2 := by
    decide +kernel
  cases hlen

/-!
## The iterator of a viewer

What `Update` gives does not depend on the fuel (`Next.unique`), and at the end it gives nothing
again (`update_last`).
-/

variable {k n : Nat}

namespace RecordViewer

section
variable {v t : RecordViewer} {itr : Option SingleMessage}

theorem refill_mono (h : v.refill k = some t) (hn : k ≤ n) : v.refill n = some t := by
  unfold refill at h ⊢
  by_cases hb : v.msgBuffer.isEmpty = true
  · rw [if_pos hb] at h ⊢
    exact loop_mono h hn
  · rw [if_neg hb] at h ⊢
    exact h

theorem update_mono {r : Option SingleMessage × RecordViewer}
    (h : v.update k = some r) (hn : k ≤ n) : v.update n = some r := by
  induction k generalizing n v with
  | zero => cases h
  | succ k ih =>
    obtain ⟨n, rfl⟩ := Nat.exists_eq_succ_of_ne_zero (Nat.ne_zero_of_lt hn)
    have hkn := Nat.le_of_succ_le_succ hn
    rw [update] at h ⊢
    obtain ⟨u, hu, hrest⟩ := bind_eq_some_iff.1 h
    rw [refill_mono hu hkn, bind_some]
    grind

theorem Next.unique {i i' : Option SingleMessage} {t t' : RecordViewer} (h : Next v i t)
    (h' : Next v i' t') : i = i' ∧ t = t' := by
  obtain ⟨n, hn⟩ := h
  obtain ⟨n', hn'⟩ := h'
  have heq := (update_mono hn (le_max_left n n')).symm.trans
    (update_mono hn' (le_max_right n n'))
  grind

theorem iterate_mono (h : v.iterate k = some l) (hn : k ≤ n) : v.iterate n = some l := by
  induction k generalizing n v l with
  | zero => cases h
  | succ k ih =>
    obtain ⟨n, rfl⟩ := Nat.exists_eq_succ_of_ne_zero (Nat.ne_zero_of_lt hn)
    have hkn := Nat.le_of_succ_le_succ hn
    rw [iterate] at h ⊢
    obtain ⟨⟨itr, u⟩, hu, hrest⟩ := bind_eq_some_iff.1 h
    rw [update_mono hu hkn, bind_some]
    cases itr with
    | none => exact hrest
    | some m =>
      obtain ⟨l, hl, rfl⟩ := map_eq_some_iff.1 hrest
      grind

theorem update_last {k : Nat} (h : v.update k = some (none, t)) : t.update k = some (none, t) := by
  induction k generalizing v with
  | zero => cases h
  | succ k ih =>
    obtain ⟨u, hu, hrest⟩ := bind_eq_some_iff.1 h
    split at hrest
    · rename_i hnil
      cases hrest
      -- the buffer was empty and could not be filled
      have hfill : t.refill k = some t := by
        unfold refill at hu
        split at hu
        · have hk : 0 < k := by
            cases k with
            | zero => cases hu
            | succ k => exact succ_pos k
          rcases loop_exit (I := fun _ => True) (fun _ _ _ _ _ => trivial) trivial hu with
            ⟨-, hdone⟩ | ⟨s, -, -, hb⟩
          · rw [refill, if_pos (by rw [hnil]; rfl), fillBuffer]
            refine loop_done ?_ k hk
            exact hdone
          · cases hb
        · grind
      rw [update, hfill, bind_some]
      grind
    · split at hrest
      · cases hrest
      · exact update_mono (ih hrest) (le_succ k)

theorem passes_of_iterate (h : v.iterate k = some l)
    (hn : k ≤ n) : ∃ start t, v.update n = some start ∧
      Passes (fun v itr t => v.update n = some (itr, t)) start l (none, t) := by
  induction k generalizing v l with
  | zero => cases h
  | succ k ih =>
    obtain ⟨⟨itr, u⟩, hu, hrest⟩ := bind_eq_some_iff.1 h
    refine ⟨(itr, u), ?_⟩
    cases itr with
    | none =>
      cases hrest
      exact ⟨u, update_mono hu (le_of_succ_le hn), .refl _⟩
    | some m =>
      obtain ⟨l, hl, rfl⟩ := map_eq_some_iff.1 hrest
      obtain ⟨start, t, hstart, hpass⟩ := ih hl (le_of_succ_le hn)
      exact ⟨t, update_mono hu (le_of_succ_le hn), .step hstart hpass⟩

theorem iterate_of_passes {start : Option SingleMessage × RecordViewer}
    (hpass : Passes Next start l (none, t)) {v : RecordViewer} (hstart : Next v start.1 start.2) :
    ∃ n, v.iterate n = some l := by
  generalize hq : (none, t) = q at hpass
  induction hpass generalizing v with
  | refl p =>
    obtain ⟨n, hn⟩ := hstart
    subst hq
    exact ⟨n + 1, by rw [iterate, hn]; rfl⟩
  | step hnext _ ih =>
    obtain ⟨n, hn⟩ := hstart
    obtain ⟨k, hk⟩ := ih hnext hq
    refine ⟨max n k + 1, ?_⟩
    rw [iterate, update_mono hn (le_max_left n k), bind_some]
    dsimp only
    rw [iterate_mono hk (le_max_right n k)]
    rfl

theorem beginIterator_of_valid (h : v.reset.isValid = true) (n : Nat) :
    v.beginIterator n = v.reset.update n := if_pos h

theorem beginIterator_of_not_valid (h : ¬ v.reset.isValid = true) (n : Nat) :
    v.beginIterator n = some (none, v.reset) := if_neg h

theorem passes_of_messages {n : Nat} (h : v.messages n = some l) :
    ∃ start t, v.beginIterator n = some start ∧
      Passes (fun v itr t => v.update n = some (itr, t)) start l (none, t) := by
  unfold messages at h
  dsimp only at h
  split at h
  · rename_i hvalid
    rw [beginIterator_of_valid hvalid]
    exact passes_of_iterate h (le_refl n)
  · rename_i hvalid
    cases h
    rw [beginIterator_of_not_valid hvalid]
    exact ⟨_, _, rfl, .refl _⟩

theorem messages_iff : (∃ n, v.messages n = some l) ↔ v.Iterates l none := by
  constructor
  · rintro ⟨n, h⟩
    obtain ⟨start, t, hstart, hpass⟩ := passes_of_messages h
    exact ⟨n, start, t, hstart, hpass.mono fun _ _ _ h => ⟨n, h⟩⟩
  · rintro ⟨n, start, t, hstart, hpass⟩
    by_cases hvalid : v.reset.isValid = true
    · rw [beginIterator_of_valid hvalid] at hstart
      obtain ⟨k, hk⟩ := iterate_of_passes hpass ⟨n, hstart⟩
      exact ⟨k, (if_pos hvalid).trans hk⟩
    · rw [beginIterator_of_not_valid hvalid] at hstart
      cases hstart
      obtain ⟨rfl, -⟩ := hpass.eq_nil
      exact ⟨0, if_neg hvalid⟩

theorem beginIterator_unique {n n' : Nat} {r r' : Option SingleMessage × RecordViewer}
    (h : v.beginIterator n = some r) (h' : v.beginIterator n' = some r') : r = r' := by
  by_cases hvalid : v.reset.isValid = true
  · rw [beginIterator_of_valid hvalid] at h h'
    obtain ⟨hitr, ht⟩ := Next.unique ⟨n, h⟩ ⟨n', h'⟩
    exact Prod.ext hitr ht
  · rw [beginIterator_of_not_valid hvalid] at h h'
    exact Option.some.inj (h.symm.trans h')

theorem Iterates.left {l ms : List SingleMessage} (h : v.Iterates l itr)
    (hms : v.Iterates ms none) : ∃ r, ms = l ++ r ∧ ∀ m, itr = some m → ∃ r', r = m :: r' := by
  obtain ⟨n, start, t, hstart, hpass⟩ := h
  obtain ⟨n', start', t', hstart', hpass'⟩ := hms
  obtain rfl := beginIterator_unique hstart hstart'
  obtain ⟨r, rfl, hr⟩ := hpass.left hpass' fun _ _ _ _ _ => Next.unique
  refine ⟨r, rfl, fun m hm => ?_⟩
  subst hm
  obtain ⟨-, -, r', rfl, -, -⟩ := hr.cons_inv
  exact ⟨r', rfl⟩

theorem Iterates.unique {l ms : List SingleMessage} (h : v.Iterates l none)
    (hms : v.Iterates ms none) : l = ms := by
  obtain ⟨r, hr, -⟩ := h.left hms
  obtain ⟨r', hr', -⟩ := hms.left h
  have hlen := congrArg List.length hr
  have hlen' := congrArg List.length hr'
  rw [length_append] at hlen hlen'
  have hnil : r = [] := eq_nil_of_length_eq_zero (by omega)
  rw [hr, hnil, append_nil]

end

end RecordViewer

namespace RecordReader

variable {b e : UInt64}

theorem reset_readNextChunk (r : RecordReader) : (r.readNextChunk b e).2.reset = r.reset := by
  unfold readNextChunk
  split
  · rfl
  · split <;> rfl

theorem reset_readMessageWithin (depth : Nat) (r : RecordReader) :
    (readMessageWithin b e depth r).2.reset = r.reset := by
  induction depth generalizing r with
  | zero => rfl
  | succ depth ih =>
    unfold readMessageWithin
    split
    · rfl
    · split
      · rfl
      · split
        · rfl
        · rename_i ms _
          have hread := reset_readNextChunk (b := b) (e := e) { r with chunk := ms }
          split
          · rename_i r' hr'
            rw [hr'] at hread
            exact (ih r').trans hread
          · rename_i r' hr'
            rw [hr'] at hread
            exact hread

theorem reset_readInto (n : Nat) (r : RecordReader) (buffer : List SingleMessage) :
    (readInto b e n r buffer).1.reset = r.reset := by
  induction n generalizing r buffer with
  | zero => rfl
  | succ n ih =>
    have hread : (r.readMessage b e).2.reset = r.reset := reset_readMessageWithin _ r
    unfold readInto
    grind

end RecordReader

namespace RecordViewer

def resetAll (readers : List (RecordReader × Bool)) : List (RecordReader × Bool) :=
  readers.map fun r => (r.1.reset, false)

theorem resetAll_readAll (b e : UInt64) (readers : List (RecordReader × Bool))
    (buffer : List SingleMessage) : resetAll (readAll b e readers buffer).1 = resetAll readers := by
  induction readers generalizing buffer with
  | nil => rfl
  | cons q readers ih =>
    obtain ⟨r, finished⟩ := q
    cases finished with
    | true => exact congrArg ((r.reset, false) :: ·) (ih buffer)
    | false =>
      refine cons_eq_cons.2 ⟨?_, ih _⟩
      dsimp only
      rw [RecordReader.reset_readInto]

theorem resetAll_markFinished (b : UInt64) (readers : List (RecordReader × Bool)) :
    resetAll (readers.map (markFinished b)) = resetAll readers := by
  unfold resetAll
  rw [List.map_map]
  refine map_congr_left fun r _ => ?_
  rw [Function.comp_apply]
  unfold markFinished
  split <;> rfl

theorem reset_fillWindow (v : RecordViewer) : v.fillWindow.reset = v.reset := by
  have hreaders : resetAll v.fillWindow.readers = resetAll v.readers :=
    (resetAll_readAll _ _ _ _).trans (resetAll_markFinished _ _)
  exact congrArg (fun readers => (⟨v.beginTime, v.endTime, v.channels, readers, v.beginTime, []⟩ :
    RecordViewer)) hreaders

theorem reset_refill {v t : RecordViewer} {n : Nat} (h : v.refill n = some t) :
    t.reset = v.reset := by
  unfold refill at h
  split at h
  · rcases loop_exit (I := fun t : RecordViewer => t.reset = v.reset) (fun s s' hs _ hb => by
        cases hb
        exact (reset_fillWindow s).trans hs) rfl h with ⟨ht, -⟩ | ⟨s, -, -, hb⟩
    · exact ht
    · cases hb
  · cases h
    rfl

theorem reset_update {v t : RecordViewer} {itr : Option SingleMessage} {n : Nat}
    (h : v.update n = some (itr, t)) : t.reset = v.reset := by
  induction n generalizing v with
  | zero => cases h
  | succ n ih =>
    obtain ⟨u, hu, hrest⟩ := bind_eq_some_iff.1 h
    have hreset := reset_refill hu
    split at hrest
    · cases hrest
      exact hreset
    · split at hrest
      · cases hrest
        exact hreset
      · exact (ih hrest).trans hreset

theorem reset_beginIterator {v t : RecordViewer} {itr : Option SingleMessage} {n : Nat}
    (h : v.beginIterator n = some (itr, t)) : t.reset = v.reset := by
  have hreset : v.reset.reset = v.reset := by simp [reset, RecordReader.reset]
  by_cases hvalid : v.reset.isValid = true
  · rw [beginIterator_of_valid hvalid] at h
    exact (reset_update h).trans hreset
  · rw [beginIterator_of_not_valid hvalid] at h
    cases h
    exact hreset

end RecordViewer

end Record
