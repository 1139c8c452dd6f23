import CyberRT.Record.Reader
import Mathlib.Data.List.Perm.Basic

/-!
# Reading a file through a window

The unread part of a file is a sequence of entries with a gate before each chunk (`items`), and
`ReadMessage` is `Lib.next` on it (`readMessage_spec`).
-/

namespace Record

open Lib List RecordReader UInt64 Nat

variable {r : RecordReader} {l : List Section}

def sectionItems : List Section → List (Item Nat SingleMessage)
  | [] => []
  | .index :: _ => []
  | .channel _ :: l => sectionItems l
  | .chunkHeader h :: l => .gate h.beginTime.toNat :: sectionItems l
  | .chunkBody ms :: l => ms.map .entry ++ sectionItems l

theorem sectionItems_eq (h : WellFormed l) :
    sectionItems l = chunkItems ((chunksOf l).map fun c => (c.1.beginTime.toNat, c.2)) := by
  induction h with
  | nil => rfl
  | channel c _ ih =>
    rw [sectionItems, ih]
    rfl
  | index => rfl
  | chunk _ _ ih =>
    rw [sectionItems, sectionItems, ih]
    rfl

def Rest (l : List Section) : Prop :=
  WellFormed l ∨ ∃ ms l', l = .chunkBody ms :: l' ∧ WellFormed l'

namespace RecordReader

def items (r : RecordReader) : List (Item Nat SingleMessage) :=
  r.chunk.map .entry ++ if r.reachEnd then [] else sectionItems r.sections

structure Ok (r : RecordReader) : Prop where
  valid : r.isValid = true
  rest : Rest r.sections

section
variable {b e : UInt64}

theorem nextInChunk_spec (ms : List SingleMessage) (l : List (Item Nat SingleMessage)) :
    next time (window b e) (ms.map .entry ++ l) =
      match nextInChunk b e ms with
      | (some found, ms') => (found, ms'.map .entry ++ l)
      | (none, _) => next time (window b e) l := by
  induction ms with
  | nil => rfl
  | cons m ms ih =>
    have hlate : m.time > e ↔ (window b e).hi < time m := lt_iff_toNat_lt
    have hearly : m.time < b ↔ time m < (window b e).lo := lt_iff_toNat_lt
    rw [map_cons, cons_append, Lib.next, nextInChunk]
    grind

theorem nextInChunk_none {ms ms' : List SingleMessage} (h : nextInChunk b e ms = (none, ms')) :
    ms' = [] := by
  induction ms with
  | nil =>
    cases h
    rfl
  | cons m ms ih =>
    unfold nextInChunk at h
    grind

def ChunkFound (b e : UInt64) (l : List Section) :
    Option (List SingleMessage) × Bool × List Section → Prop
  | (some ms, reachEnd, rest) => reachEnd = false ∧ Rest rest ∧
      next time (window b e) (sectionItems l) =
        next time (window b e) (ms.map .entry ++ sectionItems rest)
  | (none, reachEnd, rest) => Rest rest ∧
      next time (window b e) (sectionItems l) = (none, if reachEnd then [] else sectionItems rest)

theorem nextChunk_wellFormed (hbe : b ≤ e) (h : WellFormed l) :
    ChunkFound b e l (nextChunk b e false l) := by
  induction h with
  | nil => exact ⟨.inl .nil, rfl⟩
  | channel c _ ih => exact ih
  | index h _ => exact ⟨.inl h, rfl⟩
  | @chunk h ms l hcov hl ih =>
    have hgate : h.beginTime > e ↔ (window b e).hi < h.beginTime.toNat := lt_iff_toNat_lt
    rw [nextChunk]
    by_cases h1 : h.beginTime > e
    · rw [if_pos h1]
      refine ⟨.inr ⟨ms, l, rfl, hl⟩, ?_⟩
      rw [sectionItems, Lib.next, if_pos (hgate.1 h1)]
      rfl
    · have hnext : next time (window b e) (sectionItems (.chunkHeader h :: .chunkBody ms :: l)) =
          next time (window b e) (ms.map .entry ++ sectionItems l) := by
        rw [sectionItems, Lib.next, if_neg (mt hgate.2 h1), sectionItems]
      rw [if_neg h1, Bool.false_or]
      by_cases h2 : h.endTime < b
      · -- the body is skipped: all of its messages are earlier than the interval
        have hdrop : ∀ m ∈ ms, time m < (window b e).lo ∧ time m ≤ (window b e).hi := by
          intro m hm
          have hlt := UInt64.lt_of_le_of_lt (hcov.le_end m hm) h2
          exact ⟨lt_iff_toNat_lt.1 hlt,
            le_iff_toNat_le.1 (UInt64.le_trans (UInt64.le_of_lt hlt) hbe)⟩
        rw [decide_eq_true h2, nextChunk]
        unfold ChunkFound at ih ⊢
        rw [hnext, next_drop time hdrop]
        exact ih
      · rw [decide_eq_false h2, nextChunk]
        exact ⟨rfl, .inl hl, hnext⟩

theorem nextChunk_spec (hbe : b ≤ e) (h : Rest l) : ChunkFound b e l (nextChunk b e false l) := by
  rcases h with h | ⟨ms, l, rfl, h⟩
  · exact nextChunk_wellFormed hbe h
  · exact ⟨rfl, .inl h, rfl⟩

structure Keeps (r r' : RecordReader) : Prop where
  ok : r'.Ok
  file : r'.file = r.file

theorem readNextChunk_spec (hbe : b ≤ e) {r r' : RecordReader} (hr : r.Ok) (hc : r.chunk = [])
    {found : Bool} (h : r.readNextChunk b e = (found, r')) :
    Keeps r r' ∧ next time (window b e) r.items =
      if found then next time (window b e) r'.items else (none, r'.items) := by
  unfold readNextChunk at h
  cases hend : r.reachEnd with
  | true =>
    rw [if_pos hend] at h
    cases h
    refine ⟨⟨hr, rfl⟩, ?_⟩
    rw [items, hc, hend]
    rfl
  | false =>
    have hfound := nextChunk_spec hbe hr.rest
    rw [if_neg (by rw [hend]; decide)] at h
    rw [items, hc, hend]
    split at h
    · rename_i reachEnd rest hch
      cases h
      rw [hch] at hfound
      refine ⟨⟨⟨hr.valid, hfound.1⟩, rfl⟩, ?_⟩
      rw [items, hc]
      exact hfound.2
    · rename_i ms reachEnd rest hch
      cases h
      rw [hch] at hfound
      obtain ⟨rfl, hrest, hitems⟩ := hfound
      exact ⟨⟨⟨hr.valid, hrest⟩, rfl⟩, hitems⟩

/-- **`ReadMessage` gives the next entry of the window.** -/
theorem readMessage_spec (hbe : b ≤ e) (hr : r.Ok) (hov : Overlaps r.header (window b e)) :
    next time (window b e) r.items = ((r.readMessage b e).1, (r.readMessage b e).2.items) ∧
      Keeps r (r.readMessage b e).2 := by
  induction hn : r.sections.length using Nat.strong_induction_on generalizing r with
  | _ n ih =>
    have hin : ¬ (decide (b > r.header.endTime) || decide (e < r.header.beginTime)) = true := by
      rw [Bool.or_eq_true, decide_eq_true_iff, decide_eq_true_iff, not_or]
      exact ⟨UInt64.not_lt.2 (le_iff_toNat_le.2 hov.1), UInt64.not_lt.2 (le_iff_toNat_le.2 hov.2)⟩
    have hval : ¬ (!r.isValid) = true := by rw [hr.valid]; decide
    have hchunk := nextInChunk_spec (b := b) (e := e) r.chunk
      (if r.reachEnd then [] else sectionItems r.sections)
    rw [readMessage_eq, if_neg hval, if_neg hin, items, hchunk]
    obtain ⟨found, ms, hc⟩ : ∃ found ms, nextInChunk b e r.chunk = (found, ms) := ⟨_, _, rfl⟩
    rw [hc]
    cases found with
    | some found => exact ⟨rfl, ⟨hr.valid, hr.rest⟩, rfl⟩
    | none =>
      obtain rfl := nextInChunk_none hc
      obtain ⟨more, r', hr'⟩ :
          ∃ more r', readNextChunk { r with chunk := [] } b e = (more, r') := ⟨_, _, rfl⟩
      have hr0 : Ok { r with chunk := [] } := ⟨hr.valid, hr.rest⟩
      obtain ⟨hkeeps, hnext⟩ := readNextChunk_spec hbe hr0 rfl hr'
      have hfront : next time (window b e) (if r.reachEnd then [] else sectionItems r.sections) =
          next time (window b e) (items { r with chunk := [] }) := rfl
      dsimp only
      rw [hfront, hnext, hr']
      cases more with
      | false => exact ⟨rfl, hkeeps.ok, hkeeps.file⟩
      | true =>
        have hlen := readNextChunk_length hr'
        rw [hn] at hlen
        have hov' : Overlaps r'.header (window b e) := by
          rw [header, hkeeps.file]
          exact hov
        obtain ⟨h1, h2⟩ := ih _ hlen hkeeps.ok hov' rfl
        exact ⟨h1, h2.ok, h2.file.trans hkeeps.file⟩

theorem readMessage_outside (hov : ¬ Overlaps r.header (window b e)) :
    r.readMessage b e = (none, r) := by
  have hout : (decide (b > r.header.endTime) || decide (e < r.header.beginTime)) = true := by
    rw [Bool.or_eq_true, decide_eq_true_iff, decide_eq_true_iff]
    by_contra h
    rw [not_or] at h
    exact hov ⟨le_iff_toNat_le.1 (UInt64.not_lt.1 h.1), le_iff_toNat_le.1 (UInt64.not_lt.1 h.2)⟩
  rw [readMessage_eq, if_pos hout, ite_self]

theorem readInto_spec (hbe : b ≤ e) {n : Nat} (hr : r.Ok)
    (hov : Overlaps r.header (window b e)) (hn : (entries r.items).length < n)
    (buffer : List SingleMessage) :
    (readInto b e n r buffer).1.items = (pass time (window b e) r.items).2 ∧
      (readInto b e n r buffer).2 =
        (pass time (window b e) r.items).1.foldl (fun buffer m => emplace m buffer) buffer ∧
      Keeps r (readInto b e n r buffer).1 := by
  induction n generalizing r buffer with
  | zero => cases hn
  | succ n ih =>
    obtain ⟨hnext, hkeeps⟩ := readMessage_spec hbe hr hov
    rw [readInto]
    split
    · rename_i r' hread
      rw [hread] at hnext hkeeps
      rw [pass_of_next_none time hnext]
      exact ⟨rfl, rfl, hkeeps⟩
    · rename_i m r' hread
      rw [hread] at hnext hkeeps
      have hlt := next_entries_length time hnext
      have hov' : Overlaps r'.header (window b e) := by
        rw [header, hkeeps.file]
        exact hov
      obtain ⟨h1, h2, h3⟩ := ih hkeeps.ok hov' (by omega) (emplace m buffer)
      rw [pass_of_next_some time hnext]
      exact ⟨h1, h2, h3.ok, h3.file.trans hkeeps.file⟩

theorem readInto_outside (hov : ¬ Overlaps r.header (window b e)) (n : Nat)
    (buffer : List SingleMessage) : readInto b e n r buffer = (r, buffer) := by
  cases n with
  | zero => rfl
  | succ n => rw [readInto, readMessage_outside hov]

end

theorem entries_items_le (r : RecordReader) : (entries r.items).length ≤ r.unread := by
  have hentries : ∀ (ms : List SingleMessage) (l : List (Item Nat SingleMessage)),
      (entries (ms.map .entry ++ l)).length = ms.length + (entries l).length := by
    intro ms l
    rw [entries, filterMap_append, length_append, filterMap_map]
    congr 1
    exact congrArg _ (filterMap_some)
  have hsections : ∀ (f : Section → Nat), (∀ ms, f (.chunkBody ms) = ms.length) → ∀ l,
      (entries (sectionItems l)).length ≤ (l.map f).sum := by
    intro f hf l
    induction l with
    | nil => exact le_refl 0
    | cons x l ih =>
      cases x with
      | index => exact Nat.zero_le _
      | channel c => exact le_trans ih (le_add_left _ _)
      | chunkHeader h => exact le_trans ih (le_add_left _ _)
      | chunkBody ms =>
        rw [sectionItems, hentries, map_cons, sum_cons, hf]
        exact Nat.add_le_add_left ih _
  rw [items, hentries, unread]
  refine Nat.add_le_add_left ?_ _
  split
  · exact Nat.zero_le _
  · exact hsections _ (fun _ => rfl) r.sections

end RecordReader

/-!
## Filling the buffer

`pending v` is what a viewer has yet to give: the buffer, and what its readers will read in the
windows that are left.
-/

variable {b e : Nat} {w : Window Nat}

theorem windowsFrom_eq_nil (h : e < b) : windowsFrom b e = [] := by
  have hcount : (e + (stepNanoSec + 1) - b) / (stepNanoSec + 1) = 0 := Nat.div_eq_of_lt (by omega)
  rw [windowsFrom, hcount]
  rfl

theorem windowsFrom_cons (h : b ≤ e) :
    windowsFrom b e = ⟨b, min (b + stepNanoSec) e⟩ :: windowsFrom (min (b + stepNanoSec) e + 1) e := by
  have hcount : (e + (stepNanoSec + 1) - b) / (stepNanoSec + 1) =
      (e - b) / (stepNanoSec + 1) + 1 := by
    rw [show e + (stepNanoSec + 1) - b = (e - b) + (stepNanoSec + 1) by omega,
      add_div_right _ (succ_pos _)]
  have hfirst : b + 0 * (stepNanoSec + 1) = b := by omega
  rw [windowsFrom, hcount, range_succ_eq_map, map_cons, map_map, hfirst]
  refine congrArg _ ?_
  by_cases hlast : b + stepNanoSec < e
  · have hnext : e + (stepNanoSec + 1) - (b + stepNanoSec + 1) = e - b := by omega
    rw [min_eq_left (le_of_lt hlast), windowsFrom, hnext]
    refine map_congr_left fun n _ => ?_
    have hn : b + (n + 1) * (stepNanoSec + 1) = b + stepNanoSec + 1 + n * (stepNanoSec + 1) := by
      rw [succ_mul]
      omega
    rw [Function.comp_apply, hn]
  · have hzero : (e - b) / (stepNanoSec + 1) = 0 := Nat.div_eq_of_lt (by omega)
    rw [Nat.min_eq_right (Nat.le_of_not_lt hlast), windowsFrom_eq_nil (Nat.lt_succ_self e), hzero]
    rfl

theorem mem_windowsFrom (h : w ∈ windowsFrom b e) : b ≤ w.lo ∧ w.lo ≤ w.hi ∧ w.hi ≤ e := by
  obtain ⟨n, hn, rfl⟩ := mem_map.1 h
  have hlt : (n + 1) * (stepNanoSec + 1) ≤ e + (stepNanoSec + 1) - b :=
    (le_div_iff_mul_le (succ_pos _)).1 (mem_range.1 hn)
  rw [succ_mul] at hlt
  dsimp only
  omega

theorem spaced_windowsFrom (b e : Nat) : Spaced (windowsFrom b e) := by
  refine ⟨fun w hw => (mem_windowsFrom hw).2.1, pairwise_map.2 ?_⟩
  refine pairwise_lt_range.imp fun {n n'} hlt => ?_
  have hmul : (n + 1) * (stepNanoSec + 1) ≤ n' * (stepNanoSec + 1) := mul_le_mul_right _ hlt
  rw [succ_mul] at hmul
  dsimp only
  omega

theorem filter_overlaps_eq_nil {h : Header} (hlt : h.endTime.toNat < b) :
    (windowsFrom b e).filter (Overlaps h ·) = [] := by
  refine filter_eq_nil_iff.2 fun w hw => ?_
  rw [decide_eq_true_iff]
  intro hov
  have h1 := hov.1
  have h2 := (mem_windowsFrom hw).1
  omega

def Sorted (buffer : List SingleMessage) : Prop := buffer.Pairwise fun m m' => m.time ≤ m'.time

theorem emplace_perm (m : SingleMessage) (buffer : List SingleMessage) :
    (emplace m buffer).Perm (m :: buffer) := by
  induction buffer with
  | nil => exact .refl _
  | cons m' buffer ih =>
    unfold emplace
    split
    · exact .refl _
    · exact (ih.cons m').trans (.swap m m' buffer)

theorem Sorted.emplace {buffer : List SingleMessage} (h : Sorted buffer) (m : SingleMessage) :
    Sorted (emplace m buffer) := by
  induction buffer with
  | nil => exact pairwise_singleton _ _
  | cons m' buffer ih =>
    obtain ⟨hhead, htail⟩ := pairwise_cons.1 h
    unfold Record.emplace
    split
    · rename_i hlt
      refine pairwise_cons.2 ⟨fun x hx => ?_, h⟩
      rcases mem_cons.1 hx with rfl | hx
      · exact UInt64.le_of_lt hlt
      · exact UInt64.le_trans (UInt64.le_of_lt hlt) (hhead x hx)
    · rename_i hlt
      refine pairwise_cons.2 ⟨fun x hx => ?_, ih htail⟩
      rcases mem_cons.1 ((emplace_perm m buffer).subset hx) with rfl | hx
      · exact UInt64.not_lt.1 hlt
      · exact hhead x hx

theorem foldl_emplace (ms buffer : List SingleMessage) :
    (ms.foldl (fun buffer m => emplace m buffer) buffer).Perm (buffer ++ ms) ∧
      (Sorted buffer → Sorted (ms.foldl (fun buffer m => emplace m buffer) buffer)) := by
  induction ms generalizing buffer with
  | nil => exact ⟨by rw [append_nil]; exact .refl _, id⟩
  | cons m ms ih =>
    obtain ⟨hperm, hsorted⟩ := ih (emplace m buffer)
    refine ⟨hperm.trans ?_, fun h => hsorted (h.emplace m)⟩
    exact ((emplace_perm m buffer).append_right ms).trans perm_middle.symm

def readIn (ws : List (Window Nat)) (r : RecordReader × Bool) : List SingleMessage :=
  scan time (ws.filter (Overlaps r.1.header ·)) r.1.items

structure ReaderOk (w : Window Nat) (r : RecordReader × Bool) : Prop where
  ok : r.1.Ok
  finished : r.2 = true → r.1.header.endTime.toNat < w.lo

namespace RecordViewer

variable {r : RecordReader × Bool}

theorem readIn_cons_of_not
    (h : ¬ Overlaps r.1.header w) (ws : List (Window Nat)) : readIn (w :: ws) r = readIn ws r := by
  rw [readIn, filter_cons_of_neg (by simpa using h), readIn]

theorem readInto_window {b e : UInt64} {ws : List (Window Nat)} (hbe : b ≤ e)
    (hws : Spaced (window b e :: ws)) {r : RecordReader} (hr : r.Ok) (buffer : List SingleMessage) :
    (∃ new, (r.readInto b e (r.unread + 1) buffer).2.Perm (buffer ++ new) ∧
      (∀ m ∈ new, m.time ≤ e) ∧
      new ++ readIn ws ((r.readInto b e (r.unread + 1) buffer).1, false) =
        readIn (window b e :: ws) (r, false)) ∧
    (Sorted buffer → Sorted (r.readInto b e (r.unread + 1) buffer).2) ∧
    Keeps r (r.readInto b e (r.unread + 1) buffer).1 := by
  by_cases hov : Overlaps r.header (window b e)
  · obtain ⟨hitems, hbuffer, hkeeps⟩ := readInto_spec hbe hr hov
      (lt_succ_of_le (entries_items_le r)) buffer
    obtain ⟨hperm, hsorted⟩ := foldl_emplace (pass time (window b e) r.items).1 buffer
    rw [hbuffer]
    refine ⟨⟨_, hperm, fun m hm => ?_, ?_⟩, hsorted, hkeeps⟩
    · exact le_iff_toNat_le.2 (pass_mem time m hm).2
    · have hspaced : Spaced (window b e :: ws.filter (Overlaps r.header ·)) :=
        hws.sublist (filter_sublist.cons_cons _)
      rw [readIn, readIn, header, hkeeps.file, hitems, filter_cons_of_pos (by simpa using hov)]
      exact (scan_cons hspaced r.items).symm
  · rw [readInto_outside hov]
    refine ⟨⟨[], by rw [append_nil], by simp, ?_⟩, id, hr, rfl⟩
    exact (readIn_cons_of_not hov ws).symm

theorem readAll_spec {b e : UInt64} (ws : List (Window Nat)) (hbe : b ≤ e)
    (hws : Spaced (window b e :: ws)) (readers : List (RecordReader × Bool))
    (buffer : List SingleMessage) (hr : ∀ r ∈ readers, ReaderOk (window b e) r) :
    (∃ new, (readAll b e readers buffer).2.Perm (buffer ++ new) ∧
      (∀ m ∈ new, m.time ≤ e) ∧
      (new ++ (readAll b e readers buffer).1.flatMap (readIn ws)).Perm
        (readers.flatMap (readIn (window b e :: ws)))) ∧
    (Sorted buffer → Sorted (readAll b e readers buffer).2) ∧
    ∀ r ∈ (readAll b e readers buffer).1, ReaderOk (window b e) r := by
  induction readers generalizing buffer with
  | nil => exact ⟨⟨[], by simp [readAll], by simp, .refl _⟩, id, by simp [readAll]⟩
  | cons p readers ih =>
    obtain ⟨r, finished⟩ := p
    obtain ⟨hok, hfin⟩ := hr _ mem_cons_self
    have hr' : ∀ r ∈ readers, ReaderOk (window b e) r := fun r h => hr r (mem_cons_of_mem _ h)
    cases finished with
    | true =>
      -- not read: no window is left for it
      obtain ⟨⟨new, hperm, hle, hnew⟩, hsorted, hrs⟩ := ih buffer hr'
      have hnot : ¬ Overlaps r.header (window b e) := fun hov =>
        absurd hov.1 (not_le.2 (hfin rfl))
      refine ⟨⟨new, hperm, hle, ?_⟩, hsorted, ?_⟩
      · rw [readAll, flatMap_cons, flatMap_cons, readIn_cons_of_not hnot]
        exact (perm_append_comm_assoc _ _ _).trans (hnew.append_left _)
      · intro q hq
        rcases mem_cons.1 hq with rfl | hq
        · exact ⟨hok, hfin⟩
        · exact hrs q hq
    | false =>
      obtain ⟨⟨new₁, hperm₁, hle₁, hnew₁⟩, hsorted₁, hkeeps⟩ := readInto_window hbe hws hok buffer
      obtain ⟨⟨new₂, hperm₂, hle₂, hnew₂⟩, hsorted₂, hrs⟩ :=
        ih (r.readInto b e (r.unread + 1) buffer).2 hr'
      refine ⟨⟨new₁ ++ new₂, ?_, ?_, ?_⟩, fun h => hsorted₂ (hsorted₁ h), ?_⟩
      · exact hperm₂.trans ((hperm₁.append_right new₂).trans (by rw [append_assoc]))
      · intro m hm
        exact (mem_append.1 hm).elim (hle₁ m) (hle₂ m)
      · rw [readAll, flatMap_cons, flatMap_cons, ← hnew₁, append_assoc, append_assoc]
        exact ((perm_append_comm_assoc _ _ _).trans (hnew₂.append_left _)).append_left new₁
      · intro q hq
        rcases mem_cons.1 hq with rfl | hq
        · exact ⟨hkeeps.ok, by simp⟩
        · exact hrs q hq

def windows (v : RecordViewer) : List (Window Nat) :=
  windowsFrom v.currBeginTime.toNat v.endTime.toNat

def pending (v : RecordViewer) : List SingleMessage :=
  v.msgBuffer ++ v.readers.flatMap (readIn v.windows)

structure Inv (v : RecordViewer) : Prop where
  last : v.endTime.toNat + stepNanoSec < 2 ^ 64
  readers : ∀ r ∈ v.readers, r.1.Ok ∧
    (r.2 = true → r.1.header.endTime.toNat < v.currBeginTime.toNat)
  sorted : Sorted v.msgBuffer
  earlier : ∀ m ∈ v.msgBuffer, m.time < v.currBeginTime

section
variable {v t : RecordViewer} {fuel : Nat}

theorem toNat_windowEnd (h : Inv v) (hc : v.currBeginTime ≤ v.endTime) :
    v.windowEnd.toNat = min (v.currBeginTime.toNat + stepNanoSec) v.endTime.toNat := by
  have hle := le_iff_toNat_le.1 hc
  have hlast := h.last
  have hadd : (v.currBeginTime + kStepTimeNanoSec).toNat = v.currBeginTime.toNat + stepNanoSec := by
    have hk : kStepTimeNanoSec.toNat = stepNanoSec := rfl
    rw [UInt64.toNat_add, hk]
    exact mod_eq_of_lt (by omega)
  unfold windowEnd
  dsimp only
  split
  · rename_i hgt
    have := lt_iff_toNat_lt.1 hgt
    omega
  · rename_i hgt
    have := le_iff_toNat_le.1 (UInt64.not_lt.1 hgt)
    omega

theorem toNat_windowEnd_succ (h : Inv v) (hc : v.currBeginTime ≤ v.endTime) :
    (v.windowEnd + 1).toNat = v.windowEnd.toNat + 1 := by
  have hend := toNat_windowEnd h hc
  have hlast := h.last
  have hone : (1 : UInt64).toNat = 1 := rfl
  have hstep : stepNanoSec = 1000000000 := rfl
  rw [UInt64.toNat_add, hone]
  exact mod_eq_of_lt (by omega)

theorem readIn_markFinished {b : UInt64} {e : Nat} (r : RecordReader × Bool) :
    readIn (windowsFrom b.toNat e) (markFinished b r) = readIn (windowsFrom b.toNat e) r := by
  unfold markFinished
  split
  · rename_i hm
    have hlt : r.1.header.endTime < b := of_decide_eq_true (Bool.and_eq_true_iff.1 hm).2
    have hnil := filter_overlaps_eq_nil (h := r.1.header) (e := e) (lt_iff_toNat_lt.1 hlt)
    have hreset : r.1.reset.header = r.1.header := rfl
    rw [readIn, readIn, hreset, hnil, scan_nil, scan_nil]
  · rfl

theorem markFinished_ok {b e : UInt64} (hr : r.1.Ok)
    (hf : r.2 = true → r.1.header.endTime.toNat < b.toNat) :
    ReaderOk (window b e) (markFinished b r) := by
  unfold markFinished
  split
  · rename_i hm
    have hlt : r.1.header.endTime < b := of_decide_eq_true (Bool.and_eq_true_iff.1 hm).2
    exact ⟨⟨hr.valid, .inl r.1.file.wellFormed⟩, fun _ => lt_iff_toNat_lt.1 hlt⟩
  · exact ⟨hr, hf⟩

theorem windows_fillWindow :
    v.fillWindow.windows = windowsFrom (v.windowEnd + 1).toNat v.endTime.toNat := rfl

theorem fillWindow_spec (h : Inv v) (hc : v.currBeginTime ≤ v.endTime) :
    Inv v.fillWindow ∧ v.fillWindow.pending.Perm v.pending ∧
      v.fillWindow.windows.length < v.windows.length := by
  have hend := toNat_windowEnd h hc
  have hsucc := toNat_windowEnd_succ h hc
  have hle := le_iff_toNat_le.1 hc
  have hwindow : window v.currBeginTime v.windowEnd =
      ⟨v.currBeginTime.toNat, min (v.currBeginTime.toNat + stepNanoSec) v.endTime.toNat⟩ := by
    rw [window, hend]
  -- the windows before and after
  have hws : v.windows = window v.currBeginTime v.windowEnd :: v.fillWindow.windows := by
    rw [windows, windowsFrom_cons hle, hwindow, ← hend, ← hsucc, windows_fillWindow]
  have hbe : v.currBeginTime ≤ v.windowEnd := by
    rw [le_iff_toNat_le, hend]
    omega
  obtain ⟨⟨new, hperm, hnew, hread⟩, hsorted, hrs⟩ :=
    readAll_spec v.fillWindow.windows hbe (hws ▸ spaced_windowsFrom _ _)
      (v.readers.map (markFinished v.currBeginTime)) v.msgBuffer (by
        intro r hr
        obtain ⟨q, hq, rfl⟩ := mem_map.1 hr
        exact markFinished_ok (h.readers q hq).1 (h.readers q hq).2)
  refine ⟨⟨h.last, fun r hr => ?_, hsorted h.sorted, fun m hm => ?_⟩, ?_, ?_⟩
  · obtain ⟨hok, hfin⟩ := hrs r hr
    refine ⟨hok, fun hf => ?_⟩
    show _ < (v.windowEnd + 1).toNat
    have hlo : _ < v.currBeginTime.toNat := hfin hf
    omega
  · show m.time < v.windowEnd + 1
    rw [lt_iff_toNat_lt, hsucc]
    rcases mem_append.1 (hperm.subset hm) with hm | hm
    · have := lt_iff_toNat_lt.1 (h.earlier m hm)
      omega
    · exact lt_succ_of_le (le_iff_toNat_le.1 (hnew m hm))
  · have hmarked : (v.readers.map (markFinished v.currBeginTime)).flatMap (readIn v.windows) =
        v.readers.flatMap (readIn v.windows) := by
      rw [flatMap_map]
      exact congrArg (List.flatMap · v.readers) (funext readIn_markFinished)
    rw [pending, pending, ← hmarked]
    refine (hperm.append_right _).trans ?_
    rw [append_assoc]
    refine List.Perm.append_left _ ?_
    rw [hws]
    exact hread
  · rw [hws, length_cons]
    exact Nat.lt_succ_self _

structure Fills (v t : RecordViewer) : Prop where
  inv : Inv t
  pending : t.pending.Perm v.pending
  channels : t.channels = v.channels
  windows_le : t.windows.length ≤ v.windows.length

theorem Fills.fillWindow (h : Fills v t) (hc : t.currBeginTime ≤ t.endTime) :
    Fills v t.fillWindow := by
  obtain ⟨hinv, hperm, hlt⟩ := fillWindow_spec h.inv hc
  exact ⟨hinv, hperm.trans h.pending, h.channels, le_trans (le_of_lt hlt) h.windows_le⟩

/-- **`FillBuffer` loses nothing**, and leaves the buffer empty only at the end. -/
theorem fillBuffer_spec (h : Inv v)
    (hf : v.fillBuffer fuel = some t) : Fills v t ∧ (t.msgBuffer = [] → t.pending = []) := by
  have hexit := loop_exit (I := Fills v) (fun s s' hs hc hb => by
    cases hb
    exact hs.fillWindow (of_decide_eq_true (Bool.and_eq_true_iff.1 hc).1))
    ⟨h, .refl _, rfl, le_refl _⟩ hf
  rcases hexit with ⟨hfills, hcond⟩ | ⟨s, -, -, hb⟩
  · refine ⟨hfills, fun hnil => ?_⟩
    have hlt : t.endTime < t.currBeginTime := by
      rw [hnil] at hcond
      simpa [kBufferMinSize, UInt64.not_le] using hcond
    rw [pending, hnil, windows, windowsFrom_eq_nil (lt_iff_toNat_lt.1 hlt)]
    simp only [nil_append, flatMap_eq_nil_iff]
    exact fun r _ => scan_nil _
  · cases hb

theorem fillBuffer_ends (h : Inv v) (hf : v.windows.length < fuel) :
    ∃ t, v.fillBuffer fuel = some t := by
  refine loop_ends (I := Inv) (fun v => v.windows.length) (fun s s' hs hc hb => ?_) h hf
  cases hb
  obtain ⟨hinv, -, hlt⟩ := fillWindow_spec hs (of_decide_eq_true (Bool.and_eq_true_iff.1 hc).1)
  exact ⟨hinv, hlt⟩

end

end RecordViewer

end Record
