import Mathlib.Algebra.Order.Ring.Int
import Mathlib.Data.List.Basic

/-!
# A sequence read through windows

Entries with times come one after the other, in chunks, and are read through windows `[lo, hi]`.
-/

namespace Lib

open List

structure Window (τ : Type*) where
  lo : τ
  hi : τ

inductive Item (τ μ : Type*) where
  | gate (begin : τ)
  | entry (m : μ)

variable {τ μ : Type*} [LinearOrder τ] {ws : List (Window τ)} {w : Window τ}

def Spaced (ws : List (Window τ)) : Prop :=
  (∀ w ∈ ws, w.lo ≤ w.hi) ∧ ws.Pairwise fun w w' => w.hi < w'.lo

theorem Spaced.sublist {ws ws' : List (Window τ)} (h : Spaced ws) (hs : ws'.Sublist ws) :
    Spaced ws' :=
  ⟨fun w hw => h.1 w (hs.subset hw), h.2.sublist hs⟩

theorem Spaced.tail (h : Spaced (w :: ws)) : Spaced ws :=
  h.sublist (sublist_cons_self w ws)

theorem Spaced.later (h : Spaced (w :: ws)) : ∀ w' ∈ ws, w.hi < w'.lo :=
  (pairwise_cons.1 h.2).1

section
variable (time : μ → τ) {l l' : List (Item τ μ)} {m : μ} {ms : List μ}

/-! ## One window -/

def next (w : Window τ) : List (Item τ μ) → Option μ × List (Item τ μ)
  | [] => (none, [])
  | .gate t :: l => if w.hi < t then (none, l) else next w l
  | .entry m :: l =>
    if w.hi < time m then (none, .entry m :: l)
    else if time m < w.lo then next w l
    else (some m, l)

def pass (w : Window τ) : List (Item τ μ) → List μ × List (Item τ μ)
  | [] => ([], [])
  | .gate t :: l => if w.hi < t then ([], l) else pass w l
  | .entry m :: l =>
    if w.hi < time m then ([], .entry m :: l)
    else if time m < w.lo then pass w l
    else (m :: (pass w l).1, (pass w l).2)

theorem pass_of_next_none (h : next time w l = (none, l')) : pass time w l = ([], l') := by
  induction l with
  | nil =>
    cases h
    rfl
  | cons x l ih =>
    cases x with
    | gate t =>
      unfold next at h
      unfold pass
      grind
    | entry m =>
      unfold next at h
      unfold pass
      grind

theorem pass_of_next_some (h : next time w l = (some m, l')) :
    pass time w l = (m :: (pass time w l').1, (pass time w l').2) := by
  induction l with
  | nil => cases h
  | cons x l ih =>
    cases x with
    | gate t =>
      unfold next at h
      split at h
      · cases h
      · rename_i ht
        rw [pass, if_neg ht]
        exact ih h
    | entry m' =>
      unfold next at h
      split at h
      · cases h
      · rename_i ht
        split at h
        · rename_i hlo
          rw [pass, if_neg ht, if_pos hlo]
          exact ih h
        · rename_i hlo
          cases h
          rw [pass, if_neg ht, if_neg hlo]

def entries (l : List (Item τ μ)) : List μ :=
  l.filterMap fun
    | .gate _ => none
    | .entry m => some m

theorem next_entries_length
    (h : next time w l = (some m, l')) : (entries l').length < (entries l).length := by
  induction l with
  | nil => cases h
  | cons x l ih =>
    cases x with
    | gate t =>
      unfold next at h
      split at h
      · cases h
      · exact ih h
    | entry m' =>
      unfold next at h
      split at h
      · cases h
      · split at h
        · exact Nat.lt_succ_of_lt (ih h)
        · cases h
          exact Nat.lt_succ_self _

theorem next_drop (h : ∀ m ∈ ms, time m < w.lo ∧ time m ≤ w.hi)
    (l : List (Item τ μ)) : next time w (ms.map .entry ++ l) = next time w l := by
  induction ms with
  | nil => rfl
  | cons m ms ih =>
    obtain ⟨hlo, hhi⟩ := h m mem_cons_self
    rw [map_cons, cons_append, next, if_neg (not_lt.2 hhi), if_pos hlo]
    exact ih fun m' hm' => h m' (mem_cons_of_mem m hm')

theorem pass_mem {l : List (Item τ μ)} :
    ∀ m ∈ (pass time w l).1, w.lo ≤ time m ∧ time m ≤ w.hi := by
  induction l with
  | nil => simp [pass]
  | cons x l ih =>
    cases x with
    | gate t =>
      unfold pass
      split
      · simp
      · exact ih
    | entry m =>
      unfold pass
      grind

theorem pass_all {l : List (Item τ μ)} (hgate : ∀ t, .gate t ∈ l → t ≤ w.hi)
    (hentry : ∀ m, .entry m ∈ l → w.lo ≤ time m ∧ time m ≤ w.hi) :
    (pass time w l).1 = entries l := by
  induction l with
  | nil => rfl
  | cons x l ih =>
    have ih := ih (fun t ht => hgate t (mem_cons_of_mem x ht))
      fun m hm => hentry m (mem_cons_of_mem x hm)
    cases x with
    | gate t =>
      rw [pass, if_neg (not_lt.2 (hgate t mem_cons_self)), ih]
      rfl
    | entry m =>
      obtain ⟨hlo, hhi⟩ := hentry m mem_cons_self
      rw [pass, if_neg (not_lt.2 hhi), if_neg (not_lt.2 hlo), ih]
      rfl

/-! ## All windows -/

def passGate (t : τ) : List (Window τ) → List (Window τ)
  | [] => []
  | w :: ws => if w.hi < t then ws else w :: ws

def reach (ms : List μ) (ws : List (Window τ)) : List (Window τ) :=
  ws.filter fun w => ms.all fun m => time m ≤ w.hi

def scan : List (Window τ) → List (Item τ μ) → List μ
  | _, [] => []
  | ws, .gate t :: l => scan (passGate t ws) l
  | ws, .entry m :: l =>
    if (reach time [m] ws).any fun w => w.lo ≤ time m then m :: scan (reach time [m] ws) l
    else scan (reach time [m] ws) l

variable {time}

theorem mem_reach : w ∈ reach time ms ws ↔ w ∈ ws ∧ ∀ m ∈ ms, time m ≤ w.hi := by
  simp [reach]

theorem reach_append (ms ms' : List μ) (ws : List (Window τ)) :
    reach time (ms ++ ms') ws = reach time ms' (reach time ms ws) := by
  simp only [reach, filter_filter, all_append]
  grind

theorem Spaced.reach (h : Spaced ws) (ms : List μ) : Spaced (reach time ms ws) :=
  h.sublist filter_sublist

theorem reach_of_le (hw : Spaced (w :: ws))
    (hm : time m ≤ w.hi) : Lib.reach time [m] (w :: ws) = w :: ws := by
  refine filter_eq_self.2 fun w' hw' => ?_
  rw [all_cons, all_nil, Bool.and_true, decide_eq_true_iff]
  rcases mem_cons.1 hw' with rfl | hw'
  · exact hm
  · exact hm.trans ((hw.later w' hw').le.trans (hw.tail.1 w' hw'))

theorem scan_cons (hw : Spaced (w :: ws)) (l : List (Item τ μ)) :
    scan time (w :: ws) l = (pass time w l).1 ++ scan time ws (pass time w l).2 := by
  induction l with
  | nil => rfl
  | cons x l ih =>
    cases x with
    | gate t =>
      rw [scan, passGate, pass]
      grind
    | entry m =>
      by_cases ht : w.hi < time m
      · have hdrop : Lib.reach time [m] (w :: ws) = Lib.reach time [m] ws :=
          filter_cons_of_neg (by simpa using ht)
        rw [pass, if_pos ht, scan, hdrop]
        rfl
      · have hle : time m ≤ w.hi := not_lt.1 ht
        have hany : ((w :: ws).any fun w => w.lo ≤ time m) = decide (w.lo ≤ time m) := by
          have hlate : (ws.any fun w => w.lo ≤ time m) = false := by
            rw [any_eq_false]
            intro w' hw'
            rw [decide_eq_true_iff, not_le]
            exact hle.trans_lt (hw.later w' hw')
          rw [any_cons, hlate, Bool.or_false]
        rw [scan, reach_of_le hw hle, hany, pass, if_neg ht]
        grind

theorem scan_nil (l : List (Item τ μ)) : scan time [] l = [] := by
  induction l with
  | nil => rfl
  | cons x l ih =>
    cases x with
    | gate t => exact ih
    | entry m => exact ih

theorem passGate_subset (t : τ) (ws : List (Window τ)) : passGate t ws ⊆ ws := by
  cases ws with
  | nil => exact List.Subset.refl _
  | cons w ws =>
    rw [passGate]
    grind

theorem scan_mem {l : List (Item τ μ)} (h : m ∈ scan time ws l) :
    ∃ w ∈ ws, w.lo ≤ time m ∧ time m ≤ w.hi := by
  induction l generalizing ws with
  | nil => cases h
  | cons x l ih =>
    cases x with
    | gate t =>
      obtain ⟨w, hw, hm⟩ := ih h
      exact ⟨w, passGate_subset t ws hw, hm⟩
    | entry m' =>
      have hrest : m ∈ scan time (Lib.reach time [m'] ws) l →
          ∃ w ∈ ws, w.lo ≤ time m ∧ time m ≤ w.hi := by
        intro hm
        obtain ⟨w, hw, hin⟩ := ih hm
        exact ⟨w, (mem_reach.1 hw).1, hin⟩
      unfold scan at h
      split at h
      · rename_i hany
        rcases mem_cons.1 h with rfl | h
        · obtain ⟨w, hw, hlo⟩ := any_eq_true.1 hany
          obtain ⟨hw, hle⟩ := mem_reach.1 hw
          exact ⟨w, hw, of_decide_eq_true hlo, hle m mem_cons_self⟩
        · exact hrest h
      · exact hrest h

/-! ## Chunks -/

def chunkItems (chunks : List (τ × List μ)) : List (Item τ μ) :=
  chunks.flatMap fun c => .gate c.1 :: c.2.map .entry

omit [LinearOrder τ] in
theorem entries_chunkItems (chunks : List (τ × List μ)) :
    entries (chunkItems chunks) = chunks.flatMap Prod.snd := by
  induction chunks with
  | nil => rfl
  | cons c cs ih =>
    have hcons : entries (chunkItems (c :: cs)) =
        entries (c.2.map (Item.entry : μ → Item τ μ)) ++ entries (chunkItems cs) :=
      filterMap_append
    have hmap : entries (c.2.map (Item.entry : μ → Item τ μ)) = c.2 := by
      rw [entries, filterMap_map]
      exact filterMap_some
    rw [hcons, hmap, ih, flatMap_cons]

end

structure Occ (τ μ : Type*) where
  entry : μ
  gate : τ
  chunksBefore : List μ
  before : List μ

def occsIn (chunksBefore : List μ) (gate : τ) : List μ → List μ → List (Occ τ μ)
  | _, [] => []
  | before, m :: ms => ⟨m, gate, chunksBefore, before⟩ :: occsIn chunksBefore gate (before ++ [m]) ms

def occs : List μ → List (τ × List μ) → List (Occ τ μ)
  | _, [] => []
  | chunksBefore, c :: cs => occsIn chunksBefore c.1 [] c.2 ++ occs (chunksBefore ++ c.2) cs

omit [LinearOrder τ] in
theorem occsIn_entries (chunksBefore : List μ) (gate : τ) (before ms : List μ) :
    (occsIn chunksBefore gate before ms).map Occ.entry = ms := by
  induction ms generalizing before with
  | nil => rfl
  | cons m ms ih => rw [occsIn, map_cons, ih]

omit [LinearOrder τ] in
theorem occs_entries (chunksBefore : List μ) (chunks : List (τ × List μ)) :
    (occs chunksBefore chunks).map Occ.entry = chunks.flatMap Prod.snd := by
  induction chunks generalizing chunksBefore with
  | nil => rfl
  | cons c cs ih => rw [occs, map_append, occsIn_entries, ih, flatMap_cons]

section
variable (time : μ → τ)

/-- **An entry that is read**: a window that begins before it and that no entry up to it is later
than. -/
def Readable (ws : List (Window τ)) (o : Occ τ μ) : Prop :=
  ∃ w ∈ ws, w.lo ≤ time o.entry ∧
    (∀ m ∈ o.chunksBefore ++ o.before ++ [o.entry], time m ≤ w.hi) ∧
    (o.gate ≤ w.hi ∨ ∃ w' ∈ ws, w'.hi < w.lo ∧ ∀ m ∈ o.chunksBefore, time m ≤ w'.hi)

instance (ws : List (Window τ)) (o : Occ τ μ) : Decidable (Readable time ws o) := by
  unfold Readable
  infer_instance

variable {time}

theorem mem_passGate {t : τ} (hs : Spaced ws) :
    w ∈ passGate t ws ↔ w ∈ ws ∧ (t ≤ w.hi ∨ ∃ w' ∈ ws, w'.hi < w.lo) := by
  cases ws with
  | nil => simp [passGate]
  | cons v ws =>
    have hself : ∀ w' ∈ v :: ws, ¬ w'.hi < v.lo := by
      intro w' hw' hlt
      rcases mem_cons.1 hw' with rfl | hw'
      · exact absurd (hs.1 w' mem_cons_self) (not_le.2 hlt)
      · have hle : v.lo ≤ w'.hi :=
          (hs.1 v mem_cons_self).trans ((hs.later w' hw').le.trans (hs.tail.1 w' hw'))
        exact absurd hle (not_le.2 hlt)
    rw [passGate]
    by_cases ht : v.hi < t
    · rw [if_pos ht]
      refine ⟨fun hw => ?_, ?_⟩
      · exact ⟨mem_cons_of_mem v hw, .inr ⟨v, mem_cons_self, hs.later w hw⟩⟩
      · grind
    · rw [if_neg ht]
      refine ⟨fun hw => ⟨hw, ?_⟩, And.left⟩
      rcases mem_cons.1 hw with rfl | hw
      · exact .inl (not_lt.1 ht)
      · exact .inr ⟨v, mem_cons_self, hs.later w hw⟩

theorem reach_passGate {t : τ} {ms : List μ} (h : ∃ m ∈ ms, t ≤ time m) (ws : List (Window τ)) :
    reach time ms (passGate t ws) = reach time ms ws := by
  cases ws with
  | nil => rfl
  | cons w ws =>
    rw [passGate]
    by_cases ht : w.hi < t
    · have hlate : ¬ (ms.all fun m => time m ≤ w.hi) = true := by grind
      rw [if_pos ht]
      rw [reach, reach, filter_cons, if_neg hlate]
    · rw [if_neg ht]

theorem readable_iff (time : μ → τ) (hs : Spaced ws) (o : Occ τ μ) :
    Readable time ws o ↔ ((reach time (o.before ++ [o.entry])
      (passGate o.gate (reach time o.chunksBefore ws))).any fun w => w.lo ≤ time o.entry) = true := by
  simp only [any_eq_true, decide_eq_true_iff, mem_reach, mem_passGate (hs.reach _), Readable,
    append_assoc, mem_append]
  grind

theorem scan_entries (time : μ → τ) (hs : Spaced ws) (P : List μ) (t : τ) (Q ms : List μ)
    (l : List (Item τ μ)) :
    scan time (reach time Q (passGate t (reach time P ws))) (ms.map .entry ++ l) =
      ((occsIn P t Q ms).filter (Readable time ws ·)).map Occ.entry ++
        scan time (reach time (Q ++ ms) (passGate t (reach time P ws))) l := by
  induction ms generalizing Q with
  | nil => rw [append_nil]; rfl
  | cons m ms ih =>
    have hread := readable_iff time hs ⟨m, t, P, Q⟩
    rw [map_cons, cons_append, scan, ← reach_append, occsIn, ih, append_assoc,
      cons_append, nil_append]
    grind

theorem scan_items (time : μ → τ) (hs : Spaced ws) (chunks : List (τ × List μ))
    (hc : ∀ c ∈ chunks, ∃ m ∈ c.2, c.1 ≤ time m) (P : List μ) :
    scan time (reach time P ws) (chunkItems chunks) =
      ((occs P chunks).filter (Readable time ws ·)).map Occ.entry := by
  induction chunks generalizing P with
  | nil => rfl
  | cons c cs ih =>
    have hnil : ∀ vs : List (Window τ), reach time ([] : List μ) vs = vs :=
      fun vs => filter_eq_self.2 fun _ _ => rfl
    have hin := scan_entries time hs P c.1 [] c.2 (chunkItems cs)
    rw [hnil, nil_append, reach_passGate (hc c mem_cons_self), ← reach_append,
      ih (fun c' hc' => hc c' (mem_cons_of_mem c hc'))] at hin
    rw [occs, filter_append, map_append]
    exact hin

end

/-!
## Cursors

A cursor over a source holds an entry, or none at the end; to move on it takes the next one from the
source, which changes with it.
-/

variable {σ μ : Type*}

inductive Passes (next : σ → Option μ → σ → Prop) :
    Option μ × σ → List μ → Option μ × σ → Prop
  | refl (p : Option μ × σ) : Passes next p [] p
  | step {s s' : σ} {m : μ} {itr : Option μ} {l : List μ} {q : Option μ × σ} (h : next s itr s')
      (rest : Passes next (itr, s') l q) : Passes next (some m, s) (m :: l) q

variable {next next' : σ → Option μ → σ → Prop} {p q : Option μ × σ} {l l' : List μ} {s : σ}

theorem Passes.mono (h : Passes next p l q) (hn : ∀ s itr s', next s itr s' → next' s itr s') :
    Passes next' p l q := by
  induction h with
  | refl p => exact .refl p
  | step h _ ih => exact .step (hn _ _ _ h) ih

theorem Passes.snoc {s' : σ} {m : μ} {itr : Option μ} (h : Passes next p l (some m, s))
    (hn : next s itr s') : Passes next p (l ++ [m]) (itr, s') := by
  generalize hq : (some m, s) = q at h
  induction h with
  | refl p =>
    subst hq
    exact .step hn (.refl _)
  | step h _ ih => exact .step h (ih hq)

theorem Passes.eq_nil (h : Passes next (none, s) l q) : l = [] ∧ q = (none, s) := by
  cases h
  exact ⟨rfl, rfl⟩

theorem Passes.cons_inv {m : μ} {t : σ} (h : Passes next (some m, s) l (none, t)) :
    ∃ itr s' l', l = m :: l' ∧ next s itr s' ∧ Passes next (itr, s') l' (none, t) := by
  cases h with
  | step hn rest => exact ⟨_, _, _, rfl, hn, rest⟩

theorem Passes.left {t : σ} (h : Passes next p l q) (h' : Passes next p l' (none, t))
    (hdet : ∀ s i i' t t', next s i t → next s i' t' → i = i' ∧ t = t') :
    ∃ r, l' = l ++ r ∧ Passes next q r (none, t) := by
  induction h generalizing l' with
  | refl p => exact ⟨l', rfl, h'⟩
  | step hn _ ih =>
    obtain ⟨itr, s', r, rfl, hn', hrest⟩ := h'.cons_inv
    grind

end Lib
