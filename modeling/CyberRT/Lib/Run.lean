import Mathlib.Algebra.Order.Ring.Int
import Mathlib.Data.List.Basic

/-!
# Runs of a deterministic machine

A run from `s` over the inputs `l` is `l.foldl step s`. `Along step ok s l`: every step meets `ok`
in the state before it.
-/

namespace Lib

open List

variable {σ τ α : Type*}

def Along (step : σ → α → σ) (ok : σ → α → Prop) : σ → List α → Prop
  | _, [] => True
  | s, a :: l => ok s a ∧ Along step ok (step s a) l

def Always (step : σ → α → σ) (P : σ → Prop) : σ → List α → Prop
  | s, [] => P s
  | s, a :: l => P s ∧ Always step P (step s a) l

instance Along.decidable {step : σ → α → σ} {ok : σ → α → Prop} [∀ s a, Decidable (ok s a)] :
    ∀ (s : σ) (l : List α), Decidable (Along step ok s l)
  | _, [] => isTrue trivial
  | s, a :: l =>
    have : Decidable (Along step ok (step s a) l) := Along.decidable _ l
    inferInstanceAs (Decidable (ok s a ∧ Along step ok (step s a) l))

instance Always.decidable {step : σ → α → σ} {P : σ → Prop} [DecidablePred P] :
    ∀ (s : σ) (l : List α), Decidable (Always step P s l)
  | s, [] => inferInstanceAs (Decidable (P s))
  | s, a :: l =>
    have : Decidable (Always step P (step s a) l) := Always.decidable _ l
    inferInstanceAs (Decidable (P s ∧ Always step P (step s a) l))

section
variable {step : σ → α → σ} {ok : σ → α → Prop} {P : σ → Prop} {l : List α} {Q : σ → Prop}

theorem along_append {s : σ} {l l' : List α} :
    Along step ok s (l ++ l') ↔ Along step ok s l ∧ Along step ok (l.foldl step s) l' := by
  induction l generalizing s with
  | nil => simp [Along]
  | cons a l ih => simp only [cons_append, Along, foldl_cons, ih, and_assoc]

theorem along_iff {s : σ} :
    Along step ok s l ↔ ∀ pre a suf, l = pre ++ a :: suf → ok (pre.foldl step s) a := by
  refine ⟨fun h pre a suf hl => ?_, fun h => ?_⟩
  · subst hl
    exact (along_append.1 h).2.1
  · induction l generalizing s with
    | nil => trivial
    | cons a l ih =>
      refine ⟨h [] a l rfl, ih fun pre b suf hl => ?_⟩
      exact h (a :: pre) b suf (by rw [hl, cons_append])

theorem always_iff {s : σ} :
    Always step P s l ↔ ∀ pre suf, l = pre ++ suf → P (pre.foldl step s) := by
  induction l generalizing s with
  | nil =>
    refine ⟨fun h pre suf hl => ?_, fun h => h [] [] rfl⟩
    obtain ⟨rfl, -⟩ := append_eq_nil_iff.1 hl.symm
    exact h
  | cons a l ih =>
    refine ⟨fun h pre suf hl => ?_, fun h => ⟨h [] _ rfl, ih.2 fun pre suf hl => ?_⟩⟩
    · cases pre with
      | nil => exact h.1
      | cons b pre =>
        simp only [cons_append, List.cons.injEq] at hl
        obtain ⟨rfl, hl⟩ := hl
        exact ih.1 h.2 pre suf hl
    · exact h (a :: pre) suf (by rw [hl, cons_append])

theorem Always.head {s : σ} (h : Always step P s l) : P s :=
  always_iff.1 h [] l rfl

theorem Always.last {s : σ} (h : Always step P s l) : P (l.foldl step s) :=
  always_iff.1 h l [] (by simp)

theorem Always.imp {s : σ} (h : Always step P s l) (hPQ : ∀ s, P s → Q s) : Always step Q s l :=
  always_iff.2 fun pre suf hl => hPQ _ (always_iff.1 h pre suf hl)

theorem Along.always {s : σ} (h : Along step ok s l) (h0 : P s)
    (hs : ∀ s a, P s → ok s a → P (step s a)) : Always step P s l := by
  induction l generalizing s with
  | nil => exact h0
  | cons a l ih => exact ⟨h0, ih h.2 (hs s a h0 h.1)⟩

theorem Along.inv {s : σ} (h : Along step ok s l) (h0 : P s)
    (hs : ∀ s a, P s → ok s a → P (step s a)) : P (l.foldl step s) :=
  (h.always h0 hs).last

theorem always_of_inv {s : σ} (h0 : P s)
    (hs : ∀ s a, P s → P (step s a)) (hPQ : ∀ s, P s → Q s) : Always step Q s l := by
  induction l generalizing s with
  | nil => exact hPQ s h0
  | cons a l ih => exact ⟨hPQ s h0, ih (hs s a h0)⟩

theorem along_of_inv {s : σ} (h0 : P s) (hok : ∀ s a, P s → ok s a)
    (hs : ∀ s a, P s → P (step s a)) : Along step ok s l := by
  induction l generalizing s with
  | nil => exact trivial
  | cons a l ih => exact ⟨hok s a h0, ih (hs s a h0)⟩

theorem Along.sim {stepT : τ → α → τ} {R : σ → τ → Prop} {s : σ} {t : τ}
    (h : Along step ok s l) (h0 : R s t) (hs : ∀ s t a, R s t → ok s a → R (step s a) (stepT t a)) :
    R (l.foldl step s) (l.foldl stepT t) := by
  induction l generalizing s t with
  | nil => exact h0
  | cons a l ih => exact ih h.2 (hs s t a h0 h.1)

theorem not_along {s : σ} (h : ¬ Along step ok s l) :
    ∃ pre a suf, l = pre ++ a :: suf ∧ Along step ok s pre ∧ ¬ ok (pre.foldl step s) a := by
  induction l generalizing s with
  | nil => exact absurd trivial h
  | cons a l ih =>
    by_cases ha : ok s a
    · obtain ⟨pre, b, suf, rfl, hp, hb⟩ := ih fun hl => h ⟨ha, hl⟩
      exact ⟨a :: pre, b, suf, rfl, ⟨ha, hp⟩, hb⟩
    · exact ⟨[], a, l, rfl, trivial, ha⟩

/-- **The exact condition of how a run ends**: the steps that meet `ok` keep `C`, a step that fails
it leads to `L`, and no step leaves `L`. -/
theorem along_or {C L : σ → Prop} {s : σ} (h0 : C s)
    (hC : ∀ s a, C s → ok s a → C (step s a)) (hL : ∀ s a, C s → ¬ ok s a → L (step s a))
    (hkeep : ∀ s a, L s → L (step s a)) :
    Along step ok s l ∧ C (l.foldl step s) ∨ ¬ Along step ok s l ∧ L (l.foldl step s) := by
  by_cases h : Along step ok s l
  · exact .inl ⟨h, h.inv h0 hC⟩
  · obtain ⟨pre, a, suf, rfl, hpre, ha⟩ := not_along h
    refine .inr ⟨h, ?_⟩
    rw [foldl_append, foldl_cons]
    exact List.foldlRecOn suf step (hL _ a (hpre.inv h0 hC) ha) fun s hs a _ => hkeep s a hs

/-- **The exact condition of a property**, of a run that meets `room`: if an invariant `P` gives the
property `Q` and is kept by the steps that meet `ok`, and a step from `P` that leaves `Q` true meets
`ok`, then `Q` holds throughout the run exactly when it meets `ok` throughout. -/
theorem Along.always_iff {room : σ → α → Prop} {s : σ}
    (h : Along step room s l) (h0 : P s) (hPQ : ∀ s, P s → Q s)
    (hs : ∀ s a, P s → room s a → ok s a → P (step s a))
    (hok : ∀ s a, P s → room s a → Q (step s a) → ok s a) :
    Always step Q s l ↔ Along step ok s l := by
  induction l generalizing s with
  | nil => exact iff_of_true (hPQ s h0) trivial
  | cons a l ih =>
    constructor
    · intro hQ
      have ha : ok s a := hok s a h0 h.1 hQ.2.head
      exact ⟨ha, (ih h.2 (hs s a h0 h.1 ha)).1 hQ.2⟩
    · exact fun hA => ⟨hPQ s h0, (ih h.2 (hs s a h0 h.1 hA.1)).2 hA.2⟩

theorem always_iff_along_of_inv {s : σ} (h0 : P s)
    (hPQ : ∀ s, P s → Q s) (hs : ∀ s a, P s → ok s a → P (step s a))
    (hok : ∀ s a, P s → Q (step s a) → ok s a) : Always step Q s l ↔ Along step ok s l := by
  have hany : Along step (fun _ _ => True) s l :=
    along_of_inv (P := fun _ => True) trivial (fun _ _ => id) fun _ _ => id
  exact hany.always_iff h0 hPQ (fun s a hP _ => hs s a hP) fun s a hP _ => hok s a hP

theorem always_iff_along {s : σ} (h0 : P s)
    (hs : ∀ s a, P s → (ok s a ↔ P (step s a))) : Always step P s l ↔ Along step ok s l :=
  always_iff_along_of_inv h0 (fun _ h => h) (fun s a hP => (hs s a hP).1)
    fun s a hP => (hs s a hP).2

/-- **The exact condition of what is never repaired**: `ok` says of every step whether `P` is still
true behind it. -/
theorem foldl_iff_along {I : σ → Prop} {s : σ} (h0 : I s) (hI : ∀ s, ∀ a ∈ l, I s → I (step s a))
    (hs : ∀ s, ∀ a ∈ l, I s → (P (step s a) ↔ P s ∧ ok s a)) :
    P (l.foldl step s) ↔ P s ∧ Along step ok s l := by
  induction l generalizing s with
  | nil => exact (and_iff_left trivial).symm
  | cons a l ih =>
    have ha := mem_cons_self (a := a) (l := l)
    rw [foldl_cons, ih (hI s a ha h0) (fun s b hb => hI s b (mem_cons_of_mem a hb))
      fun s b hb => hs s b (mem_cons_of_mem a hb), hs s a ha h0, Along, and_assoc]

theorem along_congr {ok' : σ → α → Prop} {s : σ} (h0 : P s)
    (hok : ∀ s a, P s → (ok s a ↔ ok' s a)) (hs : ∀ s a, P s → ok s a → P (step s a)) :
    Along step ok s l ↔ Along step ok' s l := by
  induction l generalizing s with
  | nil => exact Iff.rfl
  | cons a l ih =>
    simp only [Along, ← hok s a h0]
    exact and_congr_right fun ha => ih (hs s a h0 ha)

end

/-! ## Continuations -/

def Reaches (step : σ → α → σ) (s t : σ) : Prop := ∃ l : List α, l.foldl step s = t

section
variable {step : σ → α → σ} {s t u : σ}

theorem Reaches.refl (s : σ) : Reaches step s s := ⟨[], rfl⟩

theorem Reaches.trans (h : Reaches step s t) (h' : Reaches step t u) : Reaches step s u := by
  obtain ⟨l, rfl⟩ := h
  obtain ⟨l', rfl⟩ := h'
  exact ⟨l ++ l', foldl_append⟩

theorem Reaches.head (a : α) (h : Reaches step (step s a) t) : Reaches step s t := by
  obtain ⟨l, rfl⟩ := h
  exact ⟨a :: l, rfl⟩

/-- **Part by part**: what can be brought about for each of a list of parts, by runs that keep it
for the others, can be brought about for all of them. -/
theorem Reaches.forall_mem (step : σ → α → σ) {ι : Type*} {I : σ → Prop} {D : σ → ι → Prop}
    (hs : ∀ s i, I s → ∃ t, Reaches step s t ∧ I t ∧ D t i ∧ ∀ j, D s j → D t j)
    (is : List ι) (h : I s) : ∃ t, Reaches step s t ∧ I t ∧ ∀ i ∈ is, D t i := by
  induction is with
  | nil => exact ⟨s, .refl s, h, nofun⟩
  | cons i is ih =>
    obtain ⟨t, hst, hI, hall⟩ := ih
    obtain ⟨u, htu, hI', hi, hkeep⟩ := hs t i hI
    refine ⟨u, hst.trans htu, hI', fun j hj => ?_⟩
    grind

end

/-! ## Machines that may stop

A step `σ → α → Option σ` that may give no next state is a machine over `Option σ`. -/

def bindStep (step : σ → α → Option σ) (o : Option σ) (a : α) : Option σ := o.bind fun s => step s a

def onSome (ok : σ → α → Prop) (o : Option σ) (a : α) : Prop := ∀ s ∈ o, ok s a

instance {ok : σ → α → Prop} [∀ s a, Decidable (ok s a)] (o : Option σ) (a : α) :
    Decidable (onSome ok o a) :=
  inferInstanceAs (Decidable (∀ s ∈ o, ok s a))

end Lib
