import Mathlib.Algebra.Order.Ring.Int

/-!
# Loops with fuel

`loop cond body fuel s`: `while (cond) body` from `s`, where a pass of the body goes on or leaves
the loop.
-/

namespace Lib

variable {σ : Type*}

inductive Pass (σ : Type*) where
  | next (s : σ)
  | brk (s : σ)

def loop (cond : σ → Bool) (body : σ → Pass σ) : Nat → σ → Option σ
  | 0, _ => none
  | fuel + 1, s =>
    if cond s then
      match body s with
      | .next s' => loop cond body fuel s'
      | .brk s' => some s'
    else some s

def doLoop (cond : σ → Bool) (body : σ → Pass σ) (fuel : Nat) (s : σ) : Option σ :=
  match body s with
  | .next s' => loop cond body fuel s'
  | .brk s' => some s'

variable {cond : σ → Bool} {body : σ → Pass σ} {I : σ → Prop} {s t : σ}

theorem loop_eq_doLoop (hc : cond s = true) (fuel : Nat) :
    loop cond body (fuel + 1) s = doLoop cond body fuel s := by
  rw [loop, if_pos hc, doLoop]

theorem loop_exit (hstep : ∀ s s', I s → cond s = true → body s = .next s' → I s') :
    ∀ {fuel : Nat} {s t : σ}, I s → loop cond body fuel s = some t →
      (I t ∧ cond t = false) ∨ ∃ s', I s' ∧ cond s' = true ∧ body s' = .brk t
  | 0, _, _, _, h => by cases h
  | fuel + 1, s, t, hs, h => by
    unfold loop at h
    split at h
    · rename_i hc
      split at h
      · rename_i s' hb
        exact loop_exit hstep (hstep s s' hs hc hb) h
      · grind
    · grind

theorem loop_forever (hstep : ∀ s, I s → cond s = true ∧ ∃ s', body s = .next s' ∧ I s') :
    ∀ (fuel : Nat) {s : σ}, I s → loop cond body fuel s = none
  | 0, _, _ => rfl
  | fuel + 1, s, hs => by
    obtain ⟨hc, s', hb, hs'⟩ := hstep s hs
    rw [loop, if_pos hc, hb]
    exact loop_forever hstep fuel hs'

theorem loop_ends (size : σ → Nat)
    (hstep : ∀ s s', I s → cond s = true → body s = .next s' → I s' ∧ size s' < size s) :
    ∀ {fuel : Nat} {s : σ}, I s → size s < fuel → ∃ t, loop cond body fuel s = some t
  | 0, _, _, h => absurd h (Nat.not_lt_zero _)
  | fuel + 1, s, hs, h => by
    unfold loop
    split
    · rename_i hc
      split
      · rename_i s' hb
        obtain ⟨hs', hlt⟩ := hstep s s' hs hc hb
        exact loop_ends size hstep hs' (Nat.lt_of_lt_of_le hlt (Nat.lt_succ_iff.1 h))
      · exact ⟨_, rfl⟩
    · exact ⟨_, rfl⟩

theorem loop_mono {k n : Nat} (h : loop cond body k s = some t) (hn : k ≤ n) :
    loop cond body n s = some t := by
  induction k generalizing n s with
  | zero => cases h
  | succ k ih =>
    obtain ⟨n, rfl⟩ := Nat.exists_eq_succ_of_ne_zero (Nat.ne_zero_of_lt hn)
    rw [loop] at h ⊢
    grind

theorem loop_done (hc : cond s = false) : ∀ n, 0 < n → loop cond body n s = some s
  | 0, h => absurd h (Nat.lt_irrefl 0)
  | n + 1, _ => by rw [loop, if_neg (by rw [hc]; exact Bool.false_ne_true)]

theorem loop_brk (hc : cond s = true) (hb : body s = .brk t) :
    ∀ n, 0 < n → loop cond body n s = some t
  | 0, h => absurd h (Nat.lt_irrefl 0)
  | n + 1, _ => by rw [loop, if_pos hc, hb]

theorem loop_next {s' : σ} {k : Nat} (hc : cond s = true) (hb : body s = .next s')
    (h : ∀ n, k < n → loop cond body n s' = some t) :
    ∀ n, k + 1 < n → loop cond body n s = some t
  | 0, hn => absurd hn (Nat.not_lt_zero _)
  | n + 1, hn => by
    rw [loop, if_pos hc, hb]
    exact h n (Nat.lt_of_succ_lt_succ hn)

/-!
## A table that is probed

`m k` is the name at the place `k` of a table.
-/

variable {K N : Type*} {next : K → K} {m : K → Option N} {n : N} {k k' : K} {fuel : Nat}

def Settled (m : K → Option N) (n : N) (k : K) : Prop := m k = none ∨ m k = some n

section
variable [DecidableEq N]

def probe (next : K → K) (m : K → Option N) (n : N) (fuel : Nat) (k : K) : Option K :=
  loop (fun k => (m k).isSome) (fun k => if m k = some n then .brk k else .next (next k)) fuel k

theorem probe_settled (h : Settled m n k) (hfuel : 0 < fuel) : probe next m n fuel k = some k := by
  rcases h with hfree | hname
  · apply loop_done _ fuel hfuel
    rw [hfree, Option.isSome_none]
  · apply loop_brk _ _ fuel hfuel
    all_goals grind

theorem probe_succ (h : ¬ Settled m n k) (fuel : Nat) :
    probe next m n (fuel + 1) k = probe next m n fuel (next k) := by
  have htaken : (m k).isSome = true := by
    rw [Option.isSome_iff_ne_none]
    exact fun hfree => h (.inl hfree)
  have hother : m k ≠ some n := fun hname => h (.inr hname)
  rw [probe, loop, if_pos htaken, if_neg hother]
  rfl

theorem settled_of_probe (h : probe next m n fuel k = some k') : Settled m n k' := by
  induction fuel generalizing k with
  | zero => cases h
  | succ fuel ih =>
    by_cases hk : Settled m n k
    · rw [probe_settled hk (Nat.succ_pos fuel), Option.some.injEq] at h
      exact h ▸ hk
    · rw [probe_succ hk] at h
      exact ih h

theorem probe_eq_none_iff :
    probe next m n fuel k = none ↔ ∀ i < fuel, ¬ Settled m n (next^[i] k) := by
  induction fuel generalizing k with
  | zero => exact iff_of_true rfl nofun
  | succ fuel ih =>
    by_cases hk : Settled m n k
    · rw [probe_settled hk (Nat.succ_pos fuel)]
      exact iff_of_false nofun fun h => h 0 (Nat.succ_pos fuel) hk
    · rw [probe_succ hk, ih]
      refine ⟨fun h i hi => ?_, fun h i hi => h (i + 1) (Nat.succ_lt_succ hi)⟩
      cases i with
      | zero => exact hk
      | succ i => exact h i (Nat.lt_of_succ_lt_succ hi)

end

def Extends (m m' : K → Option N) : Prop := ∀ k n, m k = some n → m' k = some n

theorem Extends.refl (m : K → Option N) : Extends m m := fun _ _ h => h

theorem Extends.trans {m₁ m₂ m₃ : K → Option N} (h : Extends m₁ m₂) (h' : Extends m₂ m₃) :
    Extends m₁ m₃ :=
  fun k n hk => h' k n (h k n hk)

/-- What a search has passed stays passed, so a name is found again where it was put. -/
theorem probe_extends [DecidableEq N] {m' : K → Option N} (h : probe next m n fuel k = some k')
    (he : Extends m m') (hk' : m' k' = some n) : probe next m' n fuel k = some k' := by
  induction fuel generalizing k with
  | zero => cases h
  | succ fuel ih =>
    by_cases hk : Settled m n k
    · rw [probe_settled hk (Nat.succ_pos fuel), Option.some.injEq] at h
      subst h
      exact probe_settled (.inr hk') (Nat.succ_pos fuel)
    · have hk2 : ¬ Settled m' n k := by
        cases hm : m k with
        | none => exact absurd (.inl hm) hk
        | some n' =>
          have := he k n' hm
          grind [Settled]
      rw [probe_succ hk] at h
      rw [probe_succ hk2]
      exact ih h

theorem Settled.extends_update [DecidableEq K] (h : Settled m n k) :
    Extends m (Function.update m k (some n)) := by
  intro j n' hj
  by_cases hjk : j = k
  · rcases h with hfree | hname
    all_goals grind
  · grind

/-!
## Programs over a state that may stop

A `Prog σ α` takes a state and gives a value and the next state, or nothing: it dereferenced null,
or did not return. `Triple P m Q` is partial correctness.
-/

variable {σ α β : Type}

abbrev Prog (σ α : Type) := StateT σ Option α

def Triple (P : σ → Prop) (m : Prog σ α) (Q : α → σ → Prop) : Prop :=
  ∀ s, P s → ∀ a t, m s = some (a, t) → Q a t

def Keeps (I : σ → Prop) (m : Prog σ α) : Prop := Triple I m fun _ => I

theorem bind_apply (m : Prog σ α) (f : α → Prog σ β) (s : σ) :
    (m >>= f) s = (m s).bind fun r => f r.1 r.2 := rfl

theorem pure_apply (a : α) (s : σ) : (pure a : Prog σ α) s = some (a, s) := rfl

theorem if_apply (c : Prop) [Decidable c] (m n : Prog σ α) (s : σ) :
    (if c then m else n) s = if c then m s else n s := by
  split <;> rfl

theorem bind_eq_some {m : Prog σ α} {f : α → Prog σ β} {s t : σ} {b : β}
    (h : (m >>= f) s = some (b, t)) : ∃ a u, m s = some (a, u) ∧ f a u = some (b, t) := by
  obtain ⟨⟨a, u⟩, hm, hf⟩ := Option.bind_eq_some_iff.1 h
  exact ⟨a, u, hm, hf⟩

section
variable {P P' : σ → Prop} {m n : Prog σ α} {Q : α → σ → Prop} {R : β → σ → Prop}

theorem Triple.bind {f : α → Prog σ β} (hm : Triple P m Q) (hf : ∀ a, Triple (Q a) (f a) R) :
    Triple P (m >>= f) R := by
  intro s hs b t h
  obtain ⟨a, u, hu, ht⟩ := bind_eq_some h
  exact hf a u (hm s hs a u hu) b t ht

theorem Triple.pure {a : α} (h : ∀ s, P s → Q a s) : Triple P (pure a) Q := by
  intro s hs b t hb
  cases hb
  exact h s hs

theorem Triple.ite {c : Prop} [Decidable c] (hm : c → Triple P m Q) (hn : ¬ c → Triple P n Q) :
    Triple P (if c then m else n) Q := by
  grind

theorem Triple.conseq (h : Triple P m Q) (hP : ∀ s, P' s → P s) : Triple P' m Q :=
  fun s hs => h s (hP s hs)

end

section
variable {I : σ → Prop} {m n : Prog σ α}

theorem Keeps.bind {f : α → Prog σ β} (hm : Keeps I m) (hf : ∀ a, Keeps I (f a)) :
    Keeps I (m >>= f) :=
  Triple.bind hm hf

theorem Keeps.pure (a : α) : Keeps I (pure a : Prog σ α) := Triple.pure fun _ h => h

theorem Keeps.reads (h : ∀ s a t, m s = some (a, t) → t = s) : Keeps I m := by
  intro s hs a t hm
  rw [h s a t hm]
  exact hs

theorem Keeps.ite {c : Prop} [Decidable c] (hm : Keeps I m) (hn : Keeps I n) :
    Keeps I (if c then m else n) :=
  Triple.ite (fun _ => hm) fun _ => hn

end

end Lib
