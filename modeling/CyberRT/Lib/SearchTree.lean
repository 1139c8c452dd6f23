import CyberRT.Lib.PtrTree

/-!
# Heights of search trees

`HeightBalanced`: the heights of the two parts of every node differ by one at most. A search is a
comparison `cmp` with the nodes.
-/

namespace Lib

open Function List

variable {ι : Type*}

/-! ## Balance -/

variable {t : BinaryTree ι}

def HeightBalanced : BinaryTree ι → Prop
  | .nil => True
  | .node _ l r => (l.height ≤ r.height + 1 ∧ r.height ≤ l.height + 1) ∧
    HeightBalanced l ∧ HeightBalanced r

instance HeightBalanced.decidable : (t : BinaryTree ι) → Decidable (HeightBalanced t)
  | .nil => isTrue trivial
  | .node _ l r =>
    have := HeightBalanced.decidable l
    have := HeightBalanced.decidable r
    inferInstanceAs (Decidable ((_ ∧ _) ∧ _ ∧ _))

@[simp] theorem height_map (f : ι → ι) (t : BinaryTree ι) : (t.map f).height = t.height := by
  induction t with
  | nil => rfl
  | node i l r ihl ihr => simp [BinaryTree.map, BinaryTree.height, ihl, ihr]

theorem HeightBalanced.map (f : ι → ι) (h : HeightBalanced t) : HeightBalanced (t.map f) := by
  induction t with
  | nil => trivial
  | node i l r ihl ihr =>
    refine ⟨?_, ihl h.2.1, ihr h.2.2⟩
    rw [height_map, height_map]
    exact h.1

/-! ## Rotations -/

def rotateLeft : BinaryTree ι → BinaryTree ι
  | .node x a (.node y b d) => .node y (.node x a b) d
  | t => t

def rotateRight : BinaryTree ι → BinaryTree ι
  | .node y (.node x a b) d => .node x a (.node y b d)
  | t => t

@[simp] theorem inorder_rotateLeft (t : BinaryTree ι) : inorder (rotateLeft t) = inorder t := by
  unfold rotateLeft
  split
  · simp
  · rfl

@[simp] theorem inorder_rotateRight (t : BinaryTree ι) : inorder (rotateRight t) = inorder t := by
  unfold rotateRight
  split
  · simp
  · rfl

/-! ## Removal -/

theorem getLast?_inorder_eq_none : (inorder t).getLast? = none ↔ t = .nil := by
  cases t <;> simp

theorem head?_inorder_eq_none : (inorder t).head? = none ↔ t = .nil := by
  cases t <;> simp

section
variable [DecidableEq ι]

def takeOut : (ι → Ordering) → BinaryTree ι → BinaryTree ι
  | _, .nil => .nil
  | cmp, .node i l r =>
    match cmp i with
    | .lt => .node i (takeOut cmp l) r
    | .gt => .node i l (takeOut cmp r)
    | .eq =>
      match (inorder l).getLast?, (inorder r).head? with
      | none, _ => r
      | some _, none => l
      | some y, some z =>
        if r.height < l.height then .node y (takeOut (update cmp y .eq) l) r
        else .node z l (takeOut (update cmp z .eq) r)

def Lowers (cmp : ι → Ordering) (t : BinaryTree ι) : Prop := (takeOut cmp t).height < t.height
deriving Decidable

def Tips : (ι → Ordering) → BinaryTree ι → Prop
  | _, .nil => False
  | cmp, .node i l r =>
    match cmp i with
    | .lt => Lowers cmp l ∧ l.height < r.height ∨ Tips cmp l
    | .gt => Lowers cmp r ∧ r.height < l.height ∨ Tips cmp r
    | .eq =>
      match (inorder l).getLast?, (inorder r).head? with
      | none, _ => False
      | some _, none => False
      | some y, some z =>
        if r.height < l.height then Tips (update cmp y .eq) l
        else Tips (update cmp z .eq) r

section
variable {cmp : ι → Ordering} {i : ι} {l r : BinaryTree ι}

theorem takeOut_lt (h : cmp i = .lt) : takeOut cmp (.node i l r) = .node i (takeOut cmp l) r := by
  simp only [takeOut, h]

theorem takeOut_gt (h : cmp i = .gt) : takeOut cmp (.node i l r) = .node i l (takeOut cmp r) := by
  simp only [takeOut, h]

section
variable (h : cmp i = .eq)
include h

theorem takeOut_left_nil : takeOut cmp (.node i .nil r) = r := by
  simp [takeOut, h]

theorem takeOut_right_nil : takeOut cmp (.node i l .nil) = l := by
  cases hl : (inorder l).getLast? with
  | none =>
    obtain rfl := getLast?_inorder_eq_none.1 hl
    exact takeOut_left_nil h
  | some y => simp [takeOut, h, hl]

theorem takeOut_of_last {y : ι} (hy : (inorder l).getLast? = some y)
    (hr : r ≠ .nil) (hh : r.height < l.height) :
    takeOut cmp (.node i l r) = .node y (takeOut (update cmp y .eq) l) r := by
  obtain ⟨z, hz⟩ := Option.ne_none_iff_exists'.1 (mt head?_inorder_eq_none.1 hr)
  simp only [takeOut, h, hy, hz, if_pos hh]

theorem takeOut_of_first {z : ι} (hl : l ≠ .nil)
    (hz : (inorder r).head? = some z) (hh : l.height ≤ r.height) :
    takeOut cmp (.node i l r) = .node z l (takeOut (update cmp z .eq) r) := by
  obtain ⟨y, hy⟩ := Option.ne_none_iff_exists'.1 (mt getLast?_inorder_eq_none.1 hl)
  simp only [takeOut, h, hy, hz, if_neg (Nat.not_lt.2 hh)]

end

end

theorem takeOut_eq_cases {cmp : ι → Ordering} {i : ι} (h : cmp i = .eq) (l r : BinaryTree ι) :
    (l = .nil ∧ takeOut cmp (.node i l r) = r ∧ ¬ Tips cmp (.node i l r)) ∨
    (r = .nil ∧ takeOut cmp (.node i l r) = l ∧ ¬ Tips cmp (.node i l r)) ∨
    (∃ y, r.height < l.height ∧
      takeOut cmp (.node i l r) = .node y (takeOut (update cmp y .eq) l) r ∧
      (Tips cmp (.node i l r) ↔ Tips (update cmp y .eq) l)) ∨
    ∃ z, l.height ≤ r.height ∧
      takeOut cmp (.node i l r) = .node z l (takeOut (update cmp z .eq) r) ∧
      (Tips cmp (.node i l r) ↔ Tips (update cmp z .eq) r) := by
  simp only [takeOut, Tips, h]
  cases hl : (inorder l).getLast? with
  | none => exact .inl ⟨getLast?_inorder_eq_none.1 hl, rfl, id⟩
  | some y =>
    cases hr : (inorder r).head? with
    | none => exact .inr (.inl ⟨head?_inorder_eq_none.1 hr, rfl, id⟩)
    | some z => grind

theorem height_takeOut (cmp : ι → Ordering) (t : BinaryTree ι) :
    (takeOut cmp t).height ≤ t.height ∧ t.height ≤ (takeOut cmp t).height + 1 := by
  induction t generalizing cmp with
  | nil => exact ⟨Nat.le_refl _, Nat.le_succ _⟩
  | node i l r ihl ihr =>
    have hl := ihl cmp
    have hr := ihr cmp
    cases h : cmp i with
    | lt =>
      simp only [takeOut_lt h, BinaryTree.height]
      omega
    | gt =>
      simp only [takeOut_gt h, BinaryTree.height]
      omega
    | eq =>
      rcases takeOut_eq_cases h l r with ⟨rfl, he, -⟩ | ⟨rfl, he, -⟩ | ⟨y, hh, he, -⟩ |
        ⟨z, hh, he, -⟩
      · simp only [he, BinaryTree.height]
        omega
      · simp only [he, BinaryTree.height]
        omega
      · have := ihl (update cmp y .eq)
        simp only [he, BinaryTree.height]
        omega
      · have := ihr (update cmp z .eq)
        simp only [he, BinaryTree.height]
        omega

theorem heightBalanced_takeOut_iff (cmp : ι → Ordering)
    (h : HeightBalanced t) : HeightBalanced (takeOut cmp t) ↔ ¬ Tips cmp t := by
  induction t generalizing cmp with
  | nil => exact iff_of_true trivial id
  | node i l r ihl ihr =>
    obtain ⟨⟨h1, h2⟩, hl, hr⟩ := h
    cases hi : cmp i with
    | lt =>
      have hh := height_takeOut cmp l
      simp only [takeOut_lt hi, HeightBalanced, ihl cmp hl, Tips, hi, Lowers]
      grind
    | gt =>
      have hh := height_takeOut cmp r
      simp only [takeOut_gt hi, HeightBalanced, ihr cmp hr, Tips, hi, Lowers]
      grind
    | eq =>
      rcases takeOut_eq_cases hi l r with ⟨-, he, hn⟩ | ⟨-, he, hn⟩ | ⟨y, hh, he, ht⟩ |
        ⟨z, hh, he, ht⟩
      · rw [he]
        exact iff_of_true hr hn
      · rw [he]
        exact iff_of_true hl hn
      · have hle := height_takeOut (update cmp y .eq) l
        rw [he, ht, ← ihl _ hl]
        exact ⟨fun hb => hb.2.1, fun hb => ⟨by omega, hb, hr⟩⟩
      · have hle := height_takeOut (update cmp z .eq) r
        rw [he, ht, ← ihr _ hr]
        exact ⟨fun hb => hb.2.2, fun hb => ⟨by omega, hl, hb⟩⟩

theorem takeOut_of_absent {cmp : ι → Ordering}
    (h : ∀ i ∈ inorder t, cmp i ≠ .eq) : takeOut cmp t = t := by
  induction t with
  | nil => rfl
  | node i l r ihl ihr =>
    simp only [inorder_node, mem_append, mem_cons] at h
    cases hi : cmp i with
    | lt => rw [takeOut_lt hi, ihl fun j hj => h j (.inl hj)]
    | gt => rw [takeOut_gt hi, ihr fun j hj => h j (.inr (.inr hj))]
    | eq => exact absurd hi (h i (.inr (.inl rfl)))

/-- **The place of an end node**: taking out `x` from where the first or the last node `y` was. -/
theorem takeOut_map_swap {cmp : ι → Ordering} {x y : ι} {pre post : List ι}
    (hin : inorder t = pre ++ y :: post) (hend : pre = [] ∨ post = []) (hnd : (inorder t).Nodup)
    (hx : x ∉ inorder t) (hcx : cmp x = .eq) (hpre : ∀ j ∈ pre, cmp j = .gt)
    (hpost : ∀ j ∈ post, cmp j = .lt) :
    takeOut cmp (t.map (Equiv.swap x y)) = takeOut (update cmp y .eq) t := by
  induction t generalizing pre post with
  | nil => simp at hin
  | node i a b iha ihb =>
    have hsame : ∀ j ∈ pre ++ post, Equiv.swap x y j = j := by grind
    simp only [inorder_node] at hin hnd hx
    obtain ⟨hnda, hndb, -⟩ := nodup_append.1 hnd
    have hself (hi : i = y) (ha : pre = inorder a) (hb : post = inorder b) :
        takeOut cmp ((BinaryTree.node i a b).map (Equiv.swap x y)) =
          takeOut (update cmp y .eq) (.node i a b) := by
      subst hi ha hb
      rw [BinaryTree.map, Equiv.swap_apply_right, map_eq_self fun j hj => hsame j (by simp [hj]),
        map_eq_self fun j hj => hsame j (by simp [hj])]
      rcases hend with h | h
      · obtain rfl := head?_inorder_eq_none.1 (head?_eq_none_iff.2 h)
        rw [takeOut_left_nil hcx, takeOut_left_nil (update_self ..)]
      · obtain rfl := head?_inorder_eq_none.1 (head?_eq_none_iff.2 h)
        rw [takeOut_right_nil hcx, takeOut_right_nil (update_self ..)]
    rcases append_eq_append_iff.1 hin with ⟨_ | ⟨j, m⟩, rfl, hb⟩ | ⟨_ | ⟨j, m⟩, ha, hb⟩
    · obtain ⟨hi, hb⟩ := List.cons.inj hb
      exact hself hi (append_nil _) hb.symm
    · obtain ⟨rfl, hm⟩ := List.cons.inj hb
      have hgt := hpre i (by simp)
      rw [BinaryTree.map, hsame i (by simp), map_eq_self fun j hj => hsame j (by simp [hj]),
        takeOut_gt hgt, takeOut_gt ((update_of_ne (by grind) _ _).trans hgt),
        ihb hm (.inr (hend.resolve_left (by simp))) (nodup_cons.1 hndb).2
          (fun h => hx (by simp [h])) (fun j hj => hpre j (by simp [hj])) hpost]
    · obtain ⟨hi, hb⟩ := List.cons.inj hb
      exact hself hi.symm (ha.trans (append_nil _)).symm hb
    · obtain ⟨rfl, rfl⟩ := List.cons.inj hb
      have hlt := hpost i (by simp)
      rw [BinaryTree.map, hsame i (by simp),
        map_eq_self (t := b) fun j hj => hsame j (by simp [hj]),
        takeOut_lt hlt, takeOut_lt ((update_of_ne (by grind) _ _).trans hlt),
        iha ha (.inl (hend.resolve_right (by simp))) hnda
          (fun h => hx (by simp [h])) hpre fun j hj => hpost j (by simp [hj])]

end

end Lib
