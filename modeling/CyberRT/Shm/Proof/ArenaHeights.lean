import CyberRT.Shm.Proof.ArenaRefines

/-!
# When the allocator's tree stays balanced

`rebalanced_left_cases`, `rebalanced_right_cases`: what `TreeRebalance` makes of a tree of which one
part is higher by two, one rotation or two.
-/

namespace Shm

open Lib BinaryTree

namespace ArenaAddressAllocator

section
variable {i : Nat} {l r : BinaryTree Nat}

theorem rebalanced_left_cases (h : l.height = r.height + 2) :
    (∃ j a b, l = .node j a b ∧ b.height < a.height ∧
      rebalanced (.node i l r) = .node j a (.node i b r)) ∨
    ∃ j a k b1 b2, l = .node j a (.node k b1 b2) ∧ a.height ≤ max b1.height b2.height + 1 ∧
      rebalanced (.node i l r) = .node k (.node j a b1) (.node i b2 r) := by
  have h1 : factor (.node i l r) > 1 := by
    simp only [factor]
    omega
  rw [rebalanced_node, if_pos h1]
  cases l with
  | nil =>
    simp only [height] at h
    omega
  | node j a b =>
    by_cases h2 : factor (.node j a b) > 0
    · rw [if_pos h2]
      simp only [factor] at h2
      exact .inl ⟨j, a, b, rfl, by omega, rfl⟩
    · rw [if_neg h2]
      simp only [factor] at h2
      cases b with
      | nil =>
        simp only [height] at h h2
        omega
      | node k b1 b2 =>
        simp only [height] at h2
        exact .inr ⟨j, a, k, b1, b2, rfl, by omega, rfl⟩

theorem rebalanced_right_cases (h : r.height = l.height + 2) :
    (∃ j a b, r = .node j a b ∧ a.height < b.height ∧
      rebalanced (.node i l r) = .node j (.node i l a) b) ∨
    ∃ j b k a1 a2, r = .node j (.node k a1 a2) b ∧ b.height ≤ max a1.height a2.height + 1 ∧
      rebalanced (.node i l r) = .node k (.node i l a1) (.node j a2 b) := by
  have h1 : ¬ factor (.node i l r) > 1 := by
    simp only [factor]
    omega
  have h2 : factor (.node i l r) < -1 := by
    simp only [factor]
    omega
  rw [rebalanced_node, if_neg h1, if_pos h2]
  cases r with
  | nil =>
    simp only [height] at h
    omega
  | node j a b =>
    by_cases h3 : factor (.node j a b) < 0
    · rw [if_pos h3]
      simp only [factor] at h3
      exact .inl ⟨j, a, b, rfl, by omega, rfl⟩
    · rw [if_neg h3]
      simp only [factor] at h3
      cases a with
      | nil =>
        simp only [height] at h h3
        omega
      | node k a1 a2 =>
        simp only [height] at h3
        exact .inr ⟨j, b, k, a1, a2, rfl, by omega, rfl⟩

theorem heightBalanced_left_iff (hl : HeightBalanced l) (h : l.height = r.height + 2) :
    HeightBalanced (rebalanced (.node i l r)) ↔
      HeightBalanced r ∧ (factor l = 0 → 0 ≤ factor l.right) := by
  rcases rebalanced_left_cases (i := i) h with ⟨j, a, b, rfl, hh, he⟩ |
    ⟨j, a, k, b1, b2, rfl, hh, he⟩
  · obtain ⟨⟨h1, h2⟩, ha, hb⟩ := hl
    simp only [height] at h
    simp only [he, HeightBalanced, factor, height]
    grind
  · obtain ⟨⟨h1, h2⟩, ha, ⟨h3, h4⟩, hb1, hb2⟩ := hl
    simp only [height] at h h1 h2
    simp only [he, HeightBalanced, factor, right, height]
    grind

theorem heightBalanced_right_iff (hr : HeightBalanced r) (h : r.height = l.height + 2) :
    HeightBalanced (rebalanced (.node i l r)) ↔
      HeightBalanced l ∧ (factor r = 0 → factor r.left ≤ 0) := by
  rcases rebalanced_right_cases (i := i) h with ⟨j, a, b, rfl, hh, he⟩ |
    ⟨j, b, k, a1, a2, rfl, hh, he⟩
  · obtain ⟨⟨h1, h2⟩, ha, hb⟩ := hr
    simp only [height] at h
    simp only [he, HeightBalanced, factor, height]
    grind
  · obtain ⟨⟨h1, h2⟩, ⟨⟨h3, h4⟩, ha1, ha2⟩, hb⟩ := hr
    simp only [height] at h h1 h2
    simp only [he, HeightBalanced, factor, left, height]
    grind

theorem height_rebalanced_left (hl : HeightBalanced l) (h : l.height = r.height + 2)
    (hne : factor l ≠ 0) : (rebalanced (.node i l r)).height = l.height := by
  rcases rebalanced_left_cases (i := i) h with ⟨j, a, b, rfl, hh, he⟩ |
    ⟨j, a, k, b1, b2, rfl, hh, he⟩
  · simp only [height] at h
    simp only [he, height]
    omega
  · obtain ⟨⟨h1, h2⟩, -⟩ := hl
    simp only [height, factor] at h h1 h2 hne
    simp only [he, height]
    omega

theorem height_rebalanced_right (hr : HeightBalanced r) (h : r.height = l.height + 2)
    (hne : factor r ≠ 0) : (rebalanced (.node i l r)).height = r.height := by
  rcases rebalanced_right_cases (i := i) h with ⟨j, a, b, rfl, hh, he⟩ |
    ⟨j, b, k, a1, a2, rfl, hh, he⟩
  · simp only [height] at h
    simp only [he, height]
    omega
  · obtain ⟨⟨h1, h2⟩, -⟩ := hr
    simp only [height, factor] at h h1 h2 hne
    simp only [he, height]
    omega

section
variable (hb : HeightBalanced (.node i l r))
include hb

theorem rebalanced_same {l' r' : BinaryTree Nat}
    (hl : HeightBalanced l') (hr : HeightBalanced r') (hhl : l'.height = l.height)
    (hhr : r'.height = r.height) :
    HeightBalanced (rebalanced (.node i l' r')) ∧
      (rebalanced (.node i l' r')).height = (node i l r).height := by
  have hbal : HeightBalanced (.node i l' r') := by
    refine ⟨?_, hl, hr⟩
    rw [hhl, hhr]
    exact hb.1
  rw [rebalanced_of_balanced hbal]
  simp only [height, hhl, hhr]
  exact ⟨hbal, trivial⟩

theorem rebalanced_higher_left {l' : BinaryTree Nat}
    (hl : HeightBalanced l') (hh : l'.height = l.height + 1) (hne : l.height ≠ r.height)
    (hlean : l ≠ .nil → factor l' ≠ 0) :
    HeightBalanced (rebalanced (.node i l' r)) ∧
      (rebalanced (.node i l' r)).height = (node i l r).height := by
  obtain ⟨⟨h1, h2⟩, -, hr⟩ := hb
  by_cases hlt : r.height < l.height
  · have hlean' : factor l' ≠ 0 := hlean fun he => by
      subst he
      exact absurd hlt (Nat.not_lt_zero _)
    refine ⟨(heightBalanced_left_iff hl (by omega)).2 ⟨hr, fun h0 => absurd h0 hlean'⟩, ?_⟩
    rw [height_rebalanced_left hl (by omega) hlean', height]
    omega
  · have hbal : HeightBalanced (.node i l' r) := ⟨by omega, hl, hr⟩
    rw [rebalanced_of_balanced hbal]
    simp only [height]
    exact ⟨hbal, by omega⟩

theorem rebalanced_higher_right {r' : BinaryTree Nat}
    (hr : HeightBalanced r') (hh : r'.height = r.height + 1) (hne : l.height ≠ r.height)
    (hlean : r ≠ .nil → factor r' ≠ 0) :
    HeightBalanced (rebalanced (.node i l r')) ∧
      (rebalanced (.node i l r')).height = (node i l r).height := by
  obtain ⟨⟨h1, h2⟩, hl, -⟩ := hb
  by_cases hlt : l.height < r.height
  · have hlean' : factor r' ≠ 0 := hlean fun he => by
      subst he
      exact absurd hlt (Nat.not_lt_zero _)
    refine ⟨(heightBalanced_right_iff hr (by omega)).2 ⟨hl, fun h0 => absurd h0 hlean'⟩, ?_⟩
    rw [height_rebalanced_right hr (by omega) hlean', height]
    omega
  · have hbal : HeightBalanced (.node i l r') := ⟨by omega, hl, hr⟩
    rw [rebalanced_of_balanced hbal]
    simp only [height]
    exact ⟨hbal, by omega⟩

end

end

section
variable {cmp : Nat → Ordering} {n : Nat}

theorem inserted_of_grows {t : BinaryTree Nat} (hb : HeightBalanced t) (hg : Grows cmp t) :
    HeightBalanced (inserted cmp n t) ∧ (inserted cmp n t).height = t.height + 1 ∧
      (t ≠ .nil → factor (inserted cmp n t) ≠ 0) := by
  induction t with
  | nil => exact ⟨by simp [inserted, HeightBalanced], rfl, fun h => absurd rfl h⟩
  | node i l r ihl ihr =>
    obtain ⟨-, hl, hr⟩ := hb
    obtain ⟨heq, hg⟩ := hg
    cases hi : cmp i with
    | lt =>
      rw [hi] at hg
      obtain ⟨hb', hh, -⟩ := ihl hl hg
      simp only [inserted, hi, rebalanced_of_balanced hb', HeightBalanced, height, factor]
      exact ⟨⟨by omega, hb', hr⟩, by omega, fun _ => by omega⟩
    | gt =>
      rw [hi] at hg
      obtain ⟨hb', hh, -⟩ := ihr hr hg
      simp only [inserted, hi, rebalanced_of_balanced hb', HeightBalanced, height, factor]
      exact ⟨⟨by omega, hl, hb'⟩, by omega, fun _ => by omega⟩
    | eq =>
      rw [hi] at hg
      exact hg.elim

theorem rebalanced_inserted {t : BinaryTree Nat} (hb : HeightBalanced t) (hg : ¬ Grows cmp t) :
    HeightBalanced (rebalanced (inserted cmp n t)) ∧
      (rebalanced (inserted cmp n t)).height = t.height := by
  induction t with
  | nil => exact absurd trivial hg
  | node i l r ihl ihr =>
    have hl := hb.2.1
    have hr := hb.2.2
    cases hi : cmp i with
    | lt =>
      simp only [inserted, hi]
      by_cases hgl : Grows cmp l
      · obtain ⟨hb', hh, hlean⟩ := inserted_of_grows (n := n) hl hgl
        rw [rebalanced_of_balanced hb']
        refine rebalanced_higher_left hb hb' hh (fun he => hg ⟨he, ?_⟩) hlean
        rw [hi]
        exact hgl
      · obtain ⟨hb', hh⟩ := ihl hl hgl
        exact rebalanced_same hb hb' hr hh rfl
    | gt =>
      simp only [inserted, hi]
      by_cases hgr : Grows cmp r
      · obtain ⟨hb', hh, hlean⟩ := inserted_of_grows (n := n) hr hgr
        rw [rebalanced_of_balanced hb']
        refine rebalanced_higher_right hb hb' hh (fun he => hg ⟨he, ?_⟩) hlean
        rw [hi]
        exact hgr
      · obtain ⟨hb', hh⟩ := ihr hr hgr
        exact rebalanced_same hb hl hb' rfl hh
    | eq =>
      simp only [inserted, hi]
      exact rebalanced_same hb hl hr rfl rfl

theorem height_rebalanced_inserted (cmp : Nat → Ordering) (n : Nat) {t : BinaryTree Nat}
    (hb : HeightBalanced t) :
    HeightBalanced (rebalanced (inserted cmp n t)) ∧
      (Grows cmp t → (rebalanced (inserted cmp n t)).height = t.height + 1) ∧
      (¬ Grows cmp t → (rebalanced (inserted cmp n t)).height = t.height) := by
  by_cases hg : Grows cmp t
  · obtain ⟨hb', hh, -⟩ := inserted_of_grows (n := n) hb hg
    rw [rebalanced_of_balanced hb']
    exact ⟨hb', fun _ => hh, fun hn => absurd hg hn⟩
  · obtain ⟨hb', hh⟩ := rebalanced_inserted (n := n) hb hg
    exact ⟨hb', fun h => absurd h hg, fun _ => hh⟩

theorem heightBalanced_inserted_iff {t : BinaryTree Nat} (hb : HeightBalanced t) :
    HeightBalanced (inserted cmp n t) ↔ InsertOk cmp t := by
  cases t with
  | nil => exact iff_of_true (by simp [inserted, HeightBalanced]) trivial
  | node i l r =>
    obtain ⟨⟨h1, h2⟩, hl, hr⟩ := hb
    cases hi : cmp i with
    | lt =>
      obtain ⟨hb', hgrow, hstay⟩ := height_rebalanced_inserted cmp n hl
      simp only [inserted, InsertOk, hi, HeightBalanced]
      constructor
      · intro hbal hlt hg
        have := hgrow hg
        omega
      · intro hok
        refine ⟨?_, hb', hr⟩
        by_cases hg : Grows cmp l
        all_goals grind
    | gt =>
      obtain ⟨hb', hgrow, hstay⟩ := height_rebalanced_inserted cmp n hr
      simp only [inserted, InsertOk, hi, HeightBalanced]
      constructor
      · intro hbal hlt hg
        have := hgrow hg
        omega
      · intro hok
        refine ⟨?_, hl, hb'⟩
        by_cases hg : Grows cmp r
        all_goals grind
    | eq =>
      simp only [inserted, InsertOk, hi]
      exact iff_of_true ⟨⟨h1, h2⟩, hl, hr⟩ trivial

theorem heightBalanced_removed_iff {t : BinaryTree Nat} (hb : HeightBalanced t) :
    HeightBalanced (rebalanced (takeOut cmp t)) ↔ RemoveOk cmp t := by
  cases t with
  | nil => exact iff_of_true trivial trivial
  | node i l r =>
    have hbal := hb
    obtain ⟨⟨h1, h2⟩, hl, hr⟩ := hb
    cases hi : cmp i with
    | lt =>
      have hh := height_takeOut cmp l
      simp only [takeOut_lt hi, RemoveOk, hi, ← heightBalanced_takeOut_iff cmp hl]
      by_cases hlow : Lowers cmp l ∧ l.height < r.height
      · have hlow' : (takeOut cmp l).height < l.height := hlow.1
        rw [heightBalanced_right_iff hr (by omega)]
        exact and_congr_right fun _ => ⟨fun h _ _ => h, fun h => h hlow.1 hlow.2⟩
      · -- the root needs no rotation
        have hrange : (takeOut cmp l).height ≤ r.height + 1 ∧
            r.height ≤ (takeOut cmp l).height + 1 := by
          unfold Lowers at hlow
          omega
        have hin : InRange (.node i (takeOut cmp l) r) := by
          constructor <;> simp only [factor] <;> omega
        rw [rebalanced_of_inRange hin]
        exact ⟨fun hbal => ⟨hbal.2.1, fun ha hb => absurd ⟨ha, hb⟩ hlow⟩,
          fun hok => ⟨hrange, hok.1, hr⟩⟩
    | gt =>
      have hh := height_takeOut cmp r
      simp only [takeOut_gt hi, RemoveOk, hi, ← heightBalanced_takeOut_iff cmp hr]
      by_cases hlow : Lowers cmp r ∧ r.height < l.height
      · have hlow' : (takeOut cmp r).height < r.height := hlow.1
        rw [heightBalanced_left_iff hl (by omega)]
        exact and_congr_right fun _ => ⟨fun h _ _ => h, fun h => h hlow.1 hlow.2⟩
      · have hrange : l.height ≤ (takeOut cmp r).height + 1 ∧
            (takeOut cmp r).height ≤ l.height + 1 := by
          unfold Lowers at hlow
          omega
        have hin : InRange (.node i l (takeOut cmp r)) := by
          constructor <;> simp only [factor] <;> omega
        rw [rebalanced_of_inRange hin]
        exact ⟨fun hbal => ⟨hbal.2.2, fun ha hb => absurd ⟨ha, hb⟩ hlow⟩,
          fun hok => ⟨hrange, hl, hok.1⟩⟩
    | eq =>
      rw [rebalanced_of_inRange (inRange_takeOut hbal hi), heightBalanced_takeOut_iff cmp hbal]
      simp only [RemoveOk, hi]

end

section
variable {s : ArenaAddressAllocator} {t : BinaryTree Nat} {m : KeyMap}

section
variable (hl : Linked s.links t)
include hl

theorem heightsBalanced_iff_tree : s.HeightsBalanced ↔ HeightBalanced t := by
  refine ⟨fun ⟨u, hu, hb⟩ => ?_, fun hb => ⟨t, hl, hb⟩⟩
  rw [hl.tree.unique hu.tree]
  exact hb

theorem keepsHeights_insert_iff (key : UInt64) :
    s.KeepsHeights (.insert key) ↔ InsertOk (s.side key) t := by
  refine ⟨fun h => h t hl, fun h u hu => ?_⟩
  rw [← hl.tree.unique hu.tree]
  exact h

theorem keepsHeights_remove_iff (key : UInt64) :
    s.KeepsHeights (.remove key) ↔ RemoveOk (s.side key) t := by
  refine ⟨fun h => h t hl, fun h u hu => ?_⟩
  rw [← hl.tree.unique hu.tree]
  exact h

end

theorem insert_heights (hi : Inv s t) (hb : HeightBalanced t) {key : UInt64}
    (hroom : s.HasRoom key) : ∃ s', s.treeStep (.insert key) = some s' ∧
      (s'.HeightsBalanced ↔ s.KeepsHeights (.insert key)) := by
  obtain ⟨target, s', hs, hl', -⟩ := findOrInsertNode_tree (c := .top) (q := none) hi.linked
    hi.linked.tree hi.ordered (Nat.lt_of_le_of_lt (height_le_length t) hi.length_lt) hi.length_lt
    (hi.exists_node hroom)
  refine ⟨s', by simp only [treeStep]; exact congrArg (Option.map Prod.snd) hs, ?_⟩
  rw [heightsBalanced_iff_tree hl', keepsHeights_insert_iff hi.linked]
  exact heightBalanced_inserted_iff hb

theorem remove_heights (hi : Inv s t) (hb : HeightBalanced t) (key : UInt64) :
    ∃ s', s.treeStep (.remove key) = some s' ∧
      (s'.HeightsBalanced ↔ s.KeepsHeights (.remove key)) := by
  rw [keepsHeights_remove_iff hi.linked, ← heightBalanced_removed_iff hb]
  cases hx : s.lookup (inorder t) key with
  | none =>
    have habsent : ∀ i ∈ inorder t, s.side key i ≠ .eq := by
      intro i hmem he
      have hkey : (s.nodes i).key = key := by
        unfold side at he
        grind
      rw [(lookup_eq_some hi.ordered).2 ⟨hmem, hkey⟩] at hx
      cases hx
    refine ⟨s, removeNode_of_absent (by rw [hi.find_eq, hx]), ?_⟩
    rw [heightsBalanced_iff_tree hi.linked, takeOut_of_absent habsent, rebalanced_of_balanced hb]
  | some x =>
    obtain ⟨hmem, hkey⟩ := (lookup_eq_some hi.ordered).1 hx
    obtain ⟨s', t', hs, hr, ht⟩ := removeNode_tree (c := .top) hi.linked hi.linked.tree hi.ordered
      hi.length_lt hi.length_lt (hi.index x (hi.lt_of_mem hmem)) hmem hkey
    refine ⟨s', hs, ?_⟩
    rw [heightsBalanced_iff_tree hr.linked, ht hb (inRange_of_balanced hb)]
    exact Iff.rfl

theorem treeStep_heights (h : Refines s m) (hb : s.HeightsBalanced) (op : TreeOp)
    (hroom : s.TreeRoom op) : ∃ s', s.treeStep op = some s' ∧ Refines s' (m.step op) ∧
      (s'.HeightsBalanced ↔ s.KeepsHeights op) := by
  obtain ⟨s', hs, hr⟩ := h.treeStep op hroom
  refine ⟨s', hs, hr, ?_⟩
  obtain ⟨t, hi, -⟩ := h
  rw [heightsBalanced_iff_tree hi.linked] at hb
  have hstep : ∃ u, s.treeStep op = some u ∧ (u.HeightsBalanced ↔ s.KeepsHeights op) := by
    cases op with
    | insert key => exact insert_heights hi hb hroom
    | remove key => exact remove_heights hi hb key
  grind

end

/-- **In every state of a run the heights of the subtrees of every node differ by at most one,
exactly when** no insertion makes the side higher that the root leans to, no removal makes a side
lower that a node below the root leans away from, and none that the root leans away from while its
other child is even and the inner part of that child leans to the lower side; while the capacity is
not exceeded. -/
theorem heights_differ_iff (conf : ArenaConf) (ops : List TreeOp)
    (hroom : Along (bindStep treeStep) (onSome TreeRoom) (some (init conf)) ops) :
    Always (bindStep treeStep) (fun o => ∃ s ∈ o, s.HeightsBalanced) (some (init conf)) ops ↔
      Along (bindStep treeStep) (onSome KeepsHeights) (some (init conf)) ops := by
  refine hroom.always_iff
    (P := fun o => ∃ s ∈ o, (∃ m, Refines s m) ∧ s.HeightsBalanced) ?_ ?_ ?_ ?_
  · exact ⟨init conf, rfl, ⟨_, .init conf⟩, .nil, (Inv.init conf).linked, trivial⟩
  · exact fun o ⟨s, hs, _, hb⟩ => ⟨s, hs, hb⟩
  · intro o op ⟨s, hs, ⟨m, hr⟩, hb⟩ hop hok
    obtain ⟨s', hstep, hr', hiff⟩ := treeStep_heights hr hb op (hop s hs)
    obtain rfl := Option.mem_def.1 hs
    exact ⟨s', hstep, ⟨_, hr'⟩, hiff.2 (hok s rfl)⟩
  · intro o op ⟨s, hs, ⟨m, hr⟩, hb⟩ hop ⟨u, hu, hbu⟩ s1 hs1
    obtain rfl := Option.mem_def.1 hs
    obtain rfl := Option.some.inj hs1
    obtain ⟨s', hstep, -, hiff⟩ := treeStep_heights hr hb op (hop s rfl)
    obtain rfl : s' = u := Option.some.inj (hstep.symm.trans hu)
    exact hiff.1 hbu

def balancedRun : List TreeOp := [.insert 2, .insert 1, .insert 3, .remove 2]

theorem heights_differ_balancedRun :
    Along (bindStep treeStep) (onSome TreeRoom) (some (init smallConf)) balancedRun ∧
      (Always (bindStep treeStep) (fun o => ∃ s ∈ o, s.HeightsBalanced) (some (init smallConf))
        balancedRun ↔
      Along (bindStep treeStep) (onSome KeepsHeights) (some (init smallConf)) balancedRun) :=
  have hroom : Along (bindStep treeStep) (onSome TreeRoom) (some (init smallConf)) balancedRun := by
    decide
  ⟨hroom, heights_differ_iff smallConf balancedRun hroom⟩

theorem inARow_links :
    ([.insert 1, .insert 2, .insert 3].foldl (bindStep treeStep) (some (init smallConf))).map
      (fun s => (s.root, [0, 1, 2].map fun i => ((s.nodes i).left, (s.nodes i).right))) =
        some (some 0, [(none, some 1), (none, some 2), (none, none)]) := by
  decide

theorem not_heights_differ_inARow :
    ¬ Always (bindStep treeStep) (fun o => ∃ s ∈ o, s.HeightsBalanced) (some (init smallConf))
      [.insert 1, .insert 2, .insert 3] := by
  intro h
  obtain ⟨s, hs, t, hl, hb⟩ := h.last
  obtain ⟨u, hu, hlinks⟩ := Option.map_eq_some_iff.1 inARow_links
  obtain rfl : s = u := Option.some.inj (hs.symm.trans hu)
  simp only [List.map_cons, List.map_nil, Prod.mk.injEq, List.cons.injEq, and_true] at hlinks
  obtain ⟨hroot, ⟨h0l, h0r⟩, ⟨h1l, h1r⟩, h2l, h2r⟩ := hlinks
  have ht : IsTree s.links s.links.root
      (.node 0 .nil (.node 1 .nil (.node 2 .nil .nil))) :=
    ⟨hroot, h0l, h0r, h1l, h1r, h2l, h2r⟩
  rw [hl.tree.unique ht] at hb
  exact absurd hb (by decide)

end ArenaAddressAllocator

end Shm
