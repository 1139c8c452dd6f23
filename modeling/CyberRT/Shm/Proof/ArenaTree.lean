import CyberRT.Shm.ArenaAddressAllocator

/-!
# The tree operations of `ArenaAddressAllocator`

Each operation is described by what it does to the tree that the pointers form (`Linked s.links t`)
and to the in-order list of its nodes; that keys, indexes and counts stay as they are is `Keeps`.
-/

namespace Shm

open Function Lib List Option BinaryTree Equiv

namespace ArenaAddressAllocator

variable {s s' : ArenaAddressAllocator} {t : BinaryTree Nat} {key : UInt64} {p q : Option Nat}
  {i n : Nat} {yP slot : Slot Nat} {target : Nat} {post pre : List Nat}

theorem nodes_left (s : ArenaAddressAllocator) (i : Nat) : (s.nodes i).left = s.links.left i := rfl

theorem nodes_right (s : ArenaAddressAllocator) (i : Nat) :
    (s.nodes i).right = s.links.right i := rfl

structure Keeps (s s' : ArenaAddressAllocator) (stack : List Nat) : Prop where
  conf : s'.conf = s.conf
  allocatedIndex : s'.allocatedIndex = s.allocatedIndex
  reclaimStack : s'.reclaimStack = stack
  key : ∀ i, (s'.nodes i).key = (s.nodes i).key
  index : ∀ i, (s'.nodes i).index = (s.nodes i).index
  refCount : ∀ i, (s'.nodes i).refCount = (s.nodes i).refCount

namespace Keeps

theorem rfl : Keeps s s s.reclaimStack := ⟨.refl _, .refl _, .refl _, fun _ => .refl _,
  fun _ => .refl _, fun _ => .refl _⟩

variable {s'' : ArenaAddressAllocator}

theorem comp {l l' : List Nat} (h : Keeps s s' l) (h' : Keeps s' s'' l') : Keeps s s'' l' :=
  ⟨h'.conf.trans h.conf, h'.allocatedIndex.trans h.allocatedIndex, h'.reclaimStack,
    fun i => (h'.key i).trans (h.key i), fun i => (h'.index i).trans (h.index i),
    fun i => (h'.refCount i).trans (h.refCount i)⟩

theorem trans {l : List Nat} (h : Keeps s s' l)
    (h' : Keeps s' s'' s'.reclaimStack) : Keeps s s'' l := by
  have := h.comp h'
  rwa [h.reclaimStack] at this

theorem fuel {l : List Nat} (h : Keeps s s' l) : s'.fuel = s.fuel := by
  rw [ArenaAddressAllocator.fuel, h.conf, ArenaAddressAllocator.fuel]

theorem modify (i : Nat) {f : ArenaAddressNode → ArenaAddressNode} (h1 : ∀ n, (f n).key = n.key)
    (h2 : ∀ n, (f n).index = n.index) (h3 : ∀ n, (f n).refCount = n.refCount) :
    Keeps s (s.modify i f) s.reclaimStack := by
  have hn : ∀ j, (s.modify i f).nodes j = if j = i then f (s.nodes i) else s.nodes j := fun j =>
    update_apply _ _ _ _
  refine ⟨.refl _, .refl _, .refl _, fun j => ?_, fun j => ?_, fun j => ?_⟩
  all_goals
    rw [hn]
    split
    · rename_i hj
      subst hj
      first | exact h1 _ | exact h2 _ | exact h3 _
    · exact .refl _

theorem set (slot : Slot Nat) (p : Option Nat) : Keeps s (s.set slot p) s.reclaimStack := by
  cases slot with
  | root => exact ⟨.refl _, .refl _, .refl _, fun _ => .refl _, fun _ => .refl _, fun _ => .refl _⟩
  | left i | right i =>
    simp only [ArenaAddressAllocator.set]
    refine modify i ?_ ?_ ?_ <;> exact fun _ => .refl _

theorem setParent (i : Nat) (p : Option Nat) : Keeps s (s.setParent i p) s.reclaimStack := by
  refine modify i ?_ ?_ ?_ <;> exact fun _ => .refl _

theorem setParentOf (p : Option Nat) (i : Nat) : Keeps s (s.setParentOf p i) s.reclaimStack := by
  cases p with
  | none => exact rfl
  | some j => exact setParent j (some i)

end Keeps

@[simp] theorem links_set (s : ArenaAddressAllocator) (slot : Slot Nat) (p : Option Nat) :
    (s.set slot p).links = s.links.set slot p := by
  cases slot with
  | root => simp [set, links, Links.set]
  | left i | right i =>
    simp only [set, links, modify, Links.set, reduceCtorEq, if_false, Links.mk.injEq, true_and]
    constructor <;> funext j <;> by_cases hj : j = i
    all_goals first | subst hj; simp | simp [hj, Ne.symm hj]

@[simp] theorem links_setParent (s : ArenaAddressAllocator) (i : Nat) (p : Option Nat) :
    (s.setParent i p).links = s.links := by
  simp only [setParent, links, modify, Links.mk.injEq, true_and]
  grind

@[simp] theorem links_setParentOf (s : ArenaAddressAllocator) (p : Option Nat) (i : Nat) :
    (s.setParentOf p i).links = s.links := by
  cases p <;> simp [setParentOf]

/-! ## Heights and rotations -/

theorem treeHeight_eq {fuel : Nat}
    (ht : IsTree s.links p t) (hf : t.height < fuel) : s.treeHeight fuel p = some t.height := by
  induction t generalizing p fuel with
  | nil =>
    obtain rfl : p = none := ht
    cases fuel with
    | zero => cases hf
    | succ fuel => rfl
  | node i l r ihl ihr =>
    obtain ⟨rfl, hl, hr⟩ := ht
    simp only [height] at hf ⊢
    cases fuel with
    | zero => cases hf
    | succ fuel =>
      simp only [treeHeight]
      rw [nodes_left, ihl hl (by omega), nodes_right, ihr hr (by omega)]
      simp [Nat.add_comm]

theorem treeBalanceFactor_eq (ht : IsTree s.links p t)
    (hf : t.height ≤ s.fuel) : s.treeBalanceFactor p = some (factor t) := by
  cases t with
  | nil =>
    obtain rfl : p = none := ht
    rfl
  | node i l r =>
    obtain ⟨rfl, hl, hr⟩ := ht
    simp only [height] at hf
    simp only [treeBalanceFactor]
    rw [nodes_left, treeHeight_eq hl (by omega), nodes_right, treeHeight_eq hr (by omega)]
    rfl

section
variable {c : Ctx Nat} {x y : Nat} {a b d : BinaryTree Nat}

theorem treeRotateLeft_spec (hl : Linked s.links (c.plug (.node x a (.node y b d)))) :
    ∃ s', s.treeRotateLeft (some x) c.slot = some s' ∧ Keeps s s' s.reclaimStack ∧
      Linked s'.links (c.plug (.node y (.node x a b) d)) := by
  obtain ⟨p, -, rfl, -, hy, -⟩ := isTree_plug.1 hl.tree
  refine ⟨_, by simp [treeRotateLeft, show (s.nodes x).right = some y from hy]; rfl, ?_, ?_⟩
  · exact ((((Keeps.set _ _).trans (.set _ _)).trans (.setParent _ _)).trans (.set _ _)).trans
      (.setParent _ _)
  · simp only [links_set, links_setParent]
    exact hl.rotateLeft

theorem treeRotateRight_spec (hl : Linked s.links (c.plug (.node y (.node x a b) d))) :
    ∃ s', s.treeRotateRight (some y) c.slot = some s' ∧ Keeps s s' s.reclaimStack ∧
      Linked s'.links (c.plug (.node x a (.node y b d))) := by
  obtain ⟨p, -, rfl, ⟨hx, -⟩, -⟩ := isTree_plug.1 hl.tree
  refine ⟨_, by simp [treeRotateRight, show (s.nodes y).left = some x from hx]; rfl, ?_, ?_⟩
  · exact ((((Keeps.set _ _).trans (.set _ _)).trans (.setParent _ _)).trans (.set _ _)).trans
      (.setParent _ _)
  · simp only [links_set, links_setParent]
    exact hl.rotateRight

end

theorem inorder_rebalanced (t : BinaryTree Nat) : inorder (rebalanced t) = inorder t := by
  cases t with
  | nil => rfl
  | node i l r =>
    rw [rebalanced_node]
    split_ifs <;> simp

theorem treeRebalance_tree {c : Ctx Nat}
    (hl : Linked s.links (c.plug t)) (hp : IsTree s.links p t) (hf : t.height ≤ s.fuel) :
    ∃ s', s.treeRebalance p c.slot = some s' ∧ Keeps s s' s.reclaimStack ∧
      Linked s'.links (c.plug (rebalanced t)) := by
  have hfac := treeBalanceFactor_eq hp hf
  cases t with
  | nil =>
    obtain rfl : p = none := hp
    exact ⟨s, rfl, .rfl, hl⟩
  | node i l r =>
    obtain ⟨rfl, htl, htr⟩ := hp
    simp only [height] at hf
    have hfl := treeBalanceFactor_eq htl (by omega)
    have hfr := treeBalanceFactor_eq htr (by omega)
    simp only [treeRebalance, hfac, bind_eq_bind, bind_some]
    rw [nodes_left, nodes_right, hfl, hfr]
    simp only [bind_some, rebalanced_node]
    by_cases h1 : factor (.node i l r) > 1
    · rw [if_pos h1, if_pos h1]
      simp only [factor] at h1
      cases l with
      | nil => simp only [height] at h1; omega
      | node j a b =>
        by_cases h2 : factor (.node j a b) > 0
        · rw [if_pos h2, if_pos h2]
          exact treeRotateRight_spec hl
        · rw [if_neg h2, if_neg h2]
          -- the left child is at least as high on its right side, so it has a right child
          simp only [factor] at h2
          cases b with
          | nil => simp only [height] at h1 h2; omega
          | node k b1 b2 =>
            obtain ⟨s1, hs1, hk1, hl1⟩ := treeRotateLeft_spec (c := c.left i r) hl
            obtain ⟨s2, hs2, hk2, hl2⟩ := treeRotateRight_spec (c := c) hl1
            refine ⟨s2, ?_, hk1.trans hk2, hl2⟩
            simp only [treeRotateLeftRight]
            rw [nodes_left, htl.1]
            simp only [show (.left i : Slot Nat) = (c.left i r).slot from rfl, hs1,
              bind_eq_bind, bind_some, hs2]
    · rw [if_neg h1, if_neg h1]
      by_cases h2 : factor (.node i l r) < -1
      · rw [if_pos h2, if_pos h2]
        simp only [factor] at h2
        cases r with
        | nil => simp only [height] at h2; omega
        | node j a b =>
          by_cases h3 : factor (.node j a b) < 0
          · rw [if_pos h3, if_pos h3]
            exact treeRotateLeft_spec hl
          · rw [if_neg h3, if_neg h3]
            simp only [factor] at h3
            cases a with
            | nil => simp only [height] at h2 h3; omega
            | node k a1 a2 =>
              obtain ⟨s1, hs1, hk1, hl1⟩ := treeRotateRight_spec (c := c.right l i) hl
              obtain ⟨s2, hs2, hk2, hl2⟩ := treeRotateLeft_spec (c := c) hl1
              refine ⟨s2, ?_, hk1.trans hk2, hl2⟩
              simp only [treeRotateRightLeft]
              rw [nodes_right, htr.1]
              simp only [show (.right i : Slot Nat) = (c.right l i).slot from rfl, hs1,
                bind_eq_bind, bind_some, hs2]
      · rw [if_neg h2, if_neg h2]
        exact ⟨s, rfl, .rfl, hl⟩

theorem treeRebalance_spec {c : Ctx Nat}
    (hl : Linked s.links (c.plug t)) (hp : IsTree s.links p t) (hf : t.height ≤ s.fuel) :
    ∃ s' t', s.treeRebalance p c.slot = some s' ∧ Keeps s s' s.reclaimStack ∧
      Linked s'.links (c.plug t') ∧ inorder t' = inorder t := by
  obtain ⟨s', hs, hk, hl'⟩ := treeRebalance_tree hl hp hf
  exact ⟨s', _, hs, hk, hl', inorder_rebalanced t⟩

def InRange (t : BinaryTree Nat) : Prop := -1 ≤ factor t ∧ factor t ≤ 1

theorem rebalanced_of_inRange (h : InRange t) : rebalanced t = t := by
  obtain ⟨h1, h2⟩ := h
  rw [rebalanced, if_neg (by omega), if_neg (by omega)]

theorem inRange_of_balanced (h : HeightBalanced t) : InRange t := by
  cases t with
  | nil => exact ⟨by simp [factor], by simp [factor]⟩
  | node i l r =>
    obtain ⟨⟨h1, h2⟩, -⟩ := h
    constructor <;> simp only [factor] <;> omega

theorem rebalanced_of_balanced (h : HeightBalanced t) : rebalanced t = t :=
  rebalanced_of_inRange (inRange_of_balanced h)

theorem factor_plug_congr (c : Ctx Nat) {t u : BinaryTree Nat} (hh : t.height = u.height)
    (hf : factor t = factor u) : factor (c.plug t) = factor (c.plug u) := by
  induction c generalizing t u with
  | top => exact hf
  | left c i r ih => exact ih (by simp only [height, hh]) (by simp only [factor, hh])
  | right c l i ih => exact ih (by simp only [height, hh]) (by simp only [factor, hh])

theorem inRange_plug_congr {c : Ctx Nat} (hc : c ≠ .top) {t u : BinaryTree Nat}
    (hh : t.height = u.height) (h : InRange (c.plug u)) : InRange (c.plug t) := by
  have hfac : factor (c.plug t) = factor (c.plug u) := by
    cases c with
    | top => exact absurd rfl hc
    | left c i r =>
      exact factor_plug_congr c (by simp only [height, hh]) (by simp only [factor, hh])
    | right c l i =>
      exact factor_plug_congr c (by simp only [height, hh]) (by simp only [factor, hh])
  rw [InRange, hfac]
  exact h

/-! ## Search -/

def Ordered (s : ArenaAddressAllocator) (t : BinaryTree Nat) : Prop :=
  (inorder t).Pairwise fun i j => (s.nodes i).key < (s.nodes j).key

def lookup (s : ArenaAddressAllocator) (l : List Nat) (key : UInt64) : Option Nat :=
  l.find? fun i => (s.nodes i).key == key

theorem ordered_node {l r : BinaryTree Nat} (h : s.Ordered (.node i l r)) :
    s.Ordered l ∧ s.Ordered r ∧ (∀ j ∈ inorder l, (s.nodes j).key < (s.nodes i).key) ∧
      (∀ j ∈ inorder r, (s.nodes i).key < (s.nodes j).key) := by
  simp only [Ordered, inorder_node, pairwise_append, pairwise_cons, mem_cons] at h
  exact ⟨h.1, h.2.1.2, fun j hj => h.2.2 j hj i (.inl rfl), h.2.1.1⟩

theorem lookup_eq_none {l : List Nat} (h : ∀ i ∈ l, (s.nodes i).key ≠ key) :
    s.lookup l key = none :=
  find?_eq_none.2 fun i hi => by simpa using h i hi

theorem findNode_eq {fuel : Nat}
    (ht : IsTree s.links p t) (ho : s.Ordered t) (hf : t.height < fuel) :
    s.findNode fuel p key = some (s.lookup (inorder t) key) := by
  induction t generalizing p fuel with
  | nil =>
    obtain rfl : p = none := ht
    cases fuel with
    | zero => cases hf
    | succ fuel => rfl
  | node i l r ihl ihr =>
    obtain ⟨rfl, hl, hr⟩ := ht
    obtain ⟨hol, hor, hlt, hgt⟩ := ordered_node ho
    simp only [height] at hf
    cases fuel with
    | zero => cases hf
    | succ fuel =>
      simp only [findNode]
      rw [nodes_left, nodes_right, ihl hl hol (by omega), ihr hr hor (by omega), lookup, lookup,
        lookup, inorder_node, find?_append, find?_cons]
      by_cases h1 : key < (s.nodes i).key
      · -- smaller: not at `i`, and not in the right part
        have hno : s.lookup (inorder r) key = none := lookup_eq_none fun j hj he =>
          UInt64.lt_asymm h1 (he ▸ hgt j hj)
        have hi : ((s.nodes i).key == key) = false := by
          simpa using fun he : (s.nodes i).key = key => UInt64.lt_irrefl key (he ▸ h1)
        rw [lookup] at hno
        simp [h1, hi, hno]
      · by_cases h2 : (s.nodes i).key < key
        · have hno : s.lookup (inorder l) key = none := lookup_eq_none fun j hj he =>
            UInt64.lt_asymm h2 (he ▸ hlt j hj)
          have hi : ((s.nodes i).key == key) = false := by
            simpa using fun he : (s.nodes i).key = key => UInt64.lt_irrefl key (he ▸ h2)
          rw [lookup] at hno
          simp [h1, h2, hi, hno]
        · have hi : (s.nodes i).key = key :=
            UInt64.le_antisymm (UInt64.not_lt.1 h1) (UInt64.not_lt.1 h2)
          have hno : s.lookup (inorder l) key = none := lookup_eq_none fun j hj he =>
            UInt64.lt_irrefl key (by have := hlt j hj; rwa [he, hi] at this)
          rw [lookup] at hno
          simp [hi, hno]

/-! ## Insertion -/

/-- What `FindOrInsertNode` does to a part with the in-order list `l`: the key is there and the list
stays, or a new node is put in between the smaller and the larger keys. -/
def Placed (s : ArenaAddressAllocator) (key : UInt64) (l : List Nat) (target : Nat)
    (s' : ArenaAddressAllocator) (l' : List Nat) : Prop :=
  (target ∈ l ∧ (s.nodes target).key = key ∧ Keeps s s' s.reclaimStack ∧ l' = l) ∨
  ∃ s1 pre post, s.newNode key = some (target, s1) ∧ Keeps s1 s' s1.reclaimStack ∧
    l = pre ++ post ∧ l' = pre ++ target :: post ∧ (∀ i ∈ pre, (s.nodes i).key < key) ∧
    ∀ i ∈ post, key < (s.nodes i).key

theorem Placed.length {l l' : List Nat}
    (h : Placed s key l target s' l') : l'.length ≤ l.length + 1 := by
  rcases h with ⟨-, -, -, rfl⟩ | ⟨s1, pre, post, -, -, rfl, rfl, -⟩
  all_goals grind

theorem newNode_conf (h : s.newNode key = some (n, s')) : s'.conf = s.conf := by
  unfold newNode at h
  split at h
  · cases h
    rfl
  · split at h
    · cases h
    · cases h
      rfl

theorem Placed.fuel {l l' : List Nat} (h : Placed s key l target s' l') : s'.fuel = s.fuel := by
  rcases h with ⟨-, -, hk, -⟩ | ⟨s1, pre, post, hn, hk, -⟩
  · exact hk.fuel
  · rw [hk.fuel, ArenaAddressAllocator.fuel, newNode_conf hn, ArenaAddressAllocator.fuel]

theorem Placed.keeps {l l' : List Nat} {s'' : ArenaAddressAllocator}
    (h : Placed s key l target s' l') (hk : Keeps s' s'' s'.reclaimStack) :
    Placed s key l target s'' l' := by
  rcases h with ⟨h1, h2, h3, h4⟩ | ⟨s1, pre, post, h1, h2, h3⟩
  · exact .inl ⟨h1, h2, h3.trans hk, h4⟩
  · exact .inr ⟨s1, pre, post, h1, h2.trans hk, h3⟩

theorem Placed.left {l l' r : List Nat} {target i : Nat}
    (h : Placed s key l target s' l') (hi : key < (s.nodes i).key)
    (hr : ∀ j ∈ r, (s.nodes i).key < (s.nodes j).key) :
    Placed s key (l ++ i :: r) target s' (l' ++ i :: r) := by
  rcases h with ⟨h1, h2, h3, rfl⟩ | ⟨s1, pre, post, h1, h2, rfl, rfl, h3, h4⟩
  · exact .inl ⟨mem_append_left _ h1, h2, h3, rfl⟩
  · refine .inr ⟨s1, pre, post ++ i :: r, h1, h2, by simp, by simp, h3, fun j hj => ?_⟩
    grind

theorem Placed.right {l r r' : List Nat} {target i : Nat}
    (h : Placed s key r target s' r') (hi : (s.nodes i).key < key)
    (hl : ∀ j ∈ l, (s.nodes j).key < (s.nodes i).key) :
    Placed s key (l ++ i :: r) target s' (l ++ i :: r') := by
  rcases h with ⟨h1, h2, h3, rfl⟩ | ⟨s1, pre, post, h1, h2, rfl, rfl, h3, h4⟩
  · exact .inl ⟨mem_append_right _ (mem_cons_of_mem i h1), h2, h3, rfl⟩
  · refine .inr ⟨s1, l ++ i :: pre, post, h1, h2, by simp, by simp, fun j hj => ?_, h4⟩
    grind

theorem newNode_links (h : s.newNode key = some (n, s')) :
    s'.links.root = s.links.root ∧ s'.links.left n = none ∧ s'.links.right n = none ∧
      ∀ l : List Nat, n ∉ l → SameAt s.links s'.links l := by
  have hkeep : ∀ (s0 : ArenaAddressAllocator) (f : ArenaAddressNode → ArenaAddressNode),
      s0.nodes = s.nodes → ∀ l : List Nat, n ∉ l → SameAt s.links (s0.modify n f).links l := by
    intro s0 f h0 l hn i hi
    have : i ≠ n := fun he => hn (he ▸ hi)
    simp [links, modify, this, h0]
  unfold newNode at h
  split at h
  · obtain ⟨rfl, rfl⟩ := h
    exact ⟨rfl, by simp [links, modify], by simp [links, modify], hkeep _ _ rfl⟩
  · split at h
    · cases h
    · obtain ⟨rfl, rfl⟩ := h
      exact ⟨rfl, by simp [links, modify], by simp [links, modify], hkeep _ _ rfl⟩

theorem side_lt (h : key < (s.nodes i).key) : s.side key i = .lt :=
  if_pos h

theorem side_gt (h : (s.nodes i).key < key) : s.side key i = .gt := by
  rw [side, if_neg (UInt64.lt_asymm h), if_pos h]

theorem side_eq (h : (s.nodes i).key = key) : s.side key i = .eq := by
  subst h
  rw [side, if_neg (UInt64.lt_irrefl _), if_neg (UInt64.lt_irrefl _)]

theorem findOrInsertNode_tree :
    ∀ {s : ArenaAddressAllocator} {c : Ctx Nat} {p : Option Nat} {fuel : Nat} {q : Option Nat},
    Linked s.links (c.plug t) → IsTree s.links p t → s.Ordered t → t.height < fuel →
    (inorder t).length < s.fuel → ((∃ i ∈ inorder t, (s.nodes i).key = key) ∨
      ∃ n s1, s.newNode key = some (n, s1) ∧ n ∉ inorder (c.plug t)) →
    ∃ target s', s.findOrInsertNode fuel p c.slot q key = some (target, s') ∧
      Linked s'.links (c.plug (inserted (s.side key) target t)) ∧
      Placed s key (inorder t) target s' (inorder (inserted (s.side key) target t)) := by
  induction t with
  | nil =>
    intro s c p fuel q hl hp _ hf _ hnew
    obtain rfl : p = none := hp
    rcases hnew with ⟨i, hi, -⟩ | ⟨n, s1, hn, hfresh⟩
    · cases hi
    cases fuel with
    | zero => cases hf
    | succ fuel =>
      obtain ⟨hroot, hleft, hright, hsame⟩ := newNode_links hn
      refine ⟨n, _, by
        simp only [findOrInsertNode, hn, bind_eq_bind, bind_some]; rfl, ?_, ?_⟩
      · rw [links_setParent, links_set]
        rw [c.inorder_plug, inorder_nil, append_nil] at hfresh
        refine hl.replace hroot (hsame _ hfresh) ⟨rfl, hleft, hright⟩ ?_
        have hnd := hl.nodup
        rw [c.inorder_plug] at hnd ⊢
        simp only [inserted, inorder_node, inorder_nil, append_nil, nil_append] at hnd ⊢
        grind
      · exact .inr ⟨s1, [], [], hn, (Keeps.set _ _).trans (.setParent _ _), rfl, rfl, by simp,
          by simp⟩
  | node i l r ihl ihr =>
    intro s c p fuel q hl hp ho hf hlen hnew
    obtain ⟨rfl, htl, htr⟩ := hp
    obtain ⟨hol, hor, hlt, hgt⟩ := ordered_node ho
    simp only [height] at hf
    simp only [inorder_node, length_append, length_cons] at hlen
    cases fuel with
    | zero => cases hf
    | succ fuel =>
      have hmem : (∃ j ∈ inorder (.node i l r), (s.nodes j).key = key) →
          (∃ j ∈ inorder l, (s.nodes j).key = key ∧ key < (s.nodes i).key) ∨
          (s.nodes i).key = key ∨
          ∃ j ∈ inorder r, (s.nodes j).key = key ∧ (s.nodes i).key < key := by
        rintro ⟨j, hj, he⟩
        simp only [inorder_node, mem_append, mem_cons] at hj
        grind
      by_cases h1 : key < (s.nodes i).key
      · have hnew' : (∃ j ∈ inorder l, (s.nodes j).key = key) ∨
            ∃ n s1, s.newNode key = some (n, s1) ∧ n ∉ inorder ((c.left i r).plug l) := by
          refine hnew.imp (fun h => ?_) id
          grind
        obtain ⟨target, s1, hs1, hl1, hpl⟩ := ihl (q := some i) (c := c.left i r) hl htl hol
          (show l.height < fuel by omega) (by omega) hnew'
        obtain ⟨q, -, -, htl1, -⟩ := (isTree_plug (c := c)).1 hl1.tree
        have hh := height_le_length (inserted (s.side key) target l)
        have hlen1 := hpl.length
        obtain ⟨s2, hs2, hk2, hl2⟩ := treeRebalance_tree (c := c.left i r) hl1 htl1
          (by rw [hpl.fuel]; omega)
        simp only [inserted, side_lt h1]
        refine ⟨target, s2, ?_, hl2, ?_⟩
        · simp only [findOrInsertNode, h1, if_true]
          rw [nodes_left, show (.left i : Slot Nat) = (c.left i r).slot from rfl, hs1]
          simp only [bind_eq_bind, bind_some]
          rw [show (s1.nodes i).left = s1.links.left i from rfl, hs2]
          rfl
        · rw [inorder_node, inorder_node, inorder_rebalanced]
          exact (hpl.keeps hk2).left h1 hgt
      · by_cases h2 : (s.nodes i).key < key
        · have hnew' : (∃ j ∈ inorder r, (s.nodes j).key = key) ∨
              ∃ n s1, s.newNode key = some (n, s1) ∧ n ∉ inorder ((c.right l i).plug r) := by
            refine hnew.imp (fun h => ?_) id
            grind
          obtain ⟨target, s1, hs1, hl1, hpl⟩ := ihr (q := some i) (c := c.right l i) hl htr
            hor (show r.height < fuel by omega) (by omega) hnew'
          obtain ⟨q, -, -, -, htr1⟩ := (isTree_plug (c := c)).1 hl1.tree
          have hh := height_le_length (inserted (s.side key) target r)
          have hlen1 := hpl.length
          obtain ⟨s2, hs2, hk2, hl2⟩ := treeRebalance_tree (c := c.right l i) hl1 htr1
            (by rw [hpl.fuel]; omega)
          simp only [inserted, side_gt h2]
          refine ⟨target, s2, ?_, hl2, ?_⟩
          · simp only [findOrInsertNode, h1, h2, if_true, if_false]
            rw [nodes_right, show (.right i : Slot Nat) = (c.right l i).slot from rfl, hs1]
            simp only [bind_eq_bind, bind_some]
            rw [show (s1.nodes i).right = s1.links.right i from rfl, hs2]
            rfl
          · rw [inorder_node, inorder_node, inorder_rebalanced]
            exact (hpl.keeps hk2).right h2 hlt
        · have hi : (s.nodes i).key = key :=
            UInt64.le_antisymm (UInt64.not_lt.1 h1) (UInt64.not_lt.1 h2)
          simp only [inserted, side_eq hi]
          exact ⟨i, s, by simp [findOrInsertNode, h1, h2], hl, .inl ⟨by simp, hi, .rfl, rfl⟩⟩

theorem findOrInsertNode_spec {s : ArenaAddressAllocator} {c : Ctx Nat} {fuel : Nat}
    (hl : Linked s.links (c.plug t)) (hp : IsTree s.links p t) (ho : s.Ordered t)
    (hf : t.height < fuel) (hlen : (inorder t).length < s.fuel)
    (hnew : (∃ i ∈ inorder t, (s.nodes i).key = key) ∨
      ∃ n s1, s.newNode key = some (n, s1) ∧ n ∉ inorder (c.plug t)) :
    ∃ target s' t', s.findOrInsertNode fuel p c.slot q key = some (target, s') ∧
      Linked s'.links (c.plug t') ∧ Placed s key (inorder t) target s' (inorder t') := by
  obtain ⟨target, s', hs, hl', hpl⟩ := findOrInsertNode_tree (q := q) hl hp ho hf hlen hnew
  exact ⟨target, s', _, hs, hl', hpl⟩

/-! ## Removal -/

theorem treeMax_spec {l r : BinaryTree Nat} {fuel : Nat}
    (ht : IsTree s.links (s.links.get slot) (.node i l r)) (hf : (inorder r).length < fuel) :
    ∃ y sy pre, s.treeMax fuel i slot = some (y, sy) ∧ inorder (.node i l r) = pre ++ [y] ∧
      s.links.get sy = some y ∧ sy ∈ slots slot (.node i l r) := by
  induction r generalizing i l slot fuel with
  | nil =>
    obtain ⟨hi, -, hr⟩ := ht
    cases fuel with
    | zero => cases hf
    | succ fuel =>
      refine ⟨i, slot, inorder l, ?_, rfl, hi, by simp [slots]⟩
      simp only [treeMax, show (s.nodes i).right = none from hr]
  | node j a b _ ihb =>
    obtain ⟨hi, -, hr⟩ := ht
    simp only [inorder_node, length_append, length_cons] at hf
    cases fuel with
    | zero => cases hf
    | succ fuel =>
      obtain ⟨y, sy, pre, hm, hin, hget, hmem⟩ := ihb (i := j) (l := a)
        (show IsTree s.links (s.links.get (.right i)) (.node j a b) from hr)
        (show (inorder b).length < fuel by omega)
      refine ⟨y, sy, inorder l ++ i :: pre, ?_, ?_, hget,
        mem_cons_of_mem _ (mem_append_right _ hmem)⟩
      · simp only [treeMax, show (s.nodes i).right = some j from hr.1, hm]
      · rw [inorder_node, hin, append_assoc, cons_append]

theorem treeMin_spec {l r : BinaryTree Nat} {fuel : Nat}
    (ht : IsTree s.links (s.links.get slot) (.node i l r)) (hf : (inorder l).length < fuel) :
    ∃ y sy post, s.treeMin fuel i slot = some (y, sy) ∧ inorder (.node i l r) = y :: post ∧
      s.links.get sy = some y ∧ sy ∈ slots slot (.node i l r) := by
  induction l generalizing i r slot fuel with
  | nil =>
    obtain ⟨hi, hl, -⟩ := ht
    cases fuel with
    | zero => cases hf
    | succ fuel =>
      refine ⟨i, slot, inorder r, ?_, rfl, hi, by simp [slots]⟩
      simp only [treeMin, show (s.nodes i).left = none from hl]
  | node j a b iha _ =>
    obtain ⟨hi, hl, -⟩ := ht
    simp only [inorder_node, length_append, length_cons] at hf
    cases fuel with
    | zero => cases hf
    | succ fuel =>
      obtain ⟨y, sy, post, hm, hin, hget, hmem⟩ := iha (i := j) (r := b)
        (show IsTree s.links (s.links.get (.left i)) (.node j a b) from hl)
        (show (inorder a).length < fuel by omega)
      refine ⟨y, sy, post ++ i :: inorder r, ?_, ?_, hget,
        mem_cons_of_mem _ (mem_append_left _ hmem)⟩
      · simp only [treeMin, show (s.nodes i).left = some j from hl.1, hm]
      · rw [inorder_node, hin, cons_append]

theorem links_swapNodePosition (s : ArenaAddressAllocator) (x y : Nat) (xP yP : Slot Nat) :
    (s.swapNodePosition x xP y yP).links = s.links.exchange x xP y yP := by
  have hleft : ∀ (u : ArenaAddressAllocator) i, (u.nodes i).left = u.links.left i := fun _ _ => rfl
  have hright : ∀ (u : ArenaAddressAllocator) i, (u.nodes i).right = u.links.right i :=
    fun _ _ => rfl
  simp only [swapNodePosition, Links.exchange, hleft, hright, links_setParentOf, links_set,
    links_setParent]

theorem swapNodePosition_keeps (s : ArenaAddressAllocator) (x y : Nat) (xP yP : Slot Nat) :
    Keeps s (s.swapNodePosition x xP y yP) s.reclaimStack := by
  unfold swapNodePosition
  exact (((((((((((Keeps.set _ _).trans (.set _ _)).trans (.setParent _ _)).trans
    (.setParent _ _)).trans (.set _ _)).trans (.setParentOf _ _)).trans (.set _ _)).trans
    (.setParentOf _ _)).trans (.set _ _)).trans (.setParentOf _ _)).trans (.set _ _)).trans
    (.setParentOf _ _)

theorem swapNodePosition_linked (hl : Linked s.links t) {x y : Nat}
    {xP yP : Slot Nat} (hxy : x ≠ y) (hxP : xP ∈ slots .root t) (hyP : yP ∈ slots .root t)
    (hx : s.links.get xP = some x) (hy : s.links.get yP = some y) :
    Linked (s.swapNodePosition x xP y yP).links (t.map (swap x y)) := by
  rw [links_swapNodePosition]
  exact hl.exchange hxy hxP hyP hx hy

theorem map_swap_eq_self {x y : Nat} {l : List Nat} (hx : x ∉ l) (hy : y ∉ l) :
    ∀ i ∈ l, swap x y i = i := fun _ hi =>
  swap_apply_of_ne_of_ne (fun he => hx (he ▸ hi)) fun he => hy (he ▸ hi)

theorem swapNodePosition_below {c : Ctx Nat} {x y : Nat} {l r : BinaryTree Nat}
    (hl : Linked s.links (c.plug (.node x l r))) (hmem : y ∈ inorder l ∨ y ∈ inorder r)
    (hy : s.links.get yP = some y) (hyP : yP ∈ slots (.left x) l ∨ yP ∈ slots (.right x) r) :
    Linked (s.swapNodePosition x c.slot y yP).links
      (c.plug (.node y (l.map (swap x y)) (r.map (swap x y)))) := by
  obtain ⟨p, hc, hp, -⟩ := isTree_plug.1 hl.tree
  obtain ⟨-, hnd, hctx⟩ := hl.plug_nodup
  have hxy : x ≠ y := by
    simp only [inorder_node, nodup_append, nodup_cons, mem_cons] at hnd
    grind
  have hlinked := swapNodePosition_linked hl hxy (slots_plug (by simp [slots]))
    (slots_plug (mem_cons_of_mem _ (mem_append.2 hyP))) (hc.get.trans hp) hy
  rwa [Ctx.plug_map, Ctx.map_eq_self (map_swap_eq_self (hctx x (by simp))
    (hctx y (by simpa using .imp_right .inr hmem))), BinaryTree.map, swap_apply_left]
    at hlinked

theorem swapNodePosition_left {c : Ctx Nat} {x y : Nat} {l r : BinaryTree Nat}
    (hl : Linked s.links (c.plug (.node x l r))) (hin : inorder l = pre ++ [y])
    (hy : s.links.get yP = some y) (hyP : yP ∈ slots (.left x) l) :
    Linked (s.swapNodePosition x c.slot y yP).links
        ((c.left y r).plug (l.map (swap x y))) ∧
      inorder (l.map (swap x y)) = pre ++ [x] := by
  have hlinked := swapNodePosition_below hl (.inl (by simp [hin])) hy (.inl hyP)
  obtain ⟨-, hnd, -⟩ := hl.plug_nodup
  simp only [inorder_node, hin, nodup_append, nodup_cons, mem_append, mem_cons,
    not_mem_nil, or_false] at hnd
  have hpre : pre.map (swap x y) = pre := by
    rw [map_congr_left (map_swap_eq_self (x := x) (y := y) (by grind) (by grind)), List.map_id']
  rw [map_eq_self (map_swap_eq_self (x := x) (y := y) (l := inorder r) (by grind) (by grind))]
    at hlinked
  exact ⟨hlinked, by rw [inorder_map, hin, map_append, hpre, map_singleton, swap_apply_right]⟩

theorem swapNodePosition_right {c : Ctx Nat} {x y : Nat} {l r : BinaryTree Nat}
    (hl : Linked s.links (c.plug (.node x l r))) (hin : inorder r = y :: post)
    (hy : s.links.get yP = some y) (hyP : yP ∈ slots (.right x) r) :
    Linked (s.swapNodePosition x c.slot y yP).links
        ((c.right l y).plug (r.map (swap x y))) ∧
      inorder (r.map (swap x y)) = x :: post := by
  have hlinked := swapNodePosition_below hl (.inr (by simp [hin])) hy (.inr hyP)
  obtain ⟨-, hnd, -⟩ := hl.plug_nodup
  simp only [inorder_node, hin, nodup_append, nodup_cons, mem_cons] at hnd
  have hpost : post.map (swap x y) = post := by
    rw [map_congr_left (map_swap_eq_self (x := x) (y := y) (by grind) (by grind)), List.map_id']
  rw [map_eq_self (map_swap_eq_self (x := x) (y := y) (l := inorder l) (by grind) (by grind))]
    at hlinked
  exact ⟨hlinked, by rw [inorder_map, hin, map_cons, hpost, swap_apply_right]⟩

theorem inorder_plug_erase {c : Ctx Nat} {x : Nat} {l r : BinaryTree Nat}
    (hl : Linked s.links (c.plug (.node x l r))) :
    (inorder (c.plug (.node x l r))).erase x = c.before ++ (inorder l ++ inorder r) ++ c.after := by
  have hnd := hl.nodup
  rw [c.inorder_plug, inorder_node] at hnd ⊢
  grind

theorem unlink_spec {c : Ctx Nat} {x : Nat} {l r u : BinaryTree Nat}
    (hl : Linked s.links (c.plug (.node x l r))) (hidx : (s.nodes x).index = x)
    (hq : IsTree s.links q u) (hu : inorder u = inorder l ++ inorder r) :
    Keeps s ((s.set c.slot q).reclaimNode x) (x :: s.reclaimStack) ∧
      Linked ((s.set c.slot q).reclaimNode x).links (c.plug u) ∧
      inorder (c.plug u) = (inorder (c.plug (.node x l r))).erase x := by
  have hin : inorder (c.plug u) = (inorder (c.plug (.node x l r))).erase x := by
    rw [inorder_plug_erase hl, c.inorder_plug, hu]
  have hset : Keeps s (s.set c.slot q) s.reclaimStack := .set _ _
  have hidx' : ((s.set c.slot q).nodes x).index = x := (hset.index x).trans hidx
  have hlinked : Linked (s.set c.slot q).links (c.plug u) := by
    rw [links_set]
    refine hl.replace rfl (fun _ _ => ⟨rfl, rfl⟩) hq ?_
    rw [hin]
    exact hl.nodup.erase x
  have hx : x ∉ inorder (c.plug u) := by
    rw [hin]
    exact hl.nodup.not_mem_erase
  refine ⟨?_, ⟨?_, hlinked.nodup⟩, hin⟩
  · have hmod : Keeps (s.set c.slot q) ((s.set c.slot q).modify x fun n =>
        { n with left := none, right := none, parent := none }) (s.set c.slot q).reclaimStack := by
      refine .modify x ?_ ?_ ?_ <;> exact fun _ => rfl
    have hall := hset.trans hmod
    simp only [reclaimNode, hidx']
    exact ⟨hall.conf, hall.allocatedIndex, congrArg (x :: ·) hall.reclaimStack, hall.key,
      hall.index, hall.refCount⟩
  · refine hlinked.tree.congr fun i hi => ?_
    have hne : i ≠ x := fun he => hx (he ▸ hi)
    simp [links, reclaimNode, hidx', modify, hne]

theorem treeBalanceFactor_isSome (hl : Linked s.links t)
    (hi : i ∈ inorder t) (hf : (inorder t).length < s.fuel) :
    ∃ b, s.treeBalanceFactor (some i) = some b := by
  obtain ⟨u, hu, hle⟩ := hl.tree.exists_part hi
  have := height_le_length t
  exact ⟨_, treeBalanceFactor_eq hu (by omega)⟩

def Removed (s : ArenaAddressAllocator) (x : Nat) (l : List Nat) (s' : ArenaAddressAllocator) :
    Prop :=
  ∃ t, Linked s'.links t ∧ inorder t = l.erase x ∧ Keeps s s' (x :: s.reclaimStack)

structure RemovedTo (s : ArenaAddressAllocator) (x : Nat) (l : List Nat)
    (s' : ArenaAddressAllocator) (t : BinaryTree Nat) : Prop where
  linked : Linked s'.links t
  inorder_eq : inorder t = l.erase x
  keeps : Keeps s s' (x :: s.reclaimStack)

theorem RemovedTo.rebalance {x i : Nat} {l : List Nat}
    (h : RemovedTo s x l s' t) (hi : i ∈ l) (hne : i ≠ x) (hf : l.length < s.fuel)
    (test : Int → Prop) [DecidablePred test] :
    ∃ b s'', s'.treeBalanceFactor (some i) = some b ∧
      (if test b then s'.treeRebalance s'.root .root else some s') = some s'' ∧
      RemovedTo s x l s'' (if test b then rebalanced t else t) := by
  have hlen : (inorder t).length < s'.fuel := by
    rw [h.keeps.fuel, h.inorder_eq]
    exact Nat.lt_of_le_of_lt (length_erase_le) hf
  obtain ⟨b, hb⟩ := treeBalanceFactor_isSome h.linked
    (by rwa [h.inorder_eq, mem_erase_of_ne hne]) hlen
  by_cases ht : test b
  · have hh := height_le_length t
    obtain ⟨s'', hs, hk', hl'⟩ :=
      treeRebalance_tree (c := .top) (t := t) h.linked h.linked.tree (by omega)
    refine ⟨b, s'', hb, by rw [if_pos ht]; exact hs, ?_⟩
    rw [if_pos ht]
    exact ⟨hl', (inorder_rebalanced t).trans h.inorder_eq, h.keeps.trans hk'⟩
  · grind

theorem RemovedTo.factor_eq {x i : Nat} {l : List Nat} {c : Ctx Nat} {a d : BinaryTree Nat}
    (h : RemovedTo s x l s' (c.plug (.node i a d))) (hf : l.length < s.fuel) {b : Int}
    (hb : s'.treeBalanceFactor (some i) = some b) : b = factor (.node i a d) := by
  obtain ⟨q, -, hq⟩ := isTree_plug.1 h.linked.tree
  obtain rfl := hq.1
  have hh := height_le_length (.node i a d)
  have hle : (inorder (c.plug (.node i a d))).length ≤ l.length := by
    rw [h.inorder_eq]
    exact length_erase_le
  rw [c.inorder_plug, length_append, length_append] at hle
  rw [treeBalanceFactor_eq hq (by rw [h.keeps.fuel]; omega)] at hb
  exact (Option.some.inj hb).symm

theorem RemovedTo.after {s1 : ArenaAddressAllocator} {x : Nat} {l l1 : List Nat}
    (h : RemovedTo s1 x l1 s' t) (hk : Keeps s s1 s.reclaimStack)
    (hl : l1.erase x = l.erase x) : RemovedTo s x l s' t where
  linked := h.linked
  inorder_eq := h.inorder_eq.trans hl
  keeps := by
    have hk' := h.keeps
    rw [hk.reclaimStack] at hk'
    exact hk.comp hk'

theorem Keeps.ordered {l : List Nat} (hk : Keeps s s' l) : s'.Ordered t ↔ s.Ordered t := by
  simp only [Ordered, hk.key]

theorem exchange_max {c : Ctx Nat} {x j : Nat} {a b r : BinaryTree Nat}
    (hl : Linked s.links (c.plug (.node x (.node j a b) r)))
    (ho : s.Ordered (.node x (.node j a b) r))
    (hlen : (inorder (c.plug (.node x (.node j a b) r))).length < s.fuel) :
    ∃ y yP pre l1, s.treeMax s.fuel j (.left x) = some (y, yP) ∧
      inorder (.node j a b) = pre ++ [y] ∧ l1 = (node j a b).map (swap x y) ∧
      Linked (s.swapNodePosition x c.slot y yP).links ((c.left y r).plug l1) ∧ s.Ordered l1 ∧
      x ∈ inorder l1 ∧ (inorder ((c.left y r).plug l1)).erase x =
        (inorder (c.plug (.node x (.node j a b) r))).erase x := by
  obtain ⟨p, -, -, htl, -⟩ := isTree_plug.1 hl.tree
  have hlen' : (inorder b).length < s.fuel := by
    rw [c.inorder_plug] at hlen
    simp only [inorder_node, length_append, length_cons] at hlen
    omega
  obtain ⟨y, yP, pre, hm, hin, hy, hyP⟩ := treeMax_spec
    (show IsTree s.links (s.links.get (.left x)) (.node j a b) from htl) hlen'
  obtain ⟨hlinked, hin1⟩ := swapNodePosition_left hl hin hy hyP
  obtain ⟨hol, -, hlt, -⟩ := ordered_node ho
  refine ⟨y, yP, pre, _, hm, hin, rfl, hlinked, ?_, by simp [hin1], ?_⟩
  · rw [Ordered, hin, pairwise_append] at hol
    rw [Ordered, hin1, pairwise_append]
    grind
  · rw [inorder_plug_erase hl, hin]
    have hnd := hlinked.nodup
    rw [Ctx.inorder_plug, hin1] at hnd ⊢
    simp only [Ctx.before, Ctx.after, append_assoc, singleton_append] at hnd ⊢
    grind

theorem exchange_min {c : Ctx Nat} {x j : Nat} {a b l : BinaryTree Nat}
    (hl : Linked s.links (c.plug (.node x l (.node j a b))))
    (ho : s.Ordered (.node x l (.node j a b)))
    (hlen : (inorder (c.plug (.node x l (.node j a b)))).length < s.fuel) :
    ∃ y yP post r1, s.treeMin s.fuel j (.right x) = some (y, yP) ∧
      inorder (.node j a b) = y :: post ∧ r1 = (node j a b).map (swap x y) ∧
      Linked (s.swapNodePosition x c.slot y yP).links ((c.right l y).plug r1) ∧ s.Ordered r1 ∧
      x ∈ inorder r1 ∧ (inorder ((c.right l y).plug r1)).erase x =
        (inorder (c.plug (.node x l (.node j a b)))).erase x := by
  obtain ⟨p, -, -, -, htr⟩ := isTree_plug.1 hl.tree
  have hlen' : (inorder a).length < s.fuel := by
    rw [c.inorder_plug] at hlen
    simp only [inorder_node, length_append, length_cons] at hlen
    omega
  obtain ⟨y, yP, post, hm, hin, hy, hyP⟩ := treeMin_spec
    (show IsTree s.links (s.links.get (.right x)) (.node j a b) from htr) hlen'
  obtain ⟨hlinked, hin1⟩ := swapNodePosition_right hl hin hy hyP
  obtain ⟨-, hor, -, hgt⟩ := ordered_node ho
  refine ⟨y, yP, post, _, hm, hin, rfl, hlinked, ?_, by simp [hin1], ?_⟩
  · rw [Ordered, hin, pairwise_cons] at hor
    rw [Ordered, hin1, pairwise_cons]
    exact ⟨fun i hi => hgt i (by rw [hin]; exact mem_cons_of_mem y hi), hor.2⟩
  · rw [inorder_plug_erase hl, hin]
    have hnd := hlinked.nodup
    rw [Ctx.inorder_plug, hin1] at hnd ⊢
    simp only [Ctx.before, Ctx.after, append_assoc, cons_append, nil_append] at hnd ⊢
    grind

def settled : Ctx Nat → BinaryTree Nat → BinaryTree Nat
  | .top, t => rebalanced t
  | c, t => c.plug t

theorem settled_of_inRange {c : Ctx Nat} (h : InRange t) : settled c t = c.plug t := by
  cases c with
  | top => exact rebalanced_of_inRange h
  | left c i r | right c l i => rfl

/-- The test of a node of the way is that of the root: below the root, a node that has got out of
balance is as high as before, so that the root finds nothing to do. -/
theorem settled_of_test {c : Ctx Nat} {t u : BinaryTree Nat} {test : Prop} [Decidable test]
    (hu : InRange (c.plug u)) (htest : ¬ test → InRange t) (hh : test → t.height = u.height) :
    (if test then rebalanced (c.plug t) else c.plug t) = settled c t := by
  by_cases h : test
  · rw [if_pos h]
    by_cases hc : c = .top
    · subst hc
      rfl
    · rw [rebalanced_of_inRange (inRange_plug_congr hc (hh h) hu)]
      cases c with
      | top => exact absurd rfl hc
      | left c i r | right c l i => rfl
  · rw [if_neg h]
    exact (settled_of_inRange (htest h)).symm

theorem inRange_takeOut {cmp : Nat → Ordering} {l r : BinaryTree Nat}
    (hb : HeightBalanced (.node i l r)) (hi : cmp i = .eq) :
    InRange (takeOut cmp (.node i l r)) := by
  obtain ⟨⟨h1, h2⟩, hl, hr⟩ := hb
  rcases takeOut_eq_cases hi l r with ⟨-, he, -⟩ | ⟨-, he, -⟩ | ⟨y, hh, he, -⟩ | ⟨z, hh, he, -⟩
  · rw [he]
    exact inRange_of_balanced hr
  · rw [he]
    exact inRange_of_balanced hl
  · have := height_takeOut (update cmp y .eq) l
    rw [he]
    constructor <;> simp only [factor] <;> omega
  · have := height_takeOut (update cmp z .eq) r
    rw [he]
    constructor <;> simp only [factor] <;> omega

section
variable {c : Ctx Nat} {cmp : Nat → Ordering} {x y : Nat} {l r : BinaryTree Nat}

theorem settled_exchange_max (hb : HeightBalanced (.node x l r))
    (hnd : (inorder (.node x l r)).Nodup) (hx : cmp x = .eq) (hlast : inorder l = pre ++ [y])
    (hpre : ∀ j ∈ pre, cmp j = .gt) (hr : r ≠ .nil) (hh : r.height < l.height) :
    (c.left y r).plug (takeOut cmp (l.map (swap x y))) =
      settled c (takeOut cmp (.node x l r)) := by
  obtain ⟨hndl, -, hdis⟩ := nodup_append.1 hnd
  have hxl : x ∉ inorder l := fun h => hdis x h x mem_cons_self rfl
  rw [settled_of_inRange (inRange_takeOut hb hx), takeOut_map_swap hlast (.inr rfl) hndl hxl hx hpre
    nofun, takeOut_of_last hx (by rw [hlast, getLast?_concat]) hr hh]
  rfl

theorem settled_exchange_min (hb : HeightBalanced (.node x l r))
    (hnd : (inorder (.node x l r)).Nodup) (hx : cmp x = .eq) (hfirst : inorder r = y :: post)
    (hpost : ∀ j ∈ post, cmp j = .lt) (hl : l ≠ .nil) (hh : l.height ≤ r.height) :
    (c.right l y).plug (takeOut cmp (r.map (swap x y))) =
      settled c (takeOut cmp (.node x l r)) := by
  obtain ⟨hxr, hndr⟩ := nodup_cons.1 (nodup_append.1 hnd).2.1
  rw [settled_of_inRange (inRange_takeOut hb hx),
    takeOut_map_swap ((nil_append _).trans hfirst.symm).symm (.inl rfl) hndr hxr hx nofun hpost,
    takeOut_of_first hx hl (by rw [hfirst, head?_cons]) hh]
  rfl

theorem inRange_exchange {l' r' : BinaryTree Nat} (hl : l'.height = l.height)
    (hr : r'.height = r.height) (h : InRange (c.plug (.node x l r))) :
    InRange (c.plug (.node y l' r')) := by
  rw [InRange, factor_plug_congr c (u := .node x l r) (by simp only [height, hl, hr])
    (by simp only [factor, hl, hr])]
  exact h

end

theorem Keeps.side {l : List Nat} (hk : Keeps s s' l) (key : UInt64) :
    s'.side key = s.side key := by
  funext i
  simp only [ArenaAddressAllocator.side, hk.key]

/-- **`RemoveNode`** at any place of the tree, of a key that is below it. -/
theorem removeNode_tree {x : Nat} :
    ∀ {fuel : Nat} {s : ArenaAddressAllocator} {c : Ctx Nat} {t : BinaryTree Nat} {p : Option Nat},
    Linked s.links (c.plug t) → IsTree s.links p t → s.Ordered t → (inorder t).length < fuel →
    (inorder (c.plug t)).length < s.fuel → (s.nodes x).index = x → x ∈ inorder t →
    (s.nodes x).key = key →
    ∃ s' t', s.removeNode fuel p c.slot key = some s' ∧
      RemovedTo s x (inorder (c.plug t)) s' t' ∧
      (HeightBalanced t → InRange (c.plug t) → t' = settled c (takeOut (s.side key) t)) := by
  intro fuel
  induction fuel with
  | zero => exact fun _ _ _ hf => absurd hf (Nat.not_lt_zero _)
  | succ fuel ih =>
    intro s c t p hl hp ho hf hlen hidx hx hkey
    cases t with
    | nil => cases hx
    | node i l r =>
      have hfind : ∃ j, s.findNode s.fuel p key = some (some j) := by
        have hh := height_le_length (.node i l r)
        have hle : (inorder (.node i l r)).length ≤ (inorder (c.plug (.node i l r))).length := by
          rw [c.inorder_plug]
          grind
        rw [findNode_eq hp ho (by omega)]
        have hsome : (s.lookup (inorder (.node i l r)) key).isSome :=
          find?_isSome.2 ⟨x, hx, by simpa using hkey⟩
        exact (isSome_iff_exists.1 hsome).imp fun j hj => by rw [hj]
      obtain ⟨j, hfind⟩ := hfind
      obtain ⟨rfl, htl, htr⟩ := hp
      obtain ⟨hol, hor, hlt, hgt⟩ := ordered_node ho
      simp only [inorder_node, length_append, length_cons] at hf
      simp only [inorder_node, mem_append, mem_cons] at hx
      have hi : i ∈ inorder (c.plug (.node i l r)) := by simp [c.inorder_plug]
      simp only [removeNode, hfind, bind_eq_bind, bind_some, isNone_some,
        Bool.false_eq_true, if_false]
      rcases hx with hx | rfl | hx
      · -- below on the left
        have h1 : key < (s.nodes i).key := hkey ▸ hlt x hx
        obtain ⟨s1, t1, hs1, hr1, ht1⟩ :=
          ih (c := c.left i r) hl htl hol (by omega) hlen hidx hx hkey
        obtain ⟨b, s2, hb, hs2, hr2⟩ := hr1.rebalance (i := i) hi (by
          rintro rfl
          exact UInt64.lt_irrefl _ (hlt i hx)) hlen (· < -1)
        refine ⟨s2, _, ?_, hr2, fun hbal hin => ?_⟩
        · rw [if_pos h1, nodes_left, show (.left i : Slot Nat) = (c.left i r).slot from rfl, hs1]
          simp only [bind_some, hb, hs2]
        · obtain ⟨⟨hb1, hb2⟩, hbl, -⟩ := hbal
          obtain rfl := ht1 hbl hin
          obtain rfl := hr1.factor_eq (c := c) hlen hb
          have hh := height_takeOut (s.side key) l
          rw [takeOut_lt (side_lt h1)]
          refine settled_of_test (u := .node i l r) hin (fun hn => ?_) fun ht => ?_
          · constructor <;> simp only [factor] at hn ⊢ <;> omega
          · simp only [factor] at ht
            simp only [height]
            omega
      · -- here
        have hside : s.side key x = .eq := side_eq hkey
        have h1 : ¬ key < (s.nodes x).key := hkey ▸ UInt64.lt_irrefl _
        have h2 : ¬ (s.nodes x).key < key := hkey ▸ UInt64.lt_irrefl _
        rw [if_neg h1, if_neg h2, show (s.nodes x).left = s.links.left x from rfl,
          show (s.nodes x).right = s.links.right x from rfl]
        cases l with
        | nil =>
          obtain ⟨hk, hlinked, hin⟩ := unlink_spec hl hidx htr rfl
          rw [show s.links.left x = none from htl]
          refine ⟨_, _, rfl, ⟨hlinked, hin, hk⟩, fun hbal _ => ?_⟩
          rw [settled_of_inRange (inRange_takeOut hbal hside), takeOut_left_nil hside]
        | node j a b =>
          rw [htl.1]
          cases r with
          | nil =>
            obtain ⟨hk, hlinked, hin⟩ := unlink_spec hl hidx htl (by simp)
            rw [htl.1] at hk hlinked
            rw [show s.links.right x = none from htr]
            refine ⟨_, _, rfl, ⟨hlinked, hin, hk⟩, fun hbal _ => ?_⟩
            rw [settled_of_inRange (inRange_takeOut hbal hside), takeOut_right_nil hside]
          | node k d e =>
            rw [htr.1]
            have hhx := height_le_length (.node x (.node j a b) (.node k d e))
            have hfac : s.treeBalanceFactor (some x) =
                some (factor (.node x (.node j a b) (.node k d e))) := by
              refine treeBalanceFactor_eq ⟨rfl, htl, htr⟩ ?_
              rw [c.inorder_plug, length_append, length_append] at hlen
              omega
            obtain ⟨-, hnd, -⟩ := hl.plug_nodup
            simp only [hfac, bind_some]
            by_cases hpos : factor (.node x (.node j a b) (.node k d e)) > 0
            · rw [if_pos hpos]
              obtain ⟨y, yP, pre, l1, hm, hlast, hmap, hl1, ho1, hx1, her⟩ :=
                exchange_max hl ho hlen
              have hk := swapNodePosition_keeps s x y c.slot yP
              obtain ⟨q, -, -, htl1, -⟩ := (isTree_plug (c := c)).1 hl1.tree
              have hlen1 : (inorder l1).length = (inorder (.node j a b)).length := by
                rw [hmap, inorder_map, length_map]
              have hlen' : (inorder ((c.left y (.node k d e)).plug l1)).length <
                  (s.swapNodePosition x c.slot y yP).fuel := by
                rw [hk.fuel]
                simp only [Ctx.inorder_plug, Ctx.before, Ctx.after, inorder_node,
                  length_append, length_cons] at hlen hlen1 ⊢
                omega
              obtain ⟨s2, t2, hs2, hr2, ht2⟩ := ih (c := c.left y (.node k d e)) hl1 htl1
                (hk.ordered.2 ho1) (by omega) hlen' ((hk.index x).trans hidx) hx1
                ((hk.key x).trans hkey)
              refine ⟨s2, t2, ?_, hr2.after hk her, fun hbal hin => ?_⟩
              · simp only [hm, bind_some]
                exact hs2
              · subst hmap
                rw [ht2 (hbal.2.1.map _) (inRange_exchange (c := c) (height_map _ _) rfl hin),
                  hk.side]
                refine settled_exchange_max hbal hnd hside hlast (fun i hi => side_gt ?_)
                  (by simp) ?_
                · grind
                · simp only [factor] at hpos
                  omega
            · rw [if_neg hpos]
              obtain ⟨y, yP, post, r1, hm, hfirst, hmap, hl1, ho1, hx1, her⟩ :=
                exchange_min hl ho hlen
              have hk := swapNodePosition_keeps s x y c.slot yP
              obtain ⟨q, -, -, -, htr1⟩ := (isTree_plug (c := c)).1 hl1.tree
              have hlen1 : (inorder r1).length = (inorder (.node k d e)).length := by
                rw [hmap, inorder_map, length_map]
              have hlen' : (inorder ((c.right (.node j a b) y).plug r1)).length <
                  (s.swapNodePosition x c.slot y yP).fuel := by
                rw [hk.fuel]
                simp only [Ctx.inorder_plug, Ctx.before, Ctx.after, inorder_node,
                  length_append, length_cons, length_nil] at hlen hlen1 ⊢
                omega
              obtain ⟨s2, t2, hs2, hr2, ht2⟩ := ih (c := c.right (.node j a b) y) hl1 htr1
                (hk.ordered.2 ho1) (by omega) hlen' ((hk.index x).trans hidx) hx1
                ((hk.key x).trans hkey)
              refine ⟨s2, t2, ?_, hr2.after hk her, fun hbal hin => ?_⟩
              · simp only [hm, bind_some]
                exact hs2
              · subst hmap
                rw [ht2 (hbal.2.2.map _) (inRange_exchange (c := c) rfl (height_map _ _) hin),
                  hk.side]
                refine settled_exchange_min hbal hnd hside hfirst (fun i hi => side_lt ?_)
                  (by simp) ?_
                · grind
                · simp only [factor] at hpos
                  omega
      · -- below on the right
        have h2 : (s.nodes i).key < key := hkey ▸ hgt x hx
        obtain ⟨s1, t1, hs1, hr1, ht1⟩ :=
          ih (c := c.right l i) hl htr hor (by omega) hlen hidx hx hkey
        obtain ⟨b, s2, hb, hs2, hr2⟩ := hr1.rebalance (i := i) hi (by
          rintro rfl
          exact UInt64.lt_irrefl _ (hgt i hx)) hlen (· > 1)
        refine ⟨s2, _, ?_, hr2, fun hbal hin => ?_⟩
        · rw [if_neg (UInt64.lt_asymm h2), if_pos h2, nodes_right,
            show (.right i : Slot Nat) = (c.right l i).slot from rfl, hs1]
          simp only [bind_some, hb, hs2]
        · obtain ⟨⟨hb1, hb2⟩, -, hbr⟩ := hbal
          obtain rfl := ht1 hbr hin
          obtain rfl := hr1.factor_eq (c := c) hlen hb
          have hh := height_takeOut (s.side key) r
          rw [takeOut_gt (side_gt h2)]
          refine settled_of_test (u := .node i l r) hin (fun hn => ?_) fun ht => ?_
          · constructor <;> simp only [factor] at hn ⊢ <;> omega
          · simp only [factor] at ht
            simp only [height]
            omega

theorem removeNode_spec {x : Nat} {fuel : Nat} {s : ArenaAddressAllocator}
    {c : Ctx Nat} (hl : Linked s.links (c.plug t))
    (hp : IsTree s.links p t) (ho : s.Ordered t) (hf : (inorder t).length < fuel)
    (hlen : (inorder (c.plug t)).length < s.fuel) (hidx : (s.nodes x).index = x)
    (hx : x ∈ inorder t) (hkey : (s.nodes x).key = key) :
    ∃ s', s.removeNode fuel p c.slot key = some s' ∧ Removed s x (inorder (c.plug t)) s' := by
  obtain ⟨s', t', hs, hr, -⟩ := removeNode_tree hl hp ho hf hlen hidx hx hkey
  exact ⟨s', hs, t', hr.linked, hr.inorder_eq, hr.keeps⟩

end ArenaAddressAllocator

end Shm
