import Mathlib.Algebra.Order.Ring.Int
import Mathlib.Data.Tree.Basic
import Mathlib.Data.List.Nodup

/-!
# Binary trees linked by pointers

`Links ι`: a root pointer, and a left and a right pointer in each node. A `Slot` is a place that
holds a pointer.
-/

namespace Lib

open List Equiv

variable {ι : Type*} {p : Option ι} {f : ι → ι} {i : ι}

/-! ## Trees and contexts -/

def inorder : BinaryTree ι → List ι
  | .nil => []
  | .node i l r => inorder l ++ i :: inorder r

@[simp] theorem inorder_nil : inorder (.nil : BinaryTree ι) = [] := rfl

@[simp] theorem inorder_node (i : ι) (l r : BinaryTree ι) :
    inorder (.node i l r) = inorder l ++ i :: inorder r := rfl

theorem inorder_map (f : ι → ι) (t : BinaryTree ι) : inorder (t.map f) = (inorder t).map f := by
  induction t with
  | nil => rfl
  | node i l r ihl ihr => simp [BinaryTree.map, ihl, ihr]

theorem map_eq_self {t : BinaryTree ι} (h : ∀ i ∈ inorder t, f i = i) : t.map f = t := by
  induction t with
  | nil => rfl
  | node i l r ihl ihr =>
    simp only [inorder_node, mem_append, mem_cons] at h
    rw [BinaryTree.map, h i (.inr (.inl rfl)), ihl fun j hj => h j (.inl hj),
      ihr fun j hj => h j (.inr (.inr hj))]

theorem height_le_length (t : BinaryTree ι) : t.height ≤ (inorder t).length := by
  induction t with
  | nil => exact Nat.le_refl 0
  | node i l r ihl ihr =>
    simp only [BinaryTree.height, inorder_node, length_append, length_cons]
    omega

inductive Ctx (ι : Type*) where
  | top
  | left (c : Ctx ι) (i : ι) (r : BinaryTree ι)
  | right (c : Ctx ι) (l : BinaryTree ι) (i : ι)

namespace Ctx

def plug : Ctx ι → BinaryTree ι → BinaryTree ι
  | top, t => t
  | left c i r, t => c.plug (.node i t r)
  | right c l i, t => c.plug (.node i l t)

def before : Ctx ι → List ι
  | top => []
  | left c _ _ => c.before
  | right c l i => c.before ++ inorder l ++ [i]

def after : Ctx ι → List ι
  | top => []
  | left c i r => i :: inorder r ++ c.after
  | right c _ _ => c.after

theorem inorder_plug (c : Ctx ι) (t : BinaryTree ι) :
    inorder (c.plug t) = c.before ++ inorder t ++ c.after := by
  induction c generalizing t with
  | top => simp [plug, before, after]
  | left c i r ih => simp [plug, before, after, ih]
  | right c l i ih => simp [plug, before, after, ih]

def map (f : ι → ι) : Ctx ι → Ctx ι
  | top => top
  | left c i r => left (c.map f) (f i) (r.map f)
  | right c l i => right (c.map f) (l.map f) (f i)

theorem plug_map (f : ι → ι) (c : Ctx ι) (t : BinaryTree ι) :
    (c.plug t).map f = (c.map f).plug (t.map f) := by
  induction c generalizing t with
  | top => rfl
  | left c i r ih => simp only [plug, map, ih, BinaryTree.map]
  | right c l i ih => simp only [plug, map, ih, BinaryTree.map]

def nodes (c : Ctx ι) : List ι := c.before ++ c.after

theorem map_eq_self {c : Ctx ι} (h : ∀ i ∈ c.nodes, f i = i) : c.map f = c := by
  induction c with
  | top => rfl
  | left c i r ih =>
    simp only [nodes, before, after, mem_append, mem_cons] at h ih
    rw [map, ih fun j hj => h j (by tauto), h i (by tauto),
      Lib.map_eq_self fun j hj => h j (by tauto)]
  | right c l i ih =>
    simp only [nodes, before, after, mem_append, mem_singleton] at h ih
    rw [map, ih fun j hj => h j (by tauto), h i (by tauto),
      Lib.map_eq_self fun j hj => h j (by tauto)]

end Ctx

/-! ## Links -/

structure Links (ι : Type*) where
  root : Option ι
  left : ι → Option ι
  right : ι → Option ι

inductive Slot (ι : Type*) where
  | root
  | left (i : ι)
  | right (i : ι)
  deriving DecidableEq

namespace Links

def get (h : Links ι) : Slot ι → Option ι
  | .root => h.root
  | .left i => h.left i
  | .right i => h.right i

variable [DecidableEq ι]

def set (h : Links ι) (s : Slot ι) (p : Option ι) : Links ι where
  root := if s = .root then p else h.root
  left i := if s = .left i then p else h.left i
  right i := if s = .right i then p else h.right i

theorem get_set (h : Links ι) (s s' : Slot ι) (p : Option ι) :
    (h.set s p).get s' = if s = s' then p else h.get s' := by
  cases s' <;> rfl

end Links

def Ctx.slot : Ctx ι → Slot ι
  | .top => .root
  | .left _ i _ => .left i
  | .right _ _ i => .right i

def IsTree (h : Links ι) : Option ι → BinaryTree ι → Prop
  | p, .nil => p = none
  | p, .node i l r => p = some i ∧ IsTree h (h.left i) l ∧ IsTree h (h.right i) r

def CtxAt (h : Links ι) : Ctx ι → Option ι → Prop
  | .top, p => h.root = p
  | .left c i r, p => h.left i = p ∧ IsTree h (h.right i) r ∧ CtxAt h c (some i)
  | .right c l i, p => h.right i = p ∧ IsTree h (h.left i) l ∧ CtxAt h c (some i)

theorem isTree_plug {h : Links ι} {c : Ctx ι} {t : BinaryTree ι} :
    IsTree h h.root (c.plug t) ↔ ∃ p, CtxAt h c p ∧ IsTree h p t := by
  induction c generalizing t with
  | top => exact ⟨fun ht => ⟨_, rfl, ht⟩, fun ⟨_, hp, ht⟩ => by rw [← hp] at ht; exact ht⟩
  | left c i r ih =>
    rw [Ctx.plug, ih]
    constructor
    · rintro ⟨p, hc, rfl, hl, hr⟩
      exact ⟨_, ⟨rfl, hr, hc⟩, hl⟩
    · rintro ⟨p, ⟨rfl, hr, hc⟩, hl⟩
      exact ⟨_, hc, rfl, hl, hr⟩
  | right c l i ih =>
    rw [Ctx.plug, ih]
    constructor
    · rintro ⟨p, hc, rfl, hl, hr⟩
      exact ⟨_, ⟨rfl, hl, hc⟩, hr⟩
    · rintro ⟨p, ⟨rfl, hl, hc⟩, hr⟩
      exact ⟨_, hc, rfl, hl, hr⟩

theorem CtxAt.get {h : Links ι} {c : Ctx ι} (hc : CtxAt h c p) : h.get c.slot = p := by
  cases c with
  | top => exact hc
  | left c i r => exact hc.1
  | right c l i => exact hc.1

/-! ## Frame rules -/

def SameAt (h h' : Links ι) (l : List ι) : Prop :=
  ∀ i ∈ l, h'.left i = h.left i ∧ h'.right i = h.right i

theorem IsTree.congr {h h' : Links ι} {t : BinaryTree ι} (ht : IsTree h p t)
    (hs : SameAt h h' (inorder t)) : IsTree h' p t := by
  induction t generalizing p with
  | nil => exact ht
  | node i l r ihl ihr =>
    obtain ⟨hp, hl, hr⟩ := ht
    obtain ⟨h1, h2⟩ := hs i (by simp)
    refine ⟨hp, ?_, ?_⟩
    · rw [h1]
      exact ihl hl fun j hj => hs j (by simp [hj])
    · rw [h2]
      exact ihr hr fun j hj => hs j (by simp [hj])

theorem IsTree.unique {h : Links ι} {t u : BinaryTree ι} (ht : IsTree h p t)
    (hu : IsTree h p u) : t = u := by
  induction t generalizing p u with
  | nil =>
    obtain rfl : p = none := ht
    cases u with
    | nil => rfl
    | node j a b => cases hu.1
  | node i l r ihl ihr =>
    obtain ⟨rfl, hl, hr⟩ := ht
    cases u with
    | nil => cases hu
    | node j a b =>
      obtain ⟨he, ha, hb⟩ := hu
      grind

theorem IsTree.exists_part {h : Links ι} {t : BinaryTree ι} (ht : IsTree h p t)
    (hi : i ∈ inorder t) : ∃ u, IsTree h (some i) u ∧ u.height ≤ t.height := by
  induction t generalizing p with
  | nil => simp at hi
  | node j l r ihl ihr =>
    obtain ⟨rfl, hl, hr⟩ := ht
    simp only [inorder_node, mem_append, mem_cons] at hi
    rcases hi with hi | rfl | hi
    · obtain ⟨u, hu, hle⟩ := ihl hl hi
      exact ⟨u, hu, by simp only [BinaryTree.height]; omega⟩
    · exact ⟨.node i l r, ⟨rfl, hl, hr⟩, Nat.le_refl _⟩
    · obtain ⟨u, hu, hle⟩ := ihr hr hi
      exact ⟨u, hu, by simp only [BinaryTree.height]; omega⟩

theorem CtxAt.congr {h h' : Links ι} {c : Ctx ι} (hc : CtxAt h c p)
    (hroot : h'.root = h.root) (hs : SameAt h h' c.nodes) : CtxAt h' c p := by
  induction c generalizing p with
  | top => exact hroot.trans hc
  | left c i r ih =>
    obtain ⟨hp, hr, hc⟩ := hc
    simp only [Ctx.nodes, Ctx.before, Ctx.after, SameAt, mem_append, mem_cons] at hs ih
    obtain ⟨h1, h2⟩ := hs i (by tauto)
    refine ⟨h1.trans hp, ?_, ih hc fun j hj => hs j (by tauto)⟩
    rw [h2]
    exact hr.congr fun j hj => hs j (by tauto)
  | right c l i ih =>
    obtain ⟨hp, hl, hc⟩ := hc
    simp only [Ctx.nodes, Ctx.before, Ctx.after, SameAt, mem_append, mem_singleton] at hs ih
    obtain ⟨h1, h2⟩ := hs i (by tauto)
    refine ⟨h2.trans hp, ?_, ih hc fun j hj => hs j (by tauto)⟩
    rw [h1]
    exact hl.congr fun j hj => hs j (by tauto)

theorem Ctx.slot_ne_left {c : Ctx ι} (hi : i ∉ c.nodes) : c.slot ≠ .left i := by
  cases c with
  | left c j r => rintro ⟨⟩; simp [nodes, after] at hi
  | top | right c l j => simp [slot]

theorem Ctx.slot_ne_right {c : Ctx ι} (hi : i ∉ c.nodes) : c.slot ≠ .right i := by
  cases c with
  | right c l j => rintro ⟨⟩; simp [nodes, before] at hi
  | top | left c j r => simp [slot]

attribute [local simp] Links.set

section
variable [DecidableEq ι]

theorem CtxAt.set {h : Links ι} {c : Ctx ι} (hc : CtxAt h c p)
    (hn : c.nodes.Nodup) (p' : Option ι) : CtxAt (h.set c.slot p') c p' := by
  cases c with
  | top => simp [CtxAt, Ctx.slot]
  | left c i r =>
    obtain ⟨-, hr, hc⟩ := hc
    simp only [Ctx.nodes, Ctx.before, Ctx.after] at hn
    have hi : ∀ j ∈ inorder r ++ c.nodes, j ≠ i := by
      simp only [Ctx.nodes, mem_append]
      grind
    refine ⟨by simp [Ctx.slot], ?_, hc.congr (by simp [Ctx.slot]) ?_⟩
    · simp only [Ctx.slot, Links.set, reduceCtorEq, if_false]
      refine hr.congr fun j hj => ?_
      simp [(hi j (by simp [hj])).symm]
    · intro j hj
      simp [Ctx.slot, Links.set, (hi j (by simp [hj])).symm]
  | right c l i =>
    obtain ⟨-, hl, hc⟩ := hc
    simp only [Ctx.nodes, Ctx.before, Ctx.after] at hn
    have hi : ∀ j ∈ inorder l ++ c.nodes, j ≠ i := by
      simp only [Ctx.nodes, mem_append]
      grind
    refine ⟨by simp [Ctx.slot], ?_, hc.congr (by simp [Ctx.slot]) ?_⟩
    · simp only [Ctx.slot, Links.set, reduceCtorEq, if_false]
      refine hl.congr fun j hj => ?_
      simp [(hi j (by simp [hj])).symm]
    · intro j hj
      simp [Ctx.slot, Links.set, (hi j (by simp [hj])).symm]

end

/-! ## Linked trees -/

structure Linked (h : Links ι) (t : BinaryTree ι) : Prop where
  tree : IsTree h h.root t
  nodup : (inorder t).Nodup

namespace Linked

variable {h : Links ι} {c : Ctx ι} {t : BinaryTree ι}

theorem plug_nodup (hl : Linked h (c.plug t)) :
    c.nodes.Nodup ∧ (inorder t).Nodup ∧ ∀ i ∈ inorder t, i ∉ c.nodes := by
  have hn := hl.nodup
  rw [c.inorder_plug] at hn
  simp only [nodup_append, mem_append] at hn
  simp only [Ctx.nodes, mem_append]
  grind

theorem rotation_nodup {x y : ι} {u v w : List ι} (hn : (u ++ x :: (v ++ y :: w)).Nodup) :
    x ≠ y ∧ (x ∉ u ∧ y ∉ u) ∧ (x ∉ v ∧ y ∉ v) ∧ x ∉ w ∧ y ∉ w := by
  grind

variable [DecidableEq ι]

/-- **Replacing a part of the tree**: `g` differs from `h` in nodes outside the context only, and
links the new part; then the hole's slot is written. -/
theorem replace (hl : Linked h (c.plug t)) {g : Links ι} {p' : Option ι} {t' : BinaryTree ι}
    (hroot : g.root = h.root) (hs : SameAt h g c.nodes) (ht : IsTree g p' t')
    (hn : (inorder (c.plug t')).Nodup) : Linked (g.set c.slot p') (c.plug t') := by
  obtain ⟨p, hc, -⟩ := isTree_plug.1 hl.tree
  refine ⟨isTree_plug.2 ⟨p', (hc.congr hroot hs).set hl.plug_nodup.1 p', ht.congr fun i hi => ?_⟩,
    hn⟩
  have hic : i ∉ c.nodes := by
    rw [c.inorder_plug] at hn
    simp only [Ctx.nodes, mem_append]
    grind
  simp [Ctx.slot_ne_left hic, Ctx.slot_ne_right hic]

theorem sameAt_rotation {x y : ι} {q : Option ι} {u : List ι} (hx : x ∉ u) (hy : y ∉ u) :
    SameAt h ((h.set (.right x) p).set (.left y) q) u ∧
      SameAt h ((h.set (.left y) q).set (.right x) p) u := by
  have hne : ∀ i ∈ u, x ≠ i ∧ y ≠ i := fun i hi => ⟨fun he => hx (he ▸ hi), fun he => hy (he ▸ hi)⟩
  constructor
  · intro i hi
    simp [(hne i hi).1, (hne i hi).2]
  · intro i hi
    simp [(hne i hi).1, (hne i hi).2]

theorem rotateLeft {x y : ι} {a b d : BinaryTree ι}
    (hl : Linked h (c.plug (.node x a (.node y b d)))) :
    Linked (((h.set (.right x) (h.left y)).set (.left y) (some x)).set c.slot (some y))
      (c.plug (.node y (.node x a b) d)) := by
  obtain ⟨p, hc, rfl, ha, hy, hb, hd⟩ := isTree_plug.1 hl.tree
  obtain ⟨-, hsub, hctx⟩ := hl.plug_nodup
  obtain ⟨hxy, ⟨hxa, hya⟩, ⟨hxb, hyb⟩, hxd, hyd⟩ := rotation_nodup (by simpa using hsub)
  refine hl.replace (by simp)
    (sameAt_rotation (hctx x (by simp)) (hctx y (by simp))).1 ⟨rfl, ?_, ?_⟩ ?_
  · simp only [Links.set, if_true]
    refine ⟨rfl, ?_, ?_⟩
    · simpa [hxy.symm] using ha.congr (sameAt_rotation hxa hya).1
    · simpa using hb.congr (sameAt_rotation hxb hyb).1
  · simpa [hxy] using hd.congr (sameAt_rotation hxd hyd).1
  · have hn := hl.nodup
    rw [c.inorder_plug] at hn ⊢
    simpa using hn

theorem rotateRight {x y : ι} {a b d : BinaryTree ι}
    (hl : Linked h (c.plug (.node y (.node x a b) d))) :
    Linked (((h.set (.left y) (h.right x)).set (.right x) (some y)).set c.slot (some x))
      (c.plug (.node x a (.node y b d))) := by
  obtain ⟨p, hc, rfl, ⟨hx, ha, hb⟩, hd⟩ := isTree_plug.1 hl.tree
  obtain ⟨-, hsub, hctx⟩ := hl.plug_nodup
  obtain ⟨hxy, ⟨hxa, hya⟩, ⟨hxb, hyb⟩, hxd, hyd⟩ := rotation_nodup (by simpa using hsub)
  refine hl.replace (by simp)
    (sameAt_rotation (hctx x (by simp)) (hctx y (by simp))).2 ⟨rfl, ?_, ?_⟩ ?_
  · simpa [hxy.symm] using ha.congr (sameAt_rotation hxa hya).2
  · simp only [Links.set, if_true]
    refine ⟨rfl, ?_, ?_⟩
    · simpa using hb.congr (sameAt_rotation hxb hyb).2
    · simpa [hxy] using hd.congr (sameAt_rotation hxd hyd).2
  · have hn := hl.nodup
    rw [c.inorder_plug] at hn ⊢
    simpa using hn

end Linked

/-! ## Exchanging two nodes -/

def slots (s : Slot ι) : BinaryTree ι → List (Slot ι)
  | .nil => []
  | .node i l r => s :: (slots (.left i) l ++ slots (.right i) r)

def preorder : BinaryTree ι → List ι
  | .nil => []
  | .node i l r => i :: (preorder l ++ preorder r)

theorem preorder_perm (t : BinaryTree ι) : (preorder t).Perm (inorder t) := by
  induction t with
  | nil => exact .refl _
  | node i l r ihl ihr => exact ((ihl.append ihr).cons i).trans perm_middle.symm

theorem slots_get {h : Links ι} {s : Slot ι} {t : BinaryTree ι} (ht : IsTree h (h.get s) t) :
    (slots s t).map h.get = (preorder t).map some := by
  induction t generalizing s with
  | nil => rfl
  | node i l r ihl ihr =>
    obtain ⟨hi, hl, hr⟩ := ht
    simp [slots, preorder, hi, ihl (s := .left i) hl, ihr (s := .right i) hr]

theorem mem_slots {h : Links ι} {s : Slot ι} {t : BinaryTree ι} (ht : IsTree h (h.get s) t)
    {z : ι} (hz : z ∈ inorder t) :
    (h.left z ≠ none → Slot.left z ∈ slots s t) ∧
      (h.right z ≠ none → Slot.right z ∈ slots s t) := by
  induction t generalizing s with
  | nil => simp at hz
  | node i l r ihl ihr =>
    obtain ⟨-, hl, hr⟩ := ht
    have hroot : ∀ (s' : Slot ι) {u : BinaryTree ι}, IsTree h (h.get s') u → h.get s' ≠ none →
        s' ∈ slots s' u := by
      intro s' u hu hne
      cases u with
      | nil => exact absurd hu hne
      | node j a b => simp [slots]
    simp only [slots, mem_cons, mem_append]
    simp only [inorder_node, mem_append, mem_cons] at hz
    rcases hz with hz | rfl | hz
    · obtain ⟨h1, h2⟩ := ihl (s := .left i) hl hz
      exact ⟨fun hne => .inr (.inl (h1 hne)), fun hne => .inr (.inl (h2 hne))⟩
    · exact ⟨fun hne => .inr (.inl (hroot (.left z) hl hne)),
        fun hne => .inr (.inr (hroot (.right z) hr hne))⟩
    · obtain ⟨h1, h2⟩ := ihr (s := .right i) hr hz
      exact ⟨fun hne => .inr (.inr (h1 hne)), fun hne => .inr (.inr (h2 hne))⟩

theorem slots_plug {c : Ctx ι} {t : BinaryTree ι} {s : Slot ι} (hs : s ∈ slots c.slot t) :
    s ∈ slots .root (c.plug t) := by
  induction c generalizing t with
  | top => exact hs
  | left c i r ih => exact ih (by simp [slots, show s ∈ slots (.left i) t from hs])
  | right c l i ih => exact ih (by simp [slots, show s ∈ slots (.right i) t from hs])

theorem IsTree.rename {h h' : Links ι} {t : BinaryTree ι} (ht : IsTree h p t)
    (hf : ∀ z ∈ inorder t, h'.left (f z) = (h.left z).map f ∧ h'.right (f z) = (h.right z).map f) :
    IsTree h' (p.map f) (t.map f) := by
  induction t generalizing p with
  | nil => rw [show p = none from ht]; rfl
  | node i l r ihl ihr =>
    obtain ⟨rfl, hl, hr⟩ := ht
    obtain ⟨h1, h2⟩ := hf i (by simp)
    refine ⟨rfl, ?_, ?_⟩
    · rw [h1]
      exact ihl hl fun z hz => hf z (by simp [hz])
    · rw [h2]
      exact ihr hr fun z hz => hf z (by simp [hz])

section
variable [DecidableEq ι]

def Links.exchange (h : Links ι) (x : ι) (sx : Slot ι) (y : ι) (sy : Slot ι) : Links ι :=
  let h := (h.set sx (some y)).set sy (some x)
  let h := (h.set (.left x) (h.left y)).set (.left y) (h.left x)
  (h.set (.right x) (h.right y)).set (.right y) (h.right x)

theorem Links.exchange_fields (h : Links ι) {x y : ι} (hxy : x ≠ y) (sx sy : Slot ι) (z : ι) :
    (h.exchange x sx y sy).left (swap x y z) =
        ((h.set sx (some y)).set sy (some x)).left z ∧
      (h.exchange x sx y sy).right (swap x y z) =
        ((h.set sx (some y)).set sy (some x)).right z := by
  unfold Links.exchange
  by_cases hx : z = x
  · subst hx
    simp
  · by_cases hy : z = y
    · subst hy
      simp [hxy.symm]
    · rw [swap_apply_of_ne_of_ne hx hy]
      simp [Ne.symm hx, Ne.symm hy]

/-- **Exchanging two nodes of the tree renames them**, wherever they are: also when one is the root
or the parent of the other. -/
theorem Linked.exchange {h : Links ι} {t : BinaryTree ι} (hl : Linked h t) {x y : ι}
    {sx sy : Slot ι} (hxy : x ≠ y) (hsx : sx ∈ slots .root t) (hsy : sy ∈ slots .root t)
    (hx : h.get sx = some x) (hy : h.get sy = some y) :
    Linked (h.exchange x sx y sy) (t.map (swap x y)) := by
  have ht : IsTree h (h.get .root) t := hl.tree
  have hinj : ((slots .root t).map h.get).Nodup := by
    rw [slots_get ht]
    exact ((preorder_perm t).nodup_iff.2 hl.nodup).map (Option.some_injective ι)
  -- every pointer of the tree is renamed by the first two assignments
  have hren : ∀ s, (h.get s ≠ none → s ∈ slots .root t) →
      ((h.set sx (some y)).set sy (some x)).get s = (h.get s).map (swap x y) := by
    intro s hs
    rw [Links.get_set, Links.get_set]
    by_cases h1 : sy = s
    · subst h1
      simp [hy]
    · by_cases h2 : sx = s
      · subst h2
        simp [h1, hx]
      · rw [if_neg h1, if_neg h2]
        cases hp : h.get s with
        | none => rfl
        | some z =>
          have hmem := hs (by simp [hp])
          have hzx : z ≠ x := fun he => h2 (inj_on_of_nodup_map hinj hsx hmem (by
            rw [hx, hp, he]))
          have hzy : z ≠ y := fun he => h1 (inj_on_of_nodup_map hinj hsy hmem (by
            rw [hy, hp, he]))
          rw [Option.map_some, swap_apply_of_ne_of_ne hzx hzy]
  have htree : IsTree (h.exchange x sx y sy) ((h.get .root).map (swap x y))
      (t.map (swap x y)) := ht.rename fun z hz => by
    obtain ⟨hfl, hfr⟩ := h.exchange_fields hxy sx sy z
    obtain ⟨hml, hmr⟩ := mem_slots ht hz
    exact ⟨hfl.trans (hren (.left z) hml), hfr.trans (hren (.right z) hmr)⟩
  have hroot : (h.exchange x sx y sy).root = (h.get .root).map (swap x y) := by
    rw [← hren .root fun hne => by
      cases t with
      | nil => exact absurd ht hne
      | node i l r => simp [slots]]
    simp [Links.exchange, Links.get]
  refine ⟨by rw [hroot]; exact htree, ?_⟩
  rw [inorder_map]
  exact hl.nodup.map (Equiv.injective _)

end

end Lib
