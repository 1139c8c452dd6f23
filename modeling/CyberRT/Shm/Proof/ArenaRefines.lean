import CyberRT.Shm.Proof.ArenaTree

/-!
# `ArenaAddressAllocator` refines a map from keys to indexes

`Inv s t`: the pointers form the tree `t`, in the order of its keys; its nodes and the reclaim stack
are the indexes below `allocated_index_`, each once; and a node's `index_` is its place.
-/

namespace Shm

open Lib List

namespace ArenaAddressAllocator

variable {s s' : ArenaAddressAllocator} {t : BinaryTree Nat} {m : KeyMap} {key : UInt64}

structure Inv (s : ArenaAddressAllocator) (t : BinaryTree Nat) : Prop where
  linked : Linked s.links t
  ordered : s.Ordered t
  partition : (inorder t ++ s.reclaimStack).Perm (List.range s.allocatedIndex)
  index : ∀ i < s.allocatedIndex, (s.nodes i).index = i
  capacity : s.allocatedIndex ≤ s.conf.capacity

namespace Inv

theorem init (conf : ArenaConf) : Inv (.init conf) .nil where
  linked := ⟨rfl, nodup_nil⟩
  ordered := List.Pairwise.nil
  partition := .refl _
  index i hi := absurd hi (Nat.not_lt_zero i)
  capacity := Nat.zero_le _

theorem length_lt (h : Inv s t) : (inorder t).length < s.fuel := by
  have hlen := h.partition.length_eq
  simp only [length_append, length_range] at hlen
  have := h.capacity
  unfold fuel
  omega

theorem lt_of_mem (h : Inv s t) {i : Nat} (hi : i ∈ inorder t) : i < s.allocatedIndex :=
  mem_range.1 (h.partition.mem_iff.1 (mem_append_left _ hi))

theorem nodup (h : Inv s t) : (inorder t ++ s.reclaimStack).Nodup :=
  h.partition.nodup_iff.2 nodup_range

theorem find_eq (h : Inv s t) (key : UInt64) : s.find key = some (s.lookup (inorder t) key) :=
  findNode_eq h.linked.tree h.ordered (Nat.lt_of_le_of_lt (height_le_length t) h.length_lt)

end Inv

theorem lookup_eq_some (ho : s.Ordered t) {i : Nat} :
    s.lookup (inorder t) key = some i ↔ i ∈ inorder t ∧ (s.nodes i).key = key := by
  constructor
  · intro h
    exact ⟨mem_of_find?_eq_some h, by simpa using find?_some h⟩
  · rintro ⟨hi, hk⟩
    obtain ⟨l, l', hl⟩ := append_of_mem hi
    rw [Ordered, hl, pairwise_append] at ho
    rw [lookup, hl, find?_append, find?_eq_none.2, find?_cons]
    all_goals grind

def Refines (s : ArenaAddressAllocator) (m : KeyMap) : Prop :=
  ∃ t, Inv s t ∧ (∀ key i, m.lookup key = some i ↔ i ∈ inorder t ∧ (s.nodes i).key = key) ∧
    s.reclaimStack = m.free ∧ s.allocatedIndex = m.allocated

theorem Refines.init (conf : ArenaConf) : Refines (.init conf) .empty :=
  ⟨.nil, .init conf, by simp [KeyMap.empty, KeyMap.lookup], rfl, rfl⟩

theorem Refines.find (h : Refines s m) (key : UInt64) : s.find key = some (m.lookup key) := by
  obtain ⟨t, hi, hm, -⟩ := h
  rw [hi.find_eq]
  refine congrArg some (Option.ext fun i => ?_)
  rw [lookup_eq_some hi.ordered, hm]

theorem newNode_spec (h : Inv s t)
    (hroom : s.reclaimStack ≠ [] ∨ s.allocatedIndex < s.conf.capacity)
    (key : UInt64) : ∃ n s1, s.newNode key = some (n, s1) ∧ n ∉ inorder t ∧
      (∀ i, (s1.nodes i).key = if i = n then key else (s.nodes i).key) ∧
      (∀ i < s1.allocatedIndex, (s1.nodes i).index = i) ∧
      (∀ i, (s1.nodes i).refCount = (s.nodes i).refCount) ∧
      (n :: (inorder t ++ s1.reclaimStack)).Perm (List.range s1.allocatedIndex) ∧
      s1.allocatedIndex ≤ s.conf.capacity ∧
      ((s.reclaimStack = n :: s1.reclaimStack ∧ s1.allocatedIndex = s.allocatedIndex) ∨
        (s.reclaimStack = [] ∧ s1.reclaimStack = [] ∧ n = s.allocatedIndex ∧
          s1.allocatedIndex = s.allocatedIndex + 1)) := by
  unfold newNode
  cases hst : s.reclaimStack with
  | cons n stack =>
    have hpart := h.partition
    rw [hst] at hpart
    have hn : n < s.allocatedIndex := mem_range.1 (hpart.mem_iff.1 (by simp))
    have hnd := h.nodup
    refine ⟨n, _, rfl, ?_, fun i => ?_, fun i hi => ?_, fun i => ?_, ?_, h.capacity,
      .inl ⟨rfl, rfl⟩⟩
    · grind
    · by_cases he : i = n <;> simp [modify, he]
    · by_cases he : i = n
      · subst he
        simpa [modify] using h.index i hn
      · simpa [modify, he] using h.index i hi
    · by_cases he : i = n <;> simp [modify, he]
    · exact perm_middle.symm.trans hpart
  | nil =>
    have hlt : s.allocatedIndex < s.conf.capacity := by simpa [hst] using hroom
    have hpart := h.partition
    rw [if_neg (Nat.not_le.2 hlt)]
    refine ⟨s.allocatedIndex, _, rfl, fun hmem => Nat.lt_irrefl _ (h.lt_of_mem hmem), fun i => ?_,
      fun i hi => ?_, fun i => ?_, ?_, hlt, .inr ⟨rfl, rfl, rfl, rfl⟩⟩
    · by_cases he : i = s.allocatedIndex <;> simp [modify, he]
    · by_cases he : i = s.allocatedIndex
      · simp [modify, he]
      · have hi' : i < s.allocatedIndex + 1 := hi
        simpa [modify, he] using h.index i (by omega)
    · by_cases he : i = s.allocatedIndex <;> simp [modify, he]
    · simp only [modify, append_nil]
      grind

theorem Inv.exists_node (h : Inv s t) (hroom : s.HasRoom key) :
    (∃ i ∈ inorder t, (s.nodes i).key = key) ∨
      ∃ n s1, s.newNode key = some (n, s1) ∧ n ∉ inorder t := by
  cases hl : s.lookup (inorder t) key with
  | some i => exact .inl ⟨i, (lookup_eq_some h.ordered).1 hl⟩
  | none =>
    rw [HasRoom, h.find_eq, hl] at hroom
    obtain ⟨n, s1, hn, hmem, -⟩ := newNode_spec h (hroom.resolve_left fun hne => hne rfl) key
    exact .inr ⟨n, s1, hn, hmem⟩

theorem Refines.insert (h : Refines s m) (hroom : s.HasRoom key) :
    ∃ target s', s.findOrInsertNode s.fuel s.root .root none key = some (target, s') ∧
      Refines s' (m.insert key) ∧ (m.insert key).lookup key = some target ∧ s'.conf = s.conf ∧
      ∀ i, (s'.nodes i).refCount = (s.nodes i).refCount := by
  have hfind := h.find key
  obtain ⟨t, hi, hm, hfree, halloc⟩ := h
  obtain ⟨target, s', t', hs, hl', hpl⟩ := findOrInsertNode_spec (c := .top) (q := none) hi.linked
    hi.linked.tree hi.ordered (Nat.lt_of_le_of_lt (height_le_length t) hi.length_lt) hi.length_lt
    (hi.exists_node hroom)
  refine ⟨target, s', hs, ?_⟩
  rcases hpl with ⟨hmem, hkey, hk, hin⟩ | ⟨s1, pre, post, hn, hk, hpre, hpost, hlt, hgt⟩
  · -- the key is there
    have hlook : m.lookup key = some target := (hm key target).2 ⟨hmem, hkey⟩
    rw [KeyMap.insert_of_some hlook]
    refine ⟨⟨t', ⟨hl', ?_, ?_, ?_, ?_⟩, ?_, ?_, ?_⟩, hlook, hk.conf, hk.refCount⟩
    · rw [Ordered, hin]
      exact hk.ordered.2 hi.ordered
    · rw [hin, hk.reclaimStack, hk.allocatedIndex]
      exact hi.partition
    · intro i hlt
      rw [hk.index, hi.index i (by rwa [hk.allocatedIndex] at hlt)]
    · rw [hk.allocatedIndex, hk.conf]
      exact hi.capacity
    · simp only [hin, hk.key]
      exact hm
    · rw [hk.reclaimStack, hfree]
    · rw [hk.allocatedIndex, halloc]
  · -- the key is new
    have hnone : m.lookup key = none := by
      cases hl : m.lookup key with
      | none => rfl
      | some i => grind
    rw [HasRoom, hfind, hnone] at hroom
    obtain ⟨n, s2, hn', hfresh, hkey1, hidx1, href1, hpart1, hcap1, hstack⟩ :=
      newNode_spec hi (hroom.resolve_left fun hne => hne rfl) key
    have heq := hn.symm.trans hn'
    obtain ⟨rfl, rfl⟩ := heq
    obtain ⟨hmap, hfree', halloc'⟩ : (m.insert key).map = m.map.insert key target ∧
        s'.reclaimStack = (m.insert key).free ∧ s'.allocatedIndex = (m.insert key).allocated := by
      rw [hk.reclaimStack, hk.allocatedIndex]
      rcases hstack with ⟨h1, h2⟩ | ⟨h1, h2, h3, h4⟩
      · have : m.free = target :: s1.reclaimStack := by rw [← hfree, h1]
        simp [KeyMap.insert, hnone, this, h2, halloc]
      · have : m.free = [] := by rw [← hfree, h1]
        simp [KeyMap.insert, hnone, this, h2, h3, h4, halloc]
    have hkeys : ∀ i, (s'.nodes i).key = if i = target then key else (s.nodes i).key := fun i =>
      (hk.key i).trans (hkey1 i)
    have hother : ∀ i ∈ inorder t, (s'.nodes i).key = (s.nodes i).key := fun i hmem => by
      rw [hkeys, if_neg fun he : i = target => hfresh (he ▸ hmem)]
    have htarget : (s'.nodes target).key = key := by rw [hkeys, if_pos rfl]
    have hmem : ∀ i, i ∈ inorder t' ↔ i = target ∨ i ∈ inorder t := by grind
    refine ⟨⟨t', ⟨hl', ?_, ?_, fun i hlt => ?_, ?_⟩, fun k i => ?_, hfree', halloc'⟩, ?_, ?_,
      fun i => ?_⟩
    · have ho := hi.ordered
      rw [Ordered, hpre, pairwise_append] at ho
      rw [Ordered, hpost, pairwise_append, pairwise_cons]
      have hp : ∀ i ∈ pre, (s'.nodes i).key = (s.nodes i).key := fun i h =>
        hother i (by simp [hpre, h])
      have hq : ∀ i ∈ post, (s'.nodes i).key = (s.nodes i).key := fun i h =>
        hother i (by simp [hpre, h])
      refine ⟨?_, ⟨fun i h => ?_, ?_⟩, fun i hip j hj => ?_⟩
      · exact ho.1.imp_of_mem fun {i j} h h' hij => by rwa [hp i h, hp j h']
      · grind
      · exact ho.2.1.imp_of_mem fun {i j} h h' hij => by rwa [hq i h, hq j h']
      · grind
    · rw [hk.reclaimStack, hk.allocatedIndex]
      grind
    · rw [hk.index, hidx1 i (by rwa [hk.allocatedIndex] at hlt)]
    · rw [hk.allocatedIndex, hk.conf, newNode_conf hn]
      exact hcap1
    · rw [KeyMap.lookup, hmap, hmem]
      by_cases hkk : k = key
      · subst hkk
        rw [Finmap.lookup_insert, Option.some.injEq]
        grind
      · rw [Finmap.lookup_insert_of_ne _ hkk]
        refine (hm k i).trans ⟨fun h => ⟨.inr h.1, (hother i h.1).trans h.2⟩, ?_⟩
        grind
    · rw [KeyMap.lookup, hmap, Finmap.lookup_insert]
    · rw [hk.conf, newNode_conf hn]
    · rw [hk.refCount, href1]

theorem removeNode_of_absent (hfind : s.find key = some none) :
    s.removeNode s.fuel s.root .root key = some s := by
  unfold find fuel at hfind
  unfold fuel
  cases hr : s.root with
  | none => simp [removeNode]
  | some i =>
    rw [hr] at hfind
    simp [removeNode, fuel, hfind]

theorem Refines.remove (h : Refines s m) (key : UInt64) :
    ∃ s', s.removeNode s.fuel s.root .root key = some s' ∧ Refines s' (m.remove key) ∧
      s'.conf = s.conf ∧ ∀ i, (s'.nodes i).refCount = (s.nodes i).refCount := by
  have hfind := h.find key
  cases hl : m.lookup key with
  | none =>
    refine ⟨s, removeNode_of_absent (by rw [hfind, hl]), ?_, rfl, fun _ => rfl⟩
    rw [KeyMap.remove, hl]
    exact h
  | some x =>
    obtain ⟨t, hi, hm, hfree, halloc⟩ := h
    obtain ⟨hx, hkey⟩ := (hm key x).1 hl
    obtain ⟨s', hs, t', hl', hin, hk⟩ :=
      removeNode_spec (c := .top) hi.linked hi.linked.tree hi.ordered
      hi.length_lt hi.length_lt (hi.index x (hi.lt_of_mem hx)) hx hkey
    replace hin : inorder t' = (inorder t).erase x := hin
    have hmem : ∀ i, i ∈ inorder t' ↔ i ≠ x ∧ i ∈ inorder t := fun i => by
      rw [hin, hi.linked.nodup.mem_erase_iff]
    refine ⟨s', hs, ⟨t', ⟨hl', ?_, ?_, fun i hlt => ?_, ?_⟩, fun k i => ?_, ?_, ?_⟩, hk.conf,
      hk.refCount⟩
    · rw [Ordered, hin]
      exact (hk.ordered.2 hi.ordered).sublist erase_sublist
    · rw [hin, hk.reclaimStack, hk.allocatedIndex]
      refine List.Perm.trans ?_ hi.partition
      grind
    · rw [hk.index, hi.index i (by rwa [hk.allocatedIndex] at hlt)]
    · rw [hk.allocatedIndex, hk.conf]
      exact hi.capacity
    · rw [hmem, hk.key]
      by_cases hkk : k = key
      · subst hkk
        rw [KeyMap.lookup_remove]
        refine ⟨fun h => (by cases h), fun h => absurd ?_ h.1.1⟩
        have := (hm k i).2 ⟨h.1.2, h.2⟩
        grind
      · rw [KeyMap.lookup_remove_of_ne _ hkk, hm k i]
        grind
    · rw [hk.reclaimStack, hfree, KeyMap.remove, hl]
    · rw [hk.allocatedIndex, halloc, KeyMap.remove, hl]

/-- **The tree as a finite map**: the pointers form a tree `t` whose keys grow from left to right;
`FindNode` finds exactly the keys of the map, each at its index; the nodes of the tree and the
reclaim stack are the indexes below `allocated_index_`, each once. At any place of the tree
`TreeRebalance` keeps the nodes and their order, and `SwapNodePosition` of any two nodes exchanges
them and does nothing else. -/
structure IsMap (s : ArenaAddressAllocator) (m : KeyMap) (t : BinaryTree Nat) : Prop where
  tree : IsTree s.links s.root t
  increasing : ((inorder t).map fun i => (s.nodes i).key).Pairwise (· < ·)
  find : ∀ key, s.find key = some (m.lookup key)
  keys : ∀ key, key ∈ (inorder t).map (fun i => (s.nodes i).key) ↔ key ∈ m.map
  partition : (inorder t ++ s.reclaimStack).Perm (List.range s.allocatedIndex)
  free : s.reclaimStack = m.free ∧ s.allocatedIndex = m.allocated
  rebalance : ∀ {c : Ctx Nat} {u p}, t = c.plug u → IsTree s.links p u →
    ∃ s' u', s.treeRebalance p c.slot = some s' ∧ IsTree s'.links s'.root (c.plug u') ∧
      inorder u' = inorder u ∧ ∀ i, (s'.nodes i).key = (s.nodes i).key
  swap : ∀ {x y xP yP}, x ≠ y → xP ∈ slots .root t → yP ∈ slots .root t →
    s.links.get xP = some x → s.links.get yP = some y →
    IsTree (s.swapNodePosition x xP y yP).links (s.swapNodePosition x xP y yP).root
      (t.map (Equiv.swap x y)) ∧
    ∀ i, ((s.swapNodePosition x xP y yP).nodes i).key = (s.nodes i).key

theorem Refines.isMap (h : Refines s m) : ∃ t, IsMap s m t := by
  have hfind := h.find
  obtain ⟨t, hi, hm, hfree⟩ := h
  refine ⟨t, hi.linked.tree, pairwise_map.2 hi.ordered, hfind, fun key => ?_, hi.partition, hfree,
    fun {c u p} ht hp => ?_, fun hxy hxP hyP hx hy => ?_⟩
  · rw [Finmap.mem_iff, mem_map]
    exact exists_congr fun i => (hm key i).symm
  · subst ht
    have hh := height_le_length u
    have hle : (inorder u).length ≤ (inorder (c.plug u)).length := by
      rw [c.inorder_plug]
      grind
    have := hi.length_lt
    obtain ⟨s', u', hs, hk, hl', hin⟩ := treeRebalance_spec hi.linked hp (by omega)
    exact ⟨s', u', hs, hl'.tree, hin, hk.key⟩
  · exact ⟨(swapNodePosition_linked hi.linked hxy hxP hyP hx hy).tree,
      (swapNodePosition_keeps s _ _ _ _).key⟩

theorem Refines.treeStep (h : Refines s m) (op : TreeOp) (hroom : s.TreeRoom op) :
    ∃ s', s.treeStep op = some s' ∧ Refines s' (m.step op) := by
  cases op with
  | insert key =>
    obtain ⟨target, s', hs, hr, -⟩ := h.insert hroom
    exact ⟨s', by simp [ArenaAddressAllocator.treeStep, hs], hr⟩
  | remove key =>
    obtain ⟨s', hs, hr, -⟩ := h.remove key
    exact ⟨s', hs, hr⟩

/-- **Every run of insertions and removals refines a finite map**, while the capacity is not
exceeded. -/
theorem tree_refines_map (conf : ArenaConf) (ops : List TreeOp)
    (hroom : Along (bindStep treeStep) (onSome TreeRoom) (some (init conf)) ops) :
    ∃ s t, ops.foldl (bindStep treeStep) (some (init conf)) = some s ∧
      IsMap s (ops.foldl KeyMap.step .empty) t := by
  have hsim : ∃ s, ops.foldl (bindStep treeStep) (some (init conf)) = some s ∧
      Refines s (ops.foldl KeyMap.step .empty) := by
    refine hroom.sim (R := fun o m => ∃ s, o = some s ∧ Refines s m) ⟨_, rfl, .init conf⟩ ?_
    rintro _ m op ⟨s, rfl, hr⟩ hop
    exact hr.treeStep op (hop s rfl)
  obtain ⟨s, hs, hr⟩ := hsim
  obtain ⟨t, ht⟩ := hr.isMap
  exact ⟨s, t, hs, ht⟩

def smallConf : ArenaConf := ⟨3, 0x710000000000, 2 * 1024 * 1024 * 1024, by decide⟩

def rotating : List TreeOp :=
  [.insert 1, .insert 2, .insert 3, .remove 1, .insert 9, .remove 2, .insert 5]

theorem tree_refines_map_rotating :
    Along (bindStep treeStep) (onSome TreeRoom) (some (init smallConf)) rotating ∧
      ∃ s t, rotating.foldl (bindStep treeStep) (some (init smallConf)) = some s ∧
        IsMap s (rotating.foldl KeyMap.step .empty) t :=
  have hroom : Along (bindStep treeStep) (onSome TreeRoom) (some (init smallConf)) rotating := by
    decide
  ⟨hroom, tree_refines_map smallConf rotating hroom⟩

end ArenaAddressAllocator

end Shm
