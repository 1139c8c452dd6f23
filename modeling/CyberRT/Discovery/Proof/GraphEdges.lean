import CyberRT.Discovery.Proof.GraphRecords

/-!
# The edges of a graph

`Insert` and `Delete` come to at most two changes of what is recorded, each with the complete edges
that it adds (`Adds`) or takes away (`Removes`).
-/

namespace Discovery

open Lib List Relation AList

theorem Edge.getKey_eq (s d v : String) : Edge.getKey ⟨s, d, v⟩ = v ++ "_" ++ d := rfl

namespace Graph

variable {g g' : Graph} {e : Edge} {es : List Edge} {s k d v x : String} {vs : VerticeSet}

def edgeAt (g : Graph) (s k : String) : Option String := (g.vertices s).lookup k

theorem vertices_insert (g : Graph) (key : String) (vs : VerticeSet) (s : String) :
    vertices { g with list := g.list.insert key vs } s = if s = key then vs else g.vertices s := by
  unfold vertices
  split
  · rename_i h
    rw [h, lookup_insert]
    rfl
  · rename_i h
    rw [lookup_insert_ne h]

theorem vertices_place (g : Graph) (key s : String) :
    vertices (if key ∈ g.list then g else { g with list := g.list.insert key ∅ }) s =
      g.vertices s := by
  split
  · rfl
  · rename_i h
    rw [vertices_insert]
    split
    · rename_i hs
      subst hs
      rw [vertices, lookup_eq_none.2 h]
      rfl
    · rfl

theorem edgeAt_insertCompleteEdge (g : Graph) (e : Edge) (s k : String) :
    (g.insertCompleteEdge e).edgeAt s k =
      if e.src = s ∧ e.getKey = k then some e.dst else g.edgeAt s k := by
  unfold insertCompleteEdge edgeAt
  rw [vertices_insert, vertices_place, vertices_place]
  by_cases hs : s = e.src
  · subst hs
    rw [if_pos rfl]
    by_cases hk : e.getKey = k
    · subst hk
      rw [if_pos ⟨rfl, rfl⟩, lookup_insert]
    · rw [if_neg fun h => hk h.2, lookup_insert_ne (Ne.symm hk)]
  · rw [if_neg hs, vertices_place, vertices_place, if_neg fun h => hs h.1.symm]

theorem edgeAt_deleteCompleteEdge (g : Graph) (e : Edge) (s k : String) :
    (g.deleteCompleteEdge e).edgeAt s k =
      if e.src = s ∧ e.getKey = k then none else g.edgeAt s k := by
  unfold deleteCompleteEdge edgeAt
  rw [vertices_insert]
  by_cases hs : s = e.src
  · subst hs
    rw [if_pos rfl]
    by_cases hk : e.getKey = k
    · subst hk
      rw [if_pos ⟨rfl, rfl⟩, lookup_erase]
    · rw [if_neg fun h => hk h.2, lookup_erase_ne (Ne.symm hk)]
  · rw [if_neg hs, if_neg fun h => hs h.1.symm]

theorem mem_list_place (key : String) (h : x ∈ g.list) :
    x ∈ (if key ∈ g.list then g else { g with list := g.list.insert key ∅ }).list := by
  split
  · exact h
  · exact (mem_insert _).2 (.inr h)

theorem mem_list_place_self (g : Graph) (key : String) :
    key ∈ (if key ∈ g.list then g else { g with list := g.list.insert key ∅ }).list := by
  split
  · assumption
  · exact (mem_insert _).2 (.inl rfl)

theorem mem_list_insertCompleteEdge (h : x ∈ g.list ∨ x = e.dst) :
    x ∈ (g.insertCompleteEdge e).list := by
  unfold insertCompleteEdge
  rw [mem_insert]
  refine .inr ?_
  rcases h with h | rfl
  · exact mem_list_place _ (mem_list_place _ h)
  · exact mem_list_place_self _ _

theorem mem_list_deleteCompleteEdge (h : x ∈ g.list) : x ∈ (g.deleteCompleteEdge e).list := by
  rw [deleteCompleteEdge, mem_insert]
  exact .inr h

theorem edgeAt_insertAll_some (h : (g.insertAll es).edgeAt s k = some d) :
    g.edgeAt s k = some d ∨ ∃ e ∈ es, e.src = s ∧ e.getKey = k ∧ e.dst = d := by
  induction es generalizing g with
  | nil => exact .inl h
  | cons e es ih =>
    rcases ih h with h | ⟨e', he', hall⟩
    · rw [edgeAt_insertCompleteEdge] at h
      grind
    · exact .inr ⟨e', mem_cons_of_mem e he', hall⟩

theorem edgeAt_insertAll_eq (h : g.edgeAt s k = some d ∨ ∃ e ∈ es, e.src = s ∧ e.getKey = k)
    (hall : ∀ e ∈ es, e.src = s → e.getKey = k → e.dst = d) :
    (g.insertAll es).edgeAt s k = some d := by
  induction es generalizing g with
  | nil => exact h.resolve_right fun ⟨_, he, _⟩ => not_mem_nil he
  | cons e es ih =>
    refine ih ?_ fun e' he' => hall e' (mem_cons_of_mem e he')
    rw [edgeAt_insertCompleteEdge]
    grind

theorem edgeAt_deleteAll :
    (g.deleteAll es).edgeAt s k = some d ↔
      g.edgeAt s k = some d ∧ ∀ e ∈ es, ¬ (e.src = s ∧ e.getKey = k) := by
  induction es generalizing g with
  | nil => simp [deleteAll]
  | cons e es ih =>
    have hcons : (g.deleteAll (e :: es)).edgeAt s k =
        ((g.deleteCompleteEdge e).deleteAll es).edgeAt s k := rfl
    rw [hcons, ih, edgeAt_deleteCompleteEdge, forall_mem_cons]
    grind

theorem insertAll_list (h : g'.list = g.list) : (g'.insertAll es).list = (g.insertAll es).list := by
  have hone : ∀ {g g' : Graph}, g'.list = g.list → ∀ e, (g'.insertCompleteEdge e).list =
      (g.insertCompleteEdge e).list := by
    rintro ⟨edges, list⟩ ⟨edges', list'⟩ rfl e
    unfold insertCompleteEdge vertices
    dsimp only
    split <;> split <;> rfl
  induction es generalizing g g' with
  | nil => exact h
  | cons e es ih => exact ih (hone h e)

theorem deleteAll_list (h : g'.list = g.list) : (g'.deleteAll es).list = (g.deleteAll es).list := by
  induction es generalizing g g' with
  | nil => exact h
  | cons e es ih =>
    apply ih
    rw [deleteCompleteEdge, deleteCompleteEdge, vertices, vertices, h]

theorem mem_list_insertAll (h : x ∈ g.list ∨ ∃ e ∈ es, e.dst = x) : x ∈ (g.insertAll es).list := by
  induction es generalizing g with
  | nil => exact h.resolve_right fun ⟨_, he, _⟩ => not_mem_nil he
  | cons e es ih =>
    refine ih ?_
    rcases h with h | ⟨e', he', hx⟩
    · exact .inl (mem_list_insertCompleteEdge (.inl h))
    · rcases mem_cons.1 he' with rfl | he'
      · exact .inl (mem_list_insertCompleteEdge (.inr hx.symm))
      · exact .inr ⟨e', he', hx⟩

theorem mem_list_deleteAll (h : x ∈ g.list) : x ∈ (g.deleteAll es).list :=
  List.foldlRecOn (motive := fun g : Graph => x ∈ g.list) es deleteCompleteEdge h
    fun _ hg _ _ => mem_list_deleteCompleteEdge hg

structure Adds (g g' : Graph) (es : List Edge) : Prop where
  src : ∀ v s, g.IsSrc v s → g'.IsSrc v s
  dst : ∀ v d, g.IsDst v d → g'.IsDst v d
  mem : ∀ e, e ∈ es ↔ (g'.IsSrc e.value e.src ∧ g'.IsDst e.value e.dst) ∧
    ¬ (g.IsSrc e.value e.src ∧ g.IsDst e.value e.dst)
  list : g'.list = (g.insertAll es).list

structure Removes (g g' : Graph) (es : List Edge) : Prop where
  src : ∀ v s, g'.IsSrc v s → g.IsSrc v s
  dst : ∀ v d, g'.IsDst v d → g.IsDst v d
  mem : ∀ e, e ∈ es ↔ (g.IsSrc e.value e.src ∧ g.IsDst e.value e.dst) ∧
    ¬ (g'.IsSrc e.value e.src ∧ g'.IsDst e.value e.dst)
  list : g'.list = (g.deleteAll es).list

structure Sound (g : Graph) : Prop where
  recorded : ∀ s k d, g.edgeAt s k = some d →
    ∃ v, Edge.getKey ⟨s, d, v⟩ = k ∧ g.IsSrc v s ∧ g.IsDst v d
  listed : ∀ s k d, g.edgeAt s k = some d → d ∈ g.list

def Complete (g : Graph) : Prop :=
  ∀ s d v, g.IsSrc v s → g.IsDst v d → g.edgeAt s (Edge.getKey ⟨s, d, v⟩) = some d

theorem edgeAt_congr (h : g'.list = g.list) (s k : String) : g'.edgeAt s k = g.edgeAt s k := by
  rw [edgeAt, edgeAt, vertices, vertices, h]

theorem Adds.sound (ha : Adds g g' es) (h : g.Sound) : g'.Sound := by
  have hcases : ∀ s k d, g'.edgeAt s k = some d →
      g.edgeAt s k = some d ∨ ∃ e ∈ es, e.src = s ∧ e.getKey = k ∧ e.dst = d := by
    intro s k d hd
    rw [edgeAt_congr ha.list] at hd
    exact edgeAt_insertAll_some hd
  refine ⟨fun s k d hd => ?_, fun s k d hd => ?_⟩
  · rcases hcases s k d hd with hd | ⟨⟨s, d, v⟩, he, rfl, hk, rfl⟩
    · obtain ⟨v, hk, hs, hdst⟩ := h.recorded s k d hd
      exact ⟨v, hk, ha.src v s hs, ha.dst v d hdst⟩
    · exact ⟨v, hk, ((ha.mem _).1 he).1⟩
  · rw [ha.list]
    rcases hcases s k d hd with hd | ⟨e, he, -, -, hx⟩
    · exact mem_list_insertAll (.inl (h.listed s k d hd))
    · exact mem_list_insertAll (.inr ⟨e, he, hx⟩)

theorem Adds.complete (ha : Adds g g' es) (h : g.Complete) (hno : g'.NoClash) : g'.Complete := by
  intro s d v hs hd
  rw [edgeAt_congr ha.list]
  apply edgeAt_insertAll_eq
  · by_cases hold : g.IsSrc v s ∧ g.IsDst v d
    · exact .inl (h s d v hold.1 hold.2)
    · exact .inr ⟨⟨s, d, v⟩, (ha.mem _).2 ⟨⟨hs, hd⟩, hold⟩, rfl, rfl⟩
  · rintro ⟨s', d', v'⟩ he rfl hkey
    obtain ⟨⟨hs', hd'⟩, -⟩ := (ha.mem _).1 he
    exact (hno s' v' d' v d hs' hd' hs hd hkey).2

theorem Removes.sound (hr : Removes g g' es) (h : g.Sound) : g'.Sound := by
  have hback : ∀ s k d, g'.edgeAt s k = some d →
      g.edgeAt s k = some d ∧ ∀ e ∈ es, ¬ (e.src = s ∧ e.getKey = k) := by
    intro s k d hd
    rw [edgeAt_congr hr.list] at hd
    exact edgeAt_deleteAll.1 hd
  refine ⟨fun s k d hd => ?_, fun s k d hd => ?_⟩
  · obtain ⟨hd, hnot⟩ := hback s k d hd
    obtain ⟨v, hk, hs, hdst⟩ := h.recorded s k d hd
    refine ⟨v, hk, ?_⟩
    -- an edge that is no longer recorded would have been deleted
    by_contra hgone
    exact hnot ⟨s, d, v⟩ ((hr.mem _).2 ⟨⟨hs, hdst⟩, hgone⟩) ⟨rfl, hk⟩
  · rw [hr.list]
    exact mem_list_deleteAll (h.listed s k d (hback s k d hd).1)

theorem Removes.complete (hr : Removes g g' es) (h : g.Complete) (hno : g.NoClash) :
    g'.Complete := by
  intro s d v hs hd
  rw [edgeAt_congr hr.list, edgeAt_deleteAll]
  refine ⟨h s d v (hr.src v s hs) (hr.dst v d hd), ?_⟩
  rintro ⟨s', d', v'⟩ he ⟨rfl, hkey⟩
  obtain ⟨⟨hs', hd'⟩, hgone⟩ := (hr.mem _).1 he
  obtain ⟨rfl, rfl⟩ := hno s' v' d' v d hs' hd' (hr.src v s' hs) (hr.dst v d hd) hkey
  exact hgone ⟨hs, hd⟩

def Named (vs : VerticeSet) : Prop := ∀ item ∈ vs.entries, item.2 = item.1 ∧ ¬ isDummy item.1

theorem Named.mem_iff (h : Named vs) : x ∈ vs ↔ ∃ item ∈ vs.entries, item.2 = x := by
  refine ⟨fun hx => ?_, fun ⟨item, hmem, hx⟩ => ?_⟩
  · obtain ⟨y, hy⟩ := exists_of_mem_keys hx
    exact ⟨_, hy, (h _ hy).1⟩
  · rw [← hx, (h item hmem).1]
    exact mem_keys_of_mem hmem

theorem Named.insert (h : Named vs) (hx : ¬ isDummy x) : Named (vs.insert x x) := by
  intro item hitem
  rw [entries_insert, mem_cons] at hitem
  rcases hitem with rfl | hitem
  · exact ⟨rfl, hx⟩
  · exact h item ((kerase_sublist x vs.entries).subset hitem)

theorem Named.erase (h : Named vs) : Named (vs.erase x) := fun item hitem =>
  h item ((kerase_sublist x vs.entries).subset hitem)

def AllNamed (g : Graph) : Prop := ∀ v, Named (g.related v).src ∧ Named (g.related v).dst

section
variable (h : g.AllNamed) {e' : Edge}
include h

theorem AllNamed.change {r : RelatedVertices} {P : Prop} [Decidable P]
    (hg : ∀ x, g'.related x = if x = v ∧ P then r else g.related x)
    (hr : Named r.src ∧ Named r.dst) : g'.AllNamed := by
  intro x
  rw [hg x]
  split
  · exact hr
  · exact h x

theorem AllNamed.insertOutgoingEdge (hs : ¬ isDummy e.src) : (g.insertOutgoingEdge e).AllNamed :=
  h.change (related_insertOutgoingEdge g e) ⟨(h e.value).1.insert hs, (h e.value).2⟩

theorem AllNamed.insertIncomingEdge (hd : ¬ isDummy e.dst) : (g.insertIncomingEdge e).AllNamed :=
  h.change (related_insertIncomingEdge g e) ⟨(h e.value).1, (h e.value).2.insert hd⟩

theorem AllNamed.deleteOutgoingEdge : (g.deleteOutgoingEdge e).AllNamed :=
  h.change (related_deleteOutgoingEdge g e) ⟨(h e.value).1.erase, (h e.value).2⟩

theorem AllNamed.deleteIncomingEdge : (g.deleteIncomingEdge e).AllNamed :=
  h.change (related_deleteIncomingEdge g e) ⟨(h e.value).1, (h e.value).2.erase⟩

theorem mem_outgoing :
    e' ∈ g.outgoing e ↔ e'.src = e.src ∧ e'.value = e.value ∧ g.IsDst e.value e'.dst := by
  rw [outgoing, mem_map, IsDst, (h e.value).2.mem_iff]
  constructor
  · grind
  · obtain ⟨s, d, v⟩ := e'
    grind

theorem mem_incoming :
    e' ∈ g.incoming e ↔ e'.dst = e.dst ∧ e'.value = e.value ∧ g.IsSrc e.value e'.src := by
  rw [incoming, mem_map, IsSrc, (h e.value).1.mem_iff]
  constructor
  · grind
  · obtain ⟨s, d, v⟩ := e'
    grind

end

theorem Adds.same (hr : ∀ v, g'.related v = g.related v) (hl : g'.list = g.list) :
    Adds g g' [] := by
  have hsrc : ∀ v s, g'.IsSrc v s ↔ g.IsSrc v s := by simp [IsSrc, hr]
  have hdst : ∀ v d, g'.IsDst v d ↔ g.IsDst v d := by simp [IsDst, hr]
  exact ⟨fun v s => (hsrc v s).2, fun v d => (hdst v d).2, by simp [hsrc, hdst], hl⟩

theorem Removes.refl (g : Graph) : Removes g g [] :=
  ⟨fun _ _ h => h, fun _ _ h => h, by simp, rfl⟩

section
variable (h : g.AllNamed)
include h

theorem adds_insertOutgoingEdge (e : Edge) : ∃ es, Adds g (g.insertOutgoingEdge e) es := by
  by_cases hs : g.IsSrc e.value e.src
  · have heq : g.insertOutgoingEdge e = g := if_pos hs
    rw [heq]
    exact ⟨[], Adds.same (fun _ => rfl) rfl⟩
  · refine ⟨g.outgoing e, by simp +contextual, by simp, fun e' => ?_, ?_⟩
    · rw [mem_outgoing h, isSrc_insertOutgoingEdge, isDst_insertOutgoingEdge]
      grind
    · rw [insertOutgoingEdge_eq hs]
      exact insertAll_list rfl

theorem adds_insertIncomingEdge (e : Edge) : ∃ es, Adds g (g.insertIncomingEdge e) es := by
  by_cases hd : g.IsDst e.value e.dst
  · have heq : g.insertIncomingEdge e = g := if_pos hd
    rw [heq]
    exact ⟨[], Adds.same (fun _ => rfl) rfl⟩
  · refine ⟨g.incoming e, by simp, by simp +contextual, fun e' => ?_, ?_⟩
    · rw [mem_incoming h, isSrc_insertIncomingEdge, isDst_insertIncomingEdge]
      grind
    · rw [insertIncomingEdge_eq hd]
      exact insertAll_list rfl

theorem removes_deleteOutgoingEdge (e : Edge) : ∃ es, Removes g (g.deleteOutgoingEdge e) es := by
  by_cases hs : g.IsSrc e.value e.src
  · refine ⟨g.outgoing e, by simp +contextual, by simp, fun e' => ?_, ?_⟩
    · rw [mem_outgoing h, isSrc_deleteOutgoingEdge, isDst_deleteOutgoingEdge]
      grind
    · rw [deleteOutgoingEdge_eq hs]
      exact deleteAll_list rfl
  · have heq : g.deleteOutgoingEdge e = g := if_pos hs
    rw [heq]
    exact ⟨[], Removes.refl g⟩

theorem removes_deleteIncomingEdge (e : Edge) : ∃ es, Removes g (g.deleteIncomingEdge e) es := by
  by_cases hd : g.IsDst e.value e.dst
  · refine ⟨g.incoming e, by simp, by simp +contextual, fun e' => ?_, ?_⟩
    · rw [mem_incoming h, isSrc_deleteIncomingEdge, isDst_deleteIncomingEdge]
      grind
    · rw [deleteIncomingEdge_eq hd]
      exact deleteAll_list rfl
  · have heq : g.deleteIncomingEdge e = g := if_pos hd
    rw [heq]
    exact ⟨[], Removes.refl g⟩

end

/-!
## The graph agrees with what is recorded

That the adjacency list is sound is an invariant (`Inv`).
-/

variable {y a b : String} {Q : Graph → Prop}

theorem insert_keeps (hadds : ∀ g g' es, Adds g g' es → Q g → Q g')
    (hn : g.AllNamed) (hQ : Q g) (e : Edge) : (g.insert e).AllNamed ∧ Q (g.insert e) := by
  by_cases he : e.isValid
  · have hn0 : (g.placeValue e.value).AllNamed := fun v => by
      rw [related_placeValue]
      exact hn v
    have hQ0 : Q (g.placeValue e.value) :=
      hadds _ _ _ (Adds.same (related_placeValue g e.value) (placeValue_list g e.value)) hQ
    have h1 : ∀ g1, g1 = (if isDummy e.src then g.placeValue e.value
        else (g.placeValue e.value).insertOutgoingEdge e) → g1.AllNamed ∧ Q g1 := by
      rintro g1 rfl
      split
      · exact ⟨hn0, hQ0⟩
      · rename_i hs
        obtain ⟨es, ha⟩ := adds_insertOutgoingEdge hn0 e
        exact ⟨hn0.insertOutgoingEdge hs, hadds _ _ _ ha hQ0⟩
    obtain ⟨hn1, hQ1⟩ := h1 _ rfl
    rw [insert_eq he]
    by_cases hd : isDummy e.dst
    · grind
    · rw [if_neg hd]
      obtain ⟨es, ha⟩ := adds_insertIncomingEdge hn1 e
      exact ⟨hn1.insertIncomingEdge hd, hadds _ _ _ ha hQ1⟩
  · rw [insert_invalid he]
    exact ⟨hn, hQ⟩

theorem delete_keeps (hremoves : ∀ g g' es, Removes g g' es → Q g → Q g')
    (hn : g.AllNamed) (hQ : Q g) (e : Edge) : (g.delete e).AllNamed ∧ Q (g.delete e) := by
  by_cases he : e.isValid ∧ e.value ∈ g.edges
  · have h1 : ∀ g1, g1 = (if isDummy e.src then g else g.deleteOutgoingEdge e) →
        g1.AllNamed ∧ Q g1 := by
      rintro g1 rfl
      split
      · exact ⟨hn, hQ⟩
      · obtain ⟨es, hr⟩ := removes_deleteOutgoingEdge hn e
        exact ⟨hn.deleteOutgoingEdge, hremoves _ _ _ hr hQ⟩
    obtain ⟨hn1, hQ1⟩ := h1 _ rfl
    rw [delete_eq he.1 he.2]
    by_cases hd : isDummy e.dst
    · grind
    · rw [if_neg hd]
      obtain ⟨es, hr⟩ := removes_deleteIncomingEdge hn1 e
      exact ⟨hn1.deleteIncomingEdge, hremoves _ _ _ hr hQ1⟩
  · have heq : g.delete e = g := by
      by_cases hv : e.isValid
      · exact delete_of_not_mem fun hmem => he ⟨hv, hmem⟩
      · exact delete_invalid hv
    rw [heq]
    exact ⟨hn, hQ⟩

structure Inv (g : Graph) : Prop where
  named : g.AllNamed
  sound : g.Sound

theorem Inv.empty : Inv empty where
  named _ := ⟨fun _ h => (not_mem_nil h).elim, fun _ h => (not_mem_nil h).elim⟩
  sound := ⟨fun _ _ _ h => (Option.some_ne_none _ h.symm).elim,
    fun _ _ _ h => (Option.some_ne_none _ h.symm).elim⟩

theorem Inv.step (h : g.Inv) (op : GraphOp) : (g.step op).Inv := by
  cases op with
  | insert e =>
    obtain ⟨hn, hs⟩ := insert_keeps (fun _ _ _ ha => ha.sound) h.named h.sound e
    exact ⟨hn, hs⟩
  | delete e =>
    obtain ⟨hn, hs⟩ := delete_keeps (fun _ _ _ hr => hr.sound) h.named h.sound e
    exact ⟨hn, hs⟩

theorem Adds.noClash (ha : Adds g g' es) (h : g'.NoClash) : g.NoClash :=
  fun s v d v' d' hs hd hs' hd' =>
    h s v d v' d' (ha.src v s hs) (ha.dst v d hd) (ha.src v' s hs') (ha.dst v' d' hd')

theorem Removes.noClash (hr : Removes g g' es) (h : g.NoClash) : g'.NoClash :=
  fun s v d v' d' hs hd hs' hd' =>
    h s v d v' d' (hr.src v s hs) (hr.dst v d hd) (hr.src v' s hs') (hr.dst v' d' hd')

theorem Complete.step (h : g.Complete) (hi : g.Inv) (hno : g.NoClash) (op : GraphOp)
    (hno' : (g.step op).NoClash) : (g.step op).Complete := by
  cases op with
  | insert e =>
    -- on the way, what is recorded is part of what is recorded at the end
    have hkeep := insert_keeps (Q := fun g => g.NoClash → g.Complete)
      (fun _ _ _ ha hQ hno => ha.complete (hQ (ha.noClash hno)) hno) hi.named (fun _ => h) e
    exact hkeep.2 hno'
  | delete e =>
    have hkeep := delete_keeps (Q := fun g => g.NoClash ∧ g.Complete)
      (fun _ _ _ hr hQ => ⟨hr.noClash hQ.1, hr.complete hQ.2 hQ.1⟩) hi.named ⟨hno, h⟩ e
    exact hkeep.2.2

theorem mem_next : y ∈ g.next x ↔ ∃ k, g.edgeAt x k = some y := by
  rw [next, mem_map]
  constructor
  · rintro ⟨⟨k, d⟩, hmem, rfl⟩
    exact ⟨k, mem_lookup_iff.2 hmem⟩
  · rintro ⟨k, hk⟩
    exact ⟨⟨k, y⟩, mem_lookup_iff.1 hk, rfl⟩

theorem mem_list_of_edgeAt {k : String} (h : g.edgeAt x k = some y) : x ∈ g.list := by
  by_contra hx
  rw [edgeAt, vertices, lookup_eq_none.2 hx] at h
  cases h

theorem mem_next_iff_flows (hi : g.Inv) (hc : g.Complete) : y ∈ g.next x ↔ g.Flows x y := by
  rw [mem_next]
  constructor
  · rintro ⟨k, hk⟩
    obtain ⟨v, -, hs, hd⟩ := hi.sound.recorded x k y hk
    exact ⟨v, hs, hd⟩
  · rintro ⟨v, hs, hd⟩
    exact ⟨_, hc x y v hs hd⟩

theorem levelTraverse_spec (hi : g.Inv) (hc : g.Complete) (a b : String) :
    ∃ fuel found, (∀ n, fuel ≤ n → g.levelTraverse n a b = some found) ∧
      (found = true ↔ ReflTransGen g.Flows a b) := by
  have hplaces : ∀ x, g.next x ≠ [] → x ∈ g.list.keys := by
    intro x hx
    obtain ⟨y, hy⟩ := exists_mem_of_ne_nil _ hx
    obtain ⟨k, hk⟩ := mem_next.1 hy
    exact mem_list_of_edgeAt hk
  have hflows : (fun a b => b ∈ g.next a) = g.Flows := by
    funext a b
    exact propext (mem_next_iff_flows hi hc)
  have hspec := search_spec hplaces a b
  rwa [hflows] at hspec

theorem Flows.placed (h : g.Flows a b) (hi : g.Inv) (hc : g.Complete) :
    (¬ isDummy a ∧ a ∈ g.list) ∧ ¬ isDummy b ∧ b ∈ g.list := by
  obtain ⟨v, hs, hd⟩ := h
  have hnamed : ∀ {vs : VerticeSet}, Named vs → ∀ {x}, x ∈ vs → ¬ isDummy x := by
    intro vs hvs x hx
    obtain ⟨item, hmem, rfl⟩ := hvs.mem_iff.1 hx
    rw [(hvs item hmem).1]
    exact (hvs item hmem).2
  have hedge := hc a b v hs hd
  exact ⟨⟨hnamed (hi.named v).1 hs, mem_list_of_edgeAt hedge⟩,
    hnamed (hi.named v).2 hd, hi.sound.listed _ _ _ hedge⟩

theorem placed_of_path (h : ReflTransGen g.Flows a b) (hab : a ≠ b) (hi : g.Inv)
    (hc : g.Complete) : (¬ isDummy a ∧ a ∈ g.list) ∧ ¬ isDummy b ∧ b ∈ g.list := by
  obtain rfl | ⟨c, hac, -⟩ := h.cases_head
  · exact absurd rfl hab
  obtain rfl | ⟨c', -, hcb⟩ := h.cases_tail
  · exact absurd rfl hab
  exact ⟨(hac.placed hi hc).1, (hcb.placed hi hc).2⟩

theorem directs (hi : g.Inv) (hc : g.Complete) (hab : a ≠ b) : g.Directs a b := by
  by_cases hplaced : (¬ isDummy a ∧ a ∈ g.list) ∧ ¬ isDummy b ∧ b ∈ g.list
  · obtain ⟨⟨ha, ha'⟩, hb, hb'⟩ := hplaced
    obtain ⟨m, up, hup, hup'⟩ := levelTraverse_spec hi hc a b
    obtain ⟨m', down, hdown, hdown'⟩ := levelTraverse_spec hi hc b a
    refine ⟨m + m', if up then .upstream else if down then .downstream else .unreachable,
      fun n hn => ?_, ?_, ?_⟩
    · rw [getDirectionOf, if_neg (by simp [ha, hb]), if_neg (by simp [ha', hb']),
        hup n (by omega), hdown n (by omega)]
      cases up <;> cases down <;> rfl
    all_goals grind
  · -- one of them is in no edge, hence on no path
    have hno : ¬ ReflTransGen g.Flows a b := fun h => hplaced (placed_of_path h hab hi hc)
    have hno' : ¬ ReflTransGen g.Flows b a := fun h =>
      hplaced (placed_of_path h hab.symm hi hc).symm
    refine ⟨0, .unreachable, fun n _ => ?_, by simp [hno], by simp [hno']⟩
    rw [getDirectionOf]
    grind

theorem Complete.agrees (hc : g.Complete) (hi : g.Inv) : g.Agrees where
  edges s d v := by
    refine ⟨fun h => ?_, fun h => hc s d v h.1 h.2⟩
    obtain ⟨v', hk, hs, hd⟩ := hi.sound.recorded _ _ _ h
    rw [Edge.getKey_eq, Edge.getKey_eq, String.append_left_inj, String.append_left_inj] at hk
    exact hk ▸ ⟨hs, hd⟩
  directions _ _ hab := directs hi hc hab

theorem Agrees.noClash (h : g.Agrees) : g.NoClash := by
  intro s v d v' d' hs hd hs' hd' hkey
  have hedge : g.HasEdge s d v := (h.edges s d v).2 ⟨hs, hd⟩
  have hedge' : g.HasEdge s d' v' := (h.edges s d' v').2 ⟨hs', hd'⟩
  rw [HasEdge, hkey] at hedge
  obtain rfl : d' = d := Option.some.inj (hedge'.symm.trans hedge)
  rw [Edge.getKey_eq, Edge.getKey_eq, String.append_left_inj, String.append_left_inj] at hkey
  exact ⟨hkey, rfl⟩

/-- **The graph and its records.** Through a sequence of `Insert` and `Delete` calls the edges and
the directions are those of the recorded vertices just if no two recorded edges of a source have
the same key. -/
theorem always_agrees_iff (ops : List GraphOp) :
    Always step Agrees empty ops ↔ Always step NoClash empty ops := by
  refine ⟨fun h => h.imp fun _ hg => hg.noClash, ?_⟩
  suffices hrun : ∀ g : Graph, g.Inv → g.Complete → Always step NoClash g ops →
      Always step Agrees g ops from
    hrun empty Inv.empty fun s d v hs _ => absurd hs (notMem_empty s)
  induction ops with
  | nil => exact fun g hi hc _ => hc.agrees hi
  | cons op ops ih =>
    intro g hi hc hno
    exact ⟨hc.agrees hi, ih (g.step op) (hi.step op) (hc.step hi hno.1 op hno.2.head) hno.2⟩

/-- `a` to `b_c` and `a_b` to `c` have the same key. -/
theorem not_agrees_same_key :
    ¬ Always step Agrees empty [.insert ⟨"s", "b_c", "a"⟩, .insert ⟨"s", "c", "a_b"⟩] := by
  intro h
  have hedge := h.last.edges "s" "b_c" "a"
  exact absurd (hedge.2 (by decide)) (by decide)

end Graph

end Discovery
