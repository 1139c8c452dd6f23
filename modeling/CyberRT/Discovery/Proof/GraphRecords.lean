import CyberRT.Discovery.ChannelManager

/-!
# What a graph records

`Insert` records the source and the destination of an edge under its value, `Delete` takes them
back; each as far as it is not a dummy.
-/

namespace Discovery.Graph

open List AList

variable {g : Graph} {e : Edge} {es : List Edge} {s d v x w : String} {g' : Graph} {P : Prop}

def insertAll (g : Graph) (es : List Edge) : Graph := es.foldl insertCompleteEdge g

def deleteAll (g : Graph) (es : List Edge) : Graph := es.foldl deleteCompleteEdge g

theorem insertCompleteEdge_edges (g : Graph) (e : Edge) :
    (g.insertCompleteEdge e).edges = g.edges := by
  unfold insertCompleteEdge
  dsimp only
  split <;> split <;> rfl

@[simp] theorem insertAll_edges (g : Graph) (es : List Edge) : (g.insertAll es).edges = g.edges :=
  List.foldlRecOn (motive := fun g' : Graph => g'.edges = g.edges) es insertCompleteEdge rfl
    fun _ h e _ => (insertCompleteEdge_edges _ e).trans h

@[simp] theorem deleteAll_edges (g : Graph) (es : List Edge) : (g.deleteAll es).edges = g.edges :=
  List.foldlRecOn (motive := fun g' : Graph => g'.edges = g.edges) es deleteCompleteEdge rfl
    fun _ h _ _ => h

def setRelated (g : Graph) (v : String) (r : RelatedVertices) : Graph :=
  { g with edges := g.edges.insert v r }

theorem related_congr {g g' : Graph} (h : g'.edges = g.edges) (v : String) :
    g'.related v = g.related v := by rw [related, related, h]

theorem related_setRelated (g : Graph) (v : String) (r : RelatedVertices) (x : String) :
    (g.setRelated v r).related x = if x = v then r else g.related x := by
  unfold related setRelated
  split
  · rename_i h
    rw [h, lookup_insert]
    rfl
  · rename_i h
    rw [lookup_insert_ne h]

def outgoing (g : Graph) (e : Edge) : List Edge :=
  (g.related e.value).dst.entries.map fun item => ⟨e.src, item.2, e.value⟩

def incoming (g : Graph) (e : Edge) : List Edge :=
  (g.related e.value).src.entries.map fun item => ⟨item.2, e.dst, e.value⟩

theorem insertOutgoingEdge_eq (h : e.src ∉ (g.related e.value).src) :
    g.insertOutgoingEdge e = (g.setRelated e.value { g.related e.value with
      src := (g.related e.value).src.insert e.src e.src }).insertAll (g.outgoing e) := by
  rw [insertOutgoingEdge, insertAll, outgoing, foldl_map]
  exact if_neg h

theorem insertIncomingEdge_eq (h : e.dst ∉ (g.related e.value).dst) :
    g.insertIncomingEdge e = (g.setRelated e.value { g.related e.value with
      dst := (g.related e.value).dst.insert e.dst e.dst }).insertAll (g.incoming e) := by
  rw [insertIncomingEdge, insertAll, incoming, foldl_map]
  exact if_neg h

theorem deleteOutgoingEdge_eq (h : e.src ∈ (g.related e.value).src) :
    g.deleteOutgoingEdge e = (g.setRelated e.value { g.related e.value with
      src := (g.related e.value).src.erase e.src }).deleteAll (g.outgoing e) := by
  rw [deleteOutgoingEdge, deleteAll, outgoing, foldl_map]
  exact if_neg (not_not_intro h)

theorem deleteIncomingEdge_eq (h : e.dst ∈ (g.related e.value).dst) :
    g.deleteIncomingEdge e = (g.setRelated e.value { g.related e.value with
      dst := (g.related e.value).dst.erase e.dst }).deleteAll (g.incoming e) := by
  rw [deleteIncomingEdge, deleteAll, incoming, foldl_map]
  exact if_neg (not_not_intro h)

/-- A change under one value, made where `P` holds. -/
theorem related_change {r : RelatedVertices} [Decidable P]
    (hP : P → g'.edges = (g.setRelated v r).edges) (hN : ¬ P → g' = g) (x : String) :
    g'.related x = if x = v ∧ P then r else g.related x := by
  by_cases h : P
  · rw [related_congr (hP h), related_setRelated]
    simp [h]
  · rw [hN h, if_neg fun hx => h hx.2]

theorem related_insertOutgoingEdge (g : Graph) (e : Edge) :
    ∀ x, (g.insertOutgoingEdge e).related x =
      if x = e.value ∧ e.src ∉ (g.related e.value).src then
        { g.related e.value with src := (g.related e.value).src.insert e.src e.src }
      else g.related x := by
  apply related_change
  · intro h
    rw [insertOutgoingEdge_eq h, insertAll_edges]
  · intro h
    exact if_pos (not_not.1 h)

theorem related_insertIncomingEdge (g : Graph) (e : Edge) :
    ∀ x, (g.insertIncomingEdge e).related x =
      if x = e.value ∧ e.dst ∉ (g.related e.value).dst then
        { g.related e.value with dst := (g.related e.value).dst.insert e.dst e.dst }
      else g.related x := by
  apply related_change
  · intro h
    rw [insertIncomingEdge_eq h, insertAll_edges]
  · intro h
    exact if_pos (not_not.1 h)

theorem related_deleteOutgoingEdge (g : Graph) (e : Edge) :
    ∀ x, (g.deleteOutgoingEdge e).related x =
      if x = e.value ∧ e.src ∈ (g.related e.value).src then
        { g.related e.value with src := (g.related e.value).src.erase e.src }
      else g.related x := by
  apply related_change
  · intro h
    rw [deleteOutgoingEdge_eq h, deleteAll_edges]
  · intro h
    exact if_pos h

theorem related_deleteIncomingEdge (g : Graph) (e : Edge) :
    ∀ x, (g.deleteIncomingEdge e).related x =
      if x = e.value ∧ e.dst ∈ (g.related e.value).dst then
        { g.related e.value with dst := (g.related e.value).dst.erase e.dst }
      else g.related x := by
  apply related_change
  · intro h
    rw [deleteIncomingEdge_eq h, deleteAll_edges]
  · intro h
    exact if_pos h

theorem isDst_of_related {src : VerticeSet} [Decidable P]
    (h : ∀ x, g'.related x = if x = w ∧ P then { g.related w with src := src } else g.related x) :
    g'.IsDst v d ↔ g.IsDst v d := by
  rw [IsDst, IsDst, h]
  grind

theorem isSrc_of_related {dst : VerticeSet} [Decidable P]
    (h : ∀ x, g'.related x = if x = w ∧ P then { g.related w with dst := dst } else g.related x) :
    g'.IsSrc v s ↔ g.IsSrc v s := by
  rw [IsSrc, IsSrc, h]
  grind

@[simp] theorem isSrc_insertOutgoingEdge :
    (g.insertOutgoingEdge e).IsSrc v s ↔ g.IsSrc v s ∨ v = e.value ∧ s = e.src := by
  rw [IsSrc, IsSrc, related_insertOutgoingEdge]
  split
  · rename_i h
    rw [h.1, mem_insert]
    simp [or_comm]
  · grind

@[simp] theorem isDst_insertOutgoingEdge : (g.insertOutgoingEdge e).IsDst v d ↔ g.IsDst v d :=
  isDst_of_related (related_insertOutgoingEdge g e)

@[simp] theorem isDst_insertIncomingEdge :
    (g.insertIncomingEdge e).IsDst v d ↔ g.IsDst v d ∨ v = e.value ∧ d = e.dst := by
  rw [IsDst, IsDst, related_insertIncomingEdge]
  split
  · rename_i h
    rw [h.1, mem_insert]
    simp [or_comm]
  · grind

@[simp] theorem isSrc_insertIncomingEdge : (g.insertIncomingEdge e).IsSrc v s ↔ g.IsSrc v s :=
  isSrc_of_related (related_insertIncomingEdge g e)

@[simp] theorem isSrc_deleteOutgoingEdge :
    (g.deleteOutgoingEdge e).IsSrc v s ↔ g.IsSrc v s ∧ ¬ (v = e.value ∧ s = e.src) := by
  rw [IsSrc, IsSrc, related_deleteOutgoingEdge]
  split
  · rename_i h
    rw [h.1, mem_erase]
    simp [and_comm]
  · grind

@[simp] theorem isDst_deleteOutgoingEdge : (g.deleteOutgoingEdge e).IsDst v d ↔ g.IsDst v d :=
  isDst_of_related (related_deleteOutgoingEdge g e)

@[simp] theorem isDst_deleteIncomingEdge :
    (g.deleteIncomingEdge e).IsDst v d ↔ g.IsDst v d ∧ ¬ (v = e.value ∧ d = e.dst) := by
  rw [IsDst, IsDst, related_deleteIncomingEdge]
  split
  · rename_i h
    rw [h.1, mem_erase]
    simp [and_comm]
  · grind

@[simp] theorem isSrc_deleteIncomingEdge : (g.deleteIncomingEdge e).IsSrc v s ↔ g.IsSrc v s :=
  isSrc_of_related (related_deleteIncomingEdge g e)

def placeValue (g : Graph) (v : String) : Graph :=
  if v ∈ g.edges then g else g.setRelated v ⟨∅, ∅⟩

theorem related_placeValue (g : Graph) (v x : String) :
    (g.placeValue v).related x = g.related x := by
  unfold placeValue
  split
  · rfl
  · rename_i h
    rw [related_setRelated]
    split
    · rename_i hx
      rw [hx, related, lookup_eq_none.2 h]
      rfl
    · rfl

@[simp] theorem placeValue_list (g : Graph) (v : String) : (g.placeValue v).list = g.list := by
  unfold placeValue
  split <;> rfl

theorem not_isSrc_of_not_mem (h : v ∉ g.edges) : ¬ g.IsSrc v s := by
  rw [IsSrc, related, lookup_eq_none.2 h]
  exact notMem_empty s

theorem not_isDst_of_not_mem (h : v ∉ g.edges) : ¬ g.IsDst v d := by
  rw [IsDst, related, lookup_eq_none.2 h]
  exact notMem_empty d

section
variable (h : e.isValid)
include h

theorem insert_eq :
    g.insert e =
      let g' := if isDummy e.src then g.placeValue e.value
        else (g.placeValue e.value).insertOutgoingEdge e
      if isDummy e.dst then g' else g'.insertIncomingEdge e := by
  rw [insert, h]
  rfl

theorem delete_eq (hmem : e.value ∈ g.edges) :
    g.delete e =
      let g' := if isDummy e.src then g else g.deleteOutgoingEdge e
      if isDummy e.dst then g' else g'.deleteIncomingEdge e := by
  rw [delete, h]
  exact if_neg (not_not_intro hmem)

omit h in
theorem insert_invalid (h : ¬ e.isValid) : g.insert e = g := if_pos (by simpa using h)

omit h in
theorem delete_invalid (h : ¬ e.isValid) : g.delete e = g := if_pos (by simpa using h)

omit h in
theorem delete_of_not_mem (hmem : e.value ∉ g.edges) : g.delete e = g := by
  by_cases h : e.isValid
  · rw [delete, h]
    exact if_pos hmem
  · exact delete_invalid h

/-- **What `Insert` records**, unless it is a dummy. -/
theorem isSrc_insert :
    (g.insert e).IsSrc v s ↔ g.IsSrc v s ∨ ¬ isDummy e.src ∧ v = e.value ∧ s = e.src := by
  have hplace : ∀ v s, (g.placeValue e.value).IsSrc v s ↔ g.IsSrc v s := by
    intro v s
    rw [IsSrc, related_placeValue, IsSrc]
  rw [insert_eq h]
  split <;> split <;> simp [*]

theorem isDst_insert :
    (g.insert e).IsDst v d ↔ g.IsDst v d ∨ ¬ isDummy e.dst ∧ v = e.value ∧ d = e.dst := by
  have hplace : ∀ v d, (g.placeValue e.value).IsDst v d ↔ g.IsDst v d := by
    intro v d
    rw [IsDst, related_placeValue, IsDst]
  rw [insert_eq h]
  split <;> split <;> simp [*]

theorem isSrc_delete :
    (g.delete e).IsSrc v s ↔ g.IsSrc v s ∧ ¬ (¬ isDummy e.src ∧ v = e.value ∧ s = e.src) := by
  by_cases hmem : e.value ∈ g.edges
  · rw [delete_eq h hmem]
    split <;> split <;> simp [*]
  · rw [delete_of_not_mem hmem]
    refine ⟨fun hs => ⟨hs, ?_⟩, fun hs => hs.1⟩
    rintro ⟨-, rfl, -⟩
    exact not_isSrc_of_not_mem hmem hs

theorem isDst_delete :
    (g.delete e).IsDst v d ↔ g.IsDst v d ∧ ¬ (¬ isDummy e.dst ∧ v = e.value ∧ d = e.dst) := by
  by_cases hmem : e.value ∈ g.edges
  · rw [delete_eq h hmem]
    split <;> split <;> simp [*]
  · rw [delete_of_not_mem hmem]
    refine ⟨fun hd => ⟨hd, ?_⟩, fun hd => hd.1⟩
    rintro ⟨-, rfl, -⟩
    exact not_isDst_of_not_mem hmem hd

end

end Discovery.Graph
