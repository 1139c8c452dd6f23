import CyberRT.Discovery.Manager
import Mathlib.Data.List.Induction

/-!
# One role under a key

The roles of a warehouse with one role under a key stay under their own ids (`Keyed`), so that
removing the roles of a process takes away just those whose key holds one (`lookup_removeAll`).
-/

namespace Discovery

namespace SingleValueWarehouse

variable {w : SingleValueWarehouse} {idOf : RoleAttributes → UInt64} {key id : UInt64}
  {role r : Role}

def Keyed (idOf : RoleAttributes → UInt64) (w : SingleValueWarehouse) : Prop :=
  ∀ key r, w.lookup key = some r → idOf r.attributes = key

theorem keyed_empty : Keyed idOf ∅ := fun key r h => by
  cases h

theorem lookup_insert_eq (w : SingleValueWarehouse) (key : UInt64) (role : Role) (id : UInt64) :
    (w.insert key role).lookup id = if id = key then some role else w.lookup id := by
  split
  · rename_i h
    rw [h, AList.lookup_insert]
  · rename_i h
    rw [AList.lookup_insert_ne h]

theorem lookup_remove (w : SingleValueWarehouse) (key id : UInt64) :
    (w.remove key).lookup id = if id = key then none else w.lookup id := by
  rw [remove]
  split
  · rename_i h
    rw [h, AList.lookup_erase]
  · rename_i h
    rw [AList.lookup_erase_ne h]

theorem Keyed.insert (h : Keyed idOf w) (hid : idOf role.attributes = key) :
    Keyed idOf (w.insert key role) := by
  intro k r hr
  rw [lookup_insert_eq] at hr
  split at hr
  · grind
  · exact h k r hr

theorem Keyed.remove (h : Keyed idOf w) : Keyed idOf (w.remove key) := by
  intro k r hr
  rw [lookup_remove] at hr
  split at hr
  · cases hr
  · exact h k r hr

theorem isMatch_process (r : Role) (hostName : String) (processId : Int32) :
    r.isMatch { hostName := some hostName, processId := some processId } ↔
      r.attributes.process = ⟨hostName, processId⟩ := by
  have hbase : r.matchBase { hostName := some hostName, processId := some processId } ↔
      r.attributes.process = ⟨hostName, processId⟩ := by
    simp only [Role.matchBase, Role.agrees, RoleAttributes.process, Option.all_none,
      Option.all_some, Bool.true_and, Bool.and_eq_true, decide_eq_true_eq, Process.mk.injEq]
    exact ⟨fun h => ⟨h.2.symm, h.1.symm⟩, fun h => ⟨h.2.symm, h.1.symm⟩⟩
  rw [← hbase, Role.isMatch]
  cases r.cls <;> simp [Role.agrees]

theorem mem_searchAttr (hostName : String) (processId : Int32) :
    r ∈ w.searchAttr { hostName := some hostName, processId := some processId } ↔
      (∃ key, w.lookup key = some r) ∧ r.attributes.process = ⟨hostName, processId⟩ := by
  rw [searchAttr, List.mem_filter, isMatch_process, List.mem_map]
  refine and_congr_left fun _ => ⟨?_, ?_⟩
  · rintro ⟨⟨key, r⟩, hmem, rfl⟩
    exact ⟨key, AList.mem_lookup_iff.2 hmem⟩
  · rintro ⟨key, hr⟩
    exact ⟨⟨key, r⟩, AList.mem_lookup_iff.1 hr, rfl⟩

def removeAll (idOf : RoleAttributes → UInt64) (w : SingleValueWarehouse) (roles : List Role) :
    SingleValueWarehouse :=
  roles.foldl (fun w r => w.remove (idOf r.attributes)) w

theorem lookup_foldl_remove (roles : List Role) :
    (w.removeAll idOf roles).lookup id =
      if ∃ r ∈ roles, idOf r.attributes = id then none else w.lookup id := by
  induction roles generalizing w with
  | nil => simp [removeAll]
  | cons r roles ih =>
    have hcons : w.removeAll idOf (r :: roles) =
        (w.remove (idOf r.attributes)).removeAll idOf roles := rfl
    rw [hcons, ih, lookup_remove]
    by_cases h : ∃ r ∈ roles, idOf r.attributes = id
    · simp [h]
    · by_cases hid : id = idOf r.attributes
      · simp [hid]
      · simp [h, hid, Ne.symm hid]

theorem Keyed.removeAll (h : Keyed idOf w) (roles : List Role) :
    Keyed idOf (w.removeAll idOf roles) := by
  intro k r hr
  rw [lookup_foldl_remove] at hr
  split at hr
  · cases hr
  · exact h k r hr

theorem Keyed.lookup_removeAll (h : Keyed idOf w) (hostName : String) (processId : Int32)
    (id : UInt64) :
    (w.removeAll idOf (w.searchAttr
        { hostName := some hostName, processId := some processId })).lookup id =
      (w.lookup id).filter fun r => r.attributes.process ≠ ⟨hostName, processId⟩ := by
  rw [lookup_foldl_remove]
  cases hid : w.lookup id with
  | none => simp
  | some r =>
    have hmem : (∃ r' ∈ w.searchAttr { hostName := some hostName, processId := some processId },
        idOf r'.attributes = id) ↔ r.attributes.process = ⟨hostName, processId⟩ := by
      constructor
      · rintro ⟨r', hr', hid'⟩
        obtain ⟨⟨key, hkey⟩, hproc⟩ := (mem_searchAttr hostName processId).1 hr'
        -- the role of that id is the one under the key
        obtain rfl : key = id := by rw [← h key r' hkey, hid']
        grind
      · intro hproc
        exact ⟨r, (mem_searchAttr hostName processId).2 ⟨⟨id, hid⟩, hproc⟩, h id r hid⟩
    grind

end SingleValueWarehouse

namespace NodeManager

open SingleValueWarehouse

variable {s : NodeManager} {self : Process} {msg : ChangeMsg} {r : Role}

theorem disposeJoin_new (h : s.nodes.lookup msg.roleAttr.getNodeId = none) :
    s.disposeJoin self msg =
      { s with nodes := s.nodes.insert msg.roleAttr.getNodeId (nodeOf msg) } := by
  have hmem : msg.roleAttr.getNodeId ∉ s.nodes := AList.lookup_eq_none.1 h
  simp [disposeJoin, add, hmem, nodeOf]

theorem disposeJoin_dup (h : s.nodes.lookup msg.roleAttr.getNodeId = some r) :
    s.disposeJoin self msg =
      if msg.timestamp < r.timestampNs then
        { nodes := s.nodes.insert msg.roleAttr.getNodeId (nodeOf msg)
          shutdownRequested := s.shutdownRequested || r.attributes.process = self }
      else { s with
        shutdownRequested := s.shutdownRequested || msg.roleAttr.process = self } := by
  have hmem : msg.roleAttr.getNodeId ∈ s.nodes := by
    rw [← AList.lookup_isSome, h]
    rfl
  by_cases hlt : msg.timestamp < r.timestampNs <;>
    simp [disposeJoin, add, search, hmem, h, nodeOf, Role.isEarlierThan, hlt]

/-!
## Nodes with the same id

Processes join with nodes of the same id, and each gets the join messages of all, in some order.
-/

open List SingleValueWarehouse

variable {self : Process} {id : UInt64} {order js : List Joining} {j e : Joining}
  {m : Manager NodeManager}

def Earliest (e : Joining) (js : List Joining) : Prop :=
  e ∈ js ∧ ∀ j ∈ js, j ≠ e → e.time < j.time

theorem Earliest.unique {e' : Joining} (h : Earliest e js) (h' : Earliest e' js) : e = e' := by
  by_contra hne
  exact UInt64.lt_asymm (h.2 e' h'.1 (Ne.symm hne)) (h'.2 e h.1 hne)

theorem Earliest.perm (h : Earliest e js) (hperm : order.Perm js) : Earliest e order :=
  ⟨hperm.mem_iff.2 h.1, fun j hj => h.2 j (hperm.mem_iff.1 hj)⟩

structure Keeps (p : Process) (id : UInt64) (js : List Joining) (e : Joining)
    (m : Manager NodeManager) : Prop where
  earliest : Earliest e js
  node : m.own.nodes.lookup id = some (e.node id)
  shutdown : m.own.shutdownRequested = true ↔ ∃ j ∈ js, j ≠ e ∧ j.process = p

theorem msg_process (id : UInt64) (j : Joining) : (j.msg id).roleAttr.process = j.process := rfl

theorem step_receivedBy (hself : m.self = self) (hdown : m.isShutdown = false) :
    m.step specific (j.receivedBy self id) =
      { m with own := m.own.disposeJoin self (j.msg id) } := by
  subst hself
  unfold Joining.receivedBy
  split
  · rename_i hown
    have hmsg : convert m.self (j.attr id) .node .join j.time = j.msg id := by
      rw [Joining.msg, hown]
    have hreq : m.step specific (.join (j.attr id) .node j.time) =
        m.dispose specific (convert m.self (j.attr id) .node .join j.time) := by
      simp [Manager.step, Manager.request, hdown, specific, check, Joining.attr]
    rw [hreq, hmsg]
    rfl
  · rename_i hother
    have hnot : m.isFromSameProcess (j.msg id) = false := by exact decide_eq_false hother
    have hcheck : specific.check (j.msg id).roleAttr = true := rfl
    have hrem : m.step specific (.remoteChange (j.msg id)) = m.dispose specific (j.msg id) := by
      simp [Manager.step, Manager.onRemoteChange, hdown, hnot, hcheck]
    rw [hrem]
    rfl

theorem first_keeps (hself : m.self = self) (hdown : m.isShutdown = false)
    (hnode : m.own.nodes.lookup id = none) (hreq : m.own.shutdownRequested = false) :
    Keeps self id [j] j (m.step specific (j.receivedBy self id)) := by
  have hnode' : m.own.nodes.lookup (j.msg id).roleAttr.getNodeId = none := hnode
  rw [step_receivedBy hself hdown, disposeJoin_new hnode']
  refine ⟨⟨mem_singleton_self j, fun j' hj' hne => ?_⟩, ?_, ?_⟩
  · exact absurd (mem_singleton.1 hj') hne
  · exact AList.lookup_insert _
  · rw [hreq]
    simp

theorem Keeps.next (h : Keeps self id js e m) (hself : m.self = self) (hdown : m.isShutdown = false)
    (hnew : ∀ j' ∈ js, j'.time ≠ j.time) :
    Keeps self id (js ++ [j]) (if j.time < e.time then j else e)
      (m.step specific (j.receivedBy self id)) := by
  obtain ⟨⟨hmem, hfirst⟩, hnode, hshut⟩ := h
  have hnode' : m.own.nodes.lookup (j.msg id).roleAttr.getNodeId = some (e.node id) := hnode
  rw [step_receivedBy hself hdown, disposeJoin_dup hnode']
  have hcond : (j.msg id).timestamp < (e.node id).timestampNs ↔ j.time < e.time := Iff.rfl
  by_cases hlt : j.time < e.time
  · -- the new node takes the place, and the old one is the later of the two
    rw [if_pos hlt, if_pos (hcond.2 hlt)]
    refine ⟨⟨by simp, fun j' hj' hj'ne => ?_⟩, AList.lookup_insert _, ?_⟩
    · grind
    · have hproc : (e.node id).attributes.process = e.process := rfl
      grind
  · rw [if_neg hlt, if_neg (mt hcond.1 hlt)]
    have hle : e.time < j.time := by grind
    refine ⟨⟨by simp [hmem], fun j' hj' hj'ne => ?_⟩, hnode, ?_⟩
    · grind
    · rw [msg_process, Bool.or_eq_true, hshut, decide_eq_true_eq]
      grind

theorem after_append (self : Process) (id : UInt64) (order : List Joining) (j : Joining) :
    after self id (order ++ [j]) = (after self id order).step specific (j.receivedBy self id) := by
  simp [after]

theorem after_up (self : Process) (id : UInt64) (order : List Joining) :
    (after self id order).self = self ∧ (after self id order).isShutdown = false := by
  induction order using List.reverseRecOn with
  | nil => exact ⟨rfl, rfl⟩
  | append_singleton order j ih =>
    rw [after_append, step_receivedBy ih.1 ih.2]
    exact ih

theorem after_keeps (self : Process) (id : UInt64) (order : List Joining) (hne : order ≠ [])
    (htime : (order.map Joining.time).Nodup) :
    ∃ e, Keeps self id order e (after self id order) := by
  induction order using List.reverseRecOn with
  | nil => exact absurd rfl hne
  | append_singleton order j ih =>
    obtain ⟨hself, hdown⟩ := after_up self id order
    rw [after_append]
    rw [map_append, nodup_append] at htime
    obtain ⟨htime, -, hnew⟩ := htime
    cases order with
    | nil => exact ⟨j, first_keeps hself hdown rfl rfl⟩
    | cons j' order =>
      obtain ⟨e, he⟩ := ih (cons_ne_nil j' order) htime
      refine ⟨_, he.next hself hdown fun j'' hj'' => ?_⟩
      exact hnew _ (mem_map_of_mem hj'') _ (by simp)

/-- **The earliest node wins.** Processes join with nodes of one id, at different times; each gets
the messages of all, in any order. -/
theorem earliest_registered (id : UInt64) (js : List Joining) (hne : js ≠ [])
    (hproc : (js.map Joining.process).Nodup) (htime : (js.map Joining.time).Nodup) :
    ∃ e, Earliest e js ∧ ∀ p ∈ js, ∀ order : List Joining, order.Perm js →
      (after p.process id order).own.nodes.lookup id = some (e.node id) ∧
      ((after p.process id order).own.shutdownRequested = true ↔ p ≠ e) := by
  obtain ⟨j, hj⟩ := exists_mem_of_ne_nil js hne
  obtain ⟨e, he⟩ := after_keeps j.process id _ hne htime
  refine ⟨e, he.earliest, fun p hp order hperm => ?_⟩
  obtain ⟨e', he'⟩ := after_keeps p.process id order
    (fun h => hne (nil_perm.1 (h ▸ hperm))) ((hperm.map Joining.time).nodup_iff.2 htime)
  obtain rfl : e' = e := he'.earliest.unique (he.earliest.perm hperm)
  refine ⟨he'.node, he'.shutdown.trans ⟨?_, fun hpe => ⟨p, hperm.mem_iff.2 hp, hpe, rfl⟩⟩⟩
  rintro ⟨j', hj', hj'ne, hsame⟩
  -- processes differ, so the other node of this process is `p`
  rwa [inj_on_of_nodup_map hproc hp (hperm.mem_iff.1 hj') hsame.symm]

/-- Two processes, each of which hears of the other's node first. -/
theorem earliest_registered_two :
    ∃ e, Earliest e [⟨⟨"a", 1⟩, "n", 5⟩, ⟨⟨"b", 1⟩, "n", 3⟩] ∧
      ∀ p ∈ [(⟨⟨"a", 1⟩, "n", 5⟩ : Joining), ⟨⟨"b", 1⟩, "n", 3⟩], ∀ order : List Joining,
        order.Perm [⟨⟨"a", 1⟩, "n", 5⟩, ⟨⟨"b", 1⟩, "n", 3⟩] →
        (after p.process 7 order).own.nodes.lookup 7 = some (e.node 7) ∧
        ((after p.process 7 order).own.shutdownRequested = true ↔ p ≠ e) :=
  earliest_registered 7 [⟨⟨"a", 1⟩, "n", 5⟩, ⟨⟨"b", 1⟩, "n", 3⟩] (by decide) (by decide) (by decide)

end NodeManager

/-!
## Leaving under an id that another process holds

`Remove(id)` asks not who is registered under the id.
-/

open Lib Option SingleValueWarehouse

section
variable {σ : Type}

structure Held (S : Specific σ) (registered : σ → SingleValueWarehouse)
    (holder : UInt64 → Option Role → Action → Option Role) (idOf : RoleAttributes → UInt64)
    (leaves : ChangeMsg → Prop) : Prop where
  keyed : ∀ self s a, Keyed idOf (registered s) → Keyed idOf (registered (S.act self s a))
  lookup : ∀ self s a id, Keyed idOf (registered s) →
    (registered (S.act self s a)).lookup id = holder id ((registered s).lookup id) a
  leave : ∀ msg, leaves msg → msg.operateType = .leave ∧
    ∀ id h, holder id h (.change msg) = if idOf msg.roleAttr = id then none else h
  other : ∀ msg, msg.operateType = .leave → ¬ leaves msg → ∀ id h, holder id h (.change msg) = h
  module : ∀ hostName processId id h,
    holder id h (.moduleLeave hostName processId) = goneWith hostName processId h

variable {S : Specific σ} {registered : σ → SingleValueWarehouse}
  {holder : UInt64 → Option Role → Action → Option Role} {idOf : RoleAttributes → UInt64}
  {leaves : ChangeMsg → Prop} {self : Process} {s : σ}

theorem Held.lookup_run (h : Held S registered holder idOf leaves) (hs : Keyed idOf (registered s))
    (acts : List Action) (id : UInt64) :
    (registered (acts.foldl (S.act self) s)).lookup id =
      acts.foldl (holder id) ((registered s).lookup id) := by
  induction acts generalizing s with
  | nil => rfl
  | cons a acts ih =>
    rw [List.foldl_cons, List.foldl_cons, ih (h.keyed self s a hs), h.lookup self s a id hs]

def KeepsHolders (holder : UInt64 → Option Role → Action → Option Role)
    (held : UInt64 → Option Role) (a : Action) : Prop :=
  ∀ p ∈ a.leaver, ∀ id r, held id = some r → r.attributes.process ≠ p →
    holder id (some r) a = some r

section
variable (h : Held S registered holder idOf leaves)
include h

theorem Held.keepsOthers_iff {m : Manager σ} (hs : Keyed idOf (registered m.own)) (ev : Event) :
    KeepsOthers S registered m ev ↔
      ∀ a ∈ m.handled S ev, KeepsHolders holder (registered m.own).lookup a := by
  refine forall₂_congr fun a ha => ?_
  have hown : (m.step S ev).own = S.act m.self m.own a := by
    rw [Manager.step_own, mem_def.1 ha]
    rfl
  rw [hown]
  refine forall₄_congr fun p _ id r => forall_congr' fun hr => ?_
  rw [h.lookup _ _ _ id hs, hr]

theorem Held.keepsHolders_iff (held : UInt64 → Option Role) (a : Action) :
    KeepsHolders holder held a ↔ ∀ msg, a = .change msg → leaves msg →
      ∀ r ∈ held (idOf msg.roleAttr), r.attributes.process = msg.roleAttr.process := by
  cases a with
  | moduleLeave hostName processId =>
    refine ⟨fun _ _ => nofun, fun _ p hp id r _ hne => ?_⟩
    rw [Action.leaver, mem_some_iff] at hp
    subst hp
    rw [h.module, goneWith, filter_some, if_pos (decide_eq_true hne)]
  | change msg =>
    by_cases hop : msg.operateType = .leave
    · have hleaver : (Action.change msg).leaver = some msg.roleAttr.process := if_pos hop
      by_cases hl : leaves msg
      · constructor
        · rintro hk _ ⟨rfl⟩ - r hr
          by_contra hne
          have hgone := hk _ hleaver _ r hr hne
          rw [(h.leave msg hl).2, if_pos rfl] at hgone
          cases hgone
        · intro hall p hp id r hr hne
          rw [(h.leave msg hl).2, if_neg]
          grind
      · refine ⟨fun _ msg' hmsg hl' => ?_, fun _ p _ id r _ _ => h.other msg hop hl id _⟩
        grind
    · have hleaver : (Action.change msg).leaver = none := if_neg hop
      constructor
      · rintro - _ ⟨rfl⟩ hl
        exact absurd (h.leave msg hl).1 hop
      · rintro - p hp
        rw [hleaver] at hp
        cases hp

theorem Held.keeps_iff (hs : registered s = ∅) (evs : List Event) :
    Along (Manager.step S) (KeepsOthers S registered) (.fresh self s) evs ↔
      HolderLeaves holder idOf leaves (Manager.handledAll S (.fresh self s) evs) := by
  have hkeyed : Keyed idOf (registered (Manager.fresh self s).own) := by
    rw [Manager.fresh, hs]
    exact keyed_empty
  have hkeep : ∀ (m : Manager σ) (ev : Event), Keyed idOf (registered m.own) →
      Keyed idOf (registered (m.step S ev).own) := by
    intro m ev hm
    rw [Manager.step_own]
    cases m.handled S ev with
    | none => exact hm
    | some a => exact h.keyed m.self m.own a hm
  rw [along_congr (P := fun m : Manager σ => Keyed idOf (registered m.own)) hkeyed
      (fun m ev hm => h.keepsOthers_iff hm ev) (fun m ev hm _ => hkeep m ev hm),
    Manager.along_handled fun s a => KeepsHolders holder (registered s).lookup a, along_iff]
  have hheld : ∀ pre : List Action,
      (registered (pre.foldl (S.act self) (Manager.fresh self s).own)).lookup =
        fun id => pre.foldl (holder id) none := by
    intro pre
    funext id
    rw [h.lookup_run hkeyed, Manager.fresh, hs, AList.lookup_empty]
  have heach : ∀ (pre : List Action) (a : Action), KeepsHolders holder
      (registered (pre.foldl (S.act self) (Manager.fresh self s).own)).lookup a ↔
      ∀ msg, a = .change msg → leaves msg →
        ∀ r ∈ pre.foldl (holder (idOf msg.roleAttr)) none,
          r.attributes.process = msg.roleAttr.process := by
    intro pre a
    rw [hheld, h.keepsHolders_iff]
  constructor
  · intro hall pre msg suf hacts hl
    exact (heach pre _).1 (hall pre _ suf hacts) msg rfl hl
  · intro hall pre a suf hacts
    refine (heach pre a).2 ?_
    rintro msg rfl hl
    exact hall pre msg suf hacts hl

end

end

theorem NodeManager.lookup_disposeJoin (self : Process) (s : NodeManager) (msg : ChangeMsg)
    (id : UInt64) :
    (s.disposeJoin self msg).nodes.lookup id =
      if msg.roleAttr.getNodeId = id then
        some ((s.nodes.lookup id).elim (nodeOf msg) fun r =>
          if msg.timestamp < r.timestampNs then nodeOf msg else r)
      else s.nodes.lookup id := by
  by_cases hid : msg.roleAttr.getNodeId = id
  · subst hid
    rw [if_pos rfl]
    cases hr : s.nodes.lookup msg.roleAttr.getNodeId with
    | none =>
      rw [disposeJoin_new hr]
      exact AList.lookup_insert _
    | some r =>
      rw [disposeJoin_dup hr]
      by_cases hlt : msg.timestamp < r.timestampNs
      · simp [hlt, AList.lookup_insert]
      · simp [hlt, hr]
  · rw [if_neg hid]
    cases hr : s.nodes.lookup msg.roleAttr.getNodeId with
    | none =>
      rw [disposeJoin_new hr]
      exact AList.lookup_insert_ne (Ne.symm hid)
    | some r =>
      rw [disposeJoin_dup hr]
      split
      · exact AList.lookup_insert_ne (Ne.symm hid)
      · rfl

theorem NodeManager.act_join (self : Process) (s : NodeManager) {msg : ChangeMsg}
    (hop : msg.operateType = .join) :
    specific.act self s (.change msg) = s.disposeJoin self msg := by
  simp only [Specific.act, specific, dispose, hop]

theorem NodeManager.act_leave (self : Process) (s : NodeManager) {msg : ChangeMsg}
    (hop : msg.operateType = .leave) : specific.act self s (.change msg) = s.disposeLeave msg := by
  simp only [Specific.act, specific, dispose, hop]

theorem NodeManager.held :
    Held specific NodeManager.nodes nodeHolder RoleAttributes.getNodeId Leaves where
  lookup self s a id hs := by
    cases a with
    | moduleLeave hostName processId => exact hs.lookup_removeAll hostName processId id
    | change msg =>
      rw [nodeHolder]
      cases hop : msg.operateType with
      | join => rw [act_join self s hop, lookup_disposeJoin]
      | leave =>
        rw [act_leave self s hop]
        simp only [disposeLeave, lookup_remove, nodeOf, eq_comm]
  keyed self s a hs := by
    cases a with
    | moduleLeave hostName processId => exact hs.removeAll _
    | change msg =>
      cases hop : msg.operateType with
      | join =>
        intro key r hr
        rw [act_join self s hop, lookup_disposeJoin] at hr
        split at hr
        · rename_i hid
          rw [← Option.some.inj hr]
          cases hr' : s.nodes.lookup key with
          | none => exact hid
          | some r' =>
            rw [elim_some]
            split
            · exact hid
            · exact hs key r' hr'
        · exact hs key r hr
      | leave =>
        rw [act_leave self s hop]
        exact hs.remove
  leave msg hl := by
    refine ⟨hl, fun id h => ?_⟩
    have hop : msg.operateType = .leave := hl
    simp only [nodeHolder, hop]
  other msg hop hl := absurd hop hl
  module _ _ _ _ := rfl

theorem ServiceManager.held :
    Held specific ServiceManager.servers serverHolder RoleAttributes.getServiceId Leaves where
  lookup self s a id hs := by
    cases a with
    | moduleLeave hostName processId => exact hs.lookup_removeAll hostName processId id
    | change msg =>
      simp only [Specific.act, specific, dispose, serverHolder, disposeJoin, disposeLeave]
      cases hop : msg.operateType <;> by_cases hrole : msg.roleType = .server
      · simp [hrole, add, lookup_insert_eq, roleOf, eq_comm]
      · simp [hrole]
      · simp [hrole, lookup_remove, roleOf, eq_comm]
      · simp [hrole]
  keyed self s a hs := by
    cases a with
    | moduleLeave hostName processId => exact hs.removeAll _
    | change msg =>
      simp only [Specific.act, specific, dispose, disposeJoin, disposeLeave]
      cases hop : msg.operateType <;> by_cases hrole : msg.roleType = .server
      · simpa [hrole, add] using hs.insert rfl
      · simpa [hrole] using hs
      · simpa [hrole] using hs.remove
      · simpa [hrole] using hs
  leave msg hl := by
    refine ⟨hl.1, fun id h => ?_⟩
    simp only [serverHolder, hl.1, hl.2, true_and]
  other msg hop hl id h := by
    have hrole : ¬ (msg.roleType = .server ∧ msg.roleAttr.getServiceId = id) :=
      fun hr => hl ⟨hop, hr.1⟩
    simp only [serverHolder, if_neg hrole]
  module _ _ _ _ := rfl

/-- **A leave and the registrations of other processes.** Along every sequence of requests and
messages a node manager (a service manager) takes away no registration of a process but the one
that leaves just if each id that a node (a server) leaves is held, if at all, by its process. -/
theorem leave_keeps_others_iff (self : Process) (evs : List Event) :
    (Along (Manager.step NodeManager.specific) (KeepsOthers NodeManager.specific NodeManager.nodes)
        (.fresh self .init) evs ↔
      HolderLeaves nodeHolder RoleAttributes.getNodeId NodeManager.Leaves
        (Manager.handledAll NodeManager.specific (.fresh self .init) evs)) ∧
    (Along (Manager.step ServiceManager.specific)
        (KeepsOthers ServiceManager.specific ServiceManager.servers) (.fresh self .init) evs ↔
      HolderLeaves serverHolder RoleAttributes.getServiceId ServiceManager.Leaves
        (Manager.handledAll ServiceManager.specific (.fresh self .init) evs)) :=
  ⟨NodeManager.held.keeps_iff rfl evs, ServiceManager.held.keeps_iff rfl evs⟩

def nodeOfSameName : List Event :=
  let attr (p : Int32) : RoleAttributes :=
    { hostName := some "h", processId := some p, nodeName := some "n", nodeId := some 7 }
  [.remoteChange ⟨10, .join, .node, attr 1⟩, .remoteChange ⟨20, .join, .node, attr 2⟩,
    .remoteChange ⟨30, .leave, .node, attr 2⟩]

def serverOfSameName : List Event :=
  let attr (p : Int32) : RoleAttributes :=
    { hostName := some "h", processId := some p, serviceName := some "s", serviceId := some 7 }
  [.remoteChange ⟨10, .join, .server, attr 2⟩, .remoteChange ⟨20, .join, .server, attr 1⟩,
    .remoteChange ⟨30, .leave, .server, attr 2⟩]

theorem leave_removes_other :
    ¬ Along (Manager.step NodeManager.specific)
        (KeepsOthers NodeManager.specific NodeManager.nodes) (.fresh ⟨"h", 3⟩ .init)
        nodeOfSameName ∧
    ¬ Along (Manager.step ServiceManager.specific)
        (KeepsOthers ServiceManager.specific ServiceManager.servers) (.fresh ⟨"h", 3⟩ .init)
        serverOfSameName := by
  constructor
  · intro h
    have hkept := h.2.2.1 _ rfl ⟨"h", 2⟩ rfl 7 _ rfl (by decide)
    revert hkept
    decide
  · intro h
    have hkept := h.2.2.1 _ rfl ⟨"h", 2⟩ rfl 7 _ rfl (by decide)
    revert hkept
    decide

end Discovery
