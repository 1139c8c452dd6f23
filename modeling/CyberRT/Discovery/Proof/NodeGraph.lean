import CyberRT.Discovery.Proof.GraphRecords

/-!
# The node graph and the registered roles

The graph has each record once, the warehouses have each role: a leave takes back the record,
whoever else is still registered for it.
-/

namespace Discovery

open Lib List

namespace Graph

variable {g : Graph} {n c v x : String}

attribute [local simp] isDummy Edge.isValid

theorem isValid_src : Edge.isValid ⟨n, "", c⟩ ↔ n ≠ "" ∧ c ≠ "" := by
  by_cases hc : c = ""
  · simp [hc]
  · simp [hc]

theorem isValid_dst : Edge.isValid ⟨"", n, c⟩ ↔ n ≠ "" ∧ c ≠ "" := by
  by_cases hc : c = ""
  · simp [hc]
  · simp [hc]

theorem isSrc_insert_src :
    (g.insert ⟨n, "", c⟩).IsSrc v x ↔ g.IsSrc v x ∨ (n ≠ "" ∧ c ≠ "") ∧ (x, v) = (n, c) := by
  by_cases h : n ≠ "" ∧ c ≠ ""
  · rw [isSrc_insert (isValid_src.2 h)]
    simp [h.1, h.2, and_comm]
  · rw [insert_invalid (mt isValid_src.1 h)]
    simp [h]

theorem isDst_insert_src : (g.insert ⟨n, "", c⟩).IsDst v x ↔ g.IsDst v x := by
  by_cases h : n ≠ "" ∧ c ≠ ""
  · rw [isDst_insert (isValid_src.2 h)]
    simp
  · rw [insert_invalid (mt isValid_src.1 h)]

theorem isDst_insert_dst :
    (g.insert ⟨"", n, c⟩).IsDst v x ↔ g.IsDst v x ∨ (n ≠ "" ∧ c ≠ "") ∧ (x, v) = (n, c) := by
  by_cases h : n ≠ "" ∧ c ≠ ""
  · rw [isDst_insert (isValid_dst.2 h)]
    simp [h.1, h.2, and_comm]
  · rw [insert_invalid (mt isValid_dst.1 h)]
    simp [h]

theorem isSrc_insert_dst : (g.insert ⟨"", n, c⟩).IsSrc v x ↔ g.IsSrc v x := by
  by_cases h : n ≠ "" ∧ c ≠ ""
  · rw [isSrc_insert (isValid_dst.2 h)]
    simp
  · rw [insert_invalid (mt isValid_dst.1 h)]

theorem isSrc_delete_src :
    (g.delete ⟨n, "", c⟩).IsSrc v x ↔ g.IsSrc v x ∧ ¬ ((n ≠ "" ∧ c ≠ "") ∧ (x, v) = (n, c)) := by
  by_cases h : n ≠ "" ∧ c ≠ ""
  · rw [isSrc_delete (isValid_src.2 h)]
    simp [h.1, h.2, and_comm]
  · rw [delete_invalid (mt isValid_src.1 h)]
    simp [h]

theorem isDst_delete_src : (g.delete ⟨n, "", c⟩).IsDst v x ↔ g.IsDst v x := by
  by_cases h : n ≠ "" ∧ c ≠ ""
  · rw [isDst_delete (isValid_src.2 h)]
    simp
  · rw [delete_invalid (mt isValid_src.1 h)]

theorem isDst_delete_dst :
    (g.delete ⟨"", n, c⟩).IsDst v x ↔ g.IsDst v x ∧ ¬ ((n ≠ "" ∧ c ≠ "") ∧ (x, v) = (n, c)) := by
  by_cases h : n ≠ "" ∧ c ≠ ""
  · rw [isDst_delete (isValid_dst.2 h)]
    simp [h.1, h.2, and_comm]
  · rw [delete_invalid (mt isValid_dst.1 h)]
    simp [h]

theorem isSrc_delete_dst : (g.delete ⟨"", n, c⟩).IsSrc v x ↔ g.IsSrc v x := by
  by_cases h : n ≠ "" ∧ c ≠ ""
  · rw [isSrc_delete (isValid_dst.2 h)]
    simp
  · rw [delete_invalid (mt isValid_dst.1 h)]

end Graph

namespace ChannelManager

variable {w w' w'' : MultiValueWarehouse} {R R' R'' : String → String → Prop}
  {attr : RoleAttributes} {leaving leaving' : List RoleAttributes} {s s' : ChannelManager}
  {msg : ChangeMsg} {self : Process}

def HasEnds (attr : RoleAttributes) : Prop := attr.getNodeName ≠ "" ∧ attr.getChannelName ≠ ""

def Agree (w : MultiValueWarehouse) (R : String → String → Prop) : Prop :=
  ∀ node channel, R channel node ↔ Registered w node channel

def Nonempty (R : String → String → Prop) : Prop :=
  ∀ node channel, R channel node → node ≠ "" ∧ channel ≠ ""

structure Joined (w : MultiValueWarehouse) (R : String → String → Prop) (attr : RoleAttributes)
    (w' : MultiValueWarehouse) (R' : String → String → Prop) : Prop where
  registered : ∀ node channel,
    Registered w' node channel ↔ Registered w node channel ∨ ends attr = (node, channel)
  recorded : ∀ node channel,
    R' channel node ↔ R channel node ∨ HasEnds attr ∧ (node, channel) = ends attr

structure Left (w : MultiValueWarehouse) (R : String → String → Prop)
    (leaving : List RoleAttributes) (w' : MultiValueWarehouse) (R' : String → String → Prop) :
    Prop where
  mem : ∀ item, item ∈ w' ↔ item ∈ w ∧ ¬ RemovedBy leaving item
  recorded : ∀ node channel, R' channel node ↔ R channel node ∧
    ∀ attr ∈ leaving, ¬ (HasEnds attr ∧ (node, channel) = ends attr)

theorem Joined.nonempty (h : Joined w R attr w' R') (hR : Nonempty R) : Nonempty R' := by
  intro node channel hrec
  rcases (h.recorded node channel).1 hrec with hrec | ⟨hends, heq⟩
  · exact hR node channel hrec
  · obtain ⟨rfl, rfl⟩ := Prod.mk.inj heq
    exact hends

theorem Joined.agree_iff (h : Joined w R attr w' R') (hR : Nonempty R) (ha : Agree w R) :
    HasEnds attr ↔ Agree w' R' := by
  constructor
  · intro hends node channel
    rw [h.recorded, h.registered, ha node channel, and_iff_right hends, eq_comm]
  · intro ha'
    have hrec := (ha' attr.getNodeName attr.getChannelName).2 ((h.registered _ _).2 (.inr rfl))
    rcases (h.recorded _ _).1 hrec with hrec | ⟨hends, -⟩
    · exact hR _ _ hrec
    · exact hends

section
variable (h : Left w R leaving w' R')
include h

theorem Left.nonempty (hR : Nonempty R) : Nonempty R' :=
  fun node channel hrec => hR node channel ((h.recorded node channel).1 hrec).1

omit h in
theorem Left.nil (hw : w' = w) (hR : ∀ node channel, R' channel node ↔ R channel node) :
    Left w R [] w' R' where
  mem item := by simp [hw, RemovedBy]
  recorded node channel := by simp [hR]

theorem Left.append (h' : Left w' R' leaving' w'' R'') :
    Left w R (leaving ++ leaving') w'' R'' where
  mem item := by
    have hby : RemovedBy (leaving ++ leaving') item ↔
        RemovedBy leaving item ∨ RemovedBy leaving' item := by
      simp only [RemovedBy, mem_append, or_and_right, exists_or]
    rw [h'.mem, h.mem, hby, not_or, and_assoc]
  recorded node channel := by rw [h'.recorded, h.recorded, forall_mem_append, and_assoc]

theorem Left.agree_iff (hR : Nonempty R) (ha : Agree w R) : Clears w leaving ↔ Agree w' R' := by
  -- what is recorded has a node and a channel, so those that leave have them too
  have hrec : ∀ node channel, R' channel node ↔
      R channel node ∧ ∀ attr ∈ leaving, ends attr ≠ (node, channel) := by
    intro node channel
    rw [h.recorded]
    refine and_congr_right fun hr => forall₂_congr fun attr _ => not_congr ?_
    refine ⟨fun hends => hends.2.symm, fun heq => ⟨?_, heq.symm⟩⟩
    obtain ⟨rfl, rfl⟩ := Prod.mk.inj heq
    exact hR _ _ hr
  constructor
  · intro hc node channel
    rw [hrec, ha node channel]
    constructor
    · rintro ⟨⟨item, hmem, hends⟩, hnone⟩
      by_cases hby : RemovedBy leaving item
      · rcases hc.removed item hmem hby with ⟨attr, hattr, heq⟩ | ⟨item', hmem', hby', heq⟩
        · exact absurd (heq.symm.trans hends) (hnone attr hattr)
        · exact ⟨item', (h.mem item').2 ⟨hmem', hby'⟩, heq.trans hends⟩
      · exact ⟨item, (h.mem item).2 ⟨hmem, hby⟩, hends⟩
    · rintro ⟨item, hmem, hends⟩
      obtain ⟨hmem, hby⟩ := (h.mem item).1 hmem
      refine ⟨⟨item, hmem, hends⟩, fun attr hattr heq => ?_⟩
      exact hc.stays item hmem hby attr hattr (hends.trans heq.symm)
  · intro ha'
    constructor
    · intro item hmem hby attr hattr heq
      have hreg : Registered w' attr.getNodeName attr.getChannelName :=
        ⟨item, (h.mem item).2 ⟨hmem, hby⟩, heq⟩
      exact ((hrec _ _).1 ((ha' _ _).2 hreg)).2 attr hattr rfl
    · intro item hmem hby
      by_cases hsome : ∃ attr ∈ leaving, ends item.2.attributes = ends attr
      · exact .inl hsome
      · have hr := (ha item.2.attributes.getNodeName item.2.attributes.getChannelName).2
          ⟨item, hmem, rfl⟩
        have hr' := (hrec _ _).2 ⟨hr, fun attr hattr heq => hsome ⟨attr, hattr, heq.symm⟩⟩
        obtain ⟨item', hmem', heq⟩ := (ha' _ _).1 hr'
        obtain ⟨hmem', hby'⟩ := (h.mem item').1 hmem'
        exact .inr ⟨item', hmem', hby', heq⟩

end

theorem registered_add (role : Role) (key : UInt64) (node channel : String) :
    Registered (w.add key role) node channel ↔
      Registered w node channel ∨ ends role.attributes = (node, channel) := by
  simp [Registered, MultiValueWarehouse.add, or_and_right, exists_or]

theorem mem_removeRole (attr : RoleAttributes) (item : UInt64 × Role) :
    item ∈ w.removeRole attr.getChannelId { cls := .writer, attributes := attr } ↔
      item ∈ w ∧ ¬ RemovedBy [attr] item := by
  simp [MultiValueWarehouse.removeRole, RemovedBy, imp_iff_not_or]

theorem joined_writer (hrole : msg.roleType = .writer) :
    Joined s.channelWriters s.nodeGraph.IsSrc msg.roleAttr (s.disposeJoin msg).channelWriters
        (s.disposeJoin msg).nodeGraph.IsSrc ∧
      Left s.channelReaders s.nodeGraph.IsDst [] (s.disposeJoin msg).channelReaders
        (s.disposeJoin msg).nodeGraph.IsDst := by
  rw [disposeJoin, if_pos hrole]
  exact ⟨⟨registered_add _ _, fun _ _ => Graph.isSrc_insert_src⟩,
    .nil rfl fun _ _ => Graph.isDst_insert_src⟩

theorem joined_reader (hrole : ¬ msg.roleType = .writer) :
    Left s.channelWriters s.nodeGraph.IsSrc [] (s.disposeJoin msg).channelWriters
        (s.disposeJoin msg).nodeGraph.IsSrc ∧
      Joined s.channelReaders s.nodeGraph.IsDst msg.roleAttr (s.disposeJoin msg).channelReaders
        (s.disposeJoin msg).nodeGraph.IsDst := by
  rw [disposeJoin, if_neg hrole]
  exact ⟨.nil rfl fun _ _ => Graph.isSrc_insert_dst,
    ⟨registered_add _ _, fun _ _ => Graph.isDst_insert_dst⟩⟩

def BothLeft (s : ChannelManager) (writers readers : List RoleAttributes) (s' : ChannelManager) :
    Prop :=
  Left s.channelWriters s.nodeGraph.IsSrc writers s'.channelWriters s'.nodeGraph.IsSrc ∧
    Left s.channelReaders s.nodeGraph.IsDst readers s'.channelReaders s'.nodeGraph.IsDst

theorem left_writer (msg : ChangeMsg) (hrole : msg.roleType = .writer) :
    BothLeft s [msg.roleAttr] [] (s.disposeLeave msg) := by
  rw [disposeLeave, if_pos hrole]
  refine ⟨⟨mem_removeRole msg.roleAttr, fun _ _ => ?_⟩, .nil rfl fun _ _ => Graph.isDst_delete_src⟩
  rw [forall_mem_singleton]
  exact Graph.isSrc_delete_src

theorem left_reader (msg : ChangeMsg) (hrole : ¬ msg.roleType = .writer) :
    BothLeft s [] [msg.roleAttr] (s.disposeLeave msg) := by
  rw [disposeLeave, if_neg hrole]
  refine ⟨.nil rfl fun _ _ => Graph.isSrc_delete_dst, ⟨mem_removeRole msg.roleAttr, fun _ _ => ?_⟩⟩
  rw [forall_mem_singleton]
  exact Graph.isDst_delete_dst

variable (self : Process)

theorem left_writers (roles : List Role) (s : ChannelManager) :
    BothLeft s (roles.map fun role => (leaveOf self .writer role).roleAttr) []
      (roles.foldl (fun s role => s.disposeLeave (leaveOf self .writer role)) s) := by
  induction roles generalizing s with
  | nil => exact ⟨.nil rfl fun _ _ => Iff.rfl, .nil rfl fun _ _ => Iff.rfl⟩
  | cons role roles ih =>
    have hone := left_writer (s := s) (leaveOf self .writer role) rfl
    have hrest := ih (s.disposeLeave (leaveOf self .writer role))
    exact ⟨hone.1.append hrest.1, hone.2.append hrest.2⟩

theorem left_readers (roles : List Role) (s : ChannelManager) :
    BothLeft s [] (roles.map fun role => (leaveOf self .reader role).roleAttr)
      (roles.foldl (fun s role => s.disposeLeave (leaveOf self .reader role)) s) := by
  induction roles generalizing s with
  | nil => exact ⟨.nil rfl fun _ _ => Iff.rfl, .nil rfl fun _ _ => Iff.rfl⟩
  | cons role roles ih =>
    have hone := left_reader (s := s) (leaveOf self .reader role) nofun
    have hrest := ih (s.disposeLeave (leaveOf self .reader role))
    exact ⟨hone.1.append hrest.1, hone.2.append hrest.2⟩

theorem left_module (s : ChannelManager) (hostName : String) (processId : Int32) :
    BothLeft s (leavingWith self .writer s.channelWriters hostName processId)
      (leavingWith self .reader s.channelReaders hostName processId)
      (s.onTopoModuleLeave self hostName processId) := by
  have hw := left_writers self (s.channelWriters.searchAttr
    { hostName := some hostName, processId := some processId }) s
  have hr := left_readers self (s.channelReaders.searchAttr
    { hostName := some hostName, processId := some processId })
    ((s.channelWriters.searchAttr
      { hostName := some hostName, processId := some processId }).foldl
      (fun s role => s.disposeLeave (leaveOf self .writer role)) s)
  have h1 := hw.1.append hr.1
  rw [append_nil] at h1
  exact ⟨h1, hw.2.append hr.2⟩

theorem recorded_iff :
    Recorded s ↔ Agree s.channelWriters s.nodeGraph.IsSrc ∧
      Agree s.channelReaders s.nodeGraph.IsDst :=
  ⟨fun h => ⟨h.writers, h.readers⟩, fun h => ⟨h.1, h.2⟩⟩

def AllNonempty (s : ChannelManager) : Prop :=
  Nonempty s.nodeGraph.IsSrc ∧ Nonempty s.nodeGraph.IsDst

theorem clears_nil (w : MultiValueWarehouse) : Clears w [] where
  stays _ _ _ _ hattr := absurd hattr not_mem_nil
  removed _ _ hby := by
    obtain ⟨_, hattr, -⟩ := hby
    exact absurd hattr not_mem_nil

theorem BothLeft.recorded_iff {writers readers : List RoleAttributes}
    (h : BothLeft s writers readers s') (hne : s.AllNonempty) (hs : Recorded s) :
    Clears s.channelWriters writers ∧ Clears s.channelReaders readers ↔ Recorded s' := by
  rw [ChannelManager.recorded_iff, h.1.agree_iff hne.1 hs.writers, h.2.agree_iff hne.2 hs.readers]

theorem BothLeft.allNonempty {writers readers : List RoleAttributes}
    (h : BothLeft s writers readers s') (hne : s.AllNonempty) : s'.AllNonempty :=
  ⟨h.1.nonempty hne.1, h.2.nonempty hne.2⟩

theorem act_allNonempty (hne : s.AllNonempty) (a : Action) :
    (specific.act self s a).AllNonempty := by
  cases a with
  | moduleLeave hostName processId => exact (left_module self s hostName processId).allNonempty hne
  | change msg =>
    simp only [Specific.act, specific, dispose]
    cases msg.operateType with
    | join =>
      by_cases hrole : msg.roleType = .writer
      · obtain ⟨hw, hr⟩ := joined_writer (s := s) hrole
        exact ⟨hw.nonempty hne.1, hr.nonempty hne.2⟩
      · obtain ⟨hw, hr⟩ := joined_reader (s := s) hrole
        exact ⟨hw.nonempty hne.1, hr.nonempty hne.2⟩
    | leave =>
      by_cases hrole : msg.roleType = .writer
      · exact (left_writer _ hrole).allNonempty hne
      · exact (left_reader _ hrole).allNonempty hne

theorem clean_iff_recorded (hne : s.AllNonempty) (hs : Recorded s) (a : Action) :
    Clean self s a ↔ Recorded (specific.act self s a) := by
  cases a with
  | moduleLeave hostName processId =>
    exact (left_module self s hostName processId).recorded_iff hne hs
  | change msg =>
    simp only [Clean, Specific.act, specific, dispose]
    cases msg.operateType with
    | join =>
      by_cases hrole : msg.roleType = .writer
      · obtain ⟨hw, hr⟩ := joined_writer (s := s) hrole
        have hreaders := (hr.agree_iff hne.2 hs.readers).1 (clears_nil _)
        rw [recorded_iff, ← hw.agree_iff hne.1 hs.writers, and_iff_left hreaders, HasEnds]
      · obtain ⟨hw, hr⟩ := joined_reader (s := s) hrole
        have hwriters := (hw.agree_iff hne.1 hs.writers).1 (clears_nil _)
        rw [recorded_iff, ← hr.agree_iff hne.2 hs.readers, and_iff_right hwriters, HasEnds]
    | leave =>
      by_cases hrole : msg.roleType = .writer
      · have hleft := (left_writer (s := s) _ hrole).recorded_iff hne hs
        rw [and_iff_left (clears_nil _)] at hleft
        rwa [if_pos hrole]
      · have hleft := (left_reader (s := s) _ hrole).recorded_iff hne hs
        rw [and_iff_right (clears_nil _)] at hleft
        rwa [if_neg hrole]

theorem step_recorded_iff (m : Manager ChannelManager) (hne : m.own.AllNonempty)
    (hs : Recorded m.own) (ev : Event) :
    (∀ a ∈ m.handled specific ev, Clean m.self m.own a) ↔ Recorded (m.step specific ev).own := by
  rw [Manager.step_own]
  cases m.handled specific ev with
  | none => simpa using hs
  | some a => simpa using clean_iff_recorded m.self hne hs a

theorem step_allNonempty (m : Manager ChannelManager) (hne : m.own.AllNonempty) (ev : Event) :
    (m.step specific ev).own.AllNonempty := by
  rw [Manager.step_own]
  cases m.handled specific ev with
  | none => exact hne
  | some a => exact act_allNonempty m.self hne a

/-- **The graph records the registered roles.** Through a sequence of requests and messages the node
graph has the node and the channel of each registered role, and no others, just if each role that
joins has both, and roles that leave clear theirs. -/
theorem always_recorded_iff (self : Process) (evs : List Event) :
    Always (Manager.step specific) (fun m => Recorded m.own) (.fresh self init) evs ↔
      Along (Manager.step specific)
        (fun m ev => ∀ a ∈ m.handled specific ev, Clean m.self m.own a) (.fresh self init) evs := by
  have hempty : init.AllNonempty := by
    constructor
    · exact fun node _ h => absurd h (AList.notMem_empty node)
    · exact fun node _ h => absurd h (AList.notMem_empty node)
  have hinit : Recorded init := by
    constructor
    · exact fun node _ => ⟨fun h => absurd h (AList.notMem_empty node), by simp [Registered, init]⟩
    · exact fun node _ => ⟨fun h => absurd h (AList.notMem_empty node), by simp [Registered, init]⟩
  have hboth : Always (Manager.step specific) (fun m => m.own.AllNonempty ∧ Recorded m.own)
      (.fresh self init) evs ↔ _ :=
    always_iff_along ⟨hempty, hinit⟩ fun m ev h =>
      (step_recorded_iff m h.1 h.2 ev).trans
        ⟨fun hr => ⟨step_allNonempty m h.1 ev, hr⟩, fun hr => hr.2⟩
  rw [← hboth]
  refine ⟨fun h => ?_, fun h => h.imp fun _ hm => hm.2⟩
  -- the records have a node and a channel in any case
  rw [always_iff] at h ⊢
  intro pre suf hevs
  refine ⟨?_, h pre suf hevs⟩
  exact List.foldlRecOn (motive := fun m : Manager ChannelManager => m.own.AllNonempty) pre _
    hempty fun m hm ev _ => step_allNonempty m hm ev

def twoWriters : List Event :=
  let attr (id : UInt64) : RoleAttributes :=
    { hostName := some "h", processId := some 1, nodeName := some "n", nodeId := some 1,
      channelName := some "c", channelId := some 2, id := some id }
  [.join (attr 10) .writer 1, .join (attr 11) .writer 2, .leave (attr 10) .writer 3]

theorem not_recorded_twoWriters :
    ¬ Always (Manager.step specific) (fun m => Recorded m.own) (.fresh ⟨"h", 1⟩ init)
      twoWriters := by
  intro h
  have hrec := (h.last.writers "n" "c").2 ⟨_, mem_singleton.2 rfl, rfl⟩
  revert hrec
  decide

end ChannelManager

end Discovery
