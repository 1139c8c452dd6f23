import CyberRT.Discovery.ChannelManager

/-!
# The four warehouses hold the same roles

`Remove(key, role)` takes out the roles under the key that match the attributes. Under the channel
these are all that match, since the attributes name the channel; under the node they are if each
role that matches is of the node (`match_keys`).
-/

namespace Discovery

open ChannelManager Function List Option RoleAttributes MultiValueWarehouse Role Manager

namespace Role

theorem agrees_some {α : Type} [DecidableEq α] {x y : α} : agrees (some x) y = true ↔ x = y := by
  simp [agrees]

end Role

structure Known (K : RoleAttributes → Prop) : Prop where
  check : ∀ attr, K attr → check attr = true
  node : ∀ attr attr', K attr → K attr' → attr.nodeId = none → attr'.id = attr.id →
    attr'.channelId = attr.channelId → attr'.getNodeId = 0

section
variable {K : RoleAttributes → Prop} {r : Role} {attr : RoleAttributes}

theorem Known.isSome (h : Known K) (ha : K attr) : attr.channelId.isSome ∧ attr.id.isSome := by
  have := h.check attr ha
  simp only [ChannelManager.check, Bool.and_eq_true] at this
  exact ⟨this.1.2, this.2⟩

theorem isMatch_writer {target : RoleAttributes} (hcls : r.cls = .writer) :
    r.isMatch target = true ↔
      agrees target.channelId r.attributes.getChannelId = true ∧
      agrees target.id r.attributes.getId = true ∧
      agrees target.nodeId r.attributes.getNodeId = true ∧
      agrees target.processId r.attributes.getProcessId = true ∧
      agrees target.hostName r.attributes.getHostName = true := by
  simp only [isMatch, hcls, matchBase, Bool.and_eq_true, and_assoc]

/-- **A role that matches is of the node and the channel**: `target` has the node, the channel and
the id of `attr`. -/
theorem match_keys (h : Known K) (hr : K r.attributes) (hcls : r.cls = .writer) (ha : K attr)
    {target : RoleAttributes} (hid : target.id = attr.id)
    (hchannel : target.channelId = attr.channelId) (hnode : target.nodeId = attr.nodeId)
    (hmatch : r.isMatch target = true) :
    r.attributes.getNodeId = target.getNodeId ∧ r.attributes.getChannelId = target.getChannelId := by
  obtain ⟨hc, hi, hn, -, -⟩ := (isMatch_writer hcls).1 hmatch
  obtain ⟨hsc, hsi⟩ := h.isSome ha
  obtain ⟨hsc', hsi'⟩ := h.isSome hr
  obtain ⟨c, hc1⟩ := isSome_iff_exists.1 hsc
  obtain ⟨i, hi1⟩ := isSome_iff_exists.1 hsi
  obtain ⟨c', hc2⟩ := isSome_iff_exists.1 hsc'
  obtain ⟨i', hi2⟩ := isSome_iff_exists.1 hsi'
  rw [hchannel, hc1, agrees_some, getChannelId, hc2, getD_some] at hc
  rw [hid, hi1, agrees_some, getId, hi2, getD_some] at hi
  refine ⟨?_, by simp [getChannelId, hc2, hchannel, hc1, hc]⟩
  cases hn1 : attr.nodeId with
  | some n =>
    rw [hnode, hn1, agrees_some] at hn
    rw [← hn, getNodeId, hnode, hn1, getD_some]
  | none =>
    rw [h.node attr r.attributes ha hr hn1 (by rw [hi2, hi1, hi]) (by rw [hc2, hc1, hc]),
      getNodeId, hnode, hn1, getD_none]

end

theorem add_indexed (key : RoleAttributes → UInt64) (l : List Role) (r : Role) :
    add (indexed key l) (key r.attributes) r = indexed key (l ++ [r]) := by
  simp [add, indexed]

variable {l : List Role}

theorem removeRole_indexed {key : RoleAttributes → UInt64} {k : UInt64}
    {role : Role} (hkey : ∀ r ∈ l, r.isMatch role.attributes = true → key r.attributes = k) :
    removeRole (indexed key l) k role =
      indexed key (l.filter fun r => !r.isMatch role.attributes) := by
  unfold removeRole indexed
  rw [List.filter_map]
  refine congrArg _ (filter_congr fun r hr => congrArg not ?_)
  rw [Bool.eq_iff_iff]
  simp only [Bool.and_eq_true, decide_eq_true_eq]
  exact and_iff_right_of_imp (hkey r hr)

theorem filter_indexed (key : RoleAttributes → UInt64) (l : List Role) (p : RoleAttributes → Bool) :
    (indexed key l).filter (fun item => p item.2.attributes) =
      indexed key (l.filter fun r => p r.attributes) := by
  rw [indexed, List.filter_map]
  rfl

theorem searchAttr_indexed (key : RoleAttributes → UInt64) (l : List Role)
    (target : RoleAttributes) :
    searchAttr (indexed key l) target = l.filter fun r => r.isMatch target := by
  simp [searchAttr, indexed, comp_def]

namespace ChannelManager

variable {s : ChannelManager} {rs : Roles} {K : Bool → RoleAttributes → Prop} {w : Bool}

def AllKnown (K : Bool → RoleAttributes → Prop) (rs : Roles) : Prop :=
  ∀ w, ∀ r ∈ rs.ofKind w, r.cls = .writer ∧ K w r.attributes

theorem ofKind_change (rs : Roles) (w w' : Bool) (f : List Role → List Role) :
    (rs.change w f).ofKind w' = if w' = w then f (rs.ofKind w) else rs.ofKind w' := by
  cases w <;> cases w' <;> rfl

theorem AllKnown.change {f : List Role → List Role} (h : AllKnown K rs)
    (hf : ∀ r ∈ f (rs.ofKind w), r.cls = .writer ∧ K w r.attributes) :
    AllKnown K (rs.change w f) := by
  intro w' r hr
  rw [ofKind_change] at hr
  split at hr
  · grind
  · exact h w' r hr

theorem AllKnown.filter (h : AllKnown K rs) (p : Role → Bool) :
    AllKnown K (rs.change w (·.filter p)) :=
  h.change fun r hr => h w r (mem_of_mem_filter hr)

theorem Holds.disposeJoin (h : s.Holds rs) (msg : ChangeMsg) :
    (s.disposeJoin msg).Holds
      (rs.change (msg.roleType = .writer) (· ++ [⟨.writer, msg.roleAttr, msg.timestamp⟩])) := by
  unfold ChannelManager.disposeJoin
  by_cases hw : msg.roleType = .writer
  · simp only [hw, if_true, Roles.change, decide_true]
    refine ⟨?_, ?_, h.nodeReaders, h.channelReaders⟩
    · rw [h.nodeWriters]
      exact add_indexed getNodeId rs.writers ⟨.writer, msg.roleAttr, _⟩
    · rw [h.channelWriters]
      exact add_indexed getChannelId rs.writers ⟨.writer, msg.roleAttr, _⟩
  · simp only [hw, if_false, Roles.change, decide_false, Bool.false_eq_true]
    refine ⟨h.nodeWriters, h.channelWriters, ?_, ?_⟩
    · rw [h.nodeReaders]
      exact add_indexed getNodeId rs.readers ⟨.writer, msg.roleAttr, _⟩
    · rw [h.channelReaders]
      exact add_indexed getChannelId rs.readers ⟨.writer, msg.roleAttr, _⟩

theorem Holds.disposeLeave (h : s.Holds rs) (msg : ChangeMsg)
    (hkeys : ∀ r ∈ rs.ofKind (msg.roleType = .writer), r.isMatch msg.roleAttr = true →
      r.attributes.getNodeId = msg.roleAttr.getNodeId ∧
        r.attributes.getChannelId = msg.roleAttr.getChannelId) :
    (s.disposeLeave msg).Holds
      (rs.change (msg.roleType = .writer) (·.filter fun r => !r.isMatch msg.roleAttr)) := by
  have hnode := fun r hr hm => (hkeys r hr hm).1
  have hchannel := fun r hr hm => (hkeys r hr hm).2
  unfold ChannelManager.disposeLeave
  by_cases hw : msg.roleType = .writer
  · simp only [hw, decide_true, Roles.ofKind, if_true] at hnode hchannel
    simp only [hw, if_true, Roles.change, decide_true]
    refine ⟨?_, ?_, h.nodeReaders, h.channelReaders⟩
    · rw [h.nodeWriters, removeRole_indexed hnode]
    · rw [h.channelWriters, removeRole_indexed hchannel]
  · simp only [hw, decide_false, Roles.ofKind, Bool.false_eq_true, if_false] at hnode hchannel
    simp only [hw, if_false, Roles.change, decide_false, Bool.false_eq_true]
    refine ⟨h.nodeWriters, h.channelWriters, ?_, ?_⟩
    · rw [h.nodeReaders, removeRole_indexed hnode]
    · rw [h.channelReaders, removeRole_indexed hchannel]

section
variable {self : Process}

def leaveAttr (self : Process) (attr : RoleAttributes) : RoleAttributes :=
  { attr with
    hostName := some (attr.hostName.getD self.hostName)
    processId := some (attr.processId.getD self.processId) }

theorem leaveOf_roleAttr (w : RoleType) (r : Role) :
    (leaveOf self w r).roleAttr = leaveAttr self r.attributes := rfl

/-- The leave message of a role of `l` takes out `r`. -/
def takenBy (self : Process) (l : List Role) (r : Role) : Bool :=
  l.any fun x => r.isMatch (leaveAttr self x.attributes)

theorem Holds.leaveAll (self : Process) (hK : ∀ w, Known (K w)) (w : RoleType) (l : List Role)
    (h : s.Holds rs) (hrs : AllKnown K rs) (hl : ∀ r ∈ l, K (w = .writer) r.attributes) :
    (l.foldl (fun s r => s.disposeLeave (leaveOf self w r)) s).Holds
        (rs.change (w = .writer) (·.filter fun r => !takenBy self l r)) ∧
      AllKnown K (rs.change (w = .writer) (·.filter fun r => !takenBy self l r)) := by
  refine ⟨?_, hrs.filter _⟩
  induction l generalizing s rs with
  | nil =>
    have hnone : rs.change (w = .writer) (·.filter fun r => !takenBy self [] r) = rs := by
      unfold Roles.change
      split <;> simp [takenBy]
    rw [hnone]
    exact h
  | cons x l ih =>
    have hstep := h.disposeLeave (leaveOf self w x) fun r hr hm =>
      match_keys (hK _) (hrs _ r hr).2 (hrs _ r hr).1 (hl x (mem_cons_self ..)) rfl rfl rfl hm
    have hrest := ih hstep (hrs.filter _) fun r hr => hl r (mem_cons_of_mem _ hr)
    have hchange : (rs.change (w = .writer)
        (·.filter fun r => !r.isMatch (leaveOf self w x).roleAttr)).change
        (w = .writer) (·.filter fun r => !takenBy self l r) =
          rs.change (w = .writer) (·.filter fun r => !takenBy self (x :: l) r) := by
      unfold Roles.change
      split <;> simp only [List.filter_filter, takenBy, any_cons, leaveOf_roleAttr, Bool.not_or,
        Bool.and_comm]
    rw [foldl_cons, ← hchange]
    exact hrest

theorem Holds.onTopoModuleLeave (self : Process) (hK : ∀ w, Known (K w)) (h : s.Holds rs)
    (hrs : AllKnown K rs) (hostName : String) (processId : Int32) :
    let found : List Role → List Role := (·.filter fun r =>
      r.isMatch { hostName := some hostName, processId := some processId })
    let rs' := (rs.change true (·.filter fun r => !takenBy self (found rs.writers) r)).change false
      (·.filter fun r => !takenBy self (found rs.readers) r)
    (s.onTopoModuleLeave self hostName processId).Holds rs' ∧ AllKnown K rs' := by
  have hfound : ∀ w, ∀ r ∈ (rs.ofKind w).filter (fun r => r.isMatch
      { hostName := some hostName, processId := some processId }), K w r.attributes :=
    fun w r hr => (hrs w r (mem_of_mem_filter hr)).2
  unfold ChannelManager.onTopoModuleLeave
  dsimp only
  rw [h.channelWriters, h.channelReaders, searchAttr_indexed, searchAttr_indexed]
  obtain ⟨h1, hrs1⟩ := h.leaveAll self hK .writer _ hrs (hfound true)
  exact h1.leaveAll self hK .reader _ hrs1 (hfound false)

/-- **The roles of a process**: of the roles found by a host name and a process id that are no
defaults, the leave messages take out just these. -/
theorem takenBy_found (self : Process) {r : Role} (hr : r ∈ l) (hcls : ∀ r ∈ l, r.cls = .writer)
    {hostName : String} {processId : Int32} (hhost : hostName ≠ "") (hprocess : processId ≠ 0) :
    takenBy self (l.filter fun r =>
        r.isMatch { hostName := some hostName, processId := some processId }) r = true ↔
      r.attributes.OfProcess hostName processId := by
  -- an attribute that is not the default is set
  have hset : ∀ attr : RoleAttributes, attr.OfProcess hostName processId ↔
      processId = attr.getProcessId ∧ hostName = attr.getHostName := by
    intro attr
    unfold OfProcess getProcessId getHostName
    cases attr.hostName <;> cases attr.processId <;> simp [hhost, hprocess, eq_comm, and_comm]
  have hmatch : ∀ x ∈ l, (x.isMatch { hostName := some hostName, processId := some processId } =
      true ↔ x.attributes.OfProcess hostName processId) := by
    intro x hx
    rw [isMatch_writer (hcls x hx), hset]
    simp [agrees]
  simp only [takenBy, List.any_eq_true, mem_filter]
  constructor
  · rintro ⟨x, ⟨hx, hfound⟩, htaken⟩
    obtain ⟨-, -, -, hp, hh⟩ := (isMatch_writer (hcls r hr)).1 htaken
    obtain ⟨hxh, hxp⟩ := (hmatch x hx).1 hfound
    simp only [leaveAttr, hxh, hxp, getD_some, agrees_some] at hp hh
    exact (hset _).2 ⟨hp, hh⟩
  · intro hof
    refine ⟨r, ⟨hr, (hmatch r hr).2 hof⟩, (isMatch_writer (hcls r hr)).2 ?_⟩
    simp [leaveAttr, hof.1, hof.2, agrees_some, getProcessId, getHostName, getChannelId, getId,
      getNodeId, agrees_getD]

def ActionKnown (K : Bool → RoleAttributes → Prop) : Action → Prop
  | .change msg => K (msg.roleType = .writer) msg.roleAttr
  | .moduleLeave _ _ => True

theorem Holds.act (self : Process) (hK : ∀ w, Known (K w)) (h : s.Holds rs)
    (hrs : AllKnown K rs) {a : Action} (ha : ActionKnown K a) :
    ∃ rs', (specific.act self s a).Holds rs' ∧ AllKnown K rs' := by
  cases a with
  | moduleLeave hostName processId => exact ⟨_, h.onTopoModuleLeave self hK hrs hostName processId⟩
  | change msg =>
    simp only [Specific.act, specific, dispose]
    cases msg.operateType with
    | join =>
      refine ⟨_, h.disposeJoin msg, hrs.change fun r hr => ?_⟩
      rcases mem_append.1 hr with hr | hr
      · exact hrs _ r hr
      · rw [mem_singleton.1 hr]
        exact ⟨rfl, ha⟩
    | leave =>
      exact ⟨_, h.disposeLeave msg fun r hr hm =>
        match_keys (hK _) (hrs _ r hr).2 (hrs _ r hr).1 ha rfl rfl rfl hm, hrs.filter _⟩

theorem holds_run (self : Process) (hK : ∀ w, Known (K w)) (acts : List Action)
    (hacts : ∀ a ∈ acts, ActionKnown K a) :
    ∃ rs, (acts.foldl (specific.act self) init).Holds rs ∧ AllKnown K rs := by
  have hinit : ∃ rs, init.Holds rs ∧ AllKnown K rs :=
    ⟨.empty, ⟨rfl, rfl, rfl, rfl⟩, fun w r hr => by cases w <;> cases hr⟩
  exact foldlRecOn (motive := fun s => ∃ rs, Holds s rs ∧ AllKnown K rs) acts _ hinit
    fun _ ⟨_, h, hrs⟩ a ha => h.act self hK hrs (hacts a ha)

theorem Holds.inStep (h : s.Holds rs) : s.InStep where
  writers := by
    rw [h.nodeWriters, h.channelWriters]
    simp [indexed, comp_def]
  readers := by
    rw [h.nodeReaders, h.channelReaders]
    simp [indexed, comp_def]

theorem Holds.removesProcess (hK : ∀ w, Known (K w)) (h : s.Holds rs) (hrs : AllKnown K rs)
    {hostName : String} {processId : Int32} (hhost : hostName ≠ "") (hprocess : processId ≠ 0) :
    s.RemovesProcess (s.onTopoModuleLeave self hostName processId) hostName processId := by
  obtain ⟨h', -⟩ := h.onTopoModuleLeave self hK hrs hostName processId
  have hout : ∀ w key, indexed key ((rs.ofKind w).filter fun r => !takenBy self
      ((rs.ofKind w).filter fun r => r.isMatch
        { hostName := some hostName, processId := some processId }) r) =
      (indexed key (rs.ofKind w)).filter fun item =>
        ¬ item.2.attributes.OfProcess hostName processId := by
    intro w key
    rw [filter_indexed key _ fun attr => ¬ attr.OfProcess hostName processId]
    refine congrArg _ (filter_congr fun r hr => ?_)
    simp [← takenBy_found self hr (fun r hr => (hrs w r hr).1) hhost hprocess]
  constructor
  · rw [h.nodeWriters, h'.nodeWriters]
    exact hout true _
  · rw [h.channelWriters, h'.channelWriters]
    exact hout true _
  · rw [h.nodeReaders, h'.nodeReaders]
    exact hout false _
  · rw [h.channelReaders, h'.channelReaders]
    exact hout false _

end

end ChannelManager

open Manager

variable {msg : ChangeMsg} {m : Manager ChannelManager}

theorem check_handled {ev : Event}
    (h : m.handled specific ev = some (.change msg)) : check msg.roleAttr = true := by
  have hrequest : ∀ {attr role opt now}, m.requested specific attr role opt now =
      some (.change msg) → check msg.roleAttr = true := by
    intro attr role opt now hr
    unfold requested at hr
    split at hr
    · rename_i hc
      cases hr
      simp only [Bool.and_eq_true] at hc
      exact hc.2
    · cases hr
  cases ev with
  | startDiscovery => cases h
  | shutdown => cases h
  | join attr role now => exact hrequest h
  | leave attr role now => exact hrequest h
  | remoteChange msg' =>
    simp only [handled] at h
    split at h
    · rename_i hc
      cases h
      simp only [Bool.and_eq_true] at hc
      exact hc.2
    · cases h
  | topoModuleLeave hostName processId =>
    simp only [handled] at h
    split at h <;> cases h

theorem check_handledAll {evs : List Event}
    (h : .change msg ∈ m.handledAll specific evs) : check msg.roleAttr = true := by
  induction evs generalizing m with
  | nil => cases h
  | cons ev evs ih =>
    rcases mem_append.1 h with h | h
    · exact check_handled (mem_toList.1 h)
    · exact ih h

theorem mem_messages {acts : List Action} : msg ∈ messages acts ↔ .change msg ∈ acts := by
  simp only [messages, mem_filterMap]
  grind

/-- **After every sequence of events the warehouses by node and by channel hold the same roles, and
`OnTopoModuleLeave` takes out of all four exactly the roles of the process**, if the messages name
their nodes. -/
theorem warehouses_in_step (self : Process) (evs : List Event)
    (hnode : NamesNode ((fresh self init).handledAll specific evs)) :
    let m := evs.foldl (step specific) (.fresh self init)
    m.own.InStep ∧ ∀ hostName processId, hostName ≠ "" → processId ≠ 0 →
      m.isDiscoveryStarted = true →
      m.own.RemovesProcess (m.step specific (.topoModuleLeave hostName processId)).own
        hostName processId := by
  intro m
  let acts := (fresh self init).handledAll specific evs
  let K : Bool → RoleAttributes → Prop := fun w attr =>
    ∃ msg ∈ messages acts, decide (msg.roleType = .writer) = w ∧ msg.roleAttr = attr
  have hK : ∀ w, Known (K w) := by
    intro w
    constructor
    · intro attr ⟨msg, hmsg, _, heq⟩
      rw [← heq]
      exact check_handledAll (mem_messages.1 hmsg)
    · intro attr attr' ⟨msg, hmsg, hw, heq⟩ ⟨msg', hmsg', hw', heq'⟩ hnone
      subst heq heq'
      exact hnode msg hmsg msg' hmsg' hnone (decide_eq_decide.1 (hw.trans hw'.symm))
  have hacts : ∀ a ∈ acts, ActionKnown K a := by
    intro a ha
    cases a with
    | change msg => exact ⟨msg, mem_messages.2 ha, rfl, rfl⟩
    | moduleLeave => trivial
  have hown : m.own = acts.foldl (specific.act self) init := run_own evs
  obtain ⟨rs, hholds, hknown⟩ := holds_run self hK acts hacts
  rw [← hown] at hholds
  refine ⟨hholds.inStep, fun hostName processId hhost hprocess hstarted => ?_⟩
  have hstep : (m.step specific (.topoModuleLeave hostName processId)).own =
      m.own.onTopoModuleLeave m.self hostName processId := by
    simp only [step, Manager.onTopoModuleLeave, hstarted, Bool.not_true,
      Bool.false_eq_true, if_false]
    rfl
  rw [hstep]
  exact hholds.removesProcess hK hknown hhost hprocess

namespace TwoProcesses

def own : Process := ⟨"host", 7⟩

def writer : RoleAttributes :=
  { nodeName := some "camera", nodeId := some 1, channelName := some "/image", channelId := some 2,
    id := some 3 }

/-- The readers of `/image` in a process have one id. -/
def reader (nodeId : Option UInt64) : RoleAttributes :=
  { hostName := some "host", processId := some 8, nodeId, channelName := some "/image",
    channelId := some 2, id := some 5 }

def events : List Event :=
  [.startDiscovery, .join writer .writer 1, .leave writer .writer 2, .join writer .writer 3,
    .remoteChange ⟨4, .join, .reader, reader (some 4)⟩,
    .remoteChange ⟨5, .join, .reader, reader (some 6)⟩,
    .remoteChange ⟨6, .leave, .reader, reader (some 4)⟩]

/-- One of the two readers names no node. -/
def unnamed : List Event :=
  [.remoteChange ⟨1, .join, .reader, reader none⟩,
    .remoteChange ⟨2, .join, .reader, reader (some 4)⟩,
    .remoteChange ⟨3, .leave, .reader, reader none⟩]

end TwoProcesses

theorem warehouses_in_step_twoProcesses :
    let m := TwoProcesses.events.foldl (step specific) (.fresh TwoProcesses.own init)
    m.own.InStep ∧
      m.own.RemovesProcess (m.step specific (.topoModuleLeave "host" 8)).own "host" 8 :=
  have h := warehouses_in_step TwoProcesses.own TwoProcesses.events (by decide)
  ⟨h.1, h.2 "host" 8 (by decide) (by decide) (by decide)⟩

/-- When the reader without a node leaves, the other one leaves the warehouse by channel too, and
stays in the one by node. -/
theorem not_inStep_unnamed :
    SameAttributes ((fresh TwoProcesses.own init).handledAll specific
      TwoProcesses.unnamed) ∧
    ¬ (TwoProcesses.unnamed.foldl (step specific)
      (.fresh TwoProcesses.own init)).own.InStep := by
  refine ⟨by decide, fun h => ?_⟩
  have hlen := congrArg length h.readers
  revert hlen
  decide

end Discovery
