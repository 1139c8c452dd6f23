import CyberRT.Node.Reader

/-!
# A reader and the writers of its channel

For each writer, the receiver is right about it, or there is word of it still to come: a change that
was not told yet, or its place among the writers that `JoinTheTopology` is to enable (`Inv.sync`).
-/

namespace Node

open Discovery Function Lib List Transport.HybridReceiver ReaderSystem RoleAttributes
open MultiValueWarehouse

variable {ι : Type*} {net : ReaderNet ι} {role : Role}

/-! ## Writers of the channel -/

def IsWriter (net : ReaderNet ι) (attr : RoleAttributes) : Prop :=
  ∃ i, OfChannel net i ∧ (net.msgs i).roleAttr = attr

section
variable {attr attr' : RoleAttributes}

section
variable (h : IsWriter net attr)
include h

theorem IsWriter.eq_of_id (h' : IsWriter net attr')
    (hid : attr.getId = attr'.getId) : attr = attr' := by
  obtain ⟨i, hi, rfl⟩ := h
  obtain ⟨j, hj, rfl⟩ := h'
  exact net.writers i j hi.1 hj.1 hi.2 hj.2 hid

theorem IsWriter.channelName : attr.getChannelName = net.attr.getChannelName := by
  obtain ⟨i, hi, rfl⟩ := h
  exact hi.2

theorem IsWriter.id_eq : attr.id = some attr.getId := by
  obtain ⟨i, -, rfl⟩ := h
  have hcheck := net.checked i
  simp only [ChannelManager.check, Bool.and_eq_true, Option.isSome_iff_exists] at hcheck
  obtain ⟨id, hid⟩ := hcheck.2
  simp [getId, hid]

end

end

/-! ## The channel manager -/

theorem isMatch_self (h : role.cls = .writer) : role.isMatch role.attributes = true := by
  simp [Role.isMatch, h, Role.matchBase, getChannelId, getId, getNodeId, getProcessId, getHostName,
    Role.agrees_getD]

theorem getId_of_isMatch {target : RoleAttributes} {id : UInt64}
    (hcls : role.cls = .writer) (hid : target.id = some id) (h : role.isMatch target = true) :
    role.attributes.getId = id := by
  simp only [Role.isMatch, hcls, Bool.and_eq_true, hid, Role.agrees, Option.all_some,
    decide_eq_true_eq] at h
  exact h.1.2.symm

def RolesOk (net : ReaderNet ι) (manager : ChannelManager) : Prop :=
  ∀ item ∈ manager.channelWriters, item.2.cls = .writer ∧
    (item.1 = net.attr.getChannelId → IsWriter net item.2.attributes)

theorem mem_getWriters {manager : ChannelManager} {attr : RoleAttributes} :
    attr ∈ net.getWritersOfChannel manager ↔
      ∃ item ∈ manager.channelWriters, item.1 = net.attr.getChannelId ∧
        item.2.attributes = attr := by
  simp [ReaderNet.getWritersOfChannel, and_assoc]

theorem RolesOk.isWriter {manager : ChannelManager} {attr : RoleAttributes}
    (h : RolesOk net manager) (ha : attr ∈ net.getWritersOfChannel manager) :
    IsWriter net attr := by
  obtain ⟨item, hmem, hkey, rfl⟩ := mem_getWriters.1 ha
  exact (h item hmem).2 hkey

theorem channelWriters_dispose (self : Process) (manager : ChannelManager) (msg : ChangeMsg) :
    (ChannelManager.dispose self manager msg).channelWriters =
      if msg.roleType = .writer then
        match msg.operateType with
        | .join => manager.channelWriters.add msg.roleAttr.getChannelId
            ⟨.writer, msg.roleAttr, msg.timestamp⟩
        | .leave => manager.channelWriters.removeRole msg.roleAttr.getChannelId
            ⟨.writer, msg.roleAttr, 0⟩
      else manager.channelWriters := by
  unfold ChannelManager.dispose ChannelManager.disposeJoin ChannelManager.disposeLeave
  cases msg.operateType <;> dsimp only <;> split <;> rfl

section
variable {manager : ChannelManager} {i : ι}

theorem RolesOk.dispose (h : RolesOk net manager) (i : ι) :
    RolesOk net (ChannelManager.dispose net.self manager (net.msgs i)) := by
  intro item hmem
  rw [channelWriters_dispose] at hmem
  split at hmem
  · rename_i hwriter
    split at hmem
    · rcases mem_append.1 hmem with hold | hnew
      · exact h item hold
      · obtain rfl := mem_singleton.1 hnew
        exact ⟨rfl, fun hkey => ⟨i, ⟨hwriter, (net.channels i).1 hkey⟩, rfl⟩⟩
    · exact h item (mem_of_mem_filter hmem)
  · exact h item hmem

theorem mem_getWriters_other (hi : ¬ OfChannel net i) {attr : RoleAttributes} :
    attr ∈ net.getWritersOfChannel (ChannelManager.dispose net.self manager (net.msgs i)) ↔
      attr ∈ net.getWritersOfChannel manager := by
  rw [mem_getWriters, mem_getWriters, channelWriters_dispose]
  split
  · rename_i hwriter
    have hkey : (net.msgs i).roleAttr.getChannelId ≠ net.attr.getChannelId := fun hkey =>
      hi ⟨hwriter, (net.channels i).1 hkey⟩
    split
    · simp only [add, mem_append, mem_singleton]
      grind
    · simp only [removeRole, mem_filter]
      grind
  · exact Iff.rfl

theorem mem_getWriters_join (hi : OfChannel net i)
    (hop : (net.msgs i).operateType = .join) {attr : RoleAttributes} :
    attr ∈ net.getWritersOfChannel (ChannelManager.dispose net.self manager (net.msgs i)) ↔
      attr ∈ net.getWritersOfChannel manager ∨ attr = (net.msgs i).roleAttr := by
  rw [mem_getWriters, mem_getWriters, channelWriters_dispose, if_pos hi.1, hop]
  simp only [add, mem_append, mem_singleton]
  constructor
  · grind
  · rintro (⟨item, hmem, hitem⟩ | rfl)
    · exact ⟨item, .inl hmem, hitem⟩
    · exact ⟨_, .inr rfl, (net.channels i).2 hi.2, rfl⟩

theorem mem_getWriters_leave (h : RolesOk net manager) (hi : OfChannel net i)
    (hop : (net.msgs i).operateType = .leave) {attr : RoleAttributes} :
    attr ∈ net.getWritersOfChannel (ChannelManager.dispose net.self manager (net.msgs i)) ↔
      attr ∈ net.getWritersOfChannel manager ∧ attr ≠ (net.msgs i).roleAttr := by
  rw [mem_getWriters, mem_getWriters, channelWriters_dispose, if_pos hi.1, hop]
  simp only [removeRole, mem_filter]
  constructor
  · rintro ⟨item, ⟨hmem, hkeep⟩, hkey, rfl⟩
    refine ⟨⟨item, hmem, hkey, rfl⟩, fun heq => ?_⟩
    have hmatch := isMatch_self (h item hmem).1
    rw [heq] at hmatch
    simp [hkey, (net.channels i).2 hi.2, hmatch] at hkeep
  · rintro ⟨⟨item, hmem, hkey, rfl⟩, hne⟩
    refine ⟨item, ⟨hmem, ?_⟩, hkey, rfl⟩
    have hself : IsWriter net (net.msgs i).roleAttr := ⟨i, hi, rfl⟩
    have hnot : item.2.isMatch (net.msgs i).roleAttr = false := by
      by_contra hmatch
      have hid := getId_of_isMatch (h item hmem).1 hself.id_eq (Bool.eq_true_of_not_eq_false hmatch)
      exact hne (((h item hmem).2 hkey).eq_of_id hself hid)
    simp [hnot]

end

/-! ## The receiver -/

section
variable {r : Transport.HybridReceiver} {attr : RoleAttributes}

structure ReceiverOk (net : ReaderNet ι) (r : Transport.HybridReceiver) : Prop where
  conf : SameConf (.init (net.endpoint net.attr) net.mappingTable) r
  modes : ∀ mode id, id ∈ r.transmitters mode →
    ∃ attr, IsWriter net attr ∧ attr.getId = id ∧ mode = r.modeOf (net.endpoint attr)

section
variable (h : ReceiverOk net r)
include h

section
variable (ha : IsWriter net attr)
include ha

theorem ReceiverOk.channelName : (net.endpoint attr).channelName = r.attr.channelName := by
  rw [h.conf.1]
  exact ha.channelName

theorem ReceiverOk.enable : ReceiverOk net (r.enable (net.endpoint attr)) := by
  have hconf := r.sameConf_enable (net.endpoint attr)
  refine ⟨⟨hconf.1.trans h.conf.1, hconf.2.trans h.conf.2⟩, fun mode id hmem => ?_⟩
  rcases (mem_enable (h.channelName ha) mode id).1 hmem with hold | hnew
  · obtain ⟨attr', ha', hid, hmode⟩ := h.modes mode id hold
    exact ⟨attr', ha', hid, hmode.trans (hconf.modeOf_eq _).symm⟩
  · exact ⟨attr, ha, hnew.2.symm, hnew.1.trans (hconf.modeOf_eq _).symm⟩

theorem ReceiverOk.disable : ReceiverOk net (r.disable (net.endpoint attr)) := by
  have hconf := r.sameConf_disable (net.endpoint attr)
  refine ⟨⟨hconf.1.trans h.conf.1, hconf.2.trans h.conf.2⟩, fun mode id hmem => ?_⟩
  have hold := ((mem_disable (h.channelName ha) mode id).1 hmem).1
  obtain ⟨attr', ha', hid, hmode⟩ := h.modes mode id hold
  exact ⟨attr', ha', hid, hmode.trans (hconf.modeOf_eq _).symm⟩

theorem ReceiverOk.enabled_enable (id : UInt64) :
    (r.enable (net.endpoint attr)).Enabled id ↔ r.Enabled id ∨ id = attr.getId := by
  constructor
  · rintro ⟨mode, hmem⟩
    rcases (mem_enable (h.channelName ha) mode id).1 hmem with hold | hnew
    · exact .inl ⟨mode, hold⟩
    · exact .inr hnew.2
  · intro hor
    rcases hor with ⟨mode, hold⟩ | hid
    · exact ⟨mode, (mem_enable (h.channelName ha) mode id).2 (.inl hold)⟩
    · exact ⟨_, (mem_enable (h.channelName ha) _ id).2 (.inr ⟨rfl, hid⟩)⟩

theorem ReceiverOk.enabled_disable (id : UInt64) :
    (r.disable (net.endpoint attr)).Enabled id ↔ r.Enabled id ∧ id ≠ attr.getId := by
  constructor
  · rintro ⟨mode, hmem⟩
    obtain ⟨hold, hnot⟩ := (mem_disable (h.channelName ha) mode id).1 hmem
    refine ⟨⟨mode, hold⟩, fun hid => hnot ⟨?_, hid⟩⟩
    obtain ⟨attr', ha', hid', hmode⟩ := h.modes mode id hold
    rw [hmode, ha'.eq_of_id ha (hid'.trans hid)]
  · rintro ⟨⟨mode, hold⟩, hid⟩
    exact ⟨mode, (mem_disable (h.channelName ha) mode id).2
      ⟨hold, fun hboth => hid hboth.2⟩⟩

end

end

end

/-! ## The invariant -/

namespace ReaderSystem

variable {s : ReaderSystem ι} {i : ι} {id now : UInt64}

def BeforeSnapshot (s : ReaderSystem ι) : Prop := s.reader = .connect ∨ s.reader = .getWriters

def Settling (net : ReaderNet ι) (s : ReaderSystem ι) (id : UInt64) : Prop :=
  (s.receiver.Enabled id ↔ s.Registered net id) ∨ (∃ j, s.Coming net j id) ∨ s.InRest id ∨
    s.BeforeSnapshot ∧ ¬ s.receiver.Enabled id

structure Inv (net : ReaderNet ι) (s : ReaderSystem ι) : Prop where
  roles : RolesOk net s.manager
  receiver : ReceiverOk net s.receiver
  rest : ∀ rest, s.reader = .enable rest → ∀ attr ∈ rest, IsWriter net attr
  unconnected : s.connected = false →
    s.reader = .connect ∧ (∀ i, s.changes i ≠ .calling) ∧ ∀ id, ¬ s.receiver.Enabled id
  sync : ∀ id, s.Settling net id

theorem Inv.init : Inv net (init net) where
  roles _ h := by cases h
  receiver := ⟨⟨rfl, rfl⟩, nofun⟩
  rest _ h := by cases h
  unconnected _ := ⟨rfl, fun _ => nofun, nofun⟩
  sync _ := .inr (.inr (.inr ⟨.inl rfl, nofun⟩))

theorem Inv.inSync (h : Inv net s) (hq : s.Quiescent) : s.InSync net := by
  intro id
  rcases h.sync id with hsync | ⟨j, -, -, hj⟩ | hrest | ⟨hbefore, -⟩
  · exact hsync
  · rcases hq.2 j with hpc | hpc <;> simp [hpc] at hj
  · simp [InRest, hq.1] at hrest
  · simp [BeforeSnapshot, hq.1] at hbefore

theorem registered_iff {manager : ChannelManager} :
    id ∈ (net.getWritersOfChannel manager).map getId ↔
      ∃ attr ∈ net.getWritersOfChannel manager, attr.getId = id := mem_map

/-! ## Steps of a change -/

theorem onChannelChange_of (hi : OfChannel net i) (r : Transport.HybridReceiver) :
    net.onChannelChange r (net.msgs i) =
      match (net.msgs i).operateType with
      | .join => r.enable (net.endpoint (net.msgs i).roleAttr)
      | .leave => r.disable (net.endpoint (net.msgs i).roleAttr) := by
  cases hop : (net.msgs i).operateType <;> simp [ReaderNet.onChannelChange, hi.1, hi.2, hop]

theorem onChannelChange_other (hi : ¬ OfChannel net i) (r : Transport.HybridReceiver) :
    net.onChannelChange r (net.msgs i) = r := by
  unfold ReaderNet.onChannelChange
  split
  · rfl
  · rename_i hwriter
    split
    · rfl
    · rename_i hname
      exact absurd ⟨not_not.1 hwriter, not_not.1 hname⟩ hi

theorem enabled_onChannelChange (h : ReceiverOk net s.receiver) (hi : OfChannel net i)
    (id : UInt64) :
    (net.onChannelChange s.receiver (net.msgs i)).Enabled id ↔
      if id = (net.msgs i).roleAttr.getId then (net.msgs i).operateType = .join
      else s.receiver.Enabled id := by
  have hwriter : IsWriter net (net.msgs i).roleAttr := ⟨i, hi, rfl⟩
  rw [onChannelChange_of hi]
  cases hop : (net.msgs i).operateType with
  | join =>
    rw [h.enabled_enable hwriter]
    split <;> simp_all
  | leave =>
    rw [h.enabled_disable hwriter]
    split <;> simp_all

section
variable [DecidableEq ι] {s' : ReaderSystem ι} {pc : ChangePc}

theorem Coming.update {j : ι} (h : s.Coming net j id)
    (hchanges : s'.changes = update s.changes i pc) (hj : j ≠ i) : s'.Coming net j id := by
  refine ⟨h.1, h.2.1, ?_⟩
  rw [hchanges, update_of_ne hj]
  exact h.2.2

theorem Settling.move (h : s.Settling net id)
    (hchanges : s'.changes = update s.changes i pc) (hreader : s'.reader = s.reader)
    (henabled : s'.receiver.Enabled id ↔ s.receiver.Enabled id)
    (hregistered : s'.Registered net id ↔ s.Registered net id) (hown : ¬ s.Coming net i id) :
    s'.Settling net id := by
  rcases h with hsync | ⟨j, hj⟩ | hrest | ⟨hbefore, hnot⟩
  · exact .inl (henabled.trans (hsync.trans hregistered.symm))
  · refine .inr (.inl ⟨j, hj.update hchanges ?_⟩)
    rintro rfl
    exact hown hj
  · refine .inr (.inr (.inl ?_))
    rw [InRest, hreader]
    exact hrest
  · refine .inr (.inr (.inr ⟨?_, henabled.not.2 hnot⟩))
    rw [BeforeSnapshot, hreader]
    exact hbefore

theorem Inv.dispose (h : Inv net s) (hpc : s.changes i = .waiting) :
    Inv net { s with
      manager := ChannelManager.dispose net.self s.manager (net.msgs i)
      changes := update s.changes i .disposed } := by
  refine { h with
    roles := h.roles.dispose i
    unconnected := fun hc => ⟨(h.unconnected hc).1, ?_, (h.unconnected hc).2.2⟩
    sync := fun id => ?_ }
  · exact (forall_update_iff s.changes fun _ pc => pc ≠ .calling).2
      ⟨nofun, fun j _ => (h.unconnected hc).2.1 j⟩
  · have hown : ¬ s.Coming net i id := fun hc => by simp [Coming, hpc] at hc
    by_cases hi : OfChannel net i
    · by_cases hid : (net.msgs i).roleAttr.getId = id
      · -- the word of this change is to come
        exact .inr (.inl ⟨i, hi, hid, .inl (update_self i _ _)⟩)
      · refine (h.sync id).move rfl rfl Iff.rfl ?_ hown
        rw [Registered, Registered, registered_iff, registered_iff]
        cases hop : (net.msgs i).operateType with
        | join =>
          simp only [mem_getWriters_join hi hop]
          grind
        | leave =>
          simp only [mem_getWriters_leave h.roles hi hop]
          grind
    · refine (h.sync id).move rfl rfl Iff.rfl ?_ hown
      simp only [Registered, registered_iff, mem_getWriters_other hi]

theorem Inv.copySlots (h : Inv net s) (i : ι) :
    Inv net { s with
      changes := update s.changes i (if s.connected then .calling else .done) } := by
  refine { h with
    unconnected := fun hc => ⟨(h.unconnected hc).1, ?_, (h.unconnected hc).2.2⟩
    sync := fun id => ?_ }
  · have hc' : s.connected = false := hc
    refine (forall_update_iff s.changes fun _ pc => pc ≠ .calling).2
      ⟨?_, fun j _ => (h.unconnected hc).2.1 j⟩
    simp [hc']
  · by_cases hown : s.Coming net i id
    · cases hc : s.connected with
      | true =>
        refine .inr (.inl ⟨i, hown.1, hown.2.1, .inr ?_⟩)
        simp
      | false =>
        -- the listener is not there: the writers are still to be read
        exact .inr (.inr (.inr ⟨.inl (h.unconnected hc).1, (h.unconnected hc).2.2 id⟩))
    · exact (h.sync id).move rfl rfl Iff.rfl Iff.rfl hown

theorem Inv.callSlot (h : Inv net s) (hpc : s.changes i = .calling)
    (hcur : s.WordCurrent net (.change i)) :
    Inv net { s with
      receiver := net.onChannelChange s.receiver (net.msgs i)
      changes := update s.changes i .done } := by
  have hconnected : s.connected ≠ false := fun hc => (h.unconnected hc).2.1 i hpc
  by_cases hi : OfChannel net i
  · have hwriter : IsWriter net (net.msgs i).roleAttr := ⟨i, hi, rfl⟩
    refine { h with
      receiver := ?_
      unconnected := fun hc => absurd hc hconnected
      sync := fun id => ?_ }
    · rw [onChannelChange_of hi]
      split
      · exact h.receiver.enable hwriter
      · exact h.receiver.disable hwriter
    · have henabled := enabled_onChannelChange h.receiver hi id
      by_cases hid : id = (net.msgs i).roleAttr.getId
      · rw [if_pos hid] at henabled
        rcases hcur hpc hi with hso | hrest | ⟨j, hj, hcoming⟩
        · refine .inl (henabled.trans ?_)
          rw [hid]
          exact hso
        · rw [hid]
          exact .inr (.inr (.inl hrest))
        · rw [hid]
          exact .inr (.inl ⟨j, hcoming.update rfl hj⟩)
      · rw [if_neg hid] at henabled
        exact (h.sync id).move rfl rfl henabled Iff.rfl fun hown => hid hown.2.1.symm
  · rw [onChannelChange_other hi]
    refine { h with unconnected := fun hc => absurd hc hconnected, sync := fun id => ?_ }
    exact (h.sync id).move rfl rfl Iff.rfl Iff.rfl fun hown => hi hown.1

end

/-! ## Steps of `JoinTheTopology` -/

theorem Settling.advance {s' : ReaderSystem ι} (h : s.Settling net id)
    (hchanges : s'.changes = s.changes) (henabled : s'.receiver.Enabled id ↔ s.receiver.Enabled id)
    (hregistered : s'.Registered net id ↔ s.Registered net id) (hrest : s.InRest id → s'.InRest id)
    (hbefore : s.BeforeSnapshot → s'.BeforeSnapshot) : s'.Settling net id := by
  rcases h with hsync | ⟨j, hj⟩ | hin | ⟨hbef, hnot⟩
  · exact .inl (henabled.trans (hsync.trans hregistered.symm))
  · refine .inr (.inl ⟨j, hj.1, hj.2.1, ?_⟩)
    rw [hchanges]
    exact hj.2.2
  · exact .inr (.inr (.inl (hrest hin)))
  · exact .inr (.inr (.inr ⟨hbefore hbef, henabled.not.2 hnot⟩))

section
variable (h : Inv net s)
include h

theorem Inv.connect (hpc : s.reader = .connect) :
    Inv net { s with connected := true, reader := .getWriters } := by
  refine { h with rest := nofun, unconnected := nofun, sync := fun id => ?_ }
  refine (h.sync id).advance rfl Iff.rfl Iff.rfl (fun hrest => ?_) fun _ => .inr rfl
  simp [InRest, hpc] at hrest

theorem Inv.getWriters (hpc : s.reader = .getWriters) :
    Inv net { s with reader := .enable (net.getWritersOfChannel s.manager) } := by
  refine { h with
    rest := fun rest hrest attr hmem => ?_
    unconnected := fun hc => absurd (h.unconnected hc).1 (by simp [hpc])
    sync := fun id => ?_ }
  · cases hrest
    exact h.roles.isWriter hmem
  · by_cases hreg : s.Registered net id
    · exact .inr (.inr (.inl hreg))
    · rcases h.sync id with hsync | ⟨j, hj⟩ | hrest | ⟨-, hnot⟩
      · exact .inl hsync
      · exact .inr (.inl ⟨j, hj⟩)
      · simp [InRest, hpc] at hrest
      · exact .inl ⟨fun he => absurd he hnot, fun hr => absurd hr hreg⟩

theorem Inv.enable {writer : RoleAttributes} {rest : List RoleAttributes}
    (hpc : s.reader = .enable (writer :: rest)) (hcur : s.WordCurrent net (.reader now)) :
    Inv net { s with
      receiver := s.receiver.enable (net.endpoint writer)
      reader := .enable rest } := by
  have hall := h.rest _ hpc
  have hwriter : IsWriter net writer := hall writer mem_cons_self
  refine { h with
    receiver := h.receiver.enable hwriter
    rest := fun rest' hrest' attr hmem => ?_
    unconnected := fun hc => absurd (h.unconnected hc).1 (by simp [hpc])
    sync := fun id => ?_ }
  · grind
  · have henabled := h.receiver.enabled_enable hwriter id
    by_cases hid : id = writer.getId
    · simp only [WordCurrent, hpc] at hcur
      rcases hcur with hreg | hrest | ⟨j, hj⟩
      · refine .inl ⟨fun _ => ?_, fun _ => henabled.2 (.inr hid)⟩
        rw [hid]
        exact hreg
      · rw [hid]
        exact .inr (.inr (.inl hrest))
      · rw [hid]
        exact .inr (.inl ⟨j, hj⟩)
    · refine (h.sync id).advance rfl ?_ Iff.rfl (fun hrest => ?_) fun hbefore => ?_
      · simpa [hid] using henabled
      · simpa [InRest, hpc, hid] using hrest
      · simp [BeforeSnapshot, hpc] at hbefore

theorem Inv.finish {pc : ReaderPc} (hpc : s.reader = .enable [] ∨ s.reader = .join)
    (hnew : ∀ rest, pc ≠ .enable rest) : Inv net { s with reader := pc } := by
  refine { h with
    rest := fun rest hrest => absurd hrest (hnew rest)
    unconnected := fun hc => ?_
    sync := fun id => ?_ }
  · have hconnect := (h.unconnected hc).1
    rcases hpc with hpc | hpc <;> simp [hpc] at hconnect
  · refine (h.sync id).advance rfl Iff.rfl Iff.rfl (fun hrest => ?_) fun hbefore => ?_
    · rcases hpc with hpc | hpc <;> simp [InRest, hpc] at hrest
    · rcases hpc with hpc | hpc <;> simp [BeforeSnapshot, hpc] at hbefore

theorem Inv.join (now : UInt64) :
    Inv net { s with
      manager := ChannelManager.dispose net.self s.manager
        (convert net.self net.attr .reader .join now)
      receiver := net.onChannelChange s.receiver (convert net.self net.attr .reader .join now) } :=
  { h with }

end

/-! ## Runs -/

theorem Inv.readerStep (h : Inv net s) (hcur : s.WordCurrent net (.reader now)) :
    Inv net (s.readerStep net now) := by
  unfold ReaderSystem.readerStep
  split
  · rename_i hpc
    exact h.connect hpc
  · rename_i hpc
    exact h.getWriters hpc
  · rename_i hpc
    exact h.enable hpc hcur
  · rename_i hpc
    exact h.finish (.inl hpc) nofun
  · rename_i hpc
    split
    · have hdone : Inv net { s with reader := .done } := h.finish (.inr hpc) nofun
      exact hdone.join now
    · exact h.finish (.inr hpc) nofun
  · exact h

section
variable [DecidableEq ι]

theorem Inv.changeStep (h : Inv net s) (hcur : s.WordCurrent net (.change i)) :
    Inv net (s.changeStep net i) := by
  unfold ReaderSystem.changeStep
  cases hpc : s.changes i with
  | waiting => exact h.dispose hpc
  | disposed => exact h.copySlots i
  | calling => exact h.callSlot hpc hcur
  | done => exact h

theorem Inv.step (h : Inv net s) {ev : ReaderEvent ι} (hcur : s.WordCurrent net ev) :
    Inv net (s.step net ev) := by
  cases ev with
  | change i => exact h.changeStep hcur
  | reader now => exact h.readerStep hcur

/-- **Once all steps have completed, the receiver is enabled for the writers that are registered**,
if what it was told of a writer was so at that moment, or there was more to come about it. -/
theorem always_inSync (net : ReaderNet ι) (evs : List (ReaderEvent ι))
    (h : Along (step net) (WordCurrent net) (init net) evs) :
    Always (step net) (fun s => s.Quiescent → s.InSync net) (init net) evs := by
  have hinv : Always (step net) (Inv net) (init net) evs :=
    h.always Inv.init fun s ev hs hcur => hs.step hcur
  exact hinv.imp fun s hs => hs.inSync

end

/-! ## A writer that leaves -/

def chatter : RoleAttributes :=
  { channelName := some "chatter", channelId := some 1, id := some 7 }

def comesAndGoes : ReaderNet Bool where
  attr := { channelName := some "chatter", channelId := some 1, id := some 9 }
  hostIp _ := "127.0.0.1"
  mappingTable _ := .shm
  self := ⟨"host", 1⟩
  msgs leaves := ⟨0, if leaves then .leave else .join, .writer, chatter⟩
  checked _ := rfl
  channels _ := Iff.intro (fun _ => rfl) fun _ => rfl
  writers _ _ _ _ _ _ _ := rfl

def inTurn : List (ReaderEvent Bool) :=
  List.replicate 2 (.change false) ++ List.replicate 5 (.reader 0) ++
    List.replicate 3 (.change true)

theorem inSync_inTurn :
    (inTurn.foldl (step comesAndGoes) (init comesAndGoes)).Quiescent ∧
      (inTurn.foldl (step comesAndGoes) (init comesAndGoes)).InSync comesAndGoes := by
  have hquiet : (inTurn.foldl (step comesAndGoes) (init comesAndGoes)).Quiescent :=
    ⟨by decide +kernel, by decide +kernel⟩
  refine ⟨hquiet, ?_⟩
  have hall := always_inSync comesAndGoes inTurn (by decide +kernel)
  exact Always.last hall hquiet

def goesBetween : List (ReaderEvent Bool) :=
  List.replicate 2 (.change false) ++ List.replicate 2 (.reader 0) ++
    List.replicate 3 (.change true) ++ List.replicate 3 (.reader 0)

theorem not_inSync_goesBetween :
    (goesBetween.foldl (step comesAndGoes) (init comesAndGoes)).Quiescent ∧
      ¬ (goesBetween.foldl (step comesAndGoes)
        (init comesAndGoes)).InSync comesAndGoes := by
  refine ⟨⟨by decide +kernel, by decide +kernel⟩, fun h => ?_⟩
  have henabled : 7 ∈ (goesBetween.foldl (step comesAndGoes)
      (init comesAndGoes)).receiver.transmitters .shm := by decide +kernel
  have hgone : ¬ (goesBetween.foldl (step comesAndGoes)
      (init comesAndGoes)).Registered comesAndGoes 7 := by decide +kernel
  exact hgone ((h 7).1 ⟨.shm, henabled⟩)

end ReaderSystem

end Node
