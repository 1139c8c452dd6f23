import Mathlib.Data.Set.Function
import CyberRT.Lib.Loop

/-!
# The ids of `GlobalData` (`common/global_data.cc`)

Nodes, channels, services and tasks are numbered by the hash of their names.
-/

namespace Common

open Function Lib

abbrev IdMap := UInt64 → Option String

structure GlobalData where
  nodeIdMap : IdMap
  channelIdMap : IdMap
  serviceIdMap : IdMap
  taskIdMap : IdMap

def IdMap.register (hash : String → UInt64) (m : IdMap) (name : String) : Option (IdMap × UInt64) :=
  (probe (· + 1) m name (2 ^ 64) (hash name)).map fun id => (update m id (some name), id)

def IdMap.getById (m : IdMap) (id : UInt64) : String := (m id).getD ""

namespace GlobalData

variable (hash : String → UInt64) (g : GlobalData)

def init : GlobalData := ⟨fun _ => none, fun _ => none, fun _ => none, fun _ => none⟩

def generateHashId (name : String) : UInt64 := hash name

def registerNode (nodeName : String) : Option (GlobalData × UInt64) :=
  (g.nodeIdMap.register hash nodeName).map fun r => ({ g with nodeIdMap := r.1 }, r.2)

def registerChannel (channel : String) : Option (GlobalData × UInt64) :=
  (g.channelIdMap.register hash channel).map fun r => ({ g with channelIdMap := r.1 }, r.2)

def registerService (service : String) : Option (GlobalData × UInt64) :=
  (g.serviceIdMap.register hash service).map fun r => ({ g with serviceIdMap := r.1 }, r.2)

def registerTaskName (taskName : String) : Option (GlobalData × UInt64) :=
  (g.taskIdMap.register hash taskName).map fun r => ({ g with taskIdMap := r.1 }, r.2)

def getNodeById (id : UInt64) : String := g.nodeIdMap.getById id

def getChannelById (id : UInt64) : String := g.channelIdMap.getById id

def getServiceById (id : UInt64) : String := g.serviceIdMap.getById id

def getTaskNameById (id : UInt64) : String := g.taskIdMap.getById id

end GlobalData

def subscriberChannelId (hash : String → UInt64) (topicName : String) : UInt64 := hash topicName

namespace IdMap

variable {hash : String → UInt64} {m m' : IdMap} {name : String} {id : UInt64} {S : Set String}

theorem register_eq_some_iff :
    m.register hash name = some (m', id) ↔
      probe (· + 1) m name (2 ^ 64) (hash name) = some id ∧ m' = update m id (some name) := by
  simp only [register, Option.map_eq_some_iff, Prod.mk.injEq]
  constructor
  · intro h
    obtain ⟨id', hprobe, hm, rfl⟩ := h
    exact ⟨hprobe, hm.symm⟩
  · intro h
    exact ⟨id, h.1, h.2.symm, rfl⟩

theorem register_spec (h : m.register hash name = some (m', id)) :
    m' id = some name ∧ Extends m m' := by
  obtain ⟨hprobe, rfl⟩ := register_eq_some_iff.1 h
  exact ⟨update_self id (some name) m, (settled_of_probe hprobe).extends_update⟩

def Hashed (hash : String → UInt64) (S : Set String) (m : IdMap) : Prop :=
  ∀ id name, m id = some name → name ∈ S ∧ hash name = id

theorem Hashed.settled (h : m.Hashed hash S) (hinj : S.InjOn hash)
    (hname : name ∈ S) : Settled m name (hash name) := by
  cases hm : m (hash name) with
  | none => exact .inl hm
  | some name' =>
    obtain ⟨hname', heq⟩ := h (hash name) name' hm
    rw [hinj hname' hname heq] at hm
    exact .inr hm

/-- **Without collisions a name gets its hash.** -/
theorem Hashed.register (h : m.Hashed hash S) (hinj : S.InjOn hash) (hname : name ∈ S) :
    m.register hash name = some (update m (hash name) (some name), hash name) ∧
      Hashed hash S (update m (hash name) (some name)) := by
  refine ⟨register_eq_some_iff.2 ⟨probe_settled (h.settled hinj hname) (by decide), rfl⟩, ?_⟩
  intro id name' hid
  by_cases heq : id = hash name
  · rw [heq, update_self, Option.some.injEq] at hid
    rw [← hid, heq]
    exact ⟨hname, rfl⟩
  · rw [update_of_ne heq] at hid
    exact h id name' hid

end IdMap

end Common
