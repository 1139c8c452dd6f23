import Mathlib.Algebra.Order.Ring.Int
import Mathlib.Data.List.Basic
import Mathlib.Logic.Function.Basic

/-!
# Counting received messages (`statistics/statistics.h`, `statistics/statistics.cc`)

`AddRecvCount` adds to the counter of a reader the sequence number of the message if it is the first
that the process counts at all (`first_recv_`), else 1. The counter is found by a key made of the
names of node and channel.
-/

structure Statistics where
  disableChanVar : Bool
  firstRecv : Bool
  /-- the keys of `latency_map_` -/
  latencyMap : String → Bool
  adderMap : String → Option Int32

namespace Statistics

open Function List Option

structure RoleAttributes where
  nodeName : String
  channelName : String
  deriving DecidableEq

def timerComponentChanName : String := "_timer_component"

namespace RoleAttributes

variable (r : RoleAttributes)

def keyWith (kind : String) : String := r.nodeName ++ "-" ++ r.channelName ++ kind

def getProcLatencyKey : String := r.keyWith "proc"

def getTranLatencyKey : String := r.keyWith "tran"

def getCyberLatencyKey : String := r.keyWith "cyber"

def getTotalRecvStatusKey : String := r.keyWith "recv-msgs"

end RoleAttributes

/-- `RegisterChanVar(role_attr)`. -/
def registerChanVar (s : Statistics) (r : RoleAttributes) : Statistics :=
  if s.latencyMap r.getProcLatencyKey || s.latencyMap r.getTranLatencyKey ||
      s.latencyMap r.getCyberLatencyKey then s
  else
    let latencyMap := update s.latencyMap r.getProcLatencyKey true
    if r.channelName = timerComponentChanName then { s with latencyMap }
    else
      { s with
        latencyMap := update (update latencyMap r.getTranLatencyKey true) r.getCyberLatencyKey true
        adderMap := update s.adderMap r.getTotalRecvStatusKey (some 0) }

/-- The readers of a process are registered. `disable`: `DisableChanVar` was called. -/
def registered (disable : Bool) (readers : List RoleAttributes) : Statistics :=
  readers.foldl registerChanVar ⟨disable, true, fun _ => false, fun _ => none⟩

def getAdderVar (s : Statistics) (r : RoleAttributes) : Option Int32 :=
  s.adderMap r.getTotalRecvStatusKey

/-- `AddRecvCount(role_attr, total_msg_val)`: the sequence number is passed as an `int`. -/
def addRecvCount (s : Statistics) (msg : RoleAttributes × UInt64) : Statistics :=
  if s.disableChanVar then s
  else if msg.1.channelName = timerComponentChanName then s
  else
    match s.getAdderVar msg.1 with
    | none => s
    | some var =>
      let key := msg.1.getTotalRecvStatusKey
      if s.firstRecv then
        { s with
          adderMap := update s.adderMap key (some (var + Int32.ofInt msg.2.toNat))
          firstRecv := false }
      else { s with adderMap := update s.adderMap key (some (var + 1)) }

/-! ## What the counters are to be -/

section
variable (disable : Bool) (readers : List RoleAttributes) (msgs : List (RoleAttributes × UInt64))
  (r : RoleAttributes)

def received : Nat := msgs.countP (·.1 = r)

def firstSeq : Option UInt64 := (msgs.find? (·.1 = r)).map Prod.snd

/-- **The counter of a reader** is the sequence number of its first message, plus the number of the
later ones. -/
def CountsChannel : Prop :=
  ∀ seq, firstSeq msgs r = some seq →
    ((msgs.foldl addRecvCount (registered disable readers)).getAdderVar r).map Int32.toInt =
      some (seq.toNat + received msgs r - 1 : Int)

/-- Every message is counted, and for its reader alone: each reader has a counter, is not of the
timer channel and shares its key with no other. -/
structure Counted (s : Statistics) : Prop where
  enabled : s.disableChanVar = false
  timer : ∀ m ∈ msgs, m.1.channelName ≠ timerComponentChanName
  adder : ∀ m ∈ msgs, (s.getAdderVar m.1).isSome
  keys : ∀ m ∈ msgs, ∀ m' ∈ msgs,
    m.1.getTotalRecvStatusKey = m'.1.getTotalRecvStatusKey → m.1 = m'.1

end

/-! ## What a run adds -/

variable {s : Statistics} {r : RoleAttributes} {msg : RoleAttributes × UInt64}
  {msgs : List (RoleAttributes × UInt64)} {disable : Bool} {readers : List RoleAttributes}

theorem registered_zero : (registered disable readers).firstRecv = true ∧
    ∀ r var, (registered disable readers).getAdderVar r = some var → var = 0 := by
  refine foldlRecOn (motive := fun s : Statistics => s.firstRecv = true ∧
    ∀ r var, s.getAdderVar r = some var → var = 0) readers _ ⟨rfl, fun _ _ h => by cases h⟩ ?_
  rintro s ⟨hf, hz⟩ r -
  unfold registerChanVar
  split
  · exact ⟨hf, hz⟩
  · dsimp only
    split
    · exact ⟨hf, hz⟩
    · refine ⟨hf, fun r' var hv => ?_⟩
      simp only [getAdderVar, update_apply] at hv
      split at hv
      · exact (Option.some.inj hv).symm
      · exact hz r' var hv

theorem Counted.addRecvCount_eq (h : Counted (msg :: msgs) s) {var : Int32}
    (hv : s.getAdderVar msg.1 = some var) : s.addRecvCount msg =
      { s with
        firstRecv := false
        adderMap := update s.adderMap msg.1.getTotalRecvStatusKey
          (some (var + if s.firstRecv then Int32.ofInt msg.2.toNat else 1)) } := by
  have ht := h.timer msg mem_cons_self
  unfold addRecvCount
  cases hf : s.firstRecv <;> simp [h.enabled, ht, hv]

theorem Counted.tail (h : Counted (msg :: msgs) s) : Counted msgs (s.addRecvCount msg) := by
  obtain ⟨var, hv⟩ := isSome_iff_exists.1 (h.adder msg mem_cons_self)
  rw [h.addRecvCount_eq hv]
  refine ⟨h.enabled, fun m hm => h.timer m (mem_cons_of_mem _ hm), fun m hm => ?_,
    fun m hm m' hm' => h.keys m (mem_cons_of_mem _ hm) m' (mem_cons_of_mem _ hm')⟩
  have hsome := h.adder m (mem_cons_of_mem _ hm)
  simp only [getAdderVar, update_apply] at hsome ⊢
  split
  · rfl
  · exact hsome

theorem Counted.getAdderVar_add (h : Counted (msg :: msgs) s)
    (hr : msg.1.getTotalRecvStatusKey = r.getTotalRecvStatusKey → msg.1 = r) {var : Int32}
    (hv : s.getAdderVar r = some var) : (s.addRecvCount msg).getAdderVar r =
      some (var + if msg.1 = r then if s.firstRecv then Int32.ofInt msg.2.toNat else 1 else 0) := by
  obtain ⟨old, hold⟩ := isSome_iff_exists.1 (h.adder msg mem_cons_self)
  rw [h.addRecvCount_eq hold]
  by_cases heq : msg.1 = r
  · rw [heq, hv, Option.some.injEq] at hold
    simp [getAdderVar, heq, hold]
  · have hk : r.getTotalRecvStatusKey ≠ msg.1.getTotalRecvStatusKey := fun hk => heq (hr hk.symm)
    simpa [getAdderVar, heq, hk] using hv

theorem Counted.getAdderVar_foldl (h : Counted msgs s) (hf : s.firstRecv = false)
    (hr : ∀ m ∈ msgs, m.1.getTotalRecvStatusKey = r.getTotalRecvStatusKey → m.1 = r) {var : Int32}
    (hv : s.getAdderVar r = some var) :
    (msgs.foldl addRecvCount s).getAdderVar r = some (var + Int32.ofInt (received msgs r)) := by
  induction msgs generalizing s var with
  | nil => simpa [received] using hv
  | cons msg msgs ih =>
    have hnext := h.getAdderVar_add (hr msg mem_cons_self) hv
    have hf' : (s.addRecvCount msg).firstRecv = false := by
      obtain ⟨old, hold⟩ := isSome_iff_exists.1 (h.adder msg mem_cons_self)
      rw [h.addRecvCount_eq hold]
    rw [foldl_cons, ih h.tail hf' (fun m hm => hr m (mem_cons_of_mem _ hm)) hnext]
    by_cases heq : msg.1 = r
    · simp [received, heq, hf, Int32.ofInt_add]
      grind
    · simp [received, heq]

theorem Counted.recvCount_run (h : Counted (msg :: msgs) (registered disable readers))
    (hr : r ∈ (msg :: msgs).map Prod.fst) :
    (((msg :: msgs).foldl addRecvCount (registered disable readers)).getAdderVar r).map
        Int32.toInt =
      some (((if msg.1 = r then (msg.2.toNat : Int) else 0) + received msgs r).bmod (2 ^ 32)) := by
  obtain ⟨m, hm, rfl⟩ := mem_map.1 hr
  obtain ⟨hfirst, hzero⟩ := @registered_zero disable readers
  obtain ⟨var, hv⟩ := isSome_iff_exists.1 (h.adder m hm)
  have hf : (addRecvCount (registered disable readers) msg).firstRecv = false := by
    obtain ⟨old, hold⟩ := isSome_iff_exists.1 (h.adder msg mem_cons_self)
    rw [h.addRecvCount_eq hold]
  have hkeys : ∀ m' ∈ msg :: msgs,
      m'.1.getTotalRecvStatusKey = m.1.getTotalRecvStatusKey → m'.1 = m.1 :=
    fun m' hm' => h.keys m' hm' m hm
  rw [foldl_cons, h.tail.getAdderVar_foldl hf (fun m' hm' => hkeys m' (mem_cons_of_mem _ hm'))
    (h.getAdderVar_add (hkeys msg mem_cons_self) hv), hzero _ _ hv, hfirst]
  by_cases heq : msg.1 = m.1 <;>
    simp [heq, ← Int32.ofInt_add, Int32.toInt_ofInt]

theorem bmod_eq_iff {a b : Int} (hb : 0 ≤ b) :
    a.bmod (2 ^ 32) = b ↔ (b < 2 ^ 31 ∧ (a - b) % 2 ^ 32 = 0) := by
  rw [Int.bmod_def]
  omega

/-- **Where every message is counted for its reader alone, every counter is right exactly if only
the reader of the first message of all begins with another number than 1**, and no counter leaves
the `int32_t`s. -/
theorem counts_channels_iff (disable : Bool) (readers : List RoleAttributes)
    (msgs : List (RoleAttributes × UInt64)) (h : Counted msgs (registered disable readers)) :
    (∀ r, CountsChannel disable readers msgs r) ↔ ∀ r seq, firstSeq msgs r = some seq →
      seq.toNat + received msgs r ≤ 2 ^ 31 ∧ (msgs.head?.map Prod.fst = some r ∨ seq = 1) := by
  refine forall_congr' fun r => forall₂_congr fun seq hseq => ?_
  cases msgs with
  | nil => cases hseq
  | cons msg msgs =>
    have hone : seq = 1 ↔ seq.toNat = 1 := by rw [← UInt64.toNat_inj]; rfl
    have hlt := seq.toNat_lt
    obtain ⟨m, hm, -⟩ := map_eq_some_iff.1 hseq
    have hmr : m.1 = r := by simpa using find?_some hm
    have hmem := mem_of_find?_eq_some hm
    have hpos : 0 < received (msg :: msgs) r := countP_pos_iff.2 ⟨m, hmem, decide_eq_true hmr⟩
    rw [h.recvCount_run (mem_map.2 ⟨m, hmem, hmr⟩), Option.some.injEq, bmod_eq_iff (by omega), hone]
    by_cases hr : msg.1 = r
    · subst hr
      simp only [firstSeq, find?_cons, decide_true, map_some, Option.some.injEq] at hseq
      subst hseq
      simp only [received, countP_cons, decide_true, if_true, head?_cons, map_some,
        true_or, and_true]
      omega
    · simp only [received, countP_cons, hr, decide_false, Bool.false_eq_true, if_false,
        head?_cons, map_some, Option.some.injEq, false_or] at hpos ⊢
      omega

def listener (channel : String) : RoleAttributes := ⟨"listener", channel⟩

def twoReaders : List RoleAttributes := [listener "/a", listener "/b"]

def threeMsgs : List (RoleAttributes × UInt64) :=
  [(listener "/a", 7), (listener "/b", 1), (listener "/a", 8)]

/-- The first message of all has the sequence number 7, the first of the other channel 1. -/
theorem counts_channels_twoReaders : Counted threeMsgs (registered false twoReaders) ∧
    ∀ r, CountsChannel false twoReaders threeMsgs r := by
  have hc : Counted threeMsgs (registered false twoReaders) :=
    ⟨rfl, by decide, by decide, by decide⟩
  refine ⟨hc, (counts_channels_iff false twoReaders threeMsgs hc).2 fun r seq hseq => ?_⟩
  by_cases ha : listener "/a" = r
  · subst ha
    cases hseq
    decide
  · by_cases hb : listener "/b" = r
    · subst hb
      cases hseq
      decide
    · simp [threeMsgs, firstSeq, ha, hb] at hseq

/-- The reader of the second channel joins when its writer has already sent four messages. -/
theorem not_counts_channels_late :
    ¬ ∀ r, CountsChannel false twoReaders [(listener "/a", 1), (listener "/b", 5)] r := by
  intro h
  have := h (listener "/b") 5 (by decide)
  revert this
  decide

end Statistics
