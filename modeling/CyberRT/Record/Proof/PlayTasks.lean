import CyberRT.Record.Player
import Mathlib.Algebra.BigOperators.Group.List.Basic

/-!
# The tasks between producer and consumer

What a push does to the buffer, and what the consumer does on its own: it leaves the producer as it
is (`KeepsProducer`) and empties the buffer (`drain`).
-/

namespace Record

open Function List

namespace PlayTaskBuffer

@[simp] theorem length_push (task : PlayTask) (tasks : List PlayTask) :
    (push task tasks).length = tasks.length + 1 := by
  induction tasks with
  | nil => rfl
  | cons task' tasks ih =>
    unfold push
    grind

theorem push_eq_append {task : PlayTask} {tasks : List PlayTask}
    (h : ∀ task' ∈ tasks, task'.msgPlayTimeNs ≤ task.msgPlayTimeNs) :
    push task tasks = tasks ++ [task] := by
  induction tasks with
  | nil => rfl
  | cons task' tasks ih =>
    have hle := h task' mem_cons_self
    rw [push, if_neg (UInt64.not_lt.2 hle), ih fun t ht => h t (mem_cons_of_mem _ ht)]
    rfl

end PlayTaskBuffer

namespace PlayTaskProducer

variable (p : PlayTaskProducer) (s : Player) (m : SingleMessage)

@[simp] theorem viewer_pushMessage : (p.pushMessage s m).viewer = s.viewer := by
  unfold pushMessage
  split <;> rfl

@[simp] theorem currItr_pushMessage : (p.pushMessage s m).currItr = s.currItr := by
  unfold pushMessage
  split <;> rfl

@[simp] theorem producer_pushMessage : (p.pushMessage s m).producer = s.producer := by
  unfold pushMessage
  split <;> rfl

theorem playable_append (l l' : List SingleMessage) :
    p.playable (l ++ l') = p.playable l ++ p.playable l' := filter_append ..

theorem messages_pushMessage : (p.pushMessage s m).pushed.map PlayTask.message =
    s.pushed.map PlayTask.message ++ p.playable [m] := by
  unfold pushMessage playable
  grind

theorem length_pushMessage (h : s.taskBuffer.length = s.pushed.length) :
    (p.pushMessage s m).taskBuffer.length = (p.pushMessage s m).pushed.length := by
  unfold pushMessage
  split
  · simp [h]
  · exact h

end PlayTaskProducer

structure KeepsProducer (s t : Player) : Prop where
  producer : t.producer = s.producer
  viewer : t.viewer = s.viewer
  currItr : t.currItr = s.currItr
  loopNum : t.loopNum = s.loopNum
  pushed : t.pushed = s.pushed

theorem KeepsProducer.trans {s t u : Player} (h : KeepsProducer s t) (h' : KeepsProducer t u) :
    KeepsProducer s u :=
  ⟨h'.producer.trans h.producer, h'.viewer.trans h.viewer, h'.currItr.trans h.currItr,
    h'.loopNum.trans h.loopNum, h'.pushed.trans h.pushed⟩

namespace Player

theorem keepsProducer_consume (s : Player) : KeepsProducer s s.consume := by
  unfold consume
  split
  · split <;> exact ⟨rfl, rfl, rfl, rfl, rfl⟩
  · exact ⟨rfl, rfl, rfl, rfl, rfl⟩
  · exact ⟨rfl, rfl, rfl, rfl, rfl⟩

theorem keepsProducer_iterate (s : Player) (n : Nat) : KeepsProducer s (consume^[n] s) := by
  induction n with
  | zero => exact ⟨rfl, rfl, rfl, rfl, rfl⟩
  | succ n ih =>
    rw [iterate_succ_apply']
    exact ih.trans (keepsProducer_consume _)

theorem exists_front (s : Player) : ∃ n, (consume^[n] s).consumer = .front := by
  cases hc : s.consumer with
  | front => exact ⟨0, hc⟩
  | play task => exact ⟨2, by simp [consume, hc]⟩
  | popFront task => exact ⟨1, by simp [consume, hc]⟩

theorem drain_front (tasks : List PlayTask) (s : Player) (hc : s.consumer = .front)
    (ht : s.taskBuffer = tasks) :
    ∃ n, (consume^[n] s).taskBuffer = [] ∧ (consume^[n] s).consumer = .front := by
  induction tasks generalizing s with
  | nil => exact ⟨0, ht, hc⟩
  | cons task tasks ih =>
    obtain ⟨n, hn⟩ := ih (consume^[3] s)
      (by simp [consume, hc, ht, PlayTaskBuffer.front])
      (by simp [consume, hc, ht, PlayTaskBuffer.front, PlayTaskBuffer.popFront])
    exact ⟨n + 3, by rw [iterate_add_apply]; exact hn⟩

theorem drain (s : Player) :
    ∃ n, (consume^[n] s).taskBuffer = [] ∧ (consume^[n] s).consumer = .front := by
  obtain ⟨k, hk⟩ := exists_front s
  obtain ⟨n, hn⟩ := drain_front _ (consume^[k] s) hk rfl
  exact ⟨n + k, by rw [iterate_add_apply]; exact hn⟩

end Player

theorem PlayTaskProducer.run_consume (p : PlayTaskProducer) (s : Player) (n : Nat) :
    p.run s (List.replicate n .consume) = Player.consume^[n] s := by
  induction n generalizing s with
  | zero => rfl
  | succ n ih => exact ih s.consume

theorem PlayTaskProducer.run_append (p : PlayTaskProducer) (s : Player) (l l' : List PlayEvent) :
    p.run s (l ++ l') = p.run (p.run s l) l' := foldl_append

/-! ## The number of messages to play -/

namespace PlayParam

variable (p : PlayParam) (files : List RecordInfo)

def usable : List RecordInfo :=
  files.filter fun f => f.isValid && f.isComplete

def channelsOf : List (String × UInt64) :=
  (usable files).flatMap RecordInfo.channels

def number (P : String → Bool) (cs : List (String × UInt64)) : Nat :=
  (cs.map fun c => if P c.1 then c.2.toNat else 0).sum

def plays (c : String) : Bool :=
  decide (c ∉ p.blackChannels) && (p.isPlayAllChannels || decide (c ∈ p.channelsToPlay))

def black (c : String) : Bool := decide (c ∈ p.blackChannels)

def headerNumber : Nat :=
  ((usable files).map fun f => f.messageNumber.toNat).sum

/-- What a channel changes, without bounds. -/
def change (c : String × UInt64) : Int :=
  if c.1 ∈ p.blackChannels then -c.2.toNat
  else if !p.isPlayAllChannels && decide (c.1 ∈ p.channelsToPlay) then c.2.toNat
  else 0

def fileChanges (f : RecordInfo) : List Int :=
  f.channels.map p.change ++ [if p.isPlayAllChannels then (f.messageNumber.toNat : Int) else 0]

def changes : List Int := (usable files).flatMap p.fileChanges

def NoWrap : Prop :=
  ∀ k, 0 ≤ ((p.changes files).take k).sum ∧ ((p.changes files).take k).sum < 2 ^ 64

/-- **The total is the number of the messages that are played**, and the counter never wraps. -/
def CountsPlayed : Prop :=
  p.NoWrap files ∧ (p.readRecordInfo files).toNat = number p.plays (channelsOf files)

variable {p}

theorem ofInt_natCast (n : Nat) : UInt64.ofInt n = UInt64.ofNat n := by
  apply UInt64.toNat_inj.1
  simp only [UInt64.ofInt, UInt64.toNat_ofNat']
  omega

theorem ofInt_toNat (n : UInt64) : UInt64.ofInt n.toNat = n := by
  rw [ofInt_natCast, UInt64.ofNat_toNat]

theorem readChannels_eq (cs : List (String × UInt64)) (i : Int) :
    cs.foldl p.readChannel (UInt64.ofInt i) = UInt64.ofInt (i + (cs.map p.change).sum) := by
  induction cs generalizing i with
  | nil => simp
  | cons c cs ih =>
    have hc : p.readChannel (UInt64.ofInt i) c = UInt64.ofInt (i + p.change c) := by
      unfold readChannel change
      split
      · rw [UInt64.ofInt_add, UInt64.ofInt_neg, ofInt_toNat, UInt64.sub_eq_add_neg]
      · split
        · rw [UInt64.ofInt_add, ofInt_toNat]
        · rw [add_zero]
    rw [List.foldl_cons, hc, ih, List.map_cons, List.sum_cons, add_assoc]

theorem readFiles_eq (i : Int) :
    files.foldl p.readFile (UInt64.ofInt i) = UInt64.ofInt (i + (p.changes files).sum) := by
  induction files generalizing i with
  | nil => simp [changes, usable]
  | cons f files ih =>
    rw [List.foldl_cons, readFile]
    cases hv : f.isValid with
    | false => simpa [changes, usable, hv] using ih i
    | true =>
      cases hc : f.isComplete with
      | false => simpa [changes, usable, hv, hc] using ih i
      | true =>
        have hf : (p.changes (f :: files)).sum = (f.channels.map p.change).sum +
            (if p.isPlayAllChannels then (f.messageNumber.toNat : Int) else 0) +
              (p.changes files).sum := by
          simp [changes, usable, hv, hc, fileChanges, add_assoc]
        have hhead : (if p.isPlayAllChannels then
            f.channels.foldl p.readChannel (UInt64.ofInt i) + f.messageNumber
            else f.channels.foldl p.readChannel (UInt64.ofInt i)) =
              UInt64.ofInt (i + (f.channels.map p.change).sum +
                if p.isPlayAllChannels then (f.messageNumber.toNat : Int) else 0) := by
          rw [readChannels_eq]
          split
          · rw [UInt64.ofInt_add _ (f.messageNumber.toNat : Int), ofInt_toNat]
          · rw [add_zero]
        grind

theorem sum_change (cs : List (String × UInt64)) : (cs.map p.change).sum =
    (if p.isPlayAllChannels then 0 else (number p.plays cs : Int)) - number p.black cs := by
  induction cs with
  | nil => simp [number]
  | cons c cs ih =>
    simp only [List.map_cons, List.sum_cons, ih, number, change, plays, black]
    grind

theorem number_all (hall : p.isPlayAllChannels = true) (cs : List (String × UInt64)) :
    number (fun _ => true) cs = number p.plays cs + number p.black cs := by
  induction cs with
  | nil => rfl
  | cons c cs ih =>
    simp only [number, List.map_cons, List.sum_cons, plays, black, hall] at ih ⊢
    grind

theorem sum_changes : (p.changes files).sum =
    (if p.isPlayAllChannels then (headerNumber files : Int)
      else number p.plays (channelsOf files)) - number p.black (channelsOf files) := by
  have hsum : (p.changes files).sum = ((channelsOf files).map p.change).sum +
      if p.isPlayAllChannels then (headerNumber files : Int) else 0 := by
    unfold changes channelsOf headerNumber
    induction usable files with
    | nil => simp
    | cons f fs ih =>
      simp only [List.flatMap_cons, List.sum_append, ih, fileChanges, List.map_append,
        List.map_cons, List.sum_cons]
      grind
  rw [hsum, sum_change]
  grind

/-- **The number of messages to play**, for all files, lists and flags: the total is right and the
counter does not wrap, exactly if it does not wrap and either all channels are played and the
headers count what the indexes do, or there is no message on a black-listed channel. -/
theorem counts_played_iff (p : PlayParam) (files : List RecordInfo) :
    p.CountsPlayed files ↔ p.NoWrap files ∧
      if p.isPlayAllChannels then headerNumber files = number (fun _ => true) (channelsOf files)
      else number p.black (channelsOf files) = 0 := by
  refine and_congr_right fun hwrap => ?_
  have hall := hwrap (p.changes files).length
  rw [List.take_length] at hall
  have htotal : ((p.readRecordInfo files).toNat : Int) = (p.changes files).sum := by
    have heq : p.readRecordInfo files = UInt64.ofInt (p.changes files).sum := by
      have := readFiles_eq (p := p) files 0
      rwa [zero_add] at this
    obtain ⟨n, hn⟩ := Int.eq_ofNat_of_zero_le hall.1
    rw [heq, hn, ofInt_natCast, UInt64.toNat_ofNat', Nat.mod_eq_of_lt (by omega)]
  have hsum := sum_changes (p := p) files
  by_cases hp : p.isPlayAllChannels = true
  · have hnum := number_all hp (channelsOf files)
    grind
  · grind

/-- One channel is played and another one is black-listed: the total is `2^64 - 1`. -/
theorem not_counts_played_black :
    ¬ (⟨false, ["/a"], ["/b"]⟩ : PlayParam).CountsPlayed
      [⟨true, true, [("/a", 2), ("/b", 3)], 5⟩] :=
  fun h => absurd h.2 (by decide +kernel)

end PlayParam

end Record
