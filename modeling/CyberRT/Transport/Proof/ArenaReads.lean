import CyberRT.Transport.Proof.ArenaBlocks
import CyberRT.Transport.Proof.HandlerDelivery
import CyberRT.Transport.ShmDispatcher

/-!
# What the readers of arena blocks get

The invariant of the arena blocks gives every reader the last message (`Inv.reads`), so in every run
whose steps meet `StepOk` readers get what they rely on (`arena_reads`).
-/

namespace Transport

open Function Lib Shm Shm.Segment ShmDispatcher

variable {abi : Abi} {backend : Backend}

namespace ArenaSys

def transmitSteps (p : Nat) (receivers : Bool) (e e' : Env) (attempts attempts' : List Bool)
    (msg : Message) (info : MessageInfo) : List TransmitOp :=
  .transmit p e attempts msg info :: List.replicate 4 (.next p receivers e' attempts')

section
variable {s : ArenaSys}

theorem readBlock_acquired {k k1 : Kernel} {seg1 : Segment} (hash : List UInt8 → UInt64) {i : Nat}
    {rb : ReadableBlock} (ha : AcquiredToRead abi k k1 seg1 i rb) {w : Vector UInt8 wrapperSize}
    {info : MessageInfo} (hw : HasWrapper abi (k1.objects 0) i w)
    (hi : HasInfo abi (k1.objects 0) i info) :
    readBlock hash rb (k1, seg1) = some (.read w.toList (info.rehash hash), k1, seg1) := by
  have hblock : (k1.objects 0).blocks ((objectConf (k.objects 0)).blockNum + i)
      = arenaBlock (k1.objects 0) i := by
    rw [arenaBlock, ha.relocks.conf]
  have hsrc : read (k1.objects 0).mem (arenaOffset abi (k.objects 0) i + wrapperSize)
      MessageInfo.kSize = info.bytes ++ read (k1.objects 0).mem
        (arenaOffset abi (k.objects 0) i + wrapperSize + MessageInfo.fieldSize) 4 := by
    rw [← hi.data, ← ha.relocks.offset]
    exact read_add 4
  have hdata := hw.data
  rw [ha.relocks.offset] at hdata
  simp only [readBlock, bind_apply, blockAt, load, ha.block, ha.buf, ha.shm, Option.map_some,
    Option.bind_some, hblock, hw.msgSize, hi.msgInfoSize, Nat.add_sub_cancel_left, Nat.add_zero, hsrc,
    hdata, MessageInfo.deserializeFrom_bytes, pure_apply]

theorem Inv.reads (h : Inv abi s) (hash : List UInt8 → UInt64) : s.Reads abi backend hash := by
  intro q e spurious i m hidle hlast r t hr
  obtain ⟨a, ⟨k1, seg1⟩, hacq, hrest⟩ := bind_eq_some hr
  cases a with
  | none =>
    cases hrest
    exact .inl rfl
  | some rb =>
    right
    obtain ⟨-, -, ha⟩ := acquireArenaBlockToRead_some h.kernel (h.segs q) h.one hacq
    obtain ⟨hw, hi⟩ := h.last i m hlast hidle
    have hread := readBlock_acquired hash ha (hw.relock ha.relocks) (hi.relock ha.relocks)
    simp only [bind_apply, hread, Option.bind_some] at hrest
    obtain ⟨u, hrel, hrest⟩ := Option.bind_eq_some_iff.1 hrest
    cases hrest
    rfl

end

def IsOf (q : Nat) : TransmitOp → Prop
  | .transmit p _ _ _ _ | .next p _ _ _ => p = q
  | .acquire _ _ _ _ | .release _ _ => False

theorem run_writing {s t : ArenaSys} {p : Nat} {α : Type} {c : Call α} {a : α}
    (h : s.run p c = some (a, t)) : t.writing = s.writing := by
  obtain ⟨k, seg, -, rfl⟩ := run_eq_some h
  rfl

theorem step_writing {s t : ArenaSys} {q : Nat} {op : TransmitOp} (hop : ¬ IsOf q op)
    (h : s.step abi backend op = some t) : t.writing q = s.writing q := by
  have hset : ∀ (u : ArenaSys) (p : Nat) (w : Option Writing), p ≠ q →
      (u.setWriting p w).writing q = u.writing q :=
    fun u p w hp => update_of_ne (Ne.symm hp) _ _
  cases op with
  | transmit p e attempts msg info =>
    simp only [step] at h
    split at h
    · cases h
      rfl
    · obtain ⟨⟨r, u⟩, hrun, rfl⟩ := Option.map_eq_some_iff.1 h
      rw [hset _ _ _ hop, run_writing hrun]
  | next p receivers e attempts =>
    simp only [step] at h
    split at h
    · simp only [advance] at h
      split at h
      case h_3 =>
        split at h
        · obtain ⟨⟨r, u⟩, hrun, rfl⟩ := Option.map_eq_some_iff.1 h
          rw [hset _ _ _ hop, run_writing hrun]
        · cases h
          exact hset _ _ _ hop
      case h_2 =>
        obtain ⟨⟨r, u⟩, hrun, rfl⟩ := Option.map_eq_some_iff.1 h
        split <;> rw [hset _ _ _ hop]
        · exact congrFun (run_writing hrun) q
        · rw [run_writing hrun]
      all_goals
        obtain ⟨⟨r, u⟩, hrun, rfl⟩ := Option.map_eq_some_iff.1 h
        rw [hset _ _ _ hop, run_writing hrun]
    · cases h
      rfl
  | acquire r e spurious i =>
    obtain ⟨⟨b, u⟩, hrun, rfl⟩ := Option.map_eq_some_iff.1 h
    exact congrFun (run_writing hrun) q
  | release r b =>
    simp only [step] at h
    split at h
    · obtain ⟨⟨a, u⟩, hrun, rfl⟩ := Option.map_eq_some_iff.1 h
      exact congrFun (run_writing hrun) q
    · cases h
      rfl

theorem run_not_writing {q : Nat} {ops : List TransmitOp}
    (h : Along (bindStep (step abi backend)) (fun _ op => ¬ IsOf q op) (some init) ops) :
    ∀ s ∈ ops.foldl (bindStep (step abi backend)) (some init), s.writing q = none := by
  refine h.inv (P := fun o => ∀ s ∈ o, s.writing q = none) ?_ ?_
  · intro s hs
    cases hs
    rfl
  · intro o op ho hop t ht
    obtain ⟨s, hs, hstep⟩ := Option.bind_eq_some_iff.1 ht
    rw [step_writing hop hstep]
    exact ho s hs

/-- **Readers get the last message, in every run whose steps meet the condition**: whatever the
interleaving of the transmitters with one another and with the readers. -/
theorem arena_reads (abi : Abi) (backend : Backend) (hash : List UInt8 → UInt64)
    (ops : List TransmitOp)
    (hok : Along (bindStep (step abi backend)) (onSome (StepOk backend)) (some init) ops) :
    Always (bindStep (step abi backend)) (fun o => ∀ s ∈ o, Reads abi backend hash s) (some init)
      ops := by
  have hinv :
      Always (bindStep (step abi backend)) (fun o => ∀ s ∈ o, Inv abi s) (some init) ops := by
    refine hok.always ?_ ?_
    · intro s hs
      cases hs
      exact inv_init
    · intro o op ho hop t ht
      obtain ⟨s, hs, hstep⟩ := Option.bind_eq_some_iff.1 ht
      exact step_inv (ho s hs) (hop s hs) hstep
  exact hinv.imp fun _ ho s hs => (ho s hs).reads hash

def messageOf (b : UInt8) : Message :=
  ⟨some (Vector.replicate wrapperSize b), 0, some [], by simp⟩

def infoOf (channelId : UInt64) : MessageInfo :=
  ⟨⟨Vector.replicate idSize 0, 0⟩, channelId, 0, ⟨Vector.replicate idSize 0, 0⟩, 0⟩

def transmitRun (attempts : List Bool) (b : UInt8) (channelId : UInt64) : List TransmitOp :=
  transmitSteps 0 false Sys.someEnv Sys.someEnv attempts [] (messageOf b) (infoOf channelId)

theorem transmitRun_first :
    (((transmitRun [false] 1 7).foldl (bindStep (step .lp64 .xsi)) (some init)).map fun s =>
      ((s.writing 0).isNone, s.kernel.linked, (s.last 1).isNone, (s.last 3).isNone,
        nextArenaBlock (s.kernel.objects 0) (s.kernel.conf 0).blockNum
          (s.kernel.objects 0).state.arenaSeq [true, false])) =
      some (true, some 0, true, true, some 2) := by
  decide +kernel

theorem idle_of_transmitRun {s : ArenaSys} {ops : List TransmitOp}
    (hops : ∀ p, p ≠ 0 → Along (bindStep (step abi backend)) (fun _ op => ¬ IsOf p op) (some init)
      ops) (hs : s ∈ ops.foldl (bindStep (step abi backend)) (some init))
    (hwriting : (s.writing 0).isNone = true) (i : Nat) : s.Idle i := by
  intro p w hw
  by_cases hp : p = 0
  · subst hp
    rw [hw] at hwriting
    cases hwriting
  · rw [run_not_writing (hops p hp) s hs] at hw
    cases hw

/-- The second `Transmit` fails to lock the block behind the first message and takes the next. -/
theorem arena_reads_apart : Always (bindStep (step .lp64 .xsi))
    (fun o => ∀ s ∈ o, Reads .lp64 .xsi (fun _ => 0) s) (some init)
    (transmitRun [false] 1 7 ++ transmitRun [true, false] 2 8) := by
  refine arena_reads .lp64 .xsi (fun _ => 0) _ (along_append.2 ⟨⟨?_, ?_, ?_, ?_, ?_, trivial⟩,
    ?_, ?_, ?_, ?_, ?_, trivial⟩)
  · intro s hs _
    cases hs
    exact ⟨fun _ h => absurd rfl h, fun _ _ h => by cases h⟩
  case refine_6 =>
    intro s hs _
    obtain ⟨t, ht, hval⟩ := Option.map_eq_some_iff.1 transmitRun_first
    obtain rfl : t = s := Option.some.inj (ht.symm.trans hs)
    simp only [Prod.mk.injEq, Option.isNone_iff_eq_none] at hval
    obtain ⟨hwriting, hlinked, hone, hthree, hnext⟩ := hval
    have hidle := idle_of_transmitRun (fun p hp => by
      simp [transmitRun, transmitSteps, Along, IsOf, Ne.symm hp]) hs (by simp [hwriting])
    refine ⟨fun _ _ => rfl, fun id j hid hj => ?_⟩
    obtain rfl : 0 = id := Option.some.inj (hlinked.symm.trans hid)
    obtain rfl : 2 = j := Option.some.inj (hnext.symm.trans hj)
    refine ⟨⟨hthree, hidle 3⟩, fun i hi => ?_⟩
    obtain rfl : i = 1 := by omega
    exact ⟨hone, hidle 1⟩
  all_goals
    intro s _ w _ _ h
    cases h

def adjacentRun : List TransmitOp := transmitRun [false] 1 7 ++ transmitRun [false] 2 8

def readChannelId : ArenaRead → Option UInt64
  | .read _ info => some info.channelId
  | _ => none

theorem adjacentRun_read :
    ((adjacentRun.foldl (bindStep (step .lp64 .xsi)) (some init)).map fun s =>
      ((s.writing 0).isNone, (s.last 0).map (·.2.channelId),
        (readArenaMessage .lp64 .xsi (fun _ => 0) Sys.someEnv 0 0 (s.kernel, s.segs 1)).map
          fun r => readChannelId r.1)) =
      some (true, some 7, some (some 0x0202020202020202)) := by
  decide +kernel

/-- The second message spoils the first. -/
theorem not_arena_reads_adjacent : ¬ Always (bindStep (step .lp64 .xsi))
    (fun o => ∀ s ∈ o, Reads .lp64 .xsi (fun _ => 0) s) (some init) adjacentRun := by
  intro h
  obtain ⟨s, hs, hval⟩ := Option.map_eq_some_iff.1 adjacentRun_read
  simp only [Prod.mk.injEq] at hval
  obtain ⟨hwriting, hlast, hread⟩ := hval
  obtain ⟨m, hm, hchannel⟩ := Option.map_eq_some_iff.1 hlast
  obtain ⟨⟨r, t⟩, hr, hid⟩ := Option.map_eq_some_iff.1 hread
  have hidle : s.Idle 0 := idle_of_transmitRun (fun p hp => by
    simp [adjacentRun, transmitRun, transmitSteps, Along, IsOf, Ne.symm hp]) hs hwriting 0
  rcases h.last s hs 1 Sys.someEnv 0 0 m hidle hm r t hr with rfl | rfl
  · cases hid
  · have hsame : m.2.channelId = 0x0202020202020202 := Option.some.inj hid
    grind

end ArenaSys

/-!
## What arena listeners are delivered

Every `Enable(writer)` on an arena channel connects one more listener for the messages of *all*
writers, since `AddArenaListener` drops the opposite's id, and no `Disable(writer)` takes one away,
since `RemoveListener` looks into the other map.
-/

namespace ArenaReaders

variable {M : Type*} {conf : UInt64 → Bool} {s : ArenaReaders} {r : ShmReceiver}

def arenaSubs (conf : UInt64 → Bool) (enables : List ShmReceiver) (channelId : UInt64) :
    Subs ShmReceiver :=
  ⟨((enables.filter fun r => usesArena conf r && r.channelId == channelId).map
    fun r => (r.id, r)).reverse, fun _ => []⟩

structure Listens (conf : UInt64 → Bool) (s : ArenaReaders) : Prop where
  running : s.dispatcher.isShutdown = false
  serves : ∀ c, Serves ((s.dispatcher.arenaMsgListeners c).getD .empty) (arenaSubs conf s.enables c)

theorem listens_init (conf : UInt64 → Bool) : Listens conf init :=
  ⟨rfl, fun _ => Serves.empty⟩

theorem arenaSubs_cons_of_not {c : UInt64}
    (h : (usesArena conf r && r.channelId == c) = false) (l : List ShmReceiver) :
    arenaSubs conf (r :: l) c = arenaSubs conf l c := by
  simp only [arenaSubs, List.filter_cons, h, Bool.false_eq_true, if_false]

theorem arenaSubs_cons_self (h : usesArena conf r = true)
    (l : List ShmReceiver) : arenaSubs conf (r :: l) r.channelId =
      { arenaSubs conf l r.channelId with
        own := (arenaSubs conf l r.channelId).own ++ [(r.id, r)] } := by
  simp [arenaSubs, h]

section
variable (hs : Listens conf s)
include hs

theorem onArenaMessage_eq (c : UInt64) (msg : M) (info : MessageInfo)
    (locked : Bool) : s.dispatcher.onArenaMessage c msg info locked =
      (if locked then (arenaSubs conf s.enables c).own.map (·.2) else [], s.dispatcher) := by
  have hc := hs.serves c
  unfold onArenaMessage
  rw [if_neg (by simp [hs.running])]
  cases ha : s.dispatcher.arenaMsgListeners c with
  | none =>
    -- no handler: nothing was connected on the channel
    rw [ha, Option.getD_none] at hc
    have hown : (arenaSubs conf s.enables c).own = [] := by
      have hrun := congrArg Prod.fst (hc.run (M := Unit) () (infoFrom 0))
      have hnil : (arenaSubs conf s.enables c).calls () (infoFrom 0) = [] := hrun.symm
      simpa [Subs.calls, arenaSubs] using hnil
    simp [hown]
  | some handler =>
    rw [ha, Option.getD_some] at hc
    simp only [hc.run msg info, Subs.calls, arenaSubs, ← ha, update_eq_self]
    simp [comp_def]

theorem count_onArenaMessage (r : ShmReceiver) (msg : M) (info : MessageInfo) (locked : Bool) :
    (s.dispatcher.onArenaMessage r.channelId msg info locked).1.count r =
      if locked && usesArena conf r then s.enables.count r else 0 := by
  rw [onArenaMessage_eq hs]
  cases locked with
  | false => simp
  | true =>
    have hown : (arenaSubs conf s.enables r.channelId).own.map (·.2) =
        (s.enables.filter fun r' =>
          usesArena conf r' && r'.channelId == r.channelId).reverse := by
      simp [arenaSubs, comp_def]
    simp only [if_true, hown, List.count_reverse, Bool.true_and]
    by_cases hr : usesArena conf r = true
    · rw [if_pos hr, List.count_filter (by simp [hr])]
    · rw [if_neg hr, List.count_eq_zero]
      intro hmem
      simp [hr] at hmem

theorem Listens.addListener (r : ShmReceiver) (w : UInt64) :
    Listens conf { s with
      dispatcher := s.dispatcher.addListener conf r w, enables := r :: s.enables } := by
  have hrun := hs.running
  by_cases hr : usesArena conf r = true
  · refine ⟨?_, fun c => ?_⟩
    · simp [ShmDispatcher.addListener, ShmDispatcher.addArenaListener, ShmDispatcher.addSegment, hr,
        hrun]
    · simp only [ShmDispatcher.addListener, ShmDispatcher.addArenaListener, hr, hrun, if_true,
        ShmDispatcher.addSegment, Bool.false_eq_true, if_false]
      by_cases hc : c = r.channelId
      · subst hc
        rw [update_self, Option.getD_some, arenaSubs_cons_self hr]
        exact (hs.serves _).connect r.id r
      · rw [update_of_ne hc, arenaSubs_cons_of_not (by simp [Ne.symm hc])]
        exact hs.serves c
  · have hd : s.dispatcher.addListener conf r w =
        (s.dispatcher.addBaseListener r w).addSegment r := by
      simp [ShmDispatcher.addListener, hr]
    refine ⟨?_, fun c => ?_⟩
    · simp [hd, ShmDispatcher.addBaseListener, ShmDispatcher.addSegment, hrun]
    · rw [arenaSubs_cons_of_not (by simp [hr])]
      simpa [hd, ShmDispatcher.addBaseListener, ShmDispatcher.addSegment, hrun] using hs.serves c

omit hs in
theorem removeListener_arena (d : ShmDispatcher) (r : ShmReceiver) (w : UInt64) :
    (d.removeListener r w).isShutdown = d.isShutdown ∧
      (d.removeListener r w).arenaMsgListeners = d.arenaMsgListeners := by
  unfold removeListener
  grind

theorem Listens.step (op : ArenaOp M) : Listens conf (s.step conf op) := by
  cases op with
  | enable r w arenaEnabled =>
    by_cases hg : givesUp conf r arenaEnabled = true
    · have hd : r.enable conf s.dispatcher w arenaEnabled = s.dispatcher := if_pos hg
      simp only [ArenaReaders.step, hg, hd, if_true]
      exact hs
    · have hd : r.enable conf s.dispatcher w arenaEnabled = s.dispatcher.addListener conf r w :=
        if_neg hg
      simp only [ArenaReaders.step, hg, hd]
      have hadd := hs.addListener r w
      exact ⟨hadd.running, hadd.serves⟩
  | disable r w =>
    obtain ⟨hrun, harena⟩ := removeListener_arena s.dispatcher r w
    refine ⟨?_, fun c => ?_⟩
    · exact hrun.trans hs.running
    · simp only [ArenaReaders.step, ShmReceiver.disable, harena]
      exact hs.serves c
  | message c msg info locked =>
    simp only [ArenaReaders.step, onArenaMessage_eq hs c msg info locked]
    exact hs

end

/-- **Arena messages are delivered once to the receivers that have their writer enabled, and to no
other, exactly in the runs where each message finds its blocks lockable and one `Enable(writer)`
call so far by each of these receivers, and none by any other.** -/
theorem delivers_once_iff (conf : UInt64 → Bool) (ops : List (ArenaOp M)) :
    Along (step conf) (DeliversOnce conf) init ops ↔
      Along (step conf) (EnabledOnce conf) init ops := by
  refine along_congr (P := Listens conf) (listens_init conf) ?_ fun s op hs _ => hs.step op
  intro s op hs
  cases op with
  | message c msg info locked =>
    refine imp_congr_right fun _ => forall_congr' fun r => imp_congr_right fun hr => ?_
    subst hr
    rw [count_onArenaMessage hs r msg info locked]
  | enable _ _ _ | disable _ _ => exact Iff.rfl

/-- A receiver that has enabled two writers gets a message of one of them twice. -/
theorem not_delivers_once_two_writers : ¬ Along (step fun _ => true) (DeliversOnce fun _ => true)
    init [.enable ⟨1, 7, .proto "M"⟩ 10 true, .enable ⟨1, 7, .proto "M"⟩ 11 true,
      .message 7 () (infoFrom 10) true] := by
  rintro ⟨-, -, h, -⟩
  exact absurd (h rfl ⟨1, 7, .proto "M"⟩ rfl) (by decide +kernel)

end ArenaReaders

end Transport
