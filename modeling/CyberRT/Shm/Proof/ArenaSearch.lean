import CyberRT.Shm.ArenaManager

/-!
# The search for a message's arena

The bound of the search is the size of a message, and the table has an entry for each block, so the
search leaves the table unless it ends before (`searchArena_inside_iff`).
-/

namespace Shm

open Lib List Option

variable {A : Type} [DecidableEq A] {arena : A}

theorem searchArena_inside_iff (capacity : Nat) (arena : A) (entries : List (Option A)) (i : Nat) :
    (∀ j ∈ (searchArena capacity arena i entries).1, j < i + entries.length) ↔
      some arena ∈ entries ∨ capacity ≤ i + entries.length := by
  induction entries generalizing i with
  | nil =>
    unfold searchArena
    by_cases hi : i < capacity
    · simp [hi]
    · simp [hi, Nat.le_of_not_lt hi]
  | cons entry entries ih =>
    have hlen : i + (entry :: entries).length = i + 1 + entries.length := by
      rw [length_cons]
      omega
    unfold searchArena
    by_cases hi : i < capacity
    · rw [if_pos hi]
      by_cases he : entry = some arena
      · simp [he]
      · rw [if_neg he, hlen, mem_cons, or_iff_right (Ne.symm he), ← ih]
        grind
    · grind

theorem searchArena_notFound {capacity : Nat} {entries : List (Option A)} {i : Nat}
    (hmem : some arena ∉ entries) (hle : capacity ≤ i + entries.length) :
    (searchArena capacity arena i entries).2 = .notFound := by
  induction entries generalizing i with
  | nil =>
    unfold searchArena
    rw [if_neg (by simpa using hle)]
  | cons entry entries ih =>
    rw [length_cons] at hle
    unfold searchArena
    grind

namespace ArenaSegment

theorem search_inside_iff (seg : ArenaSegment A) (arena : A) :
    (∀ i ∈ (seg.search arena).1, i < seg.arenas.length) ↔
      some arena ∈ seg.arenas ∨ seg.messageCapacity.toNat ≤ seg.arenas.length := by
  have h := searchArena_inside_iff seg.messageCapacity.toNat arena seg.arenas 0
  rw [Nat.zero_add] at h
  exact h

theorem search_notFound {seg : ArenaSegment A} (hmem : some arena ∉ seg.arenas)
    (hle : seg.messageCapacity.toNat ≤ seg.arenas.length) : (seg.search arena).2 = .notFound :=
  searchArena_notFound hmem (by rwa [Nat.zero_add])

end ArenaSegment

section
omit [DecidableEq A]

namespace ArenaSegment

def Unmapped (seg : ArenaSegment A) : Prop := seg.state ≠ .shm ∧ seg.arenas = []

def Mapped (conf : ArenaChannelConf) (seg : ArenaSegment A) : Prop :=
  seg.state = .shm ∧ seg.arenas.length = conf.maxPoolSize.toNat ∧
    seg.messageCapacity = conf.maxMsgSize

def TableOk (conf : ArenaChannelConf) (seg : ArenaSegment A) : Prop :=
  seg.Mapped conf ∨ seg.Unmapped

variable {conf : ArenaChannelConf} {seg : ArenaSegment A}

theorem Unmapped.mapped (h : seg.Unmapped) (address : UInt64) :
    (seg.mapped conf.maxMsgSize conf.maxPoolSize address).Mapped conf := by
  refine ⟨rfl, ?_, rfl⟩
  rw [ArenaSegment.mapped, h.2]
  simp

theorem Unmapped.openOrCreate (h : seg.Unmapped) (conf : ArenaChannelConf) (env : OpenEnv)
    (m : Option ArenaShm) :
    ((seg.openOrCreate env conf.maxMsgSize conf.maxPoolSize m).1 = true →
      (seg.openOrCreate env conf.maxMsgSize conf.maxPoolSize m).2.2.Mapped conf) ∧
    ((seg.openOrCreate env conf.maxMsgSize conf.maxPoolSize m).1 = false →
      (seg.openOrCreate env conf.maxMsgSize conf.maxPoolSize m).2.2.Unmapped) := by
  obtain ⟨create, find, attach⟩ := env
  cases m with
  | some m =>
    cases find with
    | false => exact ⟨nofun, fun _ => h⟩
    | true =>
      cases attach with
      | none => exact ⟨nofun, fun _ => h⟩
      | some address => exact ⟨fun _ => h.mapped address, nofun⟩
  | none =>
    cases create with
    | failed => exact ⟨nofun, fun _ => h⟩
    | einval => exact ⟨nofun, fun _ => h⟩
    | created =>
      cases attach with
      | none => exact ⟨nofun, fun _ => h⟩
      | some address => exact ⟨fun _ => h.mapped address, nofun⟩

theorem Unmapped.init (h : seg.Unmapped) (env env' : OpenEnv) (m : Option ArenaShm) :
    (seg.init env env' conf.maxMsgSize conf.maxPoolSize m).2.TableOk conf := by
  unfold ArenaSegment.init
  obtain ⟨htrue, hfalse⟩ := h.openOrCreate conf env m
  split
  · rename_i m' seg' heq
    rw [heq] at htrue
    exact .inl (htrue rfl)
  · rename_i m' seg' heq
    rw [heq] at hfalse
    obtain ⟨htrue', hfalse'⟩ := (hfalse rfl).openOrCreate conf env' m'
    cases hok : (seg'.openOrCreate env' conf.maxMsgSize conf.maxPoolSize m').1 with
    | true => exact .inl (htrue' hok)
    | false => exact .inr (hfalse' hok)

theorem TableOk.le_iff (h : seg.TableOk conf) :
    seg.messageCapacity.toNat ≤ seg.arenas.length ↔
      if seg.state = .shm then conf.maxMsgSize ≤ conf.maxPoolSize
      else seg.messageCapacity = 0 := by
  rcases h with ⟨hstate, hlen, hcap⟩ | ⟨hstate, hnil⟩
  · rw [if_pos hstate, hlen, hcap, UInt64.le_iff_toNat_le]
  · rw [if_neg hstate, hnil, length_nil, Nat.le_zero, ← UInt64.toNat_inj]
    rfl

theorem TableOk.set (h : seg.TableOk conf) {index : Nat} (hlt : index < seg.arenas.length)
    (arena : A) : TableOk conf { seg with arenas := seg.arenas.set index (some arena) } := by
  rcases h with ⟨hstate, hlen, hcap⟩ | ⟨-, hnil⟩
  · exact .inl ⟨hstate, by rw [length_set, hlen], hcap⟩
  · grind

end ArenaSegment

namespace ArenaManager

def Ok (conf : UInt64 → ArenaChannelConf) (s : ArenaManager A) : Prop :=
  ∀ ch seg, s.segments ch = some seg → seg.TableOk (conf ch)

variable {conf : UInt64 → ArenaChannelConf} {s s' : ArenaManager A} {ch : UInt64}
  {seg : ArenaSegment A} {r : Option UInt64} {env : MakeEnv A}

theorem segments_setSegment_self : (s.setSegment ch seg).segments ch = some seg :=
  Function.update_self ..

theorem segments_setSegment_of_ne {ch' : UInt64} (h : ch' ≠ ch) :
    (s.setSegment ch seg).segments ch' = s.segments ch' :=
  Function.update_of_ne h ..

section
variable (h : s.Ok conf)
include h

theorem Ok.frame (heq : s'.segments = s.segments) : s'.Ok conf := by
  unfold Ok
  rw [heq]
  exact h

theorem Ok.setSegment (hseg : seg.TableOk (conf ch)) : (s.setSegment ch seg).Ok conf := by
  intro ch' seg' hseg'
  by_cases heq : ch' = ch
  · subst heq
    rw [segments_setSegment_self] at hseg'
    cases hseg'
    exact hseg
  · rw [segments_setSegment_of_ne heq] at hseg'
    exact h ch' seg' hseg'

theorem Ok.enableSegment (env : EnableEnv) : (s.enableSegment (conf ch) ch env).Ok conf := by
  unfold ArenaManager.enableSegment
  split
  · exact h
  · split
    · refine (h.frame rfl).setSegment (ArenaSegment.Unmapped.init ⟨?_, rfl⟩ env.first env.second _)
      grind
    · exact h

omit h in
theorem segments_acquireBlockToWrite {attempts : List Bool} {index : Option Nat}
    (h : s.acquireBlockToWrite ch seg attempts = some (index, s')) : s'.segments = s.segments := by
  unfold acquireBlockToWrite at h
  split at h
  · cases h
    rfl
  · cases h
  · obtain ⟨m, -, h⟩ := bind_eq_some_iff.1 h
    obtain ⟨r, -, h⟩ := bind_eq_some_iff.1 h
    cases h
    rfl

omit h in
theorem segments_releaseWrittenBlock {index : UInt64}
    (h : s.releaseWrittenBlock ch seg index = some s') : s'.segments = s.segments := by
  unfold releaseWrittenBlock at h
  split at h
  · cases h
    rfl
  · cases h
  · obtain ⟨m, -, h⟩ := bind_eq_some_iff.1 h
    cases h
    rfl

theorem Ok.makeArena (hseg : seg.TableOk (conf ch)) {index : Nat}
    (hs : s.makeArena ch seg index arena = some s') : s'.Ok conf := by
  unfold ArenaManager.makeArena at hs
  split at hs
  · rename_i hlt
    cases hs
    exact h.setSegment (hseg.set hlt.2 arena)
  · cases hs

theorem Ok.acquireArenaMessage (hs : s.acquireArenaMessage ch env = some s') : s'.Ok conf := by
  unfold ArenaManager.acquireArenaMessage at hs
  split at hs
  · cases hs
    exact h
  · rename_i seg hseg
    obtain ⟨⟨index, s1⟩, h1, hs⟩ := bind_eq_some_iff.1 hs
    have hok1 := h.frame (segments_acquireBlockToWrite h1)
    cases index with
    | none =>
      cases hs
      exact hok1
    | some index => exact hok1.makeArena (h ch seg hseg) hs

theorem Ok.setCopy {x x' : ExtendedStruct} (hseg : seg.TableOk (conf x.channelId))
    (hs : s.setCopy x seg env = some (r, x', s')) : s'.Ok conf := by
  obtain ⟨⟨index, s1⟩, h1, hs⟩ := bind_eq_some_iff.1 hs
  have hok1 := h.frame (segments_acquireBlockToWrite h1)
  cases index with
  | none =>
    cases hs
    exact hok1
  | some index =>
    have hch : (x.resetMessageRelatedBlocks.addMessageRelatedBlock
        (UInt64.ofNat index)).channelId = x.channelId := by
      unfold ExtendedStruct.addMessageRelatedBlock
      split
      · rfl
      · rfl
    obtain ⟨s2, h2, hs⟩ := bind_eq_some_iff.1 hs
    obtain ⟨s3, h3, hs⟩ := bind_eq_some_iff.1 hs
    cases hs
    refine (hok1.makeArena ?_ h2).frame (segments_releaseWrittenBlock h3)
    rw [hch]
    exact hseg

theorem Ok.setFound {x x' : ExtendedStruct} {message : UInt64} {index : Nat}
    (hs : s.setFound x seg message index = some (r, x', s')) : s'.Ok conf := by
  unfold ArenaManager.setFound at hs
  dsimp only at hs
  split at hs
  · cases hs
    exact h
  · obtain ⟨s1, h1, hs⟩ := bind_eq_some_iff.1 hs
    cases hs
    exact h.frame (segments_releaseWrittenBlock h1)

end

end ArenaManager

end

namespace ArenaManager

variable {conf : UInt64 → ArenaChannelConf} {s s' : ArenaManager A}

theorem step_ok (h : s.Ok conf) {ev : ManagerEvent A} (hs : s.step conf ev = some s') :
    s'.Ok conf := by
  cases ev with
  | enableSegment ch env =>
    cases hs
    exact h.enableSegment env
  | acquireArenaMessage ch env => exact h.acquireArenaMessage hs
  | others ch m =>
    cases hs
    exact h.frame rfl
  | setMessage x message env =>
    obtain ⟨⟨r, x', s1⟩, hset, rfl⟩ := map_eq_some_iff.1 hs
    unfold setMessage at hset
    split at hset
    · cases hset
      exact h
    · rename_i seg hseg
      split at hset
      · exact h.setCopy (h _ seg hseg) hset
      · split at hset
        · exact h.setFound hset
        all_goals grind

theorem searchesInside_iff (h : s.Ok conf) (ev : ManagerEvent A) :
    s.SearchesInside ev ↔ s.Bounded conf ev := by
  cases ev with
  | enableSegment ch env => exact Iff.rfl
  | acquireArenaMessage ch env => exact Iff.rfl
  | others ch m => exact Iff.rfl
  | setMessage x message env =>
    refine forall₂_congr fun arena harena => ?_
    have hbound : ∀ seg, s.segments x.channelId = some seg →
        ((some arena ∈ seg.arenas ∨ if seg.state = .shm then
          (conf x.channelId).maxMsgSize ≤ (conf x.channelId).maxPoolSize
          else seg.messageCapacity = 0) ↔
        (some arena ∈ seg.arenas ∨ seg.messageCapacity.toNat ≤ seg.arenas.length)) := by
      intro seg hseg
      rw [(h _ seg hseg).le_iff]
    constructor
    · intro hinside seg hseg
      exact (hbound seg hseg).2 ((seg.search_inside_iff arena).1 (hinside.1 seg hseg))
    · intro hbounded
      have hle := fun seg hseg => (hbound seg hseg).1 (hbounded seg hseg)
      refine ⟨fun seg hseg => (seg.search_inside_iff arena).2 (hle seg hseg), fun hmem => ?_⟩
      unfold setMessage
      split
      · rfl
      · rename_i seg hseg
        have hnone := hmem seg hseg
        rw [harena]
        dsimp only
        rw [ArenaSegment.search_notFound hnone ((hle seg hseg).resolve_left hnone)]

/-- **The search stays in the table in all calls exactly if the table is large enough in each.** -/
theorem always_searches_inside_iff (conf : UInt64 → ArenaChannelConf)
    (evs : List (ManagerEvent A)) :
    Along (bindStep (step conf)) (onSome SearchesInside) (some init) evs ↔
      Along (bindStep (step conf)) (onSome (Bounded conf)) (some init) evs := by
  refine along_congr (P := fun o => ∀ s ∈ o, Ok conf s) ?_ ?_ ?_
  · intro s hs
    cases hs
    exact fun _ _ hseg => nomatch hseg
  · intro o ev ho
    exact forall₂_congr fun s hs => searchesInside_iff (ho s hs) ev
  · intro o ev ho _ s' hs'
    obtain ⟨s, hs, hstep⟩ := bind_eq_some_iff.1 hs'
    exact step_ok (ho s hs) hstep

/-- The default configuration, a segment that is created and mapped, and a message in an arena of
its own: the search goes on behind the 32 entries. -/
theorem not_searches_inside_defaults :
    ¬ Along (bindStep (step fun _ => ⟨true, 33554432, 32⟩)) (onSome SearchesInside)
      (some (init : ArenaManager Nat))
      [.enableSegment 1 ⟨false, 0, 0, ⟨.created, true, some 4096⟩, ⟨.failed, false, none⟩⟩,
        .setMessage ⟨1, 0, fun _ => 0, 0⟩ ⟨8192, some 7⟩ ⟨[], 0, 0⟩] := by
  intro h
  have hinside := (h.2.1 _ rfl 7 rfl).1 _ rfl 32 (by decide +kernel)
  exact absurd hinside (by decide +kernel)

end ArenaManager

end Shm
