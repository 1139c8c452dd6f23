import CyberRT.Transport.MessageInfo
import Mathlib.Data.List.Perm.Basic
import CyberRT.Lib.Run

/-!
# The codec of `MessageInfo`

Both encoders write the same 40 bytes, but `kSize` is 44: `DeserializeFrom` wants `kSize` bytes, and
no string that `SerializeTo` makes has them.
-/

namespace Transport

open Lib

namespace MessageInfo

structure SameFields (m m' : MessageInfo) : Prop where
  senderId : m.senderId.data = m'.senderId.data
  channelId : m.channelId = m'.channelId
  seqNum : m.seqNum = m'.seqNum
  spareId : m.spareId.data = m'.spareId.data
  sendTime : m.sendTime = m'.sendTime

/-- **The codec**, for an object that is decoded into. -/
structure RoundTrips (hash : List UInt8 → UInt64) (m obj : MessageInfo) : Prop where
  string : ∃ m', obj.deserializeString hash m.serializeToString = (true, m') ∧ m'.SameFields m
  buffer : ∀ dst : List UInt8, dst.length = kSize → ∃ dst',
    m.serializeToBuffer dst kSize = (true, dst') ∧
      dst'.take m.serializeToString.length = m.serializeToString
  short : ∀ src len, len < kSize → obj.deserialize hash src len = (false, obj)

variable {hash : List UInt8 → UInt64} {m obj : MessageInfo}

theorem serializeToString_eq (m : MessageInfo) : m.serializeToString = m.bytes := rfl

theorem rehash_sameFields (hash : List UInt8 → UInt64) (m : MessageInfo) :
    (m.rehash hash).SameFields m := ⟨rfl, rfl, rfl, rfl, rfl⟩

theorem deserialize_of_ne {src : List UInt8} {len : Nat} (h : len ≠ kSize) :
    obj.deserialize hash src len = (false, obj) := by
  rw [deserialize, deserializeFrom, if_pos h]

theorem deserializeString_fails (hash : List UInt8 → UInt64) (m obj : MessageInfo) :
    obj.deserializeString hash m.serializeToString = (false, obj) := by
  rw [deserializeString, serializeToString_eq]
  apply deserialize_of_ne
  rw [bytes_length]
  decide

theorem serializeToBuffer_eq (m : MessageInfo) (dst : List UInt8) :
    m.serializeToBuffer dst kSize = (true, m.serializeToString ++ dst.drop fieldSize) := by
  rw [serializeToBuffer, serializeTo, if_neg (Nat.lt_irrefl _)]
  dsimp only
  rw [bytes_length]
  rfl

/-- **A string is never decoded**; all else is as it should be, and a buffer of `kSize` bytes is
decoded. -/
theorem string_never_decoded (hash : List UInt8 → UInt64) (m obj : MessageInfo) :
    ¬ RoundTrips hash m obj ∧
      (∀ dst : List UInt8, dst.length = kSize → ∃ dst' m',
        m.serializeToBuffer dst kSize = (true, dst') ∧
        dst'.take m.serializeToString.length = m.serializeToString ∧
        obj.deserialize hash dst' kSize = (true, m') ∧ m'.SameFields m) ∧
      ∀ src len, len < kSize → obj.deserialize hash src len = (false, obj) := by
  refine ⟨?_, fun dst _ => ?_, fun src len hlen => deserialize_of_ne (Nat.ne_of_lt hlen)⟩
  · rintro ⟨⟨m', hm', -⟩, -, -⟩
    rw [deserializeString_fails] at hm'
    cases hm'
  · refine ⟨_, m.rehash hash, m.serializeToBuffer_eq dst, List.take_left, ?_,
      rehash_sameFields hash m⟩
    rw [deserialize, serializeToString_eq, deserializeFrom_bytes]

def zero : MessageInfo :=
  ⟨⟨.replicate idSize 0, 0⟩, 0, 0, ⟨.replicate idSize 0, 0⟩, 0⟩

theorem not_roundTrips_zero : ¬ RoundTrips (fun _ => 0) zero zero := by
  rintro ⟨⟨m', hm', -⟩, -, -⟩
  cases hm'

end MessageInfo

/-! ## Equal identities and their hashes -/

namespace Identity

variable (hash : List UInt8 → UInt64)

/-- **Identities that compare equal have equal hashes.** -/
def SameHash (s : List Identity) : Prop :=
  ∀ a ∈ s, ∀ b ∈ s, a.operatorEq b = true → a.hashValue = b.hashValue

/-- No identity that was not given data stands beside one that was given zero bytes. -/
def Apart (s : List Identity) : IdentityEvent → Prop
  | .construct false _ => setData hash blank.data ∉ s
  | .construct true uuid => takeId uuid.toList = blank.data → blank ∉ s
  | .setData i (some data) => i < s.length → data = blank.data → blank ∉ s.eraseIdx i
  | _ => True

/-- Where the cached hashes come from. -/
def Cached (s : List Identity) : Prop := ∀ a ∈ s, a = blank ∨ a = setData hash a.data

/-- A step makes no new identity, or one that has no data, or one with data. -/
theorem step_cases (s : List Identity) (ev : IdentityEvent) :
    step hash s ev ⊆ s ∧ Apart hash s ev ∨
    (step hash s ev).Perm (blank :: s) ∧ (Apart hash s ev ↔ setData hash blank.data ∉ s) ∨
    ∃ l ⊆ s, ∃ d, (step hash s ev).Perm (setData hash d :: l) ∧
      (Apart hash s ev ↔ (d = blank.data → blank ∉ l)) := by
  have hs := List.Subset.refl s
  match ev with
  | .construct false _ => exact .inr (.inl ⟨List.perm_append_singleton _ _, Iff.rfl⟩)
  | .construct true _ => exact .inr (.inr ⟨s, hs, _, List.perm_append_singleton _ _, Iff.rfl⟩)
  | .copy rhs =>
    refine .inl ⟨List.append_subset.2 ⟨hs, fun a ha => ?_⟩, trivial⟩
    exact List.mem_of_getElem? (Option.mem_toList.1 ha)
  | .assign i rhs =>
    refine .inl ⟨fun a ha => ?_, trivial⟩
    rw [step] at ha
    split at ha
    · exact ha
    · cases hr : s[rhs]? with
      | none => simpa [hr] using ha
      | some b =>
        rw [hr] at ha
        obtain ha | rfl := List.mem_or_eq_of_mem_set ha
        · exact ha
        · exact List.mem_of_getElem? hr
  | .setData _ none => exact .inl ⟨hs, trivial⟩
  | .setData i (some d) =>
    by_cases hi : i < s.length
    · exact .inr (.inr ⟨_, List.eraseIdx_subset, d, List.set_perm_cons_eraseIdx hi _,
        forall_prop_of_true hi⟩)
    · refine .inl ⟨?_, fun h => absurd h hi⟩
      rw [step, List.set_eq_of_length_le (Nat.not_lt.1 hi)]
      exact hs

variable {hash} {s : List Identity}

theorem Cached.step (h : Cached hash s) (ev : IdentityEvent) : Cached hash (step hash s ev) := by
  intro a ha
  obtain ⟨hsub, -⟩ | ⟨hperm, -⟩ | ⟨l, hl, d, hperm, -⟩ := step_cases hash s ev
  · exact h a (hsub ha)
  · exact (List.mem_cons.1 (hperm.mem_iff.1 ha)).elim .inl (h a)
  · obtain rfl | ha := List.mem_cons.1 (hperm.mem_iff.1 ha)
    · exact .inr rfl
    · exact h a (hl ha)

theorem Cached.sameHash_iff (h : Cached hash s) (hz : hash blank.data.toList ≠ 0) :
    SameHash s ↔ blank ∈ s → setData hash blank.data ∉ s := by
  constructor
  · intro hs hb hd
    exact hz (hs _ hb _ hd (beq_self_eq_true _)).symm
  · intro hs a ha b hb hab
    have hdata : a.data = b.data := eq_of_beq hab
    obtain rfl | hca := h a ha <;> obtain rfl | hcb := h b hb
    · rfl
    · exact absurd (by rwa [hdata, ← hcb]) (hs ha)
    · exact absurd (by rwa [← hdata, ← hca]) (hs hb)
    · rw [hca, hcb, hdata]

theorem sameHash_step_iff (h : Cached hash s) (hz : hash blank.data.toList ≠ 0) (hs : SameHash s)
    (ev : IdentityEvent) : SameHash (step hash s ev) ↔ Apart hash s ev := by
  have hbz := (h.sameHash_iff hz).1 hs
  have hne (d : Vector UInt8 idSize) : blank ≠ setData hash d := by
    intro h
    obtain rfl : blank.data = d := congrArg data h
    exact hz (congrArg hashValue h).symm
  rw [(h.step ev).sameHash_iff hz]
  obtain ⟨hsub, hok⟩ | ⟨hperm, hok⟩ | ⟨l, hl, d, hperm, hok⟩ := step_cases hash s ev
  · exact iff_of_true (fun hb hd => hbz (hsub hb) (hsub hd)) hok
  · simp [hok, hperm.mem_iff, (hne _).symm]
  · have hd : setData hash blank.data = setData hash d ↔ d = blank.data :=
      ⟨fun h => (congrArg data h).symm, fun h => by rw [h]⟩
    simp only [hok, hperm.mem_iff, List.mem_cons, hne, hd, false_or, not_or]
    exact ⟨fun h hd hb => (h hb).1 hd,
      fun h hb => ⟨fun hd => h hd hb, fun hz => hbz (hl hb) (hl hz)⟩⟩

/-- **Equal identities and their hashes**, for every hash function and every sequence of calls. -/
theorem same_hash_iff (hash : List UInt8 → UInt64) (evs : List IdentityEvent) :
    Always (step hash) SameHash [] evs ↔
      hash blank.data.toList = 0 ∨ Along (step hash) (Apart hash) [] evs := by
  have h0 : Cached hash [] := nofun
  by_cases hz : hash blank.data.toList = 0
  · refine iff_of_true (always_of_inv h0 (fun _ ev h => h.step ev) fun s h a ha b hb hab => ?_)
      (.inl hz)
    have hall : ∀ a ∈ s, a.hashValue = hash a.data.toList := fun a ha =>
      (h a ha).elim (fun h => by rw [h, hz]; rfl) fun h => by rw [h]; rfl
    have hdata : a.data = b.data := eq_of_beq hab
    rw [hall a ha, hall b hb, hdata]
  · rw [or_iff_right hz]
    exact always_iff_along_of_inv (P := fun s => Cached hash s ∧ SameHash s) ⟨h0, nofun⟩
      (fun _ h => h.2) (fun s ev h hok => ⟨h.1.step ev, (sameHash_step_iff h.1 hz h.2 ev).2 hok⟩)
      fun s ev h => (sameHash_step_iff h.1 hz h.2 ev).1

/-- One identity is given the bytes of another that has none. -/
theorem not_same_hash_blank : ¬ Always (step fun _ => 1) SameHash []
    [.construct false (.replicate 16 0), .construct false (.replicate 16 0), .setData 1 (some blank.data)] := by
  intro h
  exact absurd (h.last blank (by decide) (setData (fun _ => 1) blank.data) (by decide) rfl) (by decide)

end Identity

end Transport
