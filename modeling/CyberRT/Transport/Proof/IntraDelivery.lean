import CyberRT.Transport.Proof.HandlerDelivery

/-!
# What an `IntraDispatcher` delivers

`Holds d r`: the chain's handler of a place and type serves the listeners registered there with that
type, and exists exactly when there is one (`ChainServes`); the handler of a channel serves the
wrappers `r.wires`, one for each place of the channel that has a listener of the channel's type; and
a place with a listener has one of the channel's type.
-/

namespace Transport

open Function Lib List Option IntraDispatcher Registry

variable {L M : Type*}

/-! ## Subscriptions by opposite id -/

namespace Subs

def get (s : Subs L) : Option UInt64 → List (UInt64 × L)
  | none => s.own
  | some o => s.oppo o

def set (s : Subs L) (g : Option UInt64) (l : List (UInt64 × L)) : Subs L :=
  match g with
  | none => { s with own := l }
  | some o => { s with oppo := Function.update s.oppo o l }

theorem get_set (s : Subs L) (g g' : Option UInt64) (l : List (UInt64 × L)) :
    (s.set g l).get g' = if g' = g then l else s.get g' := by
  cases g <;> cases g' <;> simp [get, set, update_apply]

@[simp] theorem get_empty (g : Option UInt64) : (empty : Subs L).get g = [] := by
  cases g <;> rfl

theorem ext_get {s t : Subs L} (h : ∀ g, s.get g = t.get g) : s = t := by
  obtain ⟨own, oppo⟩ := s
  obtain ⟨own', oppo'⟩ := t
  have h0 : own = own' := h none
  have h1 : oppo = oppo' := funext fun o => h (some o)
  rw [h0, h1]

end Subs

namespace Serves

variable {h : ListenerHandler L} {s : Subs L}

theorem connectIn (hs : Serves h s) (g : Option UInt64) (i : UInt64) (l : L) :
    Serves (h.connectIn g i l) (s.set g (s.get g ++ [(i, l)])) := by
  cases g with
  | none => exact hs.connect i l
  | some o => exact hs.connectOppo i o l

theorem disconnectIn (hs : Serves h s) (g : Option UInt64) (i : UInt64)
    (hone : (s.get g).countP (fun p => p.1 == i) ≤ 1) :
    Serves (h.disconnectIn g i) (s.set g ((s.get g).filter fun p => p.1 != i)) := by
  cases g with
  | none => exact hs.disconnect i hone
  | some o => exact hs.disconnectOppo i o hone

end Serves

/-! ## The chain -/

def ofType (ty : String) (es : List (Entry L)) : List (UInt64 × L) :=
  (es.filter fun e => e.ty == ty).map fun e => (e.selfId, e.listener)

structure ChainServes (chain : ChannelChain L) (entries : Place → List (Entry L)) : Prop where
  absent : ∀ {p ty}, (chain.handlers p)[ty]? = none → ∀ e ∈ entries p, e.ty ≠ ty
  serves : ∀ {p ty h}, (chain.handlers p)[ty]? = some h →
    Serves h (Subs.empty.set p.oppo (ofType ty (entries p))) ∧ ∃ e ∈ entries p, e.ty = ty

theorem ofType_append (ty : String) (es : List (Entry L)) (e : Entry L) :
    ofType ty (es ++ [e]) = if e.ty = ty then ofType ty es ++ [(e.selfId, e.listener)]
      else ofType ty es := by
  by_cases h : e.ty = ty <;> simp [ofType, h]

theorem ofType_eq_nil {ty : String} {es : List (Entry L)} (h : ∀ e ∈ es, e.ty ≠ ty) :
    ofType ty es = [] := by
  rw [ofType, filter_eq_nil_iff.2 (fun e he => by simpa using h e he), map_nil]

theorem ofType_filter {ty ty' : String} (hne : ty' ≠ ty) (i : UInt64) (es : List (Entry L)) :
    ofType ty' (es.filter fun e => !(e.selfId == i && e.ty == ty)) = ofType ty' es := by
  rw [ofType, ofType, List.filter_filter]
  grind

namespace ChainServes

variable {chain : ChannelChain L} {entries : Place → List (Entry L)}

section
variable (hc : ChainServes chain entries)
include hc

theorem addListener (i : UInt64) (p : Place) (ty : String) (l : L) :
    ChainServes (chain.addListener i p ty l).1
      (Function.update entries p (entries p ++ [⟨i, ty, l⟩])) := by
  -- the handler that `GetHandler` finds or makes serves the listeners of the type
  have hserves : Serves (chain.getHandler p ty).1
      (Subs.empty.set p.oppo (ofType ty (entries p))) := by
    unfold ChannelChain.getHandler
    split
    · rename_i h hh
      exact (hc.serves hh).1
    · rename_i hn
      rw [ofType_eq_nil (hc.absent hn)]
      have he : (Subs.empty : Subs L).set p.oppo [] = Subs.empty :=
        Subs.ext_get fun g => by simp [Subs.get_set]
      rw [he]
      exact Serves.empty
  have hnew := hserves.connectIn p.oppo i l
  have hsubs : (Subs.empty.set p.oppo (ofType ty (entries p))).set p.oppo
      ((Subs.empty.set p.oppo (ofType ty (entries p))).get p.oppo ++ [(i, l)]) =
      Subs.empty.set p.oppo (ofType ty (entries p ++ [⟨i, ty, l⟩])) :=
    Subs.ext_get fun g => by
      by_cases hg : g = p.oppo <;> simp [Subs.get_set, hg, ofType_append]
  rw [hsubs] at hnew
  refine ⟨fun {q t} hn e he => ?_, fun {q t h} hh => ?_⟩
  · by_cases hq : q = p
    · subst hq
      simp only [ChannelChain.addListener, update_self, Std.TreeMap.getElem?_insert,
        Std.compare_eq_iff_eq] at hn he
      split at hn
      · cases hn
      · rcases mem_append.1 he with he | he
        · exact hc.absent hn e he
        · grind
    · simp only [ChannelChain.addListener, update_of_ne hq] at hn he
      exact hc.absent hn e he
  · by_cases hq : q = p
    · subst hq
      simp only [ChannelChain.addListener, update_self, Std.TreeMap.getElem?_insert,
        Std.compare_eq_iff_eq] at hh
      rw [update_self]
      split at hh
      · rename_i hty
        obtain rfl := hty
        cases hh
        exact ⟨hnew, _, mem_append_right _ (mem_singleton_self _), rfl⟩
      · rename_i hne
        obtain ⟨hs, e, he, hty⟩ := hc.serves hh
        rw [ofType_append, if_neg hne]
        exact ⟨hs, e, mem_append_left _ he, hty⟩
    · simp only [ChannelChain.addListener, update_of_ne hq] at hh
      rw [update_of_ne hq]
      exact hc.serves hh

theorem created_iff (i : UInt64) (p : Place) (ty : String) (l : L) :
    (chain.addListener i p ty l).2 = true ↔ ∀ e ∈ entries p, e.ty ≠ ty := by
  show (chain.getHandler p ty).2 = true ↔ _
  unfold ChannelChain.getHandler
  split
  · rename_i h hh
    obtain ⟨-, e, he, hty⟩ := hc.serves hh
    exact ⟨fun hf => by simp at hf, fun hall => absurd hty (hall e he)⟩
  · rename_i hn
    exact ⟨fun _ => hc.absent hn, fun _ => rfl⟩

theorem removeListener (i : UInt64) (p : Place) (ty : String)
    (hok : ∀ e ∈ entries p, ¬ (e.selfId = i ∧ e.ty = ty) → e.ty ≠ ty) :
    ChainServes (chain.removeListener p ty) (Function.update entries p
      ((entries p).filter fun e => !(e.selfId == i && e.ty == ty))) := by
  refine ⟨fun {q t} hn e he => ?_, fun {q t h} hh => ?_⟩
  · by_cases hq : q = p
    · subst hq
      simp only [ChannelChain.removeListener, update_self, Std.TreeMap.getElem?_erase,
        Std.compare_eq_iff_eq, mem_filter] at hn he
      obtain ⟨he, hkeep⟩ := he
      split at hn
      · grind
      · exact hc.absent hn e he
    · simp only [ChannelChain.removeListener, update_of_ne hq] at hn he
      exact hc.absent hn e he
  · by_cases hq : q = p
    · subst hq
      simp only [ChannelChain.removeListener, update_self, Std.TreeMap.getElem?_erase,
        Std.compare_eq_iff_eq] at hh
      rw [update_self]
      split at hh
      · cases hh
      · rename_i hne
        obtain ⟨hs, e, he, hty⟩ := hc.serves hh
        rw [ofType_filter (Ne.symm hne)]
        grind
    · simp only [ChannelChain.removeListener, update_of_ne hq] at hh
      rw [update_of_ne hq]
      exact hc.serves hh

end

theorem runHandler {h : ListenerHandler L} {s : Subs L} (hs : Serves h s) (codec : Codec M)
    (messageType : String) (msg : M) (info : MessageInfo) (ty : String) :
    ChannelChain.runHandler codec messageType msg info ty h =
      (((codec.recast messageType ty msg).map fun m => s.calls m info).getD [], h) := by
  unfold ChannelChain.runHandler Codec.recast
  split
  · exact hs.run msg info
  · cases codec.serialize messageType msg with
    | none => rfl
    | some str =>
      cases str with
      | nil => simp [codec.parse_nil]
      | cons b str =>
        simp only [isEmpty_cons, Bool.false_eq_true, if_false, bind_some,
          ListenerHandler.runFromString]
        cases codec.parse ty (b :: str) with
        | none => rfl
        | some m => exact hs.run m info

def placeCalls (codec : Codec M) (messageType : String) (msg : M) (info : MessageInfo)
    (es : List (Entry L)) : List (L × M × MessageInfo) :=
  es.filterMap fun e =>
    (codec.recast messageType e.ty msg).map fun msg => (e.listener, msg, info)

theorem flatMap_filter_perm {α β : Type*} [DecidableEq β] (f : α → β) :
    ∀ {ks : List β} {l : List α}, ks.Nodup → (∀ a ∈ l, f a ∈ ks) →
      (ks.flatMap fun k => l.filter fun a => f a == k).Perm l
  | [], l, _, hl => by
    rw [eq_nil_iff_forall_not_mem.2 fun a ha => not_mem_nil (hl a ha)]
    exact .refl _
  | k :: ks, l, hnd, hl => by
    obtain ⟨hk, hnd⟩ := nodup_cons.1 hnd
    have hrest : (ks.flatMap fun k' => l.filter fun a => f a == k') =
        ks.flatMap fun k' => (l.filter fun a => !(f a == k)).filter fun a => f a == k' := by
      refine flatMap_congr fun k' hk' => ?_
      rw [List.filter_filter]
      grind
    have ih := flatMap_filter_perm f (l := l.filter fun a => !(f a == k)) hnd fun a ha => by
      grind
    rw [flatMap_cons, hrest]
    exact (List.Perm.append_left _ ih).trans (filter_append_perm _ l)

theorem run (hc : ChainServes chain entries) (codec : Codec M) {p : Place} {info : MessageInfo}
    (hp : p.oppo = none ∨ p.oppo = some info.senderId.hashValue) (messageType : String) (msg : M) :
    (chain.run codec p messageType msg info).1.Perm
        (placeCalls codec messageType msg info (entries p)) ∧
      ChainServes (chain.run codec p messageType msg info).2 entries := by
  constructor
  · have hcalls : ∀ q ∈ (chain.handlers p).toList,
        (ChannelChain.runHandler codec messageType msg info q.1 q.2).1 =
          placeCalls codec messageType msg info ((entries p).filter fun e => e.ty == q.1) := by
      rintro ⟨ty, h⟩ hq
      obtain ⟨hs, -⟩ := hc.serves (Std.TreeMap.mem_toList_iff_getElem?_eq_some.1 hq)
      rw [runHandler hs]
      have hty : placeCalls codec messageType msg info ((entries p).filter fun e => e.ty == ty) =
          ((entries p).filter fun e => e.ty == ty).filterMap fun e =>
            (codec.recast messageType ty msg).map fun msg => (e.listener, msg, info) := by
        refine filterMap_congr fun e he => ?_
        rw [eq_of_beq (mem_filter.1 he).2]
      rw [hty]
      cases codec.recast messageType ty msg with
      | none => simp
      | some m =>
        rcases hp with hp | hp <;>
          simp [hp, Subs.calls, Subs.set, Subs.empty, ofType, comp_def]
    have hflat : (chain.run codec p messageType msg info).1 =
        placeCalls codec messageType msg info
          ((chain.handlers p).keys.flatMap fun ty => (entries p).filter fun e => e.ty == ty) := by
      show (chain.handlers p).toList.flatMap _ = _
      rw [flatMap_congr hcalls, placeCalls, filterMap_flatMap,
        ← Std.TreeMap.map_fst_toList_eq_keys, flatMap_map]
      rfl
    rw [hflat]
    refine (flatMap_filter_perm _ Std.TreeMap.nodup_keys fun e he => ?_).filterMap _
    rw [Std.TreeMap.mem_keys, Std.TreeMap.mem_iff_isSome_getElem?]
    by_contra hn
    exact hc.absent (not_isSome_iff_eq_none.1 hn) e he rfl
  · -- no handler changes
    have hget : ∀ (q : Place) (ty : String),
        ((chain.run codec p messageType msg info).2.handlers q)[ty]? =
        (chain.handlers q)[ty]? := by
      intro q ty
      by_cases hq : q = p
      · subst hq
        simp only [ChannelChain.run, update_self, Std.TreeMap.getElem?_map]
        cases hh : (chain.handlers q)[ty]? with
        | none => rfl
        | some h => rw [map_some, runHandler (hc.serves hh).1]
      · simp only [ChannelChain.run, update_of_ne hq]
    exact ⟨fun hn => hc.absent (by rwa [hget] at hn), fun hh => hc.serves (by rwa [hget] at hh)⟩

end ChainServes

/-! ## The wrappers of a channel -/

namespace Registry

def wire (r : Registry L) (p : Place) : List (UInt64 × Wrapper) :=
  match r.chanType p.channelId with
  | none => []
  | some ty =>
    ((r.entries p).find? fun e => e.ty == ty).toList.map fun e => (e.selfId, ⟨e.selfId, p, ty⟩)

def wires (r : Registry L) (channelId : UInt64) : Subs Wrapper :=
  ⟨r.wire ⟨channelId, none⟩, fun o => r.wire ⟨channelId, some o⟩⟩

theorem wires_get (r : Registry L) (channelId : UInt64) (g : Option UInt64) :
    (r.wires channelId).get g = r.wire ⟨channelId, g⟩ := by
  cases g <;> rfl

def Reached (r : Registry L) (p : Place) : Prop :=
  r.entries p ≠ [] → ∃ e ∈ r.entries p, r.chanType p.channelId = some e.ty

theorem Reached.nil {r : Registry L} {p : Place} (h : r.Reached p)
    (hn : r.chanType p.channelId = none) : r.entries p = [] := by
  by_contra hne
  obtain ⟨e, -, he⟩ := h hne
  rw [hn] at he
  cases he

theorem wire_of_none {r : Registry L} {p : Place} (hn : r.chanType p.channelId = none) :
    r.wire p = [] := by
  rw [wire, hn]

theorem wire_of_some {r : Registry L} {p : Place} {ty : String}
    (ht : r.chanType p.channelId = some ty) : r.wire p =
      ((r.entries p).find? fun e => e.ty == ty).toList.map fun e =>
        (e.selfId, ⟨e.selfId, p, ty⟩) := by
  rw [wire, ht]

theorem wire_cases {r : Registry L} {p : Place} {ty : String} (h : r.Reached p)
    (ht : r.chanType p.channelId = some ty) :
    (r.wire p = [] ∧ r.entries p = []) ∨ ∃ i, r.wire p = [(i, ⟨i, p, ty⟩)] := by
  rw [wire_of_some ht]
  cases hf : (r.entries p).find? fun e => e.ty == ty with
  | some e => exact .inr ⟨e.selfId, rfl⟩
  | none =>
    refine .inl ⟨rfl, ?_⟩
    by_contra hne
    obtain ⟨e, he, hty⟩ := h hne
    grind

theorem wire_length (r : Registry L) (p : Place) : (r.wire p).length ≤ 1 := by
  unfold wire
  grind

end Registry

structure Holds (d : IntraDispatcher L) (r : Registry L) : Prop where
  chain : ChainServes d.chain r.entries
  types : ∀ c, (d.msgListeners c).map (·.1) = r.chanType c
  wired : ∀ {c ty h}, d.msgListeners c = some (ty, h) → Serves h (r.wires c)
  reached : ∀ p, r.Reached p

theorem Holds.new : Holds (.new : IntraDispatcher L) .empty where
  chain := ⟨fun _ e he => by simp [empty] at he, fun hh => by
    simp [IntraDispatcher.new] at hh⟩
  types _ := rfl
  wired h := by cases h
  reached _ h := absurd rfl h

/-! ## A message -/

theorem runWrappers_perm (codec : Codec M) {r : Registry L} {c : UInt64} {ty : String}
    (ht : r.chanType c = some ty) (hr : ∀ p, r.Reached p) (msg : M) {info : MessageInfo} :
    ∀ (ps : List Place) {chain : ChannelChain L}, ChainServes chain r.entries →
      (∀ p ∈ ps, p.channelId = c ∧ (p.oppo = none ∨ p.oppo = some info.senderId.hashValue)) →
      let ran := runWrappers codec chain
        (ps.flatMap fun p => (r.wire p).map fun w => (w.2, msg, info))
      ran.1.Perm (ChainServes.placeCalls codec ty msg info (ps.flatMap r.entries)) ∧
        ChainServes ran.2 r.entries
  | [], _, hc, _ => ⟨.refl _, hc⟩
  | p :: ps, chain, hc, hps => by
    obtain ⟨rfl, hp⟩ := hps p mem_cons_self
    have hrest := fun q hq => hps q (mem_cons_of_mem p hq)
    rcases wire_cases (hr p) ht with ⟨hw, he⟩ | ⟨i, hw⟩
    · have ih := runWrappers_perm codec ht hr msg ps hc hrest
      simpa only [flatMap_cons, hw, he, map_nil, nil_append] using ih
    · obtain ⟨hrun, hc'⟩ := hc.run codec hp ty msg
      obtain ⟨ih, hc''⟩ := runWrappers_perm codec ht hr msg ps hc' hrest
      simp only [flatMap_cons, hw, map_cons, map_nil, cons_append, nil_append,
        runWrappers, ChainServes.placeCalls, filterMap_append] at hrun ih hc'' ⊢
      exact ⟨hrun.append ih, hc''⟩

theorem Holds.onMessage_eq {d : IntraDispatcher L} {r : Registry L} (hd : Holds d r)
    (codec : Codec M) {c : UInt64} {ty : String} {h : ListenerHandler Wrapper}
    (hl : d.msgListeners c = some (ty, h)) (messageType : String) (msg : M) (info : MessageInfo) :
    d.onMessage codec c messageType msg info =
      let ran := runWrappers codec d.chain
        (((codec.recast messageType ty msg).map fun m => (r.wires c).calls m info).getD [])
      (ran.1, { d with chain := ran.2 }) := by
  have hs := hd.wired hl
  have hrun : runChannel codec ty h messageType msg info =
      (((codec.recast messageType ty msg).map fun m => (r.wires c).calls m info).getD [], h) := by
    unfold runChannel Codec.recast
    by_cases hty : ty = messageType
    · simp only [hty, if_true, map_some, getD_some]
      exact hs.run msg info
    · simp only [hty, Ne.symm hty, if_false]
      cases codec.serialize messageType msg with
      | none => rfl
      | some str =>
        simp only [bind_some, ListenerHandler.runFromString]
        cases codec.parse ty str with
        | none => rfl
        | some m => exact hs.run m info
  simp only [IntraDispatcher.onMessage, hl, hrun]
  rw [← hl, update_eq_self]

theorem Holds.onMessage {d : IntraDispatcher L} {r : Registry L} (hd : Holds d r) {codec : Codec M}
    {c : UInt64} {messageType : String} {msg : M} {info : MessageInfo}
    (hok : r.StepOk codec (.message c messageType msg info)) :
    (d.onMessage codec c messageType msg info).1.Perm (r.calls codec c messageType msg info) ∧
      Holds (d.onMessage codec c messageType msg info).2 r := by
  have htypes := hd.types c
  -- the message takes the way through the channel's type
  have hvia : r.calls codec c messageType msg info = (r.matching c info).filterMap fun e =>
      (r.viaChannel codec c messageType msg e.ty).map fun msg => (e.listener, msg, info) :=
    filterMap_congr fun e he => by rw [hok e he]
  rw [hvia]
  cases hl : d.msgListeners c with
  | none =>
    -- nobody has ever listened to the channel
    rw [hl, map_none] at htypes
    simp only [IntraDispatcher.onMessage, hl, viaChannel, ← htypes]
    exact ⟨by simp, hd⟩
  | some th =>
    obtain ⟨ty, h⟩ := th
    replace htypes : some ty = r.chanType c := by rwa [hl] at htypes
    rw [hd.onMessage_eq codec hl]
    have hcalls : ((r.matching c info).filterMap fun e =>
        (r.viaChannel codec c messageType msg e.ty).map fun msg => (e.listener, msg, info)) =
        ((codec.recast messageType ty msg).map fun m =>
          ChainServes.placeCalls codec ty m info (r.matching c info)).getD [] := by
      unfold viaChannel ChainServes.placeCalls
      rw [← htypes]
      cases hm : codec.recast messageType ty msg <;> simp [hm]
    rw [hcalls]
    cases codec.recast messageType ty msg with
    | none => exact ⟨.refl _, hd⟩
    | some m =>
      have hps : ∀ p ∈ [(⟨c, none⟩ : Place), ⟨c, some info.senderId.hashValue⟩],
          p.channelId = c ∧ (p.oppo = none ∨ p.oppo = some info.senderId.hashValue) := by
        simp
      obtain ⟨hperm, hc⟩ := runWrappers_perm codec htypes.symm hd.reached m _ hd.chain hps
      simp only [flatMap_cons, flatMap_nil, append_nil, ← map_append] at hperm hc
      exact ⟨hperm, hc, hd.types, hd.wired, hd.reached⟩

/-! ## Adding and removing -/

namespace Registry

variable {r : Registry L} {p : Place} {ty : String} {l : L} {i : UInt64} {codec : Codec M}

section
variable (hr : ∀ q, r.Reached q)
include hr

/-- Adding a listener changes the wrapper of its place only, if at all: it makes one when the place
has no listener of the type of the channel and it is of that type itself. -/
theorem wire_add (i : UInt64) (p : Place) (ty : String) (l : L) (q : Place) :
    (r.step (.add i p ty l : IntraOp L M)).wire q =
      if q = p ∧ (r.chanType p.channelId).getD ty = ty ∧ (∀ e ∈ r.entries p, e.ty ≠ ty) then
        [(i, ⟨i, p, ty⟩)]
      else r.wire q := by
  by_cases hq : q = p
  · subst hq
    cases ht : r.chanType q.channelId with
    | none =>
      have hnew : (r.step (.add i q ty l : IntraOp L M)).chanType q.channelId = some ty := by
        simp [step, ht]
      rw [wire_of_some hnew]
      simp [step, (hr q).nil ht]
    | some ty' =>
      have hnew : (r.step (.add i q ty l : IntraOp L M)).chanType q.channelId = some ty' := by
        simp [step, ht]
      rw [wire_of_some hnew, wire_of_some ht]
      simp only [step, update_self, find?_append, getD_some, true_and]
      by_cases hty : ty' = ty
      · cases hf : (r.entries q).find? fun e => e.ty == ty' with
        | none => grind
        | some e => grind
      · simp [hty, Ne.symm hty]
  · by_cases hc : q.channelId = p.channelId
    · cases ht : r.chanType p.channelId with
      | none =>
        have hnew : (r.step (.add i p ty l : IntraOp L M)).chanType q.channelId = some ty := by
          simp [step, hc, ht]
        rw [wire_of_some hnew, wire_of_none (by rw [hc, ht])]
        simp [step, hq, (hr q).nil (by rw [hc, ht])]
      | some ty' => simp [wire, step, hc, ht, hq]
    · simp [wire, step, hc, hq]

omit hr in
theorem wire_remove (hok : r.StepOk codec (.remove i p ty : IntraOp L M)) (q : Place) :
    (r.step (.remove i p ty : IntraOp L M)).wire q =
      if q = p then (r.wire p).filter fun w => w.1 != i else r.wire q := by
  by_cases hq : q = p
  · subst hq
    rw [if_pos rfl]
    cases ht : r.chanType q.channelId with
    | none =>
      rw [wire_of_none ht, wire_of_none (r := r.step _) (by simpa [step] using ht)]
      rfl
    | some t =>
      rw [wire_of_some ht, wire_of_some (r := r.step _) (by simpa [step] using ht)]
      simp only [step, update_self, find?_filter]
      simp only [StepOk, ht] at hok
      cases hf : (r.entries q).find? fun e => e.ty == t with
      | none => grind
      | some e =>
        obtain ⟨het, as, bs, hes, has⟩ := find?_eq_some_iff_append.1 hf
        have het : e.ty = t := by simpa using het
        have hmem : e ∈ r.entries q := by simp [hes]
        by_cases hei : e.selfId = i
        · -- the wrapper is that of the removed listener, and then there is no other listener
          have hty : e.ty = ty := by
            by_contra hne
            exact (hok e hmem fun h => hne h.2).2.2 (by rw [het]) hei
          have hall : ∀ a ∈ r.entries q, a.selfId = i ∧ a.ty = ty := by
            intro a ha
            by_contra hn
            exact (hok a ha hn).2.1 (by rw [← het, hty])
          rw [find?_eq_none.2 fun a ha => by simp [hall a ha]]
          simp [hei]
        · -- the wrapper is that of a listener that stays
          have hstay : ((r.entries q).find? fun a =>
              decide ((!(a.selfId == i && a.ty == ty)) = true ∧ (a.ty == t) = true)) = some e := by
            refine find?_eq_some_iff_append.2 ⟨by simp [hei, het], as, bs, hes, fun a ha => ?_⟩
            have := has a ha
            simp_all
          rw [hstay]
          simp [hei]
  · rw [if_neg hq]
    simp [wire, step, hq]

theorem wires_add (i : UInt64) (p : Place) (ty : String) (l : L)
    (c : UInt64) : (r.step (.add i p ty l : IntraOp L M)).wires c =
      if c = p.channelId ∧ (r.chanType p.channelId).getD ty = ty ∧ (∀ e ∈ r.entries p, e.ty ≠ ty)
      then (r.wires c).set p.oppo [(i, ⟨i, p, ty⟩)] else r.wires c := by
  refine Subs.ext_get fun g => ?_
  rw [wires_get, wire_add hr]
  by_cases hc : c = p.channelId
  · subst hc
    by_cases hg : g = p.oppo
    · subst hg
      simp only [true_and]
      split
      · rw [Subs.get_set, if_pos rfl]
      · rw [wires_get]
    · rw [if_neg fun h => hg (by rw [← h.1])]
      split
      · rw [Subs.get_set, if_neg hg, wires_get]
      · rw [wires_get]
  · rw [if_neg fun h => hc (by rw [← h.1]), if_neg fun h => hc h.1, wires_get]

omit hr in
theorem wires_remove (hok : r.StepOk codec (.remove i p ty : IntraOp L M)) (c : UInt64) :
    (r.step (.remove i p ty : IntraOp L M)).wires c =
      if c = p.channelId then
        (r.wires c).set p.oppo (((r.wires c).get p.oppo).filter fun w => w.1 != i)
      else r.wires c := by
  refine Subs.ext_get fun g => ?_
  rw [wires_get, wire_remove hok]
  by_cases hc : c = p.channelId
  · subst hc
    rw [if_pos rfl, Subs.get_set, wires_get, wires_get]
    by_cases hg : g = p.oppo
    · rw [if_pos hg, if_pos (by rw [hg])]
    · rw [if_neg hg, if_neg fun h => hg (by rw [← h])]
  · rw [if_neg fun h => hc (by rw [← h]), if_neg hc, wires_get]

theorem reached_add (hok : r.StepOk codec (.add i p ty l : IntraOp L M)) (q : Place) :
    (r.step (.add i p ty l : IntraOp L M)).Reached q := by
  intro hne
  by_cases hq : q = p
  · subst hq
    simp only [step, update_self]
    rcases hok with hty | ⟨e, he, hty⟩
    · exact ⟨_, mem_append_right _ (mem_singleton_self _), by simp [hty]⟩
    · exact ⟨e, mem_append_left _ he, by simp [hty]⟩
  · simp only [step, update_of_ne hq] at hne ⊢
    obtain ⟨e, he, hty⟩ := hr q hne
    grind

theorem reached_remove (hok : r.StepOk codec (.remove i p ty : IntraOp L M))
    (q : Place) : (r.step (.remove i p ty : IntraOp L M)).Reached q := by
  intro hne
  by_cases hq : q = p
  · subst hq
    simp only [step, update_self] at hne ⊢
    -- what is left is not of the type of the removed listener, and neither is the channel
    obtain ⟨a, ha⟩ := exists_mem_of_ne_nil _ hne
    obtain ⟨ha, hkeep⟩ := mem_filter.1 ha
    obtain ⟨-, hchan, -⟩ := hok a ha fun ⟨h1, h2⟩ => by simp [h1, h2] at hkeep
    obtain ⟨e, he, hty⟩ := hr q (ne_nil_of_mem ha)
    grind
  · simp only [step, update_of_ne hq] at hne ⊢
    exact hr q hne

end

end Registry

namespace Holds

variable {d : IntraDispatcher L} {r : Registry L} {codec : Codec M}

section
variable (hd : Holds d r)
include hd

theorem update {chain : ChannelChain L} {r' : Registry L} {c : UInt64} {t : String}
    {h : ListenerHandler Wrapper} (hchain : ChainServes chain r'.entries)
    (htype : r'.chanType = Function.update r.chanType c (some t)) (hs : Serves h (r'.wires c))
    (hother : ∀ c', c' ≠ c → r'.wires c' = r.wires c') (hreach : ∀ p, r'.Reached p) :
    Holds ⟨chain, Function.update d.msgListeners c (some (t, h))⟩ r' := by
  refine ⟨hchain, fun c' => ?_, fun {c' t' h'} hl => ?_, hreach⟩
  · by_cases hc : c' = c
    · subst hc
      simp [htype]
    · simpa [htype, hc] using hd.types c'
  · by_cases hc : c' = c
    · grind
    · simp only [update_of_ne hc] at hl
      rw [hother c' hc]
      exact hd.wired hl

theorem add {i : UInt64} {p : Place} {ty : String} {l : L}
    (hok : r.StepOk codec (.add i p ty l : IntraOp L M)) :
    Holds (d.addListener i p ty l) (r.step (.add i p ty l : IntraOp L M)) := by
  have hcreated := hd.chain.created_iff i p ty l
  have hwires := wires_add (M := M) hd.reached i p ty l
  have htypes := hd.types p.channelId
  have hmk : ∀ (t : String) (h : ListenerHandler Wrapper), (r.chanType p.channelId).getD ty = t →
      Serves h ((r.step (.add i p ty l : IntraOp L M)).wires p.channelId) →
      Holds ⟨(d.chain.addListener i p ty l).1,
        Function.update d.msgListeners p.channelId (some (t, h))⟩
        (r.step (.add i p ty l : IntraOp L M)) := by
    intro t h ht hs
    refine hd.update (hd.chain.addListener i p ty l) (by rw [← ht]; rfl) hs (fun c hc => ?_)
      (reached_add hd.reached hok)
    rw [hwires, if_neg fun h => hc h.1]
  unfold addListener getHandler
  cases hl : d.msgListeners p.channelId with
  | none =>
    -- the first listener of the channel: it gives the channel its type and a wrapper
    rw [hl, map_none] at htypes
    have hno : ∀ e ∈ r.entries p, e.ty ≠ ty := by simp [(hd.reached p).nil htypes.symm]
    have hty : (r.chanType p.channelId).getD ty = ty := by simp [← htypes]
    have hempty : r.wires p.channelId = Subs.empty :=
      Subs.ext_get fun g => by
        rw [wires_get, Subs.get_empty]
        exact wire_of_none htypes.symm
    simp only [hl, hcreated.2 hno, if_true, update_idem]
    refine hmk ty _ hty ?_
    rw [hwires, if_pos ⟨rfl, hty, hno⟩, hempty]
    simpa using Serves.empty.connectIn p.oppo i (⟨i, p, ty⟩ : Wrapper)
  | some th =>
    obtain ⟨t, h⟩ := th
    have hs := hd.wired hl
    replace htypes : some t = r.chanType p.channelId := by rwa [hl] at htypes
    have ht : (r.chanType p.channelId).getD ty = t := by simp [← htypes]
    by_cases hnew : t = ty ∧ (d.chain.addListener i p ty l).2 = true
    · -- the first listener of the channel's type at its place: it gets the wrapper of the place
      obtain ⟨rfl, hcr⟩ := hnew
      have hno := hcreated.1 hcr
      have hnil : (r.wires p.channelId).get p.oppo = [] := by
        rw [wires_get, wire_of_some htypes.symm, find?_eq_none.2]
        all_goals grind
      simp only [hl, hcr, if_true]
      refine hmk t _ ht ?_
      rw [hwires, if_pos ⟨rfl, ht, hno⟩]
      simpa [hnil] using hs.connectIn p.oppo i (⟨i, p, t⟩ : Wrapper)
    · -- otherwise the handler of the channel stays as it is
      have hkeep := hmk t h ht (by
        rw [hwires, if_neg fun ⟨_, h1, h2⟩ => hnew ⟨by rw [← ht, h1], hcreated.2 h2⟩]
        exact hs)
      rw [← hl, update_eq_self] at hkeep
      grind

theorem remove {i : UInt64} {p : Place} {ty : String}
    (hok : r.StepOk codec (.remove i p ty : IntraOp L M)) :
    Holds (d.removeListener i p ty) (r.step (.remove i p ty : IntraOp L M)) := by
  have hchain := hd.chain.removeListener i p ty fun e he hne => (hok e he hne).1
  have hwires := wires_remove hok
  have hreach := reached_remove hd.reached hok
  have htypes := hd.types p.channelId
  unfold removeListener
  cases hl : d.msgListeners p.channelId with
  | none =>
    rw [map_none, ← hl, update_eq_self]
    refine ⟨hchain, hd.types, fun {c t h} hl' => ?_, hreach⟩
    have hc : c ≠ p.channelId := fun hc => by
      grind
    rw [hwires, if_neg hc]
    exact hd.wired hl'
  | some th =>
    obtain ⟨t, h⟩ := th
    replace htypes : some t = r.chanType p.channelId := by rwa [hl] at htypes
    refine hd.update hchain ?_ ?_ (fun c hc => by rw [hwires, if_neg hc]) hreach
    · rw [htypes, update_eq_self]
      rfl
    · rw [hwires, if_pos rfl]
      refine (hd.wired hl).disconnectIn p.oppo i ?_
      rw [wires_get]
      exact Nat.le_trans countP_le_length (r.wire_length p)

theorem step (op : IntraOp L M) (hok : r.StepOk codec op) :
    Holds (d.step codec op) (r.step op) := by
  cases op with
  | add i p ty l => exact hd.add hok
  | remove i p ty => exact hd.remove hok
  | message c ty msg info => exact (hd.onMessage hok).2

end

end Holds

/-! ## Every sequence of calls -/

/-- **What the dispatcher is to deliver**: each message of the calls `ops` makes one call for each
listener that is registered for it then, and no other; in particular it calls each of these
listeners, if it reads as a message of the listeners' types. -/
def IntraDelivers (codec : Codec M) (ops : List (IntraOp L M)) : Prop :=
  ∀ pre c ty msg info suf, ops = pre ++ .message c ty msg info :: suf →
    let called := ((pre.foldl (step codec) .new).onMessage codec c ty msg info).1
    let r := pre.foldl step .empty
    called.Perm (r.calls codec c ty msg info) ∧
      ((∀ e ∈ r.matching c info, (codec.recast ty e.ty msg).isSome) →
        (called.map (·.1)).Perm ((r.matching c info).map (·.listener)))

theorem Registry.calls_listeners {r : Registry L} {codec : Codec M} {c : UInt64} {ty : String}
    {msg : M} {info : MessageInfo}
    (h : ∀ e ∈ r.matching c info, (codec.recast ty e.ty msg).isSome) :
    (r.calls codec c ty msg info).map (·.1) = (r.matching c info).map (·.listener) := by
  unfold calls
  rw [map_filterMap, ← filterMap_eq_map]
  refine filterMap_congr fun e he => ?_
  obtain ⟨m, hm⟩ := isSome_iff_exists.1 (h e he)
  simp [hm]

/-- **In every run whose calls all meet `StepOk`, each registered listener gets each message that
matches it exactly once.** -/
theorem intra_delivers (codec : Codec M) (ops : List (IntraOp L M))
    (hok : Along step (StepOk codec) .empty ops) : IntraDelivers codec ops := by
  rintro pre c ty msg info suf rfl
  obtain ⟨hpre, hmsg, -⟩ := along_append.1 hok
  have hd : Holds (pre.foldl (step codec) .new)
      (pre.foldl step .empty) :=
    hpre.sim (R := fun r d => Holds d r) Holds.new fun _ _ op hs hop => hs.step op hop
  have hperm := (hd.onMessage hmsg).1
  refine ⟨hperm, fun hreads => ?_⟩
  rw [← calls_listeners hreads]
  exact hperm.map _

def byteCodec : Codec UInt8 where
  serialize _ m := some [m]
  parse _ str := str.head?
  parse_nil _ := rfl

def mixedTypes : List (IntraOp Nat UInt8) :=
  [.add 1 ⟨5, none⟩ "Chatter" 10, .add 2 ⟨5, none⟩ "RawMessage" 11,
    .add 1 ⟨5, some 9⟩ "Chatter" 12, .remove 1 ⟨5, some 9⟩ "Chatter",
    .message 5 "Chatter" 3 (infoFrom 9), .remove 2 ⟨5, none⟩ "RawMessage",
    .message 5 "RawMessage" 4 (infoFrom 9)]

theorem intra_delivers_mixedTypes :
    Along step (StepOk byteCodec) .empty mixedTypes ∧
      IntraDelivers byteCodec mixedTypes :=
  have hok : Along step (StepOk byteCodec) .empty mixedTypes := by decide
  ⟨hok, intra_delivers byteCodec mixedTypes hok⟩

/-- Two chatter listeners on a channel: when the second is removed, the first gets nothing. -/
theorem not_intraDelivers_two_chatters :
    ¬ IntraDelivers (L := Nat) byteCodec [.add 1 ⟨5, none⟩ "Chatter" 10,
      .add 2 ⟨5, none⟩ "Chatter" 11, .remove 2 ⟨5, none⟩ "Chatter",
      .message 5 "Chatter" 3 (infoFrom 9)] := by
  intro h
  have hcalls := (h [_, _, _] 5 "Chatter" 3 (infoFrom 9) [] rfl).1.length_eq
  revert hcalls
  decide

end Transport
