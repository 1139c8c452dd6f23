import CyberRT.Service.Service

/-!
# Each response to its request

A pending entry is that of the call with its number and client (`Inv.pending`), a response has the
number and the client's id of the call that it answers (`Inv.answers`), and the requests of one
client have different numbers until the counter has gone round (`Inv.call_unique`).
-/

namespace Service.ClientSystem

open Function Lib List Transport UInt64

variable {ι Req Res : Type*} {ids : Ids ι} {s : ClientSystem ι Req Res}

variable {calls : List (Call ι Req)} {call : Call ι Req} {n : Nat}

theorem getElem?_snoc
    (h : calls[n]? = some call) (new : Call ι Req) : (calls ++ [new])[n]? = some call := by
  rw [getElem?_append_left (List.getElem?_eq_some_iff.1 h).1, h]

variable [DecidableEq ι]

def ordinal (calls : List (Call ι Req)) (i : ι) (n : Nat) : Nat :=
  requestsOf (calls.take (n + 1)) i

structure Inv (ids : Ids ι) (s : ClientSystem ι Req Res) : Prop where
  counter : ∀ i, (s.clients i).sequenceNumber = ofNat (requestsOf s.calls i)
  numbered : ∀ n call, s.calls[n]? = some call →
    call.info.seqNum = ofNat (ordinal s.calls call.client n) ∧
      call.info.spareId = ids.writerId call.client
  pending : ∀ i q p, (s.clients i).pending q = some p →
    p.callback = p.promise ∧ p.future = p.promise ∧ p.promise ∉ s.fulfilled.map Prod.fst ∧
      ∃ call, s.calls[p.promise]? = some call ∧ call.client = i ∧ call.info.seqNum = q
  answers : ∀ a ∈ s.answers, ∃ call, s.calls[a.call]? = some call ∧
    a.info.seqNum = call.info.seqNum ∧ a.info.spareId = call.info.spareId
  fulfilled : (s.fulfilled.map Prod.fst).Nodup
  made : ∀ f ∈ s.fulfilled, f.1 < s.calls.length
  callbacks : s.callbacks = s.fulfilled.map fun f => (f.1, f.1)

theorem Inv.init : Inv ids (init : ClientSystem ι Req Res) where
  counter _ := rfl
  numbered _ _ h := by simp [ClientSystem.init] at h
  pending _ _ _ h := by cases h
  answers _ h := by cases h
  fulfilled := nodup_nil
  made _ h := by cases h
  callbacks := rfl

theorem requestsOf_snoc (calls : List (Call ι Req)) (call : Call ι Req) (i : ι) :
    requestsOf (calls ++ [call]) i = requestsOf calls i + if call.client = i then 1 else 0 := by
  simp [requestsOf]

theorem requestsOf_mono {calls calls' : List (Call ι Req)} (h : calls.Sublist calls') (i : ι) :
    requestsOf calls i ≤ requestsOf calls' i := h.countP_le

theorem ordinal_snoc (h : n < calls.length)
    (call : Call ι Req) (i : ι) : ordinal (calls ++ [call]) i n = ordinal calls i n := by
  rw [ordinal, take_append_of_le_length (by omega), ordinal]

theorem ordinal_last (calls : List (Call ι Req)) (call : Call ι Req) :
    ordinal (calls ++ [call]) call.client calls.length = requestsOf calls call.client + 1 := by
  rw [ordinal, take_of_length_le (by simp), requestsOf_snoc, if_pos rfl]

theorem ordinal_eq (h : calls[n]? = some call) :
    ordinal calls call.client n = requestsOf (calls.take n) call.client + 1 := by
  rw [ordinal, take_add_one, h, Option.toList_some, requestsOf_snoc, if_pos rfl]

theorem ordinal_lt {n n' : Nat} (hlt : n < n')
    (h : calls[n']? = some call) : ordinal calls call.client n < ordinal calls call.client n' := by
  rw [ordinal_eq h, ordinal]
  apply Nat.lt_succ_of_le
  apply requestsOf_mono
  exact (take_prefix_take_left (by omega)).sublist

theorem ordinal_le (calls : List (Call ι Req)) (i : ι) (n : Nat) :
    ordinal calls i n ≤ requestsOf calls i := requestsOf_mono (take_sublist (n + 1) calls) i

theorem ofNat_ne_ofNat {a b : Nat} (ha : 0 < a) (hlt : a < b) (hb : b ≤ 2 ^ 64) :
    ofNat a ≠ ofNat b := by
  intro heq
  have hmod := congrArg toNat heq
  simp only [toNat_ofNat'] at hmod
  omega

section
variable (h : Inv ids s)
include h

theorem Inv.seqNum_ne {n n' : Nat} {call call' : Call ι Req}
    (hn : s.calls[n]? = some call) (hn' : s.calls[n']? = some call') (hlt : n < n')
    (hclient : call.client = call'.client) (hcount : requestsOf s.calls call'.client ≤ 2 ^ 64) :
    call.info.seqNum ≠ call'.info.seqNum := by
  rw [(h.numbered n call hn).1, (h.numbered n' call' hn').1]
  have hpos := ordinal_eq hn
  have hless := ordinal_lt hlt hn'
  have hle := ordinal_le s.calls call'.client n'
  rw [hclient] at hpos ⊢
  exact ofNat_ne_ofNat (by omega) hless (by omega)

/-- **The requests of one client have different numbers** as long as they are no more than there are
numbers. -/
theorem Inv.call_unique {n n' : Nat} {call call' : Call ι Req}
    (hn : s.calls[n]? = some call) (hn' : s.calls[n']? = some call')
    (hclient : call.client = call'.client) (hseq : call.info.seqNum = call'.info.seqNum)
    (hcount : requestsOf s.calls call.client ≤ 2 ^ 64) : n = n' := by
  rcases Nat.lt_trichotomy n n' with hlt | heq | hgt
  · exact absurd hseq (h.seqNum_ne hn hn' hlt hclient (hclient ▸ hcount))
  · exact heq
  · exact absurd hseq.symm (h.seqNum_ne hn' hn hgt hclient.symm hcount)

theorem Inv.asyncSendRequest (i : ι) (request : Req) :
    Inv ids (s.asyncSendRequest ids i request) := by
  unfold ClientSystem.asyncSendRequest
  dsimp only
  split
  · have hseq : (s.clients i).sequenceNumber + 1 = ofNat (requestsOf s.calls i + 1) := by
      rw [h.counter i, UInt64.ofNat_add]
      rfl
    refine { h with counter := ?_, numbered := ?_, pending := ?_, answers := ?_, made := ?_ }
    · intro j
      rw [requestsOf_snoc]
      by_cases hj : j = i
      · subst hj
        simpa using hseq
      · simpa [hj, Ne.symm hj] using h.counter j
    · intro n call hn
      rcases Nat.lt_or_ge n s.calls.length with hlt | hge
      · rw [getElem?_append_left hlt] at hn
        rw [ordinal_snoc hlt]
        exact h.numbered n call hn
      · obtain rfl : n = s.calls.length := by grind
        rw [getElem?_concat_length] at hn
        obtain rfl := Option.some.inj hn
        rw [ordinal_last]
        exact ⟨hseq, rfl⟩
    · intro j q p hp
      by_cases hj : j = i
      · subst hj
        simp only [update_self] at hp
        by_cases hq : q = (s.clients j).sequenceNumber + 1
        · -- the new call
          subst hq
          rw [update_self] at hp
          obtain rfl := Option.some.inj hp
          refine ⟨rfl, rfl, fun hmem => ?_, _, getElem?_concat_length, rfl, rfl⟩
          obtain ⟨f, hf, hfn⟩ := mem_map.1 hmem
          have hlt := h.made f hf
          grind
        · rw [update_of_ne hq] at hp
          obtain ⟨hcb, hfut, hnot, call, hcall, hrest⟩ := h.pending j q p hp
          exact ⟨hcb, hfut, hnot, call, getElem?_snoc hcall _, hrest⟩
      · simp only [update_of_ne hj] at hp
        obtain ⟨hcb, hfut, hnot, call, hcall, hrest⟩ := h.pending j q p hp
        exact ⟨hcb, hfut, hnot, call, getElem?_snoc hcall _, hrest⟩
    · intro a ha
      obtain ⟨call, hcall, hinfo⟩ := h.answers a ha
      exact ⟨call, getElem?_snoc hcall _, hinfo⟩
    · intro f hf
      have hlt := h.made f hf
      grind
  · exact h

theorem Inv.handleRequest (n : Nat) (response : Res) :
    Inv ids (s.handleRequest ids n response) := by
  unfold ClientSystem.handleRequest
  split
  · exact h
  · refine { h with answers := fun a ha => ?_ }
    rcases mem_append.1 ha with hmem | hnew
    · exact h.answers a hmem
    · grind

theorem Inv.pending_unique {i j : ι} {q q' : UInt64} {p p' : Pending}
    (hp : (s.clients i).pending q = some p) (hp' : (s.clients j).pending q' = some p')
    (heq : p'.promise = p.promise) : j = i ∧ q' = q := by
  obtain ⟨-, -, -, call, hcall, rfl, rfl⟩ := h.pending i q p hp
  obtain ⟨-, -, -, call', hcall', rfl, rfl⟩ := h.pending j q' p' hp'
  grind

theorem Inv.handleResponse (i : ι) (response : Res) (info : MessageInfo) :
    Inv ids (s.handleResponse ids i response info) := by
  unfold ClientSystem.handleResponse
  dsimp only
  split
  · exact h
  · split
    · exact h
    · rename_i p hp
      obtain ⟨hcb, hfut, hnot, call, hcall, hrest⟩ := h.pending i info.seqNum p hp
      refine { h with
        counter := fun j => ?_
        pending := fun j q p' hp' => ?_
        fulfilled := ?_
        made := fun f hf => ?_
        callbacks := ?_ }
      · by_cases hj : j = i
        · subst hj
          simpa using h.counter j
        · simpa [hj] using h.counter j
      · have hold : (s.clients j).pending q = some p' ∧ ¬ (j = i ∧ q = info.seqNum) := by
          by_cases hj : j = i
          · subst hj
            simp only [update_self] at hp'
            grind
          · grind
        obtain ⟨hcb', hfut', hnot', hcall'⟩ := h.pending j q p' hold.1
        grind
      · rw [map_append]
        refine nodup_append.2 ⟨h.fulfilled, by simp, fun x hx y hy => ?_⟩
        grind
      · rcases mem_append.1 hf with hmem | hnew
        · exact h.made f hmem
        · grind
      · simp [h.callbacks, hcb, hfut]

theorem Inv.step (ev : ClientEvent ι Req Res) : Inv ids (s.step ids ev) := by
  cases ev with
  | init i =>
    refine { h with counter := fun j => ?_, pending := fun j q p hp => ?_ }
    · by_cases hj : j = i
      · subst hj
        simpa [ClientSystem.step] using h.counter j
      · simpa [ClientSystem.step, hj] using h.counter j
    · refine h.pending j q p ?_
      by_cases hj : j = i
      · subst hj
        simpa [ClientSystem.step] using hp
      · simpa [ClientSystem.step, hj] using hp
  | send i request => exact h.asyncSendRequest i request
  | handle n response => exact h.handleRequest n response
  | receive i n =>
    simp only [ClientSystem.step]
    split
    · exact h.handleResponse i _ _
    · exact h

theorem Inv.answer_matches {i : ι} {a : Answer Res} {p : Pending}
    (ha : a ∈ s.answers) (hspare : a.info.spareId.data = (ids.writerId i).data)
    (hp : (s.clients i).pending a.info.seqNum = some p) (hcount : requestsOf s.calls i ≤ 2 ^ 64) :
    a.call = p.promise := by
  obtain ⟨-, -, -, call, hcall, rfl, hseq⟩ := h.pending i _ p hp
  obtain ⟨call', hcall', hseq', hspare'⟩ := h.answers a ha
  have hclient : call.client = call'.client := by
    apply ids.distinct
    dsimp only
    rw [← hspare, hspare', (h.numbered _ call' hcall').2]
  exact (h.call_unique hcall hcall' hclient (hseq.trans hseq') hcount).symm

end

theorem calls_step (s : ClientSystem ι Req Res) (ev : ClientEvent ι Req Res) :
    s.calls.Sublist (s.step ids ev).calls := by
  cases ev with
  | init i => exact List.Sublist.refl _
  | send i request =>
    simp only [step, asyncSendRequest]
    grind
  | handle n response =>
    simp only [step, handleRequest]
    split <;> exact List.Sublist.refl _
  | receive i n =>
    simp only [step, handleResponse]
    grind

theorem Matched.step (hm : s.Matched) (h : Inv ids s)
    (hcount : ∀ i, requestsOf s.calls i ≤ 2 ^ 64) (ev : ClientEvent ι Req Res) :
    (s.step ids ev).Matched := by
  cases ev with
  | init i => exact hm
  | send i request =>
    simp only [ClientSystem.step, asyncSendRequest]
    split <;> exact hm
  | handle n response =>
    simp only [ClientSystem.step, handleRequest]
    split
    · exact hm
    · intro f hf
      obtain ⟨a, ha, hfa⟩ := hm f hf
      exact ⟨a, mem_append_left _ ha, hfa⟩
  | receive i n =>
    simp only [ClientSystem.step, handleResponse]
    split
    · rename_i a hinit ha
      have hmem : a ∈ s.answers := mem_of_getElem? ha
      split
      · exact hm
      · rename_i hspare
        split
        · exact hm
        · rename_i p hp
          intro f hf
          rcases mem_append.1 hf with hold | hnew
          · exact hm f hold
          · obtain rfl := mem_singleton.1 hnew
            exact ⟨a, hmem, h.answer_matches hmem (not_not.1 hspare) hp (hcount i), rfl⟩
    · exact hm

/-- **The clients of a service**, over any run: no future is fulfilled twice, no callback runs twice
or with another future than its own, and as long as no client has made more than `2^64` requests,
each future is fulfilled with a response that was computed for its own request. -/
theorem always_matched (ids : Ids ι) (evs : List (ClientEvent ι Req Res)) :
    Always (ClientSystem.step ids) (fun s => s.FulfilledOnce ∧ s.CalledBackOnce ∧
      ((∀ i, requestsOf s.calls i ≤ 2 ^ 64) → s.Matched)) init evs := by
  apply always_of_inv (P := fun s => Inv ids s ∧
    ((∀ i, requestsOf s.calls i ≤ 2 ^ 64) → s.Matched)) ⟨Inv.init, fun _ => nofun⟩
  · intro s ev hs
    refine ⟨hs.1.step ev, fun hcount => ?_⟩
    -- the bound held before the step, too
    have hbefore : ∀ i, requestsOf s.calls i ≤ 2 ^ 64 := fun i =>
      Nat.le_trans (requestsOf_mono (calls_step s ev) i) (hcount i)
    exact (hs.2 hbefore).step hs.1 hbefore ev
  · intro s hs
    refine ⟨hs.1.fulfilled, ⟨?_, ?_⟩, hs.2⟩
    · rw [hs.1.callbacks, map_map]
      exact hs.1.fulfilled
    · intro run hmem
      rw [hs.1.callbacks] at hmem
      grind

theorem send_many (ids : Ids ι) (i : ι) (request : Req) (h : (s.clients i).inited = true)
    (n : Nat) :
    ∃ t, (List.replicate n (.send i request)).foldl (step ids) s = t ∧
      t.answers = s.answers ∧ t.calls.length = s.calls.length + n ∧
      (t.clients i).inited = true ∧
      (t.clients i).sequenceNumber = (s.clients i).sequenceNumber + ofNat n ∧
      (n ≠ 0 → ∃ p, (t.clients i).pending (t.clients i).sequenceNumber = some p ∧
        p.promise + 1 = t.calls.length) := by
  refine ⟨_, rfl, ?_⟩
  induction n with
  | zero => simp [h]
  | succ n ih =>
    obtain ⟨hanswers, hlen, hinited, hseq, -⟩ := ih
    rw [replicate_succ', foldl_append]
    simp only [foldl_cons, foldl_nil, step, asyncSendRequest, hinited, if_true, update_self]
    refine ⟨hanswers, by simp [hlen, Nat.add_assoc], trivial, ?_, fun _ => ⟨_, rfl, by simp⟩⟩
    rw [hseq, UInt64.ofNat_add, UInt64.add_assoc]
    rfl

def oneClient : Ids Unit :=
  ⟨fun _ => ⟨Vector.replicate 8 1, 0⟩, ⟨Vector.replicate 8 2, 0⟩, fun _ _ _ => rfl⟩

def answered : List (ClientEvent Unit Nat Nat) :=
  [.init (), .send () 0, .handle 0 7, .receive () 0]

def lateAnswer (n : Nat) : List (ClientEvent Unit Nat Nat) :=
  answered ++ List.replicate n (.send () 1) ++ [.receive () 0]

theorem not_matched_of_round (hn : n ≠ 0) (hround : ofNat n = 0) :
    ¬ ((lateAnswer n).foldl (step oneClient) init).Matched := by
  obtain ⟨t, ht, hanswers, hlen, hinited, hseq, hpending⟩ := send_many oneClient () (1 : Nat)
    (s := answered.foldl (step oneClient) init) rfl n
  obtain ⟨p, hp, hpromise⟩ := hpending hn
  have hanswer : t.answers = [⟨0, { messageInfo (oneClient.writerId ()) 1 (oneClient.writerId ())
      with senderId := oneClient.responder }, 7⟩] := hanswers
  have hone : (t.clients ()).sequenceNumber = 1 := by
    rw [hseq, hround]
    rfl
  rw [hone] at hp
  have hn' : p.promise = n := by
    have hfirst : (answered.foldl (step oneClient) init).calls.length = 1 := rfl
    omega
  rw [lateAnswer, foldl_append, foldl_append, ht]
  intro hm
  simp only [foldl_cons, foldl_nil, step, hinited, hanswer, getElem?_cons_zero, handleResponse,
    messageInfo, ne_eq, not_true_eq_false, if_false, hp, Matched] at hm
  obtain ⟨a, ha, hcall, -⟩ := hm (p.promise, 7) (by simp)
  grind

theorem not_matched_lateAnswer :
    ¬ ((lateAnswer (2 ^ 64)).foldl (ClientSystem.step oneClient) init).Matched :=
  not_matched_of_round (by decide) (by decide)

end Service.ClientSystem

/-! ## What stays pending -/

namespace Service

open ClientSystem Function Lib List

namespace WaitSystem

variable {ι Req Res : Type*} [DecidableEq ι]

/-- **Pending are the requests that are neither answered nor given up.** -/
def PendingExact (s : WaitSystem ι Req Res) : Prop :=
  ∀ i n, (∃ q p, (s.sys.clients i).pending q = some p ∧ p.promise = n) ↔
    (∃ call, s.sys.calls[n]? = some call ∧ call.client = i) ∧ ¬ s.ready n ∧ n ∉ s.givenUp

/-- No `SendRequest` returns without a response, and no request takes the number of one that is
pending (numbers come again after `2^64` requests). -/
def Answered (s : WaitSystem ι Req Res) : WaitEvent ι Req Res → Prop
  | .client (.send i _) =>
    (s.sys.clients i).inited = true →
      (s.sys.clients i).pending ((s.sys.clients i).sequenceNumber + 1) = none
  | .client _ => True
  | .wait n => n < s.sys.calls.length → s.ready n

variable {ids : Ids ι} {s : WaitSystem ι Req Res}

section
variable (h : s.PendingExact)
include h

theorem PendingExact.send (hs : Inv ids s.sys) (hup : s.givenUp = []) (i : ι) (request : Req) :
    (s.step ids (.client (.send i request))).PendingExact ↔
      s.Answered (.client (.send i request)) := by
  cases hinit : (s.sys.clients i).inited with
  | false =>
    refine iff_of_true ?_ fun h => absurd (hinit.symm.trans h) Bool.false_ne_true
    rwa [step, ClientSystem.step, ClientSystem.asyncSendRequest, if_neg (by simp [hinit])]
  | true =>
    simp only [Answered, hinit, forall_const, step, ClientSystem.step,
      ClientSystem.asyncSendRequest, if_true]
    cases hp : (s.sys.clients i).pending ((s.sys.clients i).sequenceNumber + 1) with
    | some p =>
      -- the entry that is overwritten was that of a request still to be answered
      refine iff_of_false (fun hnew => ?_) (by simp)
      obtain ⟨⟨call, hcall, hclient⟩, hready, -⟩ := (h i p.promise).1 ⟨_, p, hp, rfl⟩
      obtain ⟨q, p', hq, hp'⟩ := (hnew i p.promise).2
        ⟨⟨call, getElem?_snoc hcall _, hclient⟩, hready, by simp [hup]⟩
      simp only [update_self] at hq
      have hlt := (List.getElem?_eq_some_iff.1 hcall).1
      by_cases heq : q = (s.sys.clients i).sequenceNumber + 1
      · grind
      · rw [update_of_ne heq] at hq
        exact heq (hs.pending_unique hp hq hp').2
    | none =>
      refine iff_of_true (fun j n => ?_) rfl
      have hnew : s.sys.calls.length ∉ s.sys.fulfilled.map Prod.fst := fun hmem => by
        obtain ⟨f, hf, hfn⟩ := mem_map.1 hmem
        exact absurd (hs.made f hf) (by omega)
      have hold := h j n
      have hpend : ∀ q p, (s.sys.clients j).pending q = some p → p.promise < s.sys.calls.length :=
        fun q p hq => (List.getElem?_eq_some_iff.1 (hs.pending j q p hq).2.2.2.choose_spec.1).1
      simp only [ready, hup, not_mem_nil, not_false_iff, and_true] at hold ⊢
      by_cases hn : n = s.sys.calls.length
      · subst hn
        simp only [getElem?_concat_length, Option.some.injEq, exists_eq_left', hnew,
          not_false_iff, and_true]
        by_cases hj : j = i
        · subst hj
          refine iff_of_true ⟨(s.sys.clients j).sequenceNumber + 1, ?_⟩ rfl
          simp only [update_self, Option.some.injEq, exists_eq_left']
        · grind
      · have hcall : (s.sys.calls ++ [(⟨i, messageInfo (ids.writerId i)
            ((s.sys.clients i).sequenceNumber + 1) (ids.writerId i), request⟩ : Call ι Req)])[n]? =
              s.sys.calls[n]? := by grind
        rw [hcall, ← hold]
        by_cases hj : j = i
        · subst hj
          simp only [update_self]
          constructor
          · grind
          · rintro ⟨q, p, hq, rfl⟩
            exact ⟨q, p, by grind, rfl⟩
        · rw [update_of_ne hj]

theorem PendingExact.receive (hs : Inv ids s.sys) (i : ι) (n : Nat) :
    (s.step ids (.client (.receive i n))).PendingExact := by
  simp only [step, ClientSystem.step, ClientSystem.handleResponse]
  split
  · rename_i a hinit ha
    split
    · exact h
    · split
      · exact h
      · rename_i p hp
        intro j m
        have hold := h j m
        have huniq : ∀ q p', (s.sys.clients j).pending q = some p' → p'.promise = p.promise →
            j = i ∧ q = a.info.seqNum := fun q p' hq heq => hs.pending_unique hp hq heq
        have hmem := (h i p.promise).1 ⟨_, p, hp, rfl⟩
        simp only [ready, map_append, map_cons, map_nil, mem_append,
          mem_singleton, not_or] at hold ⊢
        by_cases hj : j = i
        · subst hj
          simp only [update_self]
          constructor
          · grind
          · rintro ⟨hcall, ⟨hready, hne⟩, hup⟩
            obtain ⟨q, p', hq, rfl⟩ := hold.2 ⟨hcall, hready, hup⟩
            refine ⟨q, p', ?_, rfl⟩
            grind
        · rw [update_of_ne hj]
          grind
  · exact h

theorem PendingExact.wait (hup : s.givenUp = []) (n : Nat) :
    (s.step ids (.wait n)).PendingExact ↔ s.Answered (.wait n) := by
  rw [step]
  split
  · rename_i hn
    refine iff_of_false (fun hnew => ?_) fun hans => hn.2 (hans hn.1)
    have hcall := getElem?_eq_getElem hn.1
    have hpend := (h s.sys.calls[n].client n).2 ⟨⟨_, hcall, rfl⟩, hn.2, by simp [hup]⟩
    exact ((hnew _ n).1 hpend).2.2 mem_cons_self
  · rename_i hn
    exact iff_of_true h fun hlt => not_not.1 fun hready => hn ⟨hlt, hready⟩

theorem pendingExact_step (hs : Inv ids s.sys) (hup : s.givenUp = [])
    (ev : WaitEvent ι Req Res) : (s.step ids ev).PendingExact ↔ s.Answered ev := by
  match ev with
  | .client (.init j) =>
    refine iff_of_true (fun i n => ?_) trivial
    have hold := h i n
    simp only [step, ClientSystem.step, ready] at hold ⊢
    by_cases hi : i = j
    · subst hi
      simpa using hold
    · rwa [update_of_ne hi]
  | .client (.send i request) => exact h.send hs hup i request
  | .client (.handle m response) =>
    refine iff_of_true ?_ trivial
    simp only [step, ClientSystem.step, ClientSystem.handleRequest]
    split <;> exact h
  | .client (.receive i m) => exact iff_of_true (h.receive hs i m) trivial
  | .wait n => exact h.wait hup n

end

/-- **What stays pending**, over any run: at all times `pending_requests_` has exactly the requests
that are neither answered nor given up if and only if no `SendRequest` gives up. -/
theorem pending_exact_iff (ids : Ids ι) (evs : List (WaitEvent ι Req Res)) :
    Always (step ids) PendingExact init evs ↔ Along (step ids) Answered init evs := by
  apply always_iff_along_of_inv
    (P := fun s : WaitSystem ι Req Res => Inv ids s.sys ∧ s.PendingExact ∧ s.givenUp = [])
    ⟨Inv.init, fun i n => by simp [init, ClientSystem.init, ready], rfl⟩ (fun s h => h.2.1)
  · rintro s ev ⟨hs, h, hup⟩ hok
    have hnext := (pendingExact_step h hs hup ev).2 hok
    cases ev with
    | client ev => exact ⟨hs.step ev, hnext, hup⟩
    | wait n =>
      have hsame : s.step ids (.wait n) = s := if_neg fun hn => hn.2 (hok hn.1)
      exact hsame.symm ▸ ⟨hs, h, hup⟩
  · exact fun s ev h hnext => (pendingExact_step h.2.1 h.1 h.2.2 ev).1 hnext

theorem not_pending_exact_timeout :
    ¬ Always (step oneClient) PendingExact (init : WaitSystem Unit Unit Unit)
      [.client (.init ()), .client (.send () ()), .wait 0] := by
  intro h
  have hlast := (h.last () 0).1 ⟨1, ⟨0, 0, 0⟩, rfl, rfl⟩
  exact hlast.2.2 mem_cons_self

end WaitSystem

end Service
