import CyberRT.Base.ObjectPool

/-!
# The nodes of an object pool

What was read from `free_head_` is true as long as the counter is what it was (`Knows`): the first
node is the one read, and its `next` too, for only held nodes are written to.
-/

namespace Base.PoolSystem

open Function Lib List

variable {ι : Type*} {s : PoolSystem ι} {p : ObjectPool} {i : ι} {n c : Nat} {free : List Nat}
  {head : Option Nat} {size : UInt32} {pc : PoolPc}

def Knows (p : ObjectPool) : PoolPc → Prop
  | .popNext c n => c ≤ p.count ∧ (c = p.count → p.node = some n)
  | .popCas c n next => c ≤ p.count ∧ (c = p.count → p.node = some n ∧ p.next n = next)
  | .pushNext _ c head => c ≤ p.count ∧ (c = p.count → p.node = head)
  | .pushCas n c head => c ≤ p.count ∧ (c = p.count → p.node = head) ∧ p.next n = head
  | _ => True

structure Inv (s : PoolSystem ι) (free : List Nat) : Prop where
  chain : Chain s.pool.next s.pool.node free
  nodup : free.Nodup
  apart : ∀ n ∈ free, ∀ i, (s.pcs i).held ≠ some n
  nodes : ∀ n, n < s.pool.capacity.toNat ↔ n ∈ free ∨ ∃ i, (s.pcs i).held = some n
  exclusive : ∀ i j n, (s.pcs i).held = some n → (s.pcs j).held = some n → i = j
  knows : ∀ i, Knows s.pool (s.pcs i)

theorem Inv.nodesKept (h : Inv s free) : s.NodesKept :=
  ⟨h.exclusive, free, h.chain, h.nodup, h.apart, h.nodes⟩

theorem eq_of_same (hsame : p.same c head = true) (hle : c ≤ p.count)
    (hwrap : p.count < c + 2 ^ 64) : c = p.count := by
  simp only [ObjectPool.same, Bool.and_eq_true, decide_eq_true_eq] at hsame
  omega

theorem Knows.change (h : Knows p pc) (node : Option Nat) :
    Knows { p with count := p.count + 1, node := node } pc := by
  cases pc with
  | popNext c n => exact ⟨Nat.le_succ_of_le h.1, fun hc => absurd h.1 (by simp at hc; omega)⟩
  | popCas c n next => exact ⟨Nat.le_succ_of_le h.1, fun hc => absurd h.1 (by simp at hc; omega)⟩
  | pushNext n c head => exact ⟨Nat.le_succ_of_le h.1, fun hc => absurd h.1 (by simp at hc; omega)⟩
  | pushCas n c head =>
    exact ⟨Nat.le_succ_of_le h.1, fun hc => absurd h.1 (by simp at hc; omega), h.2.2⟩
  | _ => trivial

theorem Knows.write (h : Knows p pc) (hchain : Chain p.next p.node free)
    (hfree : n ∉ free) (hheld : pc.held ≠ some n) (head : Option Nat) :
    Knows { p with next := update p.next n head } pc := by
  cases pc with
  | popCas c m next =>
    refine ⟨h.1, fun hc => ⟨(h.2 hc).1, ?_⟩⟩
    -- the node that was read is still the first of the free ones
    have hmem : m ∈ free := by
      rw [(h.2 hc).1] at hchain
      obtain ⟨l, rfl, -⟩ := hchain.eq_cons
      exact mem_cons_self
    have hne : m ≠ n := fun heq => hfree (heq ▸ hmem)
    exact (update_of_ne hne head p.next).trans (h.2 hc).2
  | pushCas m c head' =>
    have hne : m ≠ n := fun heq => hheld (congrArg some heq)
    exact ⟨h.1, h.2.1, (update_of_ne hne head p.next).trans h.2.2⟩
  | _ => exact h

theorem chain_construct (k m : Nat) :
    Chain (fun i => if i < k + m then some (i + 1) else none) (some k) (List.range' k (m + 1)) := by
  induction m generalizing k with
  | zero => exact ⟨rfl, if_neg (Nat.lt_irrefl k)⟩
  | succ m ih =>
    refine ⟨rfl, ?_⟩
    grind

theorem construct_eq_some (hsize : size ≠ 0) :
    ∃ m, size.toNat = m + 1 ∧ ObjectPool.construct size =
      some ⟨0, some 0, fun i => if i < m then some (i + 1) else none, size⟩ := by
  have hpos : 0 < size.toNat := Nat.pos_of_ne_zero fun h0 => hsize (UInt32.toNat_inj.1 h0)
  have hone : (1 : UInt32) ≤ size := UInt32.le_iff_toNat_le.2 hpos
  have hlast : (size - 1).toNat = size.toNat - 1 := UInt32.toNat_sub_of_le _ _ hone
  refine ⟨size.toNat - 1, by omega, ?_⟩
  have hlt : size - 1 < size := by grind
  simp only [ObjectPool.construct, if_pos hlt, hlast]

theorem Inv.init {m : Nat} (hsize : size.toNat = m + 1) :
    Inv (init ⟨0, some 0, fun i => if i < m then some (i + 1) else none, size⟩ : PoolSystem ι)
      (List.range' 0 (m + 1)) where
  chain := by
    have hchain := chain_construct 0 m
    rw [Nat.zero_add] at hchain
    exact hchain
  nodup := nodup_range'
  apart _ _ _ := nofun
  nodes n := by simp [PoolSystem.init, PoolPc.held, hsize]
  exclusive _ _ _ h := by cases h
  knows _ := trivial

variable [DecidableEq ι]

section
variable (h : Inv s free)
include h

theorem Inv.move (i : ι) (pc : PoolPc) (hheld : pc.held = (s.pcs i).held)
    (hknows : Knows s.pool pc) : Inv (s.put i (pc, s.pool)) free := by
  have hsame : ∀ k, ((s.put i (pc, s.pool)).pcs k).held = (s.pcs k).held :=
    (forall_update_iff s.pcs fun k pc => pc.held = (s.pcs k).held).2 ⟨hheld, fun _ _ => rfl⟩
  refine ⟨h.chain, h.nodup, fun n hn k => ?_, fun n => ?_, fun k l n hk hl => ?_, ?_⟩
  · rw [hsame]
    exact h.apart n hn k
  · simp only [hsame]
    exact h.nodes n
  · rw [hsame] at hk hl
    exact h.exclusive k l n hk hl
  · exact (forall_update_iff s.pcs fun _ pc => Knows s.pool pc).2 ⟨hknows, fun k _ => h.knows k⟩

theorem Inv.popTest (i : ι) (hheld : (s.pcs i).held = none) :
    Inv (s.put i (s.pool.popTest, s.pool)) free := by
  unfold ObjectPool.popTest
  split
  · exact h.move i .failed (by rw [hheld]; rfl) trivial
  · rename_i n hn
    exact h.move i (.popNext s.pool.count n) (by rw [hheld]; rfl) ⟨Nat.le_refl _, fun _ => hn⟩

theorem Inv.pop {next : Option Nat} (hpc : s.pcs i = .popCas s.pool.count n next) :
    ∃ free', Inv (s.put i
      (.inUse n, { s.pool with count := s.pool.count + 1, node := next })) free' := by
  have hknows := h.knows i
  rw [hpc] at hknows
  obtain ⟨hnode, hnext⟩ := hknows.2 rfl
  have hchain := h.chain
  rw [hnode] at hchain
  obtain ⟨free', rfl, hrest⟩ := hchain.eq_cons
  have hnodup := nodup_cons.1 h.nodup
  have hn : ∀ k, (s.pcs k).held ≠ some n := h.apart n mem_cons_self
  have hheld : ∀ k m, ((s.put i (.inUse n,
      { s.pool with count := s.pool.count + 1, node := next })).pcs k).held = some m ↔
      k = i ∧ m = n ∨ (s.pcs k).held = some m := by
    intro k m
    by_cases hk : k = i
    · subst hk
      simp [put, PoolPc.held, hpc, eq_comm]
    · simp [put, hk]
  refine ⟨free', ?_, hnodup.2, fun m hm k => ?_, fun m => ?_, fun k l m hk hl => ?_, ?_⟩
  · rw [← hnext]
    exact hrest
  · rw [Ne, hheld]
    rintro (⟨-, rfl⟩ | hk)
    · exact hnodup.1 hm
    · exact h.apart m (mem_cons_of_mem n hm) k hk
  · simp only [hheld]
    refine (h.nodes m).trans ⟨?_, ?_⟩
    all_goals grind
  · rw [hheld] at hk hl
    rcases hk with ⟨hki, hmn⟩ | hk <;> rcases hl with ⟨hli, hmn'⟩ | hl
    · rw [hki, hli]
    · exact absurd (hmn ▸ hl) (hn l)
    · exact absurd (hmn' ▸ hk) (hn k)
    · exact h.exclusive k l m hk hl
  · exact (forall_update_iff s.pcs fun _ pc => Knows _ pc).2
      ⟨trivial, fun k _ => (h.knows k).change next⟩

theorem Inv.pushNext (hpc : s.pcs i = .pushNext n c head) :
    Inv (s.put i (.pushCas n c head, { s.pool with next := update s.pool.next n head })) free := by
  have hheld : (s.pcs i).held = some n := by rw [hpc]; rfl
  have hfree : n ∉ free := fun hn => h.apart n hn i hheld
  have hknows := h.knows i
  rw [hpc] at hknows
  have hsame : ∀ k, ((s.put i (.pushCas n c head,
      { s.pool with next := update s.pool.next n head })).pcs k).held = (s.pcs k).held :=
    (forall_update_iff s.pcs fun k pc => pc.held = (s.pcs k).held).2
      ⟨by rw [hpc]; rfl, fun _ _ => rfl⟩
  refine ⟨(chain_update hfree head).2 h.chain, h.nodup, fun m hm k => ?_, fun m => ?_,
    fun k l m hk hl => ?_, ?_⟩
  · rw [hsame]
    exact h.apart m hm k
  · simp only [hsame]
    exact h.nodes m
  · rw [hsame] at hk hl
    exact h.exclusive k l m hk hl
  · refine (forall_update_iff s.pcs fun _ pc => Knows _ pc).2 ⟨?_, fun k hk => ?_⟩
    · exact ⟨hknows.1, hknows.2, update_self _ _ _⟩
    · exact (h.knows k).write h.chain hfree (fun hn => hk (h.exclusive k i n hn hheld)) head

theorem Inv.push (hpc : s.pcs i = .pushCas n s.pool.count s.pool.node) :
    Inv (s.put i (.idle, { s.pool with count := s.pool.count + 1, node := some n }))
      (n :: free) := by
  have hi : (s.pcs i).held = some n := by rw [hpc]; rfl
  have hfree : n ∉ free := fun hn => h.apart n hn i hi
  have hknows := h.knows i
  rw [hpc] at hknows
  have hheld : ∀ k m, ((s.put i (.idle,
      { s.pool with count := s.pool.count + 1, node := some n })).pcs k).held = some m ↔
      k ≠ i ∧ (s.pcs k).held = some m := by
    intro k m
    by_cases hk : k = i
    · subst hk
      simp [put, PoolPc.held]
    · simp [put, hk]
  refine ⟨⟨rfl, ?_⟩, nodup_cons.2 ⟨hfree, h.nodup⟩, fun m hm k => ?_, fun m => ?_,
    fun k l m hk hl => ?_, ?_⟩
  · have hchain := h.chain
    rw [← show s.pool.next n = s.pool.node from hknows.2.2] at hchain
    exact hchain
  · rw [Ne, hheld]
    rintro ⟨hki, hk⟩
    rcases mem_cons.1 hm with rfl | hm
    · exact hki (h.exclusive k i m hk hi)
    · exact h.apart m hm k hk
  · simp only [hheld]
    refine (h.nodes m).trans ⟨?_, ?_⟩
    all_goals grind
  · rw [hheld] at hk hl
    exact h.exclusive k l m hk.2 hl.2
  · exact (forall_update_iff s.pcs fun _ pc => Knows _ pc).2
      ⟨trivial, fun k _ => (h.knows k).change (some n)⟩

theorem Inv.poolStep (i : ι) (weak : Bool) (hwrap : s.NoWrap (.step i weak)) :
    ∃ free', Inv (s.put i (s.pool.poolStep weak (s.pcs i))) free' := by
  have hknows := h.knows i
  have hwrap : ∀ c ∈ (s.pcs i).loaded, s.pool.count < c + 2 ^ 64 := hwrap
  cases hpc : s.pcs i with
  | popLoad => exact ⟨free, h.popTest i (by rw [hpc]; rfl)⟩
  | popNext c n =>
    rw [hpc] at hknows
    exact ⟨free, h.move i (.popCas c n (s.pool.next n)) (by rw [hpc]; rfl)
      ⟨hknows.1, fun hc => ⟨hknows.2 hc, rfl⟩⟩⟩
  | popCas c n next =>
    rw [hpc] at hknows hwrap
    rw [ObjectPool.poolStep]
    split
    · rename_i hcas
      obtain rfl := eq_of_same hcas.1 hknows.1 (hwrap c rfl)
      exact h.pop hpc
    · exact ⟨free, h.popTest i (by rw [hpc]; rfl)⟩
  | pushLoad n =>
    exact ⟨free, h.move i (.pushNext n s.pool.count s.pool.node) (by rw [hpc]; rfl)
      ⟨Nat.le_refl _, fun _ => rfl⟩⟩
  | pushNext n c head => exact ⟨free, h.pushNext hpc⟩
  | pushCas n c head =>
    rw [hpc] at hknows hwrap
    rw [ObjectPool.poolStep]
    split
    · rename_i hcas
      obtain rfl := eq_of_same hcas.1 hknows.1 (hwrap c rfl)
      obtain rfl := hknows.2.1 rfl
      exact ⟨n :: free, h.push hpc⟩
    · exact ⟨free, h.move i (.pushNext n s.pool.count s.pool.node) (by rw [hpc]; rfl)
        ⟨Nat.le_refl _, fun _ => rfl⟩⟩
  | idle | failed => exact ⟨free, h.move i _ (by rw [hpc]) trivial⟩
  | inUse n => exact ⟨free, h.move i _ (by rw [hpc]) trivial⟩

theorem Inv.step (ev : PoolEvent ι) (hwrap : s.NoWrap ev) : ∃ free', Inv (s.step ev) free' := by
  cases ev with
  | getObject i =>
    refine ⟨free, ?_⟩
    simp only [PoolSystem.step]
    split
    · rename_i hpc
      exact h.move i .popLoad (by rcases hpc with hpc | hpc <;> rw [hpc] <;> rfl) trivial
    · exact h
  | releaseObject i =>
    refine ⟨free, ?_⟩
    simp only [PoolSystem.step]
    split
    · rename_i n hpc
      exact h.move i (.pushLoad n) (by rw [hpc]; rfl) trivial
    · exact h
  | step i weak => exact h.poolStep i weak hwrap

end

theorem failed_inv {ev : PoolEvent ι} (hacq : (s.pcs i).acquiring = true)
    (hfail : (s.step ev).pcs i = .failed) : s.pool.node = none := by
  have hne : s.pcs i ≠ .failed := fun heq => by rw [heq] at hacq; cases hacq
  have hother : ∀ k r, i ≠ k → (s.put k r).pcs i ≠ .failed := fun k r hk => by
    simpa only [put, update_of_ne hk] using hne
  have htest : s.pool.popTest = .failed → s.pool.node = none := by
    unfold ObjectPool.popTest
    grind
  cases ev with
  | getObject k =>
    simp only [step] at hfail
    split at hfail
    · by_cases hk : i = k
      · subst hk
        simp [put] at hfail
      · exact absurd hfail (hother k _ hk)
    · exact absurd hfail hne
  | releaseObject k =>
    simp only [step] at hfail
    split at hfail
    · by_cases hk : i = k
      · subst hk
        simp [put] at hfail
      · exact absurd hfail (hother k _ hk)
    · exact absurd hfail hne
  | step k weak =>
    by_cases hk : i = k
    · subst hk
      simp only [step, put, update_self] at hfail
      cases hpc : s.pcs i with
      | popLoad =>
        rw [hpc] at hfail
        exact htest hfail
      | popNext c n =>
        rw [hpc] at hfail
        cases hfail
      | popCas c n next =>
        rw [hpc, ObjectPool.poolStep] at hfail
        grind
      | _ =>
        rw [hpc] at hacq
        cases hacq
    · exact absurd hfail (hother k _ hk)

theorem Inv.failsIfAllHeld (h : Inv s free) (ev : PoolEvent ι) : s.FailsIfAllHeld ev := by
  intro i hacq hfail n hn
  have hchain := h.chain
  rw [failed_inv hacq hfail] at hchain
  obtain hfree | hheld := (h.nodes n).1 hn
  · rw [hchain.eq_nil] at hfree
    cases hfree
  · exact hheld

/-- **A pool serves just if it has a node.** Whatever its size, but not 0, its users and the order
of their steps, as long as the counter does not go round during a call: no node is held twice, none
is lost, and no object is got only at a moment at which every node is held. -/
theorem serves_iff (size : UInt32) : Serves ι size ↔ size ≠ 0 := by
  constructor
  · rintro ⟨pool, hpool, -⟩ rfl
    cases hpool
  · intro hsize
    obtain ⟨m, hm, hpool⟩ := construct_eq_some hsize
    refine ⟨_, hpool, fun evs hwrap => ?_⟩
    have hinv : Always PoolSystem.step (fun s => ∃ free, Inv s free) _ evs :=
      hwrap.always ⟨_, Inv.init hm⟩ fun s ev ⟨free, hs⟩ hok => hs.step ev hok
    refine ⟨hinv.imp fun s ⟨free, hs⟩ => hs.nodesKept, along_iff.2 fun pre ev suf hevs => ?_⟩
    obtain ⟨free, hs⟩ := always_iff.1 hinv pre (ev :: suf) hevs
    exact hs.failsIfAllHeld ev

/-- **No pool of size 0.** -/
theorem not_serves_zero : ¬ Serves Unit 0 := by
  rintro ⟨pool, hpool, -⟩
  have hnone : ObjectPool.construct 0 = none := by
    rw [ObjectPool.construct, if_neg (by decide)]
  cases hpool

end Base.PoolSystem
