import CyberRT.Base.Proof.MapThreads

/-!
# The steps of `Set`, `Get` and `Has`

Most steps of a thread touch only what is its own (`Inv.own`).
-/

namespace Base.MapSystem

open Function Lib MapMemory

variable {ι K V : Type*} [LinearOrder K] {conf : MapConf K V} {m : MapMemory K V}
  {s : MapSystem ι K V} {L : Nat → List Nat} {i : ι} {a cell : Nat}

variable {c : SetCall K V} {target : Option Nat} {prev : NodeRef}

attribute [local simp] MapPc.setCall setEntry setNext setVal
  MapPc.freshEntry keyAt

def Others (s : MapSystem ι K V) (L : Nat → List Nat) (i : ι) (d : Nat) : Prop :=
  (∃ b, d ∈ L b) ∨ ∃ j x, j ≠ i ∧ (s.pcs j).freshEntry = some (d, x)

theorem Inv.not_others (h : Inv conf s L) {x : K × V} (ha : (s.pcs i).freshEntry = some (a, x)) :
    ¬ s.Others L i a := by
  rintro (⟨b, hb⟩ | ⟨j, y, hj, hy⟩)
  · exact (h.freshEntry i a x.1 x.2 ha).1 b hb
  · exact hj (h.entryOwner j i a y x hy ha)

theorem Inv.not_others_of_free (h : Inv conf s L) (ha : s.mem.entries a = none) :
    ¬ s.Others L i a := by
  rintro (⟨b, hb⟩ | ⟨j, y, -, hy⟩)
  · obtain ⟨k, hk, -⟩ := h.indexed b a hb
    simp [ha] at hk
  · obtain ⟨-, v, hv, -⟩ := h.freshEntry j a y.1 y.2 hy
    simp [ha] at hv

theorem Inv.own_entry (h : Inv conf s L) {pc : MapPc K V}
    (hentry : pc.freshEntry = (s.pcs i).freshEntry) {d : Nat} {k : K} {x : V}
    (hd : pc.freshEntry = some (d, k, x)) :
    ¬ s.Others L i d ∧ ∃ v, s.mem.entries d = some ⟨k, v⟩ ∧ s.mem.vals v = some x := by
  rw [hentry] at hd
  exact ⟨h.not_others hd, (h.freshEntry i d k x hd).2⟩

section
variable [DecidableEq ι]

section
variable (h : Inv conf s L) {e : MapEntry K}
include h

theorem Inv.own (pc : MapPc K V) (m' : MapMemory K V)
    (hentries : ∀ d, s.Others L i d → m'.entries d = s.mem.entries d)
    (hhead : ∀ b, m'.next (.head b) = s.mem.next (.head b))
    (hnext : ∀ d, s.Others L i d → m'.next (.entry d) = s.mem.next (.entry d))
    (hvals : ∀ o v, o ≠ .fresh i → o ≠ .old i → (∀ d, o = .entry d → s.Others L i d) →
      cellOf s.mem s.pcs o = some v → m'.vals v = s.mem.vals v)
    (hcells : OneOwner (cellOf m' (update s.pcs i pc)) m'.vals)
    (hown : ∀ d k x, pc.freshEntry = some (d, k, x) →
      ¬ s.Others L i d ∧ ∃ v, m'.entries d = some ⟨k, v⟩ ∧ m'.vals v = some x)
    (hcell : ∀ v x, pc.freshCell = some (v, x) → m'.vals v = some x)
    (hknows : Grows s.mem L m' L → Knows conf m' L pc) :
    Inv conf (s.put i pc m') L ∧ Grows s.mem L m' L := by
  have hkeys : ∀ b, ∀ d ∈ L b, m'.keyAt d = s.mem.keyAt d := fun b d hd => by
    rw [keyAt, hentries d (.inl ⟨b, hd⟩), keyAt]
  have hgrows : Grows s.mem L m' L := Grows.of_keyAt hkeys
  have hval : ∀ d e, s.Others L i d → s.mem.entries d = some e →
      m'.vals e.valuePtr = s.mem.vals e.valuePtr := fun d e hd he =>
    hvals (.entry d) e.valuePtr (by simp) (by simp) (fun d' heq => by cases heq; exact hd)
      (cellOf_entry he)
  refine ⟨⟨fun b => ?_, fun b => ?_, fun b d hd => ?_, hcells, fun j l d x y hj hl => ?_, ?_, ?_,
    fun b d hd e he => ?_, fun k hk => Present.mono hgrows (h.completed k hk), ?_⟩, hgrows⟩
  · rw [Bucket, put, hhead]
    exact (chain_congr fun d hd => hnext d (.inl ⟨b, hd⟩)).2 (h.bucket b)
  · exact (h.sorted b).imp_of_mem fun ha hd hlt => hlt.congr (hkeys b _ ha) (hkeys b _ hd)
  · obtain ⟨k, hk, hb⟩ := h.indexed b d hd
    exact ⟨k, (hkeys b d hd).trans hk, hb⟩
  · -- two threads with one entry: neither is `i` alone
    by_cases hji : j = i
    · by_cases hli : l = i
      · rw [hji, hli]
      · subst hji
        simp only [put, update_self, update_of_ne hli] at hj hl
        exact absurd (.inr ⟨l, y, hli, hl⟩) (hown d x.1 x.2 hj).1
    · by_cases hli : l = i
      · subst hli
        simp only [put, update_self, update_of_ne hji] at hj hl
        exact absurd (.inr ⟨j, x, hji, hj⟩) (hown d y.1 y.2 hl).1
      · simp only [put, update_of_ne hji, update_of_ne hli] at hj hl
        exact h.entryOwner j l d x y hj hl
  · refine (forall_update_iff s.pcs fun _ pc => ∀ d k x, pc.freshEntry = some (d, k, x) →
      (∀ b, d ∉ L b) ∧ ∃ v, m'.entries d = some ⟨k, v⟩ ∧ m'.vals v = some x).2
      ⟨fun d k x hd => ?_, fun j hj d k x hd => ?_⟩
    · obtain ⟨hnot, hv⟩ := hown d k x hd
      exact ⟨fun b hb => hnot (.inl ⟨b, hb⟩), hv⟩
    · have hother : s.Others L i d := .inr ⟨j, _, hj, hd⟩
      obtain ⟨hnot, v, hv, hx⟩ := h.freshEntry j d k x hd
      exact ⟨hnot, v, (hentries d hother).trans hv, (hval d _ hother hv).trans hx⟩
  · refine (forall_update_iff s.pcs fun _ pc => ∀ v x, pc.freshCell = some (v, x) →
      m'.vals v = some x).2 ⟨hcell, fun j hj v x hv => ?_⟩
    rw [hvals (.fresh j) v (by simpa using hj) (by simp) (by simp) (by simp [cellOf, hv])]
    exact h.freshCell j v x hv
  · have hother : s.Others L i d := .inl ⟨b, hd⟩
    have he' : s.mem.entries d = some e := (hentries d hother).symm.trans he
    obtain ⟨x, hx, hmem⟩ := h.values b d hd e he'
    exact ⟨x, (hval d e hother he').trans hx, hmem⟩
  · refine (forall_update_iff s.pcs fun _ pc => Knows conf m' L pc).2
      ⟨hknows hgrows, fun j hj => ?_⟩
    exact Knows.mono hgrows (fun d x hd => hnext d (.inr ⟨j, x, hj, hd⟩)) (h.knows j)

theorem Inv.move {before : MapPc K V} (hpc : s.pcs i = before) (pc : MapPc K V)
    (hentry : pc.freshEntry = before.freshEntry) (hcell : pc.freshCell = before.freshCell)
    (hold : pc.oldCell = before.oldCell) (hknows : Knows conf s.mem L pc) :
    Inv conf (s.put i pc s.mem) L ∧ Grows s.mem L s.mem L := by
  subst hpc
  refine h.own pc s.mem (fun _ _ => rfl) (fun _ => rfl) (fun _ _ => rfl) (fun _ _ _ _ _ _ => rfl) ?_
    (fun d k x hd => h.own_entry hentry hd) (fun v x hv => ?_) fun _ => hknows
  · rw [cellOf_put_same (congrArg _ hcell) hold]
    exact h.cells
  · rw [hcell] at hv
    exact h.freshCell i v x hv

theorem Inv.setVal (pc : MapPc K V) (y : Option V) (hentry : pc.freshEntry = (s.pcs i).freshEntry)
    (hcells : OneOwner (cellOf s.mem (update s.pcs i pc)) (update s.mem.vals cell y))
    (hkeep : ∀ o v, o ≠ .fresh i → o ≠ .old i → cellOf s.mem s.pcs o = some v → v ≠ cell)
    (hcell : ∀ v x, pc.freshCell = some (v, x) → update s.mem.vals cell y v = some x)
    (hknows : Knows conf s.mem L pc) :
    Inv conf (s.put i pc (s.mem.setVal cell y)) L ∧ Grows s.mem L (s.mem.setVal cell y) L := by
  refine h.own pc _ (fun _ _ => rfl) (fun _ => rfl) (fun _ _ => rfl) (fun o v hf ho _ hv => ?_)
    hcells (fun d k x hd => ?_) hcell fun hgrows => Knows.mono hgrows (fun _ _ _ => rfl) hknows
  · simp [hkeep o v hf ho hv]
  · obtain ⟨hnot, v, hv, hx⟩ := h.own_entry hentry hd
    refine ⟨hnot, v, hv, ?_⟩
    have hne : v ≠ cell := hkeep (.entry d) v nofun nofun (cellOf_entry hv)
    simpa [hne] using hx

theorem Inv.newValue {e : Nat} (hpc : s.pcs i = .newValue c e)
    (hnone : c.newValue = none) (hfree : s.mem.vals cell = none) (rest : V) :
    Inv conf (s.put i (.loadOld { c with newValue := some cell, value := rest } e)
      (s.mem.setVal cell (some c.value))) L ∧
      Grows s.mem L (s.mem.setVal cell (some c.value)) L := by
  have hknows := h.knows i
  rw [hpc] at hknows
  refine h.setVal _ _ (by rw [hpc]; rfl) ?_ (fun o v _ _ hv => h.cells.ne_of_free hfree hv)
    (fun v x hv => ?_) ⟨hknows.1, by simp⟩
  · have hcell : cellOf s.mem (update s.pcs i
        (.loadOld { c with newValue := some cell, value := rest } e)) =
        update (cellOf s.mem s.pcs) (.fresh i) (some cell) := by
      rw [cellOf_put]
      refine update_eq_self_iff.2 ?_
      simp [cellOf, hpc, MapPc.oldCell]
    rw [hcell]
    exact h.cells.alloc hfree c.value
  · obtain ⟨rfl, rfl⟩ := hv
    rw [update_self, hknows.2 hnone]

theorem Inv.deleteOld {old : Nat} (hpc : s.pcs i = .deleteOld c old) :
    Inv conf (s.put i (.deleteEntry c) (s.mem.setVal old none)) L ∧
      Grows s.mem L (s.mem.setVal old none) L := by
  have hknows := h.knows i
  rw [hpc] at hknows
  have hold : cellOf s.mem s.pcs (.old i) = some old := by simp [cellOf, hpc, MapPc.oldCell]
  refine h.setVal _ _ (by rw [hpc]; rfl) ?_
    (fun o v _ ho hv => h.cells.ne_of_ne hold hv ho) (fun v x hv => ?_) hknows
  · have hcell : cellOf s.mem (update s.pcs i (.deleteEntry c)) =
        update (cellOf s.mem s.pcs) (.old i) none := by
      have hfresh : update (cellOf s.mem s.pcs) (.fresh i)
          ((MapPc.deleteEntry c).freshCell.map Prod.fst) = cellOf s.mem s.pcs :=
        update_eq_self_iff.2 (by simp [cellOf, hpc, MapPc.freshCell])
      rw [cellOf_put, hfresh]
      rfl
    rw [hcell]
    exact h.cells.free hold
  · simp [MapPc.freshCell, hknows.2] at hv

theorem Inv.deleteEntry
    (hpc : s.pcs i = .deleteEntry c) (ha : c.newEntry = some a) (he : s.mem.entries a = some e) :
    Inv conf (s.put i .idle ((s.mem.setEntry a none).setVal e.valuePtr none)) L ∧
      Grows s.mem L ((s.mem.setEntry a none).setVal e.valuePtr none) L := by
  have hknows := h.knows i
  rw [hpc] at hknows
  have hnot : ¬ s.Others L i a := h.not_others (x := (c.key, c.arg)) (by simp [hpc, ha])
  refine h.own _ _ (fun d hd => ?_) (fun _ => rfl) (fun _ _ => rfl) (fun o v _ _ hother hv => ?_) ?_
    (fun _ _ _ h => by cases h) (fun _ _ h => by cases h) fun _ => trivial
  · have hne : d ≠ a := fun heq => hnot (heq ▸ hd)
    simp [hne]
  · have hne : v ≠ e.valuePtr :=
      h.cells.ne_of_ne (cellOf_entry he) hv fun heq => hnot (hother a heq)
    simp [hne]
  · have hcell : cellOf ((s.mem.setEntry a none).setVal e.valuePtr none)
        (update s.pcs i .idle) = update (cellOf s.mem s.pcs) (.entry a) none := by
      have hsame : cellOf s.mem (update s.pcs i .idle) = cellOf s.mem s.pcs :=
        cellOf_put_same (by simp [hpc, MapPc.freshCell, hknows.2]) (by rw [hpc]; rfl)
      rw [← hsame]
      exact cellOf_setEntry s.mem _ a none
    rw [hcell]
    exact h.cells.free (cellOf_entry he)

theorem Inv.newEntry (hpc : s.pcs i = .newEntry c prev target)
    (ha : s.mem.entries a = none) (hfree : s.mem.vals cell = none) :
    Inv conf (s.put i (.storeNext { c with newEntry := some a } prev target)
      (((s.mem.setVal cell (some c.value)).setEntry a (some ⟨c.key, cell⟩)).setNext (.entry a)
        none)) L ∧
      Grows s.mem L (((s.mem.setVal cell (some c.value)).setEntry a
        (some ⟨c.key, cell⟩)).setNext (.entry a) none) L := by
  have hknows := h.knows i
  rw [hpc] at hknows
  obtain ⟨hgap, hvalue, harg⟩ := hknows
  have hnot : ¬ s.Others L i a := h.not_others_of_free ha
  refine h.own _ _ (fun d hd => ?_) (fun b => by simp) (fun d hd => ?_) (fun o v _ _ _ hv => ?_) ?_
    (fun d k x hd => ?_) (fun v x hv => ?_) fun hgrows =>
    ⟨InsertOk.mono hgrows ⟨hgap, hvalue, harg⟩, by simp⟩
  · have hne : d ≠ a := fun heq => hnot (heq ▸ hd)
    simp [hne]
  · have hne : d ≠ a := fun heq => hnot (heq ▸ hd)
    simp [hne]
  · have hne : v ≠ cell := h.cells.ne_of_free hfree hv
    simp [hne]
  · have hsame : cellOf s.mem (update s.pcs i
        (.storeNext { c with newEntry := some a } prev target)) = cellOf s.mem s.pcs :=
      cellOf_put_same (by simp [hpc, MapPc.freshCell]) (by rw [hpc]; rfl)
    have hcell := cellOf_setEntry s.mem (update s.pcs i
      (.storeNext { c with newEntry := some a } prev target)) a (some ⟨c.key, cell⟩)
    rw [hsame] at hcell
    have halloc := h.cells.alloc (o := CellOwner.entry a) hfree c.value
    exact hcell ▸ halloc
  · obtain ⟨rfl, rfl, rfl⟩ := hd
    refine ⟨hnot, cell, ?_, ?_⟩
    · simp
    · simp [harg]
  · simp [MapPc.freshCell, hvalue] at hv

theorem Inv.storeNext (hpc : s.pcs i = .storeNext c prev target) (ha : c.newEntry = some a) :
    Inv conf (s.put i (.casNext c prev target) (s.mem.setNext (.entry a) target)) L ∧
      Grows s.mem L (s.mem.setNext (.entry a) target) L := by
  have hknows := h.knows i
  rw [hpc] at hknows
  have hentry : (MapPc.casNext c prev target).freshEntry = (s.pcs i).freshEntry := by
    rw [hpc]
    rfl
  have hnot : ¬ s.Others L i a := h.not_others (x := (c.key, c.arg)) (by simp [hpc, ha])
  refine h.own _ _ (fun _ _ => rfl) (fun b => by simp) (fun d hd => ?_)
    (fun _ _ _ _ _ _ => rfl) ?_ (fun d k x hd => h.own_entry hentry hd) (fun v x hv => ?_)
    fun hgrows => ⟨InsertOk.mono hgrows hknows.1, a, ha, by simp⟩
  · have hne : d ≠ a := fun heq => hnot (heq ▸ hd)
    simp [hne]
  · have hsame : cellOf s.mem (update s.pcs i (.casNext c prev target)) =
        cellOf s.mem s.pcs := cellOf_put_same (by rw [hpc]; rfl) (by rw [hpc]; rfl)
    have hcells := h.cells
    rw [← hsame] at hcells
    exact hcells
  · refine h.freshCell i v x ?_
    rw [hpc]
    exact hv

theorem Inv.swap {v : Nat}
    (hpc : s.pcs i = .casValue c a e.valuePtr) (he : s.mem.entries a = some e)
    (hv : c.newValue = some v) (hstored : (c.key, c.arg) ∈ s.stored) :
    Inv conf (s.put i (.deleteOld { c with newValue := none } e.valuePtr)
      (s.mem.setEntry a (some { e with valuePtr := v }))) L ∧
      Grows s.mem L (s.mem.setEntry a (some { e with valuePtr := v })) L := by
  have hknows := h.knows i
  rw [hpc] at hknows
  obtain ⟨⟨hmem, hkey⟩, -⟩ := hknows
  have hkeys : ∀ d, (s.mem.setEntry a (some { e with valuePtr := v })).keyAt d = s.mem.keyAt d := by
    intro d
    by_cases hd : d = a
    · simp [hd, he]
    · simp [hd]
  have hgrows : Grows s.mem L (s.mem.setEntry a (some { e with valuePtr := v })) L :=
    Grows.of_keyAt fun _ d _ => hkeys d
  have hekey : e.key = c.key := by simpa [he] using hkey
  have hentries : ∀ j, ((s.put i (.deleteOld { c with newValue := none } e.valuePtr)
      (s.mem.setEntry a (some { e with valuePtr := v }))).pcs j).freshEntry =
      (s.pcs j).freshEntry :=
    (forall_update_iff s.pcs fun j pc => pc.freshEntry = (s.pcs j).freshEntry).2
      ⟨by rw [hpc]; rfl, fun _ _ => rfl⟩
  refine ⟨⟨h.bucket, fun b => (h.sorted b).imp fun hlt => hlt.congr (hkeys _) (hkeys _),
    fun b d hd => ?_, ?_, fun j l a x y hj hl => ?_, fun j d k x hj => ?_, ?_,
    fun b d hd e' he' => ?_, fun k hk => Present.mono hgrows (h.completed k hk), ?_⟩, hgrows⟩
  · obtain ⟨k, hk, hb⟩ := h.indexed b d hd
    exact ⟨k, (hkeys d).trans hk, hb⟩
  · have hcell : cellOf (s.mem.setEntry a (some { e with valuePtr := v }))
        (update s.pcs i (.deleteOld { c with newValue := none } e.valuePtr)) =
        update (update (update (cellOf s.mem s.pcs) (.entry a) (some v))
          (.fresh i) none) (.old i) (some e.valuePtr) := by
      rw [cellOf_put, cellOf_setEntry]
      rfl
    simp only [put, hcell]
    exact h.cells.swap (cellOf_entry he) (by simp [cellOf, hpc, MapPc.freshCell, hv]) (by simp)
  · rw [hentries] at hj hl
    exact h.entryOwner j l a x y hj hl
  · rw [hentries] at hj
    obtain ⟨hnot, w, hw, hx⟩ := h.freshEntry j d k x hj
    refine ⟨hnot, w, ?_, hx⟩
    have hda : d ≠ a := fun heq => hnot _ (heq ▸ hmem)
    simpa [put, hda] using hw
  · refine (forall_update_iff s.pcs fun j pc => ∀ w x, pc.freshCell = some (w, x) →
      s.mem.vals w = some x).2 ⟨fun w x hw => ?_, fun j _ => h.freshCell j⟩
    simp [MapPc.freshCell] at hw
  · by_cases hda : d = a
    · subst hda
      simp only [put, setEntry, update_self, Option.some.injEq] at he'
      subst he'
      refine ⟨c.arg, h.freshCell i v c.arg ?_, by rw [hekey]; exact hstored⟩
      simp [hpc, MapPc.freshCell, hv]
    · simp only [put, setEntry, update_of_ne hda] at he'
      exact h.values b d hd e' he'
  · refine (forall_update_iff s.pcs fun _ pc => Knows conf _ L pc).2
      ⟨⟨⟨a, hmem, (hkeys a).trans hkey⟩, rfl⟩, fun j _ => ?_⟩
    exact Knows.mono hgrows (fun _ _ _ => rfl) (h.knows j)

theorem Inv.link (hpc : s.pcs i = .casNext c prev target) (ha : c.newEntry = some a)
    (hprev : s.mem.next prev = target) (hstored : (c.key, c.arg) ∈ s.stored) :
    ∃ L', Inv conf (s.put i (.deleteValue { c with newEntry := none })
        (s.mem.setNext prev (some a))) L' ∧
      Grows s.mem L (s.mem.setNext prev (some a)) L' := by
  have hknows := h.knows i
  rw [hpc] at hknows
  obtain ⟨⟨hgap, hnoval, -⟩, a', ha', hlink⟩ := hknows
  obtain rfl : a' = a := Option.some.inj (ha'.symm.trans ha)
  have hfresh : (s.pcs i).freshEntry = some (a', c.key, c.arg) := by simp [hpc, ha]
  obtain ⟨hnew, v, hv, hx⟩ := h.freshEntry i a' c.key c.arg hfresh
  have hkey : s.mem.keyAt a' = some c.key := by simp [hv]
  obtain ⟨l', hbucket, hsorted, hsub, hmem⟩ :=
    hgap.link (h.bucket _) (h.sorted _) hprev hkey hlink (hnew _)
  -- only the bucket of the key changes
  have hprevmem : ∀ p, prev = .entry p → p ∈ L (conf.index c.key) := by
    rintro p rfl
    exact hgap.1.1
  have hother : ∀ b, b ≠ conf.index c.key → (s.mem.setNext prev (some a')).Bucket b (L b) := by
    intro b hb
    cases prev with
    | head b' =>
      obtain rfl : b' = conf.index c.key := hgap.1
      have hhead : NodeRef.head b ≠ .head (conf.index c.key) := by simpa using hb
      have hsame := h.bucket b
      simpa [Bucket, hhead] using hsame
    | entry p =>
      refine (bucket_setNext (fun hp => ?_) _).2 (h.bucket b)
      obtain ⟨k, hk, hkb⟩ := h.indexed b p hp
      obtain ⟨k', hk', hkb'⟩ := h.indexed _ p (hprevmem p rfl)
      grind
  have hmem' : ∀ b d, d ∈ update L (conf.index c.key) l' b →
      d = a' ∧ b = conf.index c.key ∨ d ∈ L b := by
    grind
  have hgrows : Grows s.mem L (s.mem.setNext prev (some a'))
      (update L (conf.index c.key) l') := by
    intro b
    refine ⟨?_, fun _ _ => rfl⟩
    grind
  have hnomem : ∀ j, j ≠ i → ∀ d x, (s.pcs j).freshEntry = some (d, x) →
      d ≠ a' ∧ ∀ b, d ∉ L b := fun j hj d x hd =>
    ⟨fun heq => hj (h.entryOwner j i d x (c.key, c.arg) hd (heq ▸ hfresh)),
      (h.freshEntry j d x.1 x.2 hd).1⟩
  refine ⟨_, ⟨fun b => ?_, fun b => ?_, fun b d hd => ?_, ?_, fun j l d x y hj hl => ?_, ?_, ?_,
    fun b d hd e he => ?_, fun k hk => Present.mono hgrows (h.completed k hk), ?_⟩, hgrows⟩
  · by_cases hb : b = conf.index c.key
    · subst hb
      rw [update_self]
      exact hbucket
    · rw [update_of_ne hb]
      exact hother b hb
  · by_cases hb : b = conf.index c.key
    · subst hb
      rw [update_self]
      exact hsorted
    · rw [update_of_ne hb]
      exact h.sorted b
  · rcases hmem' b d hd with ⟨rfl, rfl⟩ | hold
    · exact ⟨c.key, hkey, rfl⟩
    · exact h.indexed b d hold
  · have hsame : cellOf s.mem (update s.pcs i (.deleteValue { c with newEntry := none })) =
        cellOf s.mem s.pcs :=
      cellOf_put_same (by simp [hpc, MapPc.freshCell]) (by rw [hpc]; rfl)
    have hcells := h.cells
    rw [← hsame] at hcells
    exact hcells
  · by_cases hji : j = i
    · subst hji
      simp [put] at hj
    · by_cases hli : l = i
      · subst hli
        simp [put] at hl
      · simp only [put, update_of_ne hji, update_of_ne hli] at hj hl
        exact h.entryOwner j l d x y hj hl
  · refine (forall_update_iff s.pcs fun _ pc => ∀ d k x, pc.freshEntry = some (d, k, x) →
      (∀ b, d ∉ update L (conf.index c.key) l' b) ∧
        ∃ v, s.mem.entries d = some ⟨k, v⟩ ∧ s.mem.vals v = some x).2
      ⟨(by intro _ _ _ h; cases h),
        fun j hj d k x hd => ⟨fun b hb => ?_, (h.freshEntry j d k x hd).2⟩⟩
    grind
  · refine (forall_update_iff s.pcs fun _ pc => ∀ w x, pc.freshCell = some (w, x) →
      s.mem.vals w = some x).2 ⟨fun w x hw => ?_, fun j _ => h.freshCell j⟩
    simp [MapPc.freshCell, hnoval] at hw
  · rcases hmem' b d hd with ⟨rfl, -⟩ | hold
    · obtain rfl : e = ⟨c.key, v⟩ := Option.some.inj (he.symm.trans hv)
      exact ⟨c.arg, hx, hstored⟩
    · exact h.values b d hold e he
  · refine (forall_update_iff s.pcs fun _ pc => Knows conf _ _ pc).2
      ⟨⟨⟨a', ?_, hkey⟩, hnoval, rfl⟩, fun j hj => ?_⟩
    · grind
    · refine Knows.mono hgrows (fun d x hd => ?_) (h.knows j)
      have hne : NodeRef.entry d ≠ prev := fun heq => (hnomem j hj d x hd).2 _ (hprevmem d heq.symm)
      simp [put, hne]

end

end

end Base.MapSystem
