import LkChain.Validators.VotingPower

/-!
# What a collected transaction does to the strategy

Every item of an accepted transaction revises the roster of the current validators, whatever cells
are shared. The pending updates keep the text of the transaction only as long as no item writes to a
cell that an earlier item of the same transaction has appended.
-/

namespace LkChain.Validators.Collect

open Foundation ParseTx TxBased VotingPower

/-! ## One update -/

/-- The three ways in which an update is applied. -/
inductive Applied (strategy : Strategy) (ref : ℕ) : Strategy → Prop
  | added : strategy.find (strategy.heap ref).pubKey = none →
      Applied strategy ref
        { strategy with currentValidators := strategy.currentValidators ++ [ref] }
  | removed (val : ℕ) : strategy.find (strategy.heap ref).pubKey = some val →
      (strategy.heap ref).power = 0 →
      Applied strategy ref
        { strategy with currentValidators := strategy.currentValidators.erase val }
  | written (val : ℕ) : strategy.find (strategy.heap ref).pubKey = some val →
      (strategy.heap ref).power ≠ 0 →
      Applied strategy ref (strategy.write val (strategy.heap ref).power)

section Step

variable {strategy after : Strategy} {ref : ℕ} {table : Roster.Table Bytes}

theorem exists_applied (hnonneg : 0 ≤ (strategy.heap ref).power) :
    ∃ after, strategy.applyUpdate ref = .ok after ∧ Applied strategy ref after := by
  unfold Strategy.applyUpdate
  dsimp only
  rw [if_neg (not_lt.mpr hnonneg)]
  cases hfind : strategy.find (strategy.heap ref).pubKey with
  | none => exact ⟨_, rfl, .added hfind⟩
  | some val =>
    by_cases hzero : (strategy.heap ref).power = 0
    · exact ⟨_, if_pos hzero, .removed val hfind hzero⟩
    · exact ⟨_, if_neg hzero, .written val hfind hzero⟩

theorem applied_of_applyUpdate (hstep : strategy.applyUpdate ref = .ok after) :
    Applied strategy ref after := by
  by_cases hnonneg : 0 ≤ (strategy.heap ref).power
  · obtain ⟨found, hfound, happlied⟩ := exists_applied hnonneg
    rw [hstep] at hfound
    cases hfound
    exact happlied
  · unfold Strategy.applyUpdate at hstep
    rw [if_pos (not_le.mp hnonneg)] at hstep
    cases hstep

theorem mem_of_find {pubKey : Bytes} {val : ℕ} (hfind : strategy.find pubKey = some val) :
    val ∈ strategy.currentValidators ∧ (strategy.heap val).pubKey = pubKey :=
  ⟨List.mem_of_find?_eq_some hfind, by simpa using List.find?_some hfind⟩

/-- The table knows a key exactly when the search finds a pointer. -/
theorem table_eq_none_iff (hpairs : Roster.Represents strategy.pairs table) {pubKey : Bytes} :
    table pubKey = none ↔ strategy.find pubKey = none := by
  rw [hpairs.eq_none_iff]
  unfold Strategy.find Strategy.pairs Validator.pair
  simp [List.find?_eq_none]

/-- Taking a pointer out of the slice takes its pair out of the list. -/
theorem pairs_perm {val : ℕ} (hval : val ∈ strategy.currentValidators) :
    strategy.pairs.Perm ((strategy.heap val).pair ::
      (strategy.currentValidators.erase val).map fun ref ↦ (strategy.heap ref).pair) :=
  (List.perm_cons_erase hval).map _

theorem write_heap_self (val : ℕ) (power : ℤ) :
    (strategy.write val power).heap val = { strategy.heap val with power := power } :=
  Function.update_self _ _ _

theorem write_heap_of_ne {val other : ℕ} (hne : other ≠ val) (power : ℤ) :
    (strategy.write val power).heap other = strategy.heap other := Function.update_of_ne hne _ _

theorem map_pair_write {val : ℕ} {power : ℤ} {refs : List ℕ} (hother : val ∉ refs) :
    (refs.map fun other ↦ ((strategy.write val power).heap other).pair) =
      refs.map fun other ↦ (strategy.heap other).pair := by
  apply List.map_congr_left
  intro other hmem
  rw [write_heap_of_ne]
  intro hsame
  exact hother (hsame ▸ hmem)

theorem Applied.represents (happlied : Applied strategy ref after)
    (hwellFormed : strategy.WellFormed) (hpairs : Roster.Represents strategy.pairs table) :
    Roster.Represents after.pairs (Roster.revise table (strategy.heap ref).pair) := by
  cases happlied with
  | added hfind =>
    have habsent := (table_eq_none_iff hpairs).mpr hfind
    apply (hpairs.add habsent).perm
    unfold Strategy.pairs
    rw [List.map_append]
    exact (List.perm_append_singleton _ _).symm
  | removed val hfind hzero =>
    obtain ⟨hval, hkey⟩ := mem_of_find hfind
    have hhead := hpairs.perm (pairs_perm hval)
    have hpair : (strategy.heap ref).pair = ((strategy.heap val).pubKey, 0) := by
      rw [Validator.pair, hkey, hzero]
    rw [hpair]
    exact hhead.remove
  | written val hfind hne =>
    obtain ⟨hval, hkey⟩ := mem_of_find hfind
    have hhead := hpairs.perm (pairs_perm hval)
    have hpair : (strategy.heap ref).pair =
        ((strategy.heap val).pubKey, (strategy.heap ref).power) := by
      rw [Validator.pair, hkey]
    rw [hpair]
    apply (hhead.replace hne).perm
    have hperm := (List.perm_cons_erase hval).map fun other ↦
      ((strategy.write val (strategy.heap ref).power).heap other).pair
    rw [List.map_cons, write_heap_self, map_pair_write hwellFormed.nodup.not_mem_erase] at hperm
    exact hperm.symm

theorem Applied.next_eq (happlied : Applied strategy ref after) : after.next = strategy.next := by
  cases happlied <;> rfl

theorem Applied.updateValidators_eq (happlied : Applied strategy ref after) :
    after.updateValidators = strategy.updateValidators := by
  cases happlied <;> rfl

theorem Applied.mem (happlied : Applied strategy ref after) {other : ℕ}
    (hother : other ∈ after.currentValidators) :
    other ∈ strategy.currentValidators ∨ other = ref := by
  cases happlied with
  | added => simpa using hother
  | removed => exact Or.inl (List.mem_of_mem_erase hother)
  | written => exact Or.inl hother

/-- Only cells of current validators are written to, and only their power changes. -/
theorem Applied.heap_eq (happlied : Applied strategy ref after) {other : ℕ}
    (hother : other ∉ strategy.currentValidators) : after.heap other = strategy.heap other := by
  cases happlied with
  | added => rfl
  | removed => rfl
  | written val hfind =>
    apply write_heap_of_ne
    intro hsame
    exact hother (hsame ▸ (mem_of_find hfind).1)

theorem Applied.pubKey_eq (happlied : Applied strategy ref after) (other : ℕ) :
    (after.heap other).pubKey = (strategy.heap other).pubKey := by
  cases happlied with
  | added => rfl
  | removed => rfl
  | written val hfind =>
    by_cases hsame : other = val
    · subst hsame
      rw [write_heap_self]
    · rw [write_heap_of_ne hsame]

theorem Applied.wellFormed (happlied : Applied strategy ref after)
    (hwellFormed : strategy.WellFormed) (hfresh : ref ∉ strategy.currentValidators)
    (hallocated : ref < strategy.next) : after.WellFormed where
  nodup := by
    cases happlied with
    | added =>
      exact (List.perm_append_singleton _ _).nodup_iff.mpr
        (List.nodup_cons.mpr ⟨hfresh, hwellFormed.nodup⟩)
    | removed => exact hwellFormed.nodup.erase _
    | written => exact hwellFormed.nodup
  allocated other hother := by
    rw [happlied.next_eq]
    cases happlied.mem hother with
    | inl hcurrent => exact hwellFormed.allocated other hcurrent
    | inr hsame => exact hsame ▸ hallocated

end Step

/-! ## The loop over the pending updates -/

/-- References that wait to be applied: different cells in use that are not current yet. -/
structure Waiting (strategy : Strategy) (refs : List ℕ) : Prop where
  wellFormed : strategy.WellFormed
  nodup : refs.Nodup
  fresh : ∀ ref ∈ refs, ref ∉ strategy.currentValidators
  allocated : ∀ ref ∈ refs, ref < strategy.next

/-- A run of the loop of `updateValidators`. -/
inductive Applies : Strategy → List ℕ → Strategy → Prop
  | nil (strategy : Strategy) : Applies strategy [] strategy
  | cons {strategy next after : Strategy} {ref : ℕ} {refs : List ℕ} :
      Applied strategy ref next → Applies next refs after →
      Applies strategy (ref :: refs) after

section Loop

variable {strategy next after : Strategy} {ref : ℕ} {refs : List ℕ} {table : Roster.Table Bytes}

theorem Waiting.step (hwaiting : Waiting strategy (ref :: refs))
    (happlied : Applied strategy ref next) : Waiting next refs where
  wellFormed := happlied.wellFormed hwaiting.wellFormed (hwaiting.fresh ref List.mem_cons_self)
    (hwaiting.allocated ref List.mem_cons_self)
  nodup := (List.nodup_cons.mp hwaiting.nodup).2
  fresh other hother hcurrent := by
    cases happlied.mem hcurrent with
    | inl hold => exact hwaiting.fresh other (List.mem_cons_of_mem _ hother) hold
    | inr hsame => exact (List.nodup_cons.mp hwaiting.nodup).1 (hsame ▸ hother)
  allocated other hother := by
    rw [happlied.next_eq]
    exact hwaiting.allocated other (List.mem_cons_of_mem _ hother)

/-- An update that waits reads the same after the step before it. -/
theorem Waiting.heap_eq (hwaiting : Waiting strategy (ref :: refs))
    (happlied : Applied strategy ref next) :
    ∀ other ∈ refs, next.heap other = strategy.heap other :=
  fun other hother ↦ happlied.heap_eq (hwaiting.fresh other (List.mem_cons_of_mem _ hother))

theorem exists_applies (hwaiting : Waiting strategy refs)
    (hnonneg : ∀ ref ∈ refs, 0 ≤ (strategy.heap ref).power) :
    ∃ after, refs.foldlM Strategy.applyUpdate strategy = .ok after ∧
      Applies strategy refs after := by
  induction refs generalizing strategy with
  | nil => exact ⟨strategy, rfl, .nil strategy⟩
  | cons ref refs ih =>
    obtain ⟨next, hstep, happlied⟩ := exists_applied (hnonneg ref List.mem_cons_self)
    have htail : ∀ other ∈ refs, 0 ≤ (next.heap other).power := by
      intro other hother
      rw [hwaiting.heap_eq happlied other hother]
      exact hnonneg other (List.mem_cons_of_mem _ hother)
    obtain ⟨after, hloop, happlies⟩ := ih (hwaiting.step happlied) htail
    refine ⟨after, ?_, .cons happlied happlies⟩
    rw [List.foldlM_cons, hstep]
    exact hloop

theorem applies_of_foldlM (hloop : refs.foldlM Strategy.applyUpdate strategy = .ok after) :
    Applies strategy refs after := by
  induction refs generalizing strategy with
  | nil =>
    cases hloop
    exact .nil _
  | cons ref refs ih =>
    rw [List.foldlM_cons, Results.bind_eq_ok_iff] at hloop
    obtain ⟨next, hstep, hrest⟩ := hloop
    exact .cons (applied_of_applyUpdate hstep) (ih hrest)

theorem Applies.updateValidators_eq (happlies : Applies strategy refs after) :
    after.updateValidators = strategy.updateValidators := by
  induction happlies with
  | nil => rfl
  | cons happlied _ ih => rw [ih, happlied.updateValidators_eq]

/-- The rest of the loop reads its updates as the whole loop does. -/
theorem Waiting.map_pair_eq (hwaiting : Waiting strategy (ref :: refs))
    (happlied : Applied strategy ref next) :
    (refs.map fun other ↦ (next.heap other).pair) =
      refs.map fun other ↦ (strategy.heap other).pair := by
  apply List.map_congr_left
  intro other hother
  rw [hwaiting.heap_eq happlied other hother]

theorem Applies.wellFormed (happlies : Applies strategy refs after)
    (hwaiting : Waiting strategy refs) : after.WellFormed := by
  induction happlies with
  | nil => exact hwaiting.wellFormed
  | cons happlied _ ih => exact ih (hwaiting.step happlied)

/-- The loop revises the roster by what the updates read at its start. -/
theorem Applies.represents (happlies : Applies strategy refs after)
    (hwaiting : Waiting strategy refs) (hpairs : Roster.Represents strategy.pairs table) :
    Roster.Represents after.pairs
      (Roster.reviseAll table (refs.map fun ref ↦ (strategy.heap ref).pair)) := by
  induction happlies generalizing table with
  | nil => exact hpairs
  | @cons strategy next after ref refs happlied _ ih =>
    have hstep := happlied.represents hwaiting.wellFormed hpairs
    have hafter := ih (hwaiting.step happlied) hstep
    rw [hwaiting.map_pair_eq happlied] at hafter
    exact hafter

/-- Cells that are neither current nor waiting keep what they read. -/
theorem Applies.heap_of_fresh (happlies : Applies strategy refs after)
    {other : ℕ} (hcurrent : other ∉ strategy.currentValidators) (hrefs : other ∉ refs) :
    after.heap other = strategy.heap other := by
  induction happlies with
  | nil => rfl
  | cons happlied _ ih =>
    rw [List.mem_cons, not_or] at hrefs
    rw [ih _ hrefs.2, happlied.heap_eq hcurrent]
    exact fun hnext ↦ (happlied.mem hnext).elim hcurrent hrefs.1

/-- The power that is read in the cell of a current validator after these items: each item for its
key writes it, up to the one that removes the validator. -/
def lastWritten (key : Bytes) (power : ℤ) : List (Bytes × ℤ) → ℤ
  | [] => power
  | item :: rest =>
    if item.1 ≠ key then lastWritten key power rest
    else if item.2 = 0 then power
    else lastWritten key item.2 rest

/-- What the updates of a transaction read once they have been applied: the cell of an item that
adds a validator is the cell that later items write. -/
def settled (table : Roster.Table Bytes) : List (Bytes × ℤ) → List (Bytes × ℤ)
  | [] => []
  | item :: rest =>
    (item.1, if (table item.1).isNone then lastWritten item.1 item.2 rest else item.2) ::
      settled (Roster.revise table item) rest

theorem eq_of_pubKey_eq (hpairs : Roster.Represents strategy.pairs table) {val other : ℕ}
    (hval : val ∈ strategy.currentValidators) (hother : other ∈ strategy.currentValidators)
    (hkey : (strategy.heap val).pubKey = (strategy.heap other).pubKey) : val = other := by
  have hnodup := hpairs.nodup
  unfold Strategy.pairs at hnodup
  rw [List.map_map] at hnodup
  exact List.inj_on_of_nodup_map hnodup hval hother hkey

theorem Applies.heap_current (happlies : Applies strategy refs after)
    (hwaiting : Waiting strategy refs) (hpairs : Roster.Represents strategy.pairs table) {val : ℕ}
    (hval : val ∈ strategy.currentValidators) :
    (after.heap val).pair = ((strategy.heap val).pubKey, lastWritten (strategy.heap val).pubKey
      (strategy.heap val).power (refs.map fun ref ↦ (strategy.heap ref).pair)) := by
  induction happlies generalizing table with
  | nil => rfl
  | @cons strategy next after ref refs happlied hrest ih =>
    have hih := ih (hwaiting.step happlied) (happlied.represents hwaiting.wellFormed hpairs)
    rw [hwaiting.map_pair_eq happlied, happlied.pubKey_eq] at hih
    rw [List.map_cons, lastWritten]
    have hsame (val' : ℕ) (hfind : strategy.find (strategy.heap ref).pubKey = some val') :
        (strategy.heap ref).pair.1 = (strategy.heap val).pubKey ↔ val' = val := by
      obtain ⟨hval', hkey⟩ := mem_of_find hfind
      exact ⟨fun h ↦ eq_of_pubKey_eq hpairs hval' hval (hkey.trans h),
        fun h ↦ hkey.symm.trans (by rw [h])⟩
    cases happlied with
    | added hfind =>
      have hne : (strategy.heap ref).pair.1 ≠ (strategy.heap val).pubKey := by
        intro hkey
        refine absurd (List.find?_eq_none.mp hfind val hval) (not_not.mpr ?_)
        exact decide_eq_true hkey.symm
      rw [if_pos hne]
      exact hih (List.mem_append_left _ hval)
    | removed val' hfind hzero =>
      by_cases hkey : (strategy.heap ref).pair.1 = (strategy.heap val).pubKey
      · rw [if_neg (not_not.mpr hkey), if_pos (show (strategy.heap ref).pair.2 = 0 from hzero)]
        cases (hsame val' hfind).mp hkey
        rw [hrest.heap_of_fresh hwaiting.wellFormed.nodup.not_mem_erase]
        · rfl
        · exact fun hmem ↦ hwaiting.fresh _ (List.mem_cons_of_mem _ hmem) hval
      · rw [if_pos hkey]
        exact hih ((List.mem_erase_of_ne (Ne.symm (mt (hsame val' hfind).mpr hkey))).mpr hval)
    | written val' hfind hne =>
      by_cases hkey : (strategy.heap ref).pair.1 = (strategy.heap val).pubKey
      · rw [if_neg (not_not.mpr hkey), if_neg (show (strategy.heap ref).pair.2 ≠ 0 from hne)]
        cases (hsame val' hfind).mp hkey
        have hwritten := hih hval
        rw [write_heap_self] at hwritten
        exact hwritten
      · rw [if_pos hkey]
        have hkept := hih hval
        rw [write_heap_of_ne (Ne.symm (mt (hsame val' hfind).mpr hkey))] at hkept
        exact hkept

/-- What the applied updates read is found from the items alone. -/
theorem Applies.settled_eq (happlies : Applies strategy refs after)
    (hwaiting : Waiting strategy refs) (hpairs : Roster.Represents strategy.pairs table) :
    (refs.map fun ref ↦ (after.heap ref).pair) =
      settled table (refs.map fun ref ↦ (strategy.heap ref).pair) := by
  induction happlies generalizing table with
  | nil => rfl
  | @cons strategy next after ref refs happlied hrest ih =>
    have hnext := happlied.represents hwaiting.wellFormed hpairs
    have htail := ih (hwaiting.step happlied) hnext
    have hfresh := hwaiting.fresh ref List.mem_cons_self
    have hnot : ref ∉ refs := (List.nodup_cons.mp hwaiting.nodup).1
    rw [hwaiting.map_pair_eq happlied] at htail
    rw [List.map_cons, List.map_cons, settled, htail]
    congr 1
    have hmap := hwaiting.map_pair_eq happlied
    have hheap := happlied.heap_eq hfresh
    cases hfind : strategy.find (strategy.heap ref).pubKey with
    | none =>
      -- The cell of the item joins the current validators and is written from now on.
      have hnone : table (strategy.heap ref).pair.1 = none := (table_eq_none_iff hpairs).mpr hfind
      have hmem : ref ∈ next.currentValidators := by
        cases happlied with
        | added => exact List.mem_append_right _ (List.mem_singleton_self ref)
        | removed _ hfound => cases hfind.symm.trans hfound
        | written _ hfound => cases hfind.symm.trans hfound
      rw [hnone, hrest.heap_current (hwaiting.step happlied) hnext hmem, hmap, hheap]
      rfl
    | some val =>
      have hsome : (table (strategy.heap ref).pair.1).isNone = false := by
        rw [Option.isNone_eq_false_iff, Option.isSome_iff_ne_none]
        intro hnone
        cases hfind.symm.trans ((table_eq_none_iff hpairs).mp hnone)
      have hnmem : ref ∉ next.currentValidators := by
        cases happlied with
        | added hfound => cases hfind.symm.trans hfound
        | removed => exact fun hmem ↦ hfresh (List.mem_of_mem_erase hmem)
        | written => exact hfresh
      rw [hsome, hrest.heap_of_fresh hnmem hnot, hheap]
      rfl

theorem lastWritten_nonneg {key : Bytes} {power : ℤ} {items : List (Bytes × ℤ)}
    (hpower : 0 ≤ power) (hnonneg : ∀ item ∈ items, 0 ≤ item.2) :
    0 ≤ lastWritten key power items := by
  induction items generalizing power with
  | nil => exact hpower
  | cons item rest ih =>
    obtain ⟨hhead, hrest⟩ := List.forall_mem_cons.mp hnonneg
    rw [lastWritten]
    split
    · exact ih hpower hrest
    · split
      · exact hpower
      · exact ih hhead hrest

theorem settled_nonneg {items : List (Bytes × ℤ)} (hnonneg : ∀ item ∈ items, 0 ≤ item.2) :
    ∀ item ∈ settled table items, 0 ≤ item.2 := by
  induction items generalizing table with
  | nil => exact hnonneg
  | cons item rest ih =>
    obtain ⟨hhead, hrest⟩ := List.forall_mem_cons.mp hnonneg
    rw [settled, List.forall_mem_cons]
    refine ⟨?_, ih hrest⟩
    dsimp only
    split
    · exact lastWritten_nonneg hhead hrest
    · exact hhead

/-- Whether an item gives a new power to a key that an earlier item has added. Once a key has been
added, the cell found under it belongs to the transaction. -/
def repowers (table : Roster.Table Bytes) (added : List Bytes) : List (Bytes × ℤ) → Bool
  | [] => false
  | item :: rest =>
    (decide (item.1 ∈ added) && (table item.1).isSome && decide (item.2 ≠ 0)) ||
      repowers (Roster.revise table item)
        (if (table item.1).isNone then item.1 :: added else added) rest

theorem lastWritten_of_kept {key : Bytes} {power : ℤ} {added : List Bytes}
    {items : List (Bytes × ℤ)} (hadded : key ∈ added) (hsome : (table key).isSome)
    (hkept : repowers table added items = false) : lastWritten key power items = power := by
  induction items generalizing table added with
  | nil => rfl
  | cons item rest ih =>
    rw [repowers, Bool.or_eq_false_iff] at hkept
    rw [lastWritten]
    by_cases hkey : item.1 = key
    · have hzero : item.2 = 0 := by simpa [hkey, hadded, hsome] using hkept.1
      rw [if_neg (not_not.mpr hkey), if_pos hzero]
    · rw [if_pos hkey]
      refine ih ?_ ?_ hkept.2
      · split
        · exact List.mem_cons_of_mem _ hadded
        · exact hadded
      · unfold Roster.revise
        rw [Function.update_of_ne (Ne.symm hkey)]
        exact hsome

/-- Without such an item the updates of a transaction keep what they read. -/
theorem settled_of_kept {added : List Bytes} {items : List (Bytes × ℤ)}
    (hkept : repowers table added items = false) : settled table items = items := by
  induction items generalizing table added with
  | nil => rfl
  | cons item rest ih =>
    rw [repowers, Bool.or_eq_false_iff] at hkept
    rw [settled, ih hkept.2]
    split
    next hnone =>
      have hrest := hkept.2
      rw [if_pos hnone] at hrest
      have hsome : (Roster.revise table item item.1).isSome := by
        simp [Roster.revise, Option.isNone_iff_eq_none.mp hnone]
      rw [lastWritten_of_kept List.mem_cons_self hsome hrest]
    next => rfl

end Loop

/-! ## Filling the pending updates -/

/-- The update that an item asks for. -/
def itemValidator (item : Item) : Validator := ⟨item.pair.1, item.pair.2⟩

/-- The strategy once the updates `items` are in fresh cells behind its pending ones. -/
structure Filled (strategy : Strategy) (items : List Validator) (filled : Strategy) : Prop where
  next_eq : filled.next = strategy.next + items.length
  current_eq : filled.currentValidators = strategy.currentValidators
  updates_eq : filled.updateValidators =
    strategy.updateValidators ++ List.range' strategy.next items.length
  heap_old : ∀ ref < strategy.next, filled.heap ref = strategy.heap ref
  heap_new : (List.range' strategy.next items.length).map filled.heap = items

section Fill

variable {strategy filled after : Strategy} {items : List Validator} {codec : Codec}
  {table : Roster.Table Bytes}

theorem Filled.cons {v : Validator} (hfilled : Filled (strategy.push v) items filled) :
    Filled strategy (v :: items) filled where
  next_eq := by
    rw [hfilled.next_eq, List.length_cons]
    change strategy.next + 1 + items.length = _
    omega
  current_eq := hfilled.current_eq
  updates_eq := by
    rw [hfilled.updates_eq, List.length_cons, List.range'_succ]
    exact List.append_assoc _ _ _
  heap_old ref href := by
    rw [hfilled.heap_old ref (href.trans (Nat.lt_succ_self _))]
    exact Function.update_of_ne href.ne _ _
  heap_new := by
    have hcell : filled.heap strategy.next = v := by
      rw [hfilled.heap_old strategy.next (Nat.lt_succ_self _)]
      exact Function.update_self _ _ _
    rw [List.length_cons, List.range'_succ, List.map_cons, hcell]
    exact congrArg _ hfilled.heap_new

theorem fill_ok {txs : List Item}
    (hkeys : ∀ item ∈ txs, Hex.decode item.pubKey = some item.pair.1) :
    ∃ filled, strategy.fill codec txs = (filled, none) ∧
      Filled strategy (txs.map itemValidator) filled := by
  induction txs generalizing strategy with
  | nil => exact ⟨strategy, rfl, rfl, rfl, (List.append_nil _).symm, fun _ _ ↦ rfl, rfl⟩
  | cons item rest ih =>
    obtain ⟨filled, hfill, hfilled⟩ := ih fun other hother ↦
      hkeys other (List.mem_cons_of_mem _ hother)
    refine ⟨filled, ?_, hfilled.cons⟩
    rw [Strategy.fill, Codec.decodeString, hkeys item List.mem_cons_self]
    exact hfill

theorem Filled.pairs_eq (hfilled : Filled strategy items filled)
    (hwellFormed : strategy.WellFormed) : filled.pairs = strategy.pairs := by
  unfold Strategy.pairs
  rw [hfilled.current_eq]
  apply List.map_congr_left
  intro ref href
  rw [hfilled.heap_old ref (hwellFormed.allocated ref href)]

theorem Filled.updates_pairs (hfilled : Filled strategy items filled)
    (hempty : strategy.updateValidators = []) :
    (filled.updateValidators.map fun ref ↦ (filled.heap ref).pair) = items.map Validator.pair := by
  rw [hfilled.updates_eq, hempty, List.nil_append, ← hfilled.heap_new, List.length_map,
    List.length_range', List.map_map]
  rfl

theorem Filled.updates_eq_items (hfilled : Filled strategy items filled)
    (hempty : strategy.updateValidators = []) : filled.updates = items := by
  unfold Strategy.updates
  rw [hfilled.updates_eq, hempty, List.nil_append]
  exact hfilled.heap_new

theorem Filled.waiting (hfilled : Filled strategy items filled)
    (hwellFormed : strategy.WellFormed) (hempty : strategy.updateValidators = []) :
    Waiting filled filled.updateValidators where
  wellFormed :=
    { nodup := hfilled.current_eq ▸ hwellFormed.nodup
      allocated := by
        intro ref href
        rw [hfilled.current_eq] at href
        have hlt := hwellFormed.allocated ref href
        rw [hfilled.next_eq]
        omega }
  nodup := by
    rw [hfilled.updates_eq, hempty, List.nil_append]
    exact List.nodup_range'
  fresh ref href hcurrent := by
    rw [hfilled.updates_eq, hempty, List.nil_append, List.mem_range'_1] at href
    rw [hfilled.current_eq] at hcurrent
    have hlt := hwellFormed.allocated ref hcurrent
    omega
  allocated ref href := by
    rw [hfilled.updates_eq, hempty, List.nil_append, List.mem_range'_1] at href
    rw [hfilled.next_eq]
    exact href.2

/-- The loop over filled updates: the roster is revised by the items, and the updates read what the
items settle to. -/
theorem Filled.applies (hfilled : Filled strategy items filled)
    (hwellFormed : strategy.WellFormed) (hempty : strategy.updateValidators = [])
    (hpairs : Roster.Represents strategy.pairs table)
    (happlies : Applies filled filled.updateValidators after) :
    after.WellFormed ∧
      Roster.Represents after.pairs (Roster.reviseAll table (items.map Validator.pair)) ∧
      after.updates.map Validator.pair = settled table (items.map Validator.pair) := by
  have hwaiting := hfilled.waiting hwellFormed hempty
  have hstart : Roster.Represents filled.pairs table := hfilled.pairs_eq hwellFormed ▸ hpairs
  have hrevised := happlies.represents hwaiting hstart
  have hsettled := happlies.settled_eq hwaiting hstart
  rw [hfilled.updates_pairs hempty] at hrevised hsettled
  refine ⟨happlies.wellFormed hwaiting, hrevised, ?_⟩
  unfold Strategy.updates
  rw [happlies.updateValidators_eq, List.map_map]
  exact hsettled

end Fill

/-! ## Collecting a transaction -/

section Collect

variable {PubKey Signature Address : Type} {codec : Codec}
  {crypto : Crypto PubKey Signature Address} {strategy : Strategy} {tx : String}
  {table : Roster.Table Bytes}

theorem lookup_current (hpairs : Roster.Represents strategy.pairs table) (pubKey : Bytes) :
    (getValidatorByPubKey strategy.current pubKey).map Validator.power = table pubKey := by
  rw [← hpairs.lookup_eq]
  unfold getValidatorByPubKey Roster.lookup Strategy.current Strategy.pairs
  rw [List.find?_map, List.find?_map, Option.map_map, Option.map_map]
  rfl

/-- The check of the strategy lets updates pass whose items stay below a third. -/
theorem change_eq_false_iff (hpairs : Roster.Represents strategy.pairs table)
    {updates : List Validator} (hnonneg : ∀ v ∈ updates, 0 ≤ v.power) :
    ∃ reached, changeInVotingPowerMoreOrEqualToOneThird strategy.current updates = .ok reached ∧
      (reached = false ↔ BelowThird strategy.pairs table (updates.map Validator.pair)) := by
  unfold changeInVotingPowerMoreOrEqualToOneThird
  rw [changeLoop_eq (fun v _ ↦ congrArg _ (lookup_current hpairs v.pubKey)) hnonneg]
  have htotal : totalVotingPower strategy.current = Int64.wrap (Roster.total strategy.pairs) := by
    unfold totalVotingPower Strategy.current Roster.total Strategy.pairs
    rw [Int64.accumulate_zero, List.map_map, List.map_map]
    rfl
  refine ⟨_, rfl, ?_⟩
  unfold BelowThird
  rw [htotal, List.map_map]
  rfl

theorem collectTx_of_error {error : CheckError}
    (hcheck : strategy.checkValidatorTx codec crypto tx = .error error) :
    strategy.collectTx codec crypto tx = (strategy, some (.check error)) := by
  unfold Strategy.collectTx
  rw [hcheck]

theorem applies_of_applyUpdates {after : Strategy}
    (hupdates : strategy.applyUpdates = .ok after) :
    Applies strategy strategy.updateValidators after := by
  unfold Strategy.applyUpdates at hupdates
  rw [Results.bind_eq_ok_iff] at hupdates
  obtain ⟨vp23, -, hloop⟩ := hupdates
  split at hloop
  next => cases hloop
  next => exact applies_of_foldlM hloop

/-- How a transaction with the updates `items` ends: they wait when the second check of the change
refuses them, and otherwise the current validators follow. -/
inductive Collected (strategy : Strategy) (items : List Validator) :
    Strategy × Option CollectError → Prop
  | refused {filled : Strategy} {error : String} : Filled strategy items filled →
      filled.applyUpdates = .error error →
      Collected strategy items (filled, some (.update error))
  | applied {filled after : Strategy} : Filled strategy items filled →
      filled.applyUpdates = .ok after → Collected strategy items (after, none)

/-- A transaction that passes `CheckValidatorTx` replaces the pending updates. -/
theorem collectTx_collected {data : ValidatorTx}
    (hcheck : strategy.checkValidatorTx codec crypto tx = .ok data) :
    Collected { strategy with updateValidators := [] } (data.txs.map itemValidator)
      (strategy.collectTx codec crypto tx) := by
  have hkeys := fun item hitem ↦ (checkKeys_ok (checkValidatorTx_ok hcheck).1 item hitem).1
  obtain ⟨filled, hfill, hfilled⟩ := fill_ok hkeys
  unfold Strategy.collectTx
  rw [hcheck]
  dsimp only
  rw [hfill]
  cases hupdates : filled.applyUpdates with
  | error error => simpa [hupdates] using Collected.refused hfilled hupdates
  | ok after =>
    simpa [hupdates] using Collected.applied hfilled hupdates

theorem Collected.wellFormed {items : List Validator} {result : Strategy × Option CollectError}
    (hcollected : Collected strategy items result) (hwellFormed : strategy.WellFormed)
    (hempty : strategy.updateValidators = []) : result.1.WellFormed := by
  cases hcollected with
  | refused hfilled _ => exact (hfilled.waiting hwellFormed hempty).wellFormed
  | applied hfilled happly =>
    exact (applies_of_applyUpdates happly).wellFormed (hfilled.waiting hwellFormed hempty)

theorem Collected.nodup {items : List Validator} {result : Strategy × Option CollectError}
    (hcollected : Collected strategy items result) (hwellFormed : strategy.WellFormed)
    (hempty : strategy.updateValidators = []) (hnodup : (strategy.pairs.map Prod.fst).Nodup) :
    (result.1.pairs.map Prod.fst).Nodup := by
  cases hcollected with
  | refused hfilled _ => rwa [hfilled.pairs_eq hwellFormed]
  | applied hfilled happly =>
    have hpairs := Roster.represents_lookup hnodup
    exact (hfilled.applies hwellFormed hempty hpairs (applies_of_applyUpdates happly)).2.1.nodup

theorem pairs_map_itemValidator (txs : List Item) :
    (txs.map itemValidator).map Validator.pair = txs.map Item.pair := by
  rw [List.map_map]
  rfl

theorem collectTx_wellFormed (hwellFormed : strategy.WellFormed) :
    (strategy.collectTx codec crypto tx).1.WellFormed := by
  cases hcheck : strategy.checkValidatorTx codec crypto tx with
  | error error =>
    rw [collectTx_of_error hcheck]
    exact hwellFormed
  | ok data => exact (collectTx_collected hcheck).wellFormed hwellFormed.cleared rfl

theorem collectTx_nodup (hwellFormed : strategy.WellFormed)
    (hnodup : (strategy.pairs.map Prod.fst).Nodup) :
    ((strategy.collectTx codec crypto tx).1.pairs.map Prod.fst).Nodup := by
  cases hcheck : strategy.checkValidatorTx codec crypto tx with
  | error error =>
    rw [collectTx_of_error hcheck]
    exact hnodup
  | ok data => exact (collectTx_collected hcheck).nodup hwellFormed.cleared rfl hnodup

theorem Filled.applyUpdates_iff {filled : Strategy} {items : List Validator}
    (hfilled : Filled strategy items filled) (hwellFormed : strategy.WellFormed)
    (hempty : strategy.updateValidators = []) (hpairs : Roster.Represents strategy.pairs table)
    (hnonneg : ∀ v ∈ items, 0 ≤ v.power) :
    (∃ after, filled.applyUpdates = .ok after) ↔
      BelowThird strategy.pairs table (items.map Validator.pair) := by
  have hupdates := hfilled.updates_eq_items hempty
  rw [← hfilled.pairs_eq hwellFormed] at hpairs ⊢
  obtain ⟨reached, hchange, hreached⟩ := change_eq_false_iff hpairs hnonneg
  rw [← hreached]
  unfold Strategy.applyUpdates
  rw [hupdates, hchange]
  cases reached with
  | true => exact ⟨fun ⟨_, h⟩ ↦ (by cases h), fun h ↦ (by cases h)⟩
  | false =>
    have hrefs : ∀ ref ∈ filled.updateValidators, 0 ≤ (filled.heap ref).power := by
      intro ref href
      exact hnonneg _ (hupdates ▸ List.mem_map_of_mem href)
    obtain ⟨after, hloop, -⟩ := exists_applies (hfilled.waiting hwellFormed hempty) hrefs
    exact ⟨fun _ ↦ rfl, fun _ ↦ ⟨after, hloop⟩⟩

/-- What the pending updates read after a checked transaction with these items: what they settle to,
or the items themselves when the second check of the change refuses them. -/
def pendingItems (pairs : List (Bytes × ℤ)) (table : Roster.Table Bytes)
    (items : List (Bytes × ℤ)) : List (Bytes × ℤ) :=
  if BelowThird pairs table items then settled table items else items

theorem pendingItems_eq_nil_iff {pairs items : List (Bytes × ℤ)} :
    pendingItems pairs table items = [] ↔ items = [] := by
  unfold pendingItems
  split
  · cases items <;> simp [settled]
  · rfl

theorem pendingItems_nonneg {pairs items : List (Bytes × ℤ)}
    (hnonneg : ∀ item ∈ items, 0 ≤ item.2) :
    ∀ item ∈ pendingItems pairs table items, 0 ≤ item.2 := by
  unfold pendingItems
  split
  · exact settled_nonneg hnonneg
  · exact hnonneg

theorem collectTx_updates (hwellFormed : strategy.WellFormed)
    (hpairs : Roster.Represents strategy.pairs table) {data : ValidatorTx}
    (hcheck : strategy.checkValidatorTx codec crypto tx = .ok data) :
    (strategy.collectTx codec crypto tx).1.updates.map Validator.pair =
      pendingItems strategy.pairs table (data.txs.map Item.pair) := by
  have hrange := range_of_checkChange (checkValidatorTx_ok hcheck).2
  have hnonneg : ∀ v ∈ data.txs.map itemValidator, 0 ≤ v.power := by
    intro v hv
    obtain ⟨item, hitem, rfl⟩ := List.mem_map.mp hv
    exact (hrange item.pair (List.mem_map_of_mem hitem)).1
  have hcollected := collectTx_collected hcheck
  generalize strategy.collectTx codec crypto tx = result at hcollected ⊢
  unfold pendingItems
  rw [← pairs_map_itemValidator]
  cases hcollected with
  | refused hfilled hrefused =>
    rw [if_neg, hfilled.updates_eq_items rfl]
    intro hbelow
    obtain ⟨after, happly⟩ :=
      (hfilled.applyUpdates_iff hwellFormed.cleared rfl hpairs hnonneg).mpr hbelow
    rw [happly] at hrefused
    cases hrefused
  | applied hfilled happly =>
    have hbelow : BelowThird strategy.pairs table _ :=
      (hfilled.applyUpdates_iff hwellFormed.cleared rfl hpairs hnonneg).mp ⟨_, happly⟩
    rw [if_pos hbelow]
    exact (hfilled.applies hwellFormed.cleared rfl hpairs (applies_of_applyUpdates happly)).2.2

/-- A checked transaction whose change does not overflow is collected in full. -/
theorem collectTx_accepted (hwellFormed : strategy.WellFormed)
    (hpairs : Roster.Represents strategy.pairs table) (hsized : Sized strategy.pairs)
    {data : ValidatorTx} (hcheck : strategy.checkValidatorTx codec crypto tx = .ok data)
    (hfits : Roster.drift table (data.txs.map Item.pair) < 2 ^ 63) :
    Admissible strategy.pairs table (data.txs.map Item.pair) ∧
      ∃ after, strategy.collectTx codec crypto tx = (after, none) ∧ after.WellFormed ∧
        Roster.Represents after.pairs (Roster.reviseAll table (data.txs.map Item.pair)) ∧
        after.updates.map Validator.pair = settled table (data.txs.map Item.pair) := by
  have hkeys := fun item hitem ↦ (checkKeys_ok (checkValidatorTx_ok hcheck).1 item hitem).1
  have hadmissible := admissible_of_checkChange hpairs hsized hkeys hfits
    (checkValidatorTx_ok hcheck).2
  refine ⟨hadmissible, ?_⟩
  have hcollected := collectTx_collected hcheck
  generalize strategy.collectTx codec crypto tx = result at hcollected ⊢
  rw [← pairs_map_itemValidator] at hadmissible ⊢
  cases hcollected with
  | refused hfilled hrefused =>
    obtain ⟨after, happly⟩ :=
      (hfilled.applyUpdates_iff hwellFormed.cleared rfl hpairs fun v hv ↦
        (hadmissible.range v.pair (List.mem_map_of_mem hv)).1).mpr
        (belowThird_of_drift_lt hsized hpairs hadmissible.range hadmissible.drift_lt)
    rw [happly] at hrefused
    cases hrefused
  | @applied filled after hfilled happly =>
    exact ⟨after, rfl,
      hfilled.applies hwellFormed.cleared rfl hpairs (applies_of_applyUpdates happly)⟩

end Collect

end LkChain.Validators.Collect
