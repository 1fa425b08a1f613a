import LkChain.Foundation.Roster
import LkChain.Foundation.SortedSearch
import LkChain.Tendermint.History

/-!
# Validator sets that are sorted

A set built by the engine itself is sorted by address, and every address is that of the key next to
it. On such a set `sort.Search` finds the right place, so that a change of the set is the revision
of a roster: an update adds an unknown key, removes a known one with power zero, and replaces the
power otherwise. The sets of a chain stay sorted from the genesis document on.
-/

namespace LkChain.Tendermint.SortedSets

open Foundation Foundation.Stops Tendermint.Types ValSet ChainState History
open Validators.ParseTx (Bytes Canonical Crypto Sound)

variable {PubKey Signature Address : Type}

/-- A search among conditions that turn from false to true finds where they do. -/
theorem sortSearch_eq {found : ℕ → Bool} {cut fuel low high : ℕ}
    (hbelow : ∀ i < cut, found i = false) (habove : ∀ i, cut ≤ i → i < high → found i = true)
    (hlow : low ≤ cut) (hhigh : cut ≤ high) (hfuel : high - low ≤ fuel) :
    sortSearch found fuel low high = cut := by
  induction fuel generalizing low high with
  | zero =>
    rw [sortSearch]
    omega
  | succ fuel ih =>
    rw [sortSearch]
    by_cases hopen : low < high
    · rw [if_pos hopen]
      dsimp only
      -- the cut lies in the half that is kept, whichever way the middle decides
      by_cases hmiddle : (low + high) / 2 < cut
      · rw [if_neg (by rw [hbelow _ hmiddle]; exact Bool.false_ne_true)]
        exact ih habove (by omega) hhigh (by omega)
      · rw [if_pos (habove _ (by omega) (by omega))]
        exact ih (fun i hi _ ↦ habove i hi (by omega)) hlow (by omega) (by omega)
    · rw [if_neg hopen]
      omega

/-- Sorted by address, under the addresses of the keys, and without negative powers. -/
structure Proper (crypto : Crypto PubKey Signature Address) [LinearOrder Address]
    (validators : List (Validator PubKey Address)) : Prop where
  sorted : SortedSearch.Sorted Validator.address validators
  each : ∀ v ∈ validators, v.address = crypto.address v.pubKey ∧ 0 ≤ v.votingPower

/-- The key and the power of a validator. -/
def keyPair (crypto : Crypto PubKey Signature Address) (v : Validator PubKey Address) : Bytes × ℤ :=
  (crypto.bytes v.pubKey, v.votingPower)

section Keys

variable {crypto : Crypto PubKey Signature Address}

/-- The bytes of the key that these bytes are read as. -/
def decodedKey (crypto : Crypto PubKey Signature Address) (key : Bytes) : Bytes :=
  match crypto.pubKeyFromBytes key with
  | .ok pubKey => crypto.bytes pubKey
  | .error _ => key

/-- The item under the bytes of its own key. -/
def decodedPair (crypto : Crypto PubKey Signature Address) (item : Bytes × ℤ) : Bytes × ℤ :=
  (decodedKey crypto item.1, item.2)

theorem decodedKey_of_read {key : Bytes} {pubKey : PubKey}
    (hread : crypto.pubKeyFromBytes key = .ok pubKey) :
    decodedKey crypto key = crypto.bytes pubKey := by
  unfold decodedKey
  rw [hread]

theorem map_decodedPair {items : List (Bytes × ℤ)}
    (hcanonical : ∀ item ∈ items, Canonical crypto item.1) :
    items.map (decodedPair crypto) = items := by
  conv_rhs => rw [← List.map_id items]
  apply List.map_congr_left
  intro item hitem
  obtain ⟨pubKey, hread, -, hbytes⟩ := hcanonical item hitem
  rw [decodedPair, decodedKey_of_read hread, hbytes]
  rfl

end Keys

section Search

variable [LinearOrder Address] {valSet : ValidatorSet PubKey Address} {address : Address}

/-- `sort.Search` finds the cut between what lies below an address and what does not. -/
theorem search_eq {front back : List (Validator PubKey Address)}
    (hcut : valSet.validators = front ++ back) (hfront : ∀ v ∈ front, v.address < address)
    (hback : ∀ v ∈ back, address ≤ v.address) : valSet.search address = front.length := by
  have hsize : valSet.size = front.length + back.length := by
    rw [ValidatorSet.size, hcut, List.length_append]
  unfold ValidatorSet.search
  rw [hcut]
  apply sortSearch_eq _ _ (Nat.zero_le _) (by omega) (by omega)
  · intro i hi
    rw [List.getElem?_append_left hi, List.getElem?_eq_getElem hi]
    exact decide_eq_false (not_le.mpr (hfront _ (List.getElem_mem hi)))
  · intro i hle hi
    have hindex : i - front.length < back.length := by omega
    rw [List.getElem?_append_right hle, List.getElem?_eq_getElem hindex]
    exact decide_eq_true (hback _ (List.getElem_mem hindex))

/-- On a sorted set the search cuts behind the addresses below. What comes next has the address, or
everything that follows lies above it. -/
theorem exists_cut (hsorted : SortedSearch.Sorted Validator.address valSet.validators)
    (address : Address) :
    ∃ front back, valSet.validators = front ++ back ∧ valSet.search address = front.length ∧
      (∀ v ∈ front, v.address < address) ∧
      ((∃ val rest, back = val :: rest ∧ val.address = address) ∨
        ∀ v ∈ back, address < v.address) := by
  have hcut := SortedSearch.search_append Validator.address address valSet.validators
  have hfront : ∀ v ∈ (SortedSearch.search Validator.address address valSet.validators).1,
      v.address < address := SortedSearch.lt_of_mem_front Validator.address
  have hback : ∀ v ∈ (SortedSearch.search Validator.address address valSet.validators).2,
      address ≤ v.address := SortedSearch.le_of_mem_back hsorted
  refine ⟨_, _, hcut.symm, search_eq hcut.symm hfront hback, hfront, ?_⟩
  by_cases hknown : ∃ val ∈ valSet.validators, val.address = address
  · obtain ⟨val, hval, haddress⟩ := hknown
    obtain ⟨rest, hrest⟩ := SortedSearch.back_of_mem hsorted hval haddress
    exact .inl ⟨val, rest, hrest, haddress⟩
  · refine .inr fun v hv ↦ lt_of_le_of_ne (hback v hv) fun hsame ↦ hknown ⟨v, ?_, hsame.symm⟩
    rw [← hcut]
    exact List.mem_append_right _ hv

end Search

/-! ## Updates -/

/-- The ways in which an update changes a sorted set. -/
inductive Changed (crypto : Crypto PubKey Signature Address) [LinearOrder Address]
    (validators : List (Validator PubKey Address)) (pubKey : PubKey) (power : ℤ) :
    List (Validator PubKey Address) → Prop
  | added {front back : List (Validator PubKey Address)} :
      validators = front ++ back → (∀ v ∈ front, v.address < crypto.address pubKey) →
      (∀ v ∈ back, crypto.address pubKey < v.address) →
      Changed crypto validators pubKey power
        (front ++ newValidator crypto pubKey power :: back)
  | removed {front back : List (Validator PubKey Address)} {val : Validator PubKey Address} :
      validators = front ++ val :: back → val.address = crypto.address pubKey → power = 0 →
      Changed crypto validators pubKey power (front ++ back)
  | replaced {front back : List (Validator PubKey Address)} {val : Validator PubKey Address} :
      validators = front ++ val :: back → val.address = crypto.address pubKey → power ≠ 0 →
      Changed crypto validators pubKey power (front ++ { val with votingPower := power } :: back)

section Updates

variable [LinearOrder Address] {crypto : Crypto PubKey Signature Address}
  {valSet next : ValidatorSet PubKey Address} {address : Address} {val : Validator PubKey Address}
  {front back : List (Validator PubKey Address)} {v : Validators.TxBased.Validator}

omit [LinearOrder Address] in
theorem getElem?_cut (hcut : valSet.validators = front ++ back) :
    valSet.validators[front.length]? = back.head? := by
  rw [hcut, List.getElem?_append_right le_rfl, Nat.sub_self, List.head?_eq_getElem?]

theorem getByAddress_of_cut (hcut : valSet.validators = front ++ back)
    (hsearch : valSet.search address = front.length) :
    valSet.getByAddress address =
      back.head?.bind fun v ↦ if v.address = address then some (front.length, v) else none := by
  simp only [ValidatorSet.getByAddress, hsearch, getElem?_cut hcut]
  cases back <;> rfl

theorem getByAddress_of_mem (hsorted : SortedSearch.Sorted Validator.address valSet.validators)
    (hval : val ∈ valSet.validators) :
    ∃ index, valSet.getByAddress val.address = some (index, val) := by
  obtain ⟨front, back, hcut, hsearch, hfront, hback⟩ := exists_cut hsorted val.address
  rw [hcut] at hval
  rcases hback with ⟨found, rest, rfl, haddress⟩ | hback
  · rw [hcut] at hsorted
    have hrest := (List.pairwise_cons.mp (List.pairwise_append.mp hsorted).2.1).1
    refine ⟨front.length, ?_⟩
    rw [getByAddress_of_cut hcut hsearch, List.head?_cons, Option.bind_some, if_pos haddress]
    rcases List.mem_append.mp hval with hmem | hmem
    · exact absurd (hfront val hmem) (lt_irrefl _)
    · rcases List.mem_cons.mp hmem with rfl | hmem
      · rfl
      · exact absurd haddress (hrest val hmem).ne
  · rcases List.mem_append.mp hval with hmem | hmem
    · exact absurd (hfront val hmem) (lt_irrefl _)
    · exact absurd (hback val hmem) (lt_irrefl _)

theorem add_of_cut (hcut : valSet.validators = front ++ back)
    (hsearch : valSet.search val.address = front.length)
    (hfresh : ∀ v ∈ back, v.address ≠ val.address) :
    valSet.add val = some (.of (front ++ val :: back)) := by
  simp only [ValidatorSet.add, hsearch, getElem?_cut hcut]
  cases back with
  | nil =>
    rw [hcut, List.append_nil]
    rfl
  | cons other back =>
    rw [List.head?_cons]
    dsimp only
    rw [if_neg (hfresh other List.mem_cons_self), hcut, List.take_left, List.drop_left]

theorem remove_of_cut (hcut : valSet.validators = front ++ val :: back)
    (hsearch : valSet.search address = front.length) (haddress : val.address = address) :
    valSet.remove address = some (.of (front ++ back)) := by
  have hrest : (front ++ val :: back).drop (front.length + 1) = back := by
    rw [List.drop_append, List.drop_of_length_le (Nat.le_succ _), Nat.add_sub_cancel_left,
      List.nil_append]
    rfl
  unfold ValidatorSet.remove
  rw [getByAddress_of_cut hcut hsearch, List.head?_cons, Option.bind_some, if_pos haddress]
  dsimp only
  rw [hcut, hrest, List.take_left]

theorem update_of_cut {old : Validator PubKey Address}
    (hcut : valSet.validators = front ++ old :: back)
    (hsearch : valSet.search val.address = front.length) (haddress : old.address = val.address) :
    valSet.update val = some (.of (front ++ val :: back)) := by
  unfold ValidatorSet.update
  rw [getByAddress_of_cut hcut hsearch, List.head?_cons, Option.bind_some, if_pos haddress]
  dsimp only
  rw [hcut, List.set_append_right _ _ le_rfl, Nat.sub_self, List.set_cons_zero]

/-- On a sorted set an update with a key that can be read and a power that is not negative goes
through. -/
theorem applyUpdate_of_sorted {pubKey : PubKey}
    (hsorted : SortedSearch.Sorted Validator.address valSet.validators)
    (hread : crypto.pubKeyFromBytes v.pubKey = .ok pubKey) (hsolid : crypto.empty pubKey = false)
    (hnonneg : 0 ≤ v.power) :
    ∃ next, valSet.applyUpdate crypto v = .ok next ∧
      Changed crypto valSet.validators pubKey v.power next.validators := by
  unfold ValidatorSet.applyUpdate
  rw [hread]
  dsimp only
  rw [hsolid, if_neg Bool.false_ne_true, if_neg (not_lt.mpr hnonneg)]
  obtain ⟨front, back, hcut, hsearch, hfront, hback⟩ := exists_cut hsorted (crypto.address pubKey)
  rw [getByAddress_of_cut hcut hsearch]
  rcases hback with ⟨val, rest, rfl, haddress⟩ | hback
  · rw [List.head?_cons, Option.bind_some, if_pos haddress]
    dsimp only
    split
    next hzero =>
      rw [remove_of_cut hcut hsearch haddress]
      exact ⟨_, rfl, .removed hcut haddress hzero⟩
    next hne =>
      have hupdate : valSet.update { val with votingPower := v.power } = _ :=
        update_of_cut hcut (haddress ▸ hsearch) rfl
      rw [hupdate]
      exact ⟨_, rfl, .replaced hcut haddress hne⟩
  · have hunknown : (back.head?.bind fun v ↦ if v.address = crypto.address pubKey
        then some (front.length, v) else none) = none := by
      cases back with
      | nil => rfl
      | cons other back => exact if_neg (hback other List.mem_cons_self).ne'
    have hadd : valSet.add (newValidator crypto pubKey v.power) = _ :=
      add_of_cut hcut hsearch fun other hother ↦ (hback other hother).ne'
    rw [hunknown]
    dsimp only
    rw [hadd]
    exact ⟨_, rfl, .added hcut hfront hback⟩

theorem changed_of_applyUpdate
    (hsorted : SortedSearch.Sorted Validator.address valSet.validators)
    (happly : valSet.applyUpdate crypto v = .ok next) :
    0 ≤ v.power ∧ ∃ pubKey, crypto.pubKeyFromBytes v.pubKey = .ok pubKey ∧
      Changed crypto valSet.validators pubKey v.power next.validators := by
  have hsame := happly
  unfold ValidatorSet.applyUpdate at happly
  split at happly
  next => cases happly
  next pubKey hread =>
    dsimp only at happly
    rw [Results.ite_error_eq_ok_iff, Results.ite_error_eq_ok_iff] at happly
    obtain ⟨hsolid, hnonneg, -⟩ := happly
    obtain ⟨found, hfound, hchanged⟩ := applyUpdate_of_sorted hsorted hread
      (eq_false_of_ne_true hsolid) (not_lt.mp hnonneg)
    cases hsame.symm.trans hfound
    exact ⟨not_lt.mp hnonneg, pubKey, hread, hchanged⟩

variable {validators after : List (Validator PubKey Address)} {pubKey : PubKey} {power : ℤ}

/-- An update keeps a set sorted, under the addresses of its keys and without negative powers. -/
theorem Changed.proper (hchanged : Changed crypto validators pubKey power after)
    (hpower : 0 ≤ power) (hproper : Proper crypto validators) : Proper crypto after := by
  obtain ⟨hsorted, heach⟩ := hproper
  cases hchanged with
  | @added front back hcut hfront hback =>
    subst hcut
    rw [List.forall_mem_append] at heach
    refine ⟨hsorted.insert hfront hback, ?_⟩
    rw [List.forall_mem_append, List.forall_mem_cons]
    exact ⟨heach.1, ⟨rfl, hpower⟩, heach.2⟩
  | @removed front back val hcut haddress hzero =>
    subst hcut
    rw [List.forall_mem_append, List.forall_mem_cons] at heach
    refine ⟨hsorted.remove, ?_⟩
    rw [List.forall_mem_append]
    exact ⟨heach.1, heach.2.2⟩
  | @replaced front back val hcut haddress hne =>
    subst hcut
    rw [List.forall_mem_append, List.forall_mem_cons] at heach
    refine ⟨hsorted.replace rfl, ?_⟩
    rw [List.forall_mem_append, List.forall_mem_cons]
    exact ⟨heach.1, ⟨heach.2.1.1, hpower⟩, heach.2.2⟩

/-- The key of a validator in a proper set is known by its address. -/
theorem Proper.pubKey_eq {val : Validator PubKey Address} (hproper : Proper crypto validators)
    (hsound : Sound crypto) (hval : val ∈ validators)
    (haddress : val.address = crypto.address pubKey) : val.pubKey = pubKey := by
  apply hsound.address_injective
  rw [← (hproper.each val hval).1, haddress]

/-- An update under the bytes of a key revises the roster of the set. -/
theorem Changed.represents {table : Roster.Table Bytes}
    (hchanged : Changed crypto validators pubKey power after) (hproper : Proper crypto validators)
    (hsound : Sound crypto)
    (hpairs : Roster.Represents (validators.map (keyPair crypto)) table) :
    Roster.Represents (after.map (keyPair crypto))
      (Roster.revise table (crypto.bytes pubKey, power)) := by
  cases hchanged with
  | @added front back hcut hfront hback =>
    subst hcut
    have hunknown : table (crypto.bytes pubKey) = none := by
      rw [hpairs.eq_none_iff, List.map_map, List.mem_map]
      intro ⟨v, hv, hbytes⟩
      have haddress := (hproper.each v hv).1
      rw [hsound.bytes_injective hbytes] at haddress
      rcases List.mem_append.mp hv with hbelow | habove
      · exact (hfront v hbelow).ne haddress
      · exact (hback v habove).ne' haddress
    have hperm : (newValidator crypto pubKey power :: (front ++ back)).Perm
        (front ++ newValidator crypto pubKey power :: back) := List.perm_middle.symm
    exact (hpairs.add hunknown).perm (hperm.map (keyPair crypto))
  | @removed front back val hcut haddress hzero =>
    subst hcut
    have hkey := hproper.pubKey_eq hsound (List.mem_append_right _ List.mem_cons_self) haddress
    have hhead := hpairs.perm (List.perm_middle.map (keyPair crypto))
    rw [List.map_cons, keyPair, hkey] at hhead
    rw [hzero]
    exact hhead.remove
  | @replaced front back val hcut haddress hne =>
    subst hcut
    have hkey := hproper.pubKey_eq hsound (List.mem_append_right _ List.mem_cons_self) haddress
    have hhead := hpairs.perm (List.perm_middle.map (keyPair crypto))
    rw [List.map_cons, keyPair, hkey] at hhead
    have hperm : ({ val with votingPower := power } :: (front ++ back)).Perm
        (front ++ { val with votingPower := power } :: back) := List.perm_middle.symm
    rw [← hkey] at hhead ⊢
    exact (hhead.replace hne).perm (hperm.map (keyPair crypto))

theorem proper_of_foldlM {updates : List Validators.TxBased.Validator}
    (hloop : updates.foldlM (·.applyUpdate crypto) valSet = .ok next)
    (hproper : Proper crypto valSet.validators) : Proper crypto next.validators := by
  induction updates generalizing valSet with
  | nil =>
    cases hloop
    exact hproper
  | cons v updates ih =>
    rw [List.foldlM_cons, Results.bind_eq_ok_iff] at hloop
    obtain ⟨middle, hstep, hrest⟩ := hloop
    obtain ⟨hpower, pubKey, -, hchanged⟩ := changed_of_applyUpdate hproper.sorted hstep
    exact ih hrest (hchanged.proper hpower hproper)

/-- The loop over the updates revises the roster, by what each key is read as. -/
theorem represents_of_foldlM {updates : List Validators.TxBased.Validator}
    {table : Roster.Table Bytes} (hsound : Sound crypto)
    (hloop : updates.foldlM (·.applyUpdate crypto) valSet = .ok next)
    (hproper : Proper crypto valSet.validators)
    (hpairs : Roster.Represents (valSet.validators.map (keyPair crypto)) table) :
    Roster.Represents (next.validators.map (keyPair crypto))
      (Roster.reviseAll table
        ((updates.map Validators.TxBased.Validator.pair).map (decodedPair crypto))) := by
  induction updates generalizing valSet table with
  | nil =>
    cases hloop
    exact hpairs
  | cons v updates ih =>
    rw [List.foldlM_cons, Results.bind_eq_ok_iff] at hloop
    obtain ⟨middle, hstep, hrest⟩ := hloop
    obtain ⟨hpower, pubKey, hread, hchanged⟩ := changed_of_applyUpdate hproper.sorted hstep
    have hrevised := hchanged.represents hproper hsound hpairs
    rw [← decodedKey_of_read hread] at hrevised
    exact ih hrest (hchanged.proper hpower hproper) hrevised

end Updates

/-! ## The sets of a chain -/

section Chain

variable {crypto : Crypto PubKey Signature Address} {wire : Wire PubKey Signature Address}
  {valSet next : ValidatorSet PubKey Address}

theorem map_keyPair_eq (validators : List (Validator PubKey Address)) :
    validators.map (keyPair crypto) =
      (validators.map Validator.member).map fun member ↦ (crypto.bytes member.2.1, member.2.2) := by
  rw [List.map_map]
  rfl

variable [LinearOrder Address]

theorem Proper.congr {validators after : List (Validator PubKey Address)}
    (hproper : Proper crypto validators)
    (hmembers : after.map Validator.member = validators.map Validator.member) :
    Proper crypto after := by
  obtain ⟨hsorted, heach⟩ := hproper
  have hmap : after.map Validator.address = validators.map Validator.address := by
    have hfirst := congrArg (List.map Prod.fst) hmembers
    rwa [List.map_map, List.map_map] at hfirst
  constructor
  · unfold SortedSearch.Sorted at hsorted ⊢
    rw [← List.pairwise_map, hmap, List.pairwise_map]
    exact hsorted
  · intro v hv
    have hmem : v.member ∈ validators.map Validator.member := by
      rw [← hmembers]
      exact List.mem_map_of_mem hv
    obtain ⟨other, hother, hsame⟩ := List.mem_map.mp hmem
    obtain ⟨haddress, hkey⟩ := Prod.mk.inj hsame
    obtain ⟨hpubKey, hpower⟩ := Prod.mk.inj hkey
    rw [← haddress, ← hpubKey, ← hpower]
    exact heach other hother

variable {s after : State PubKey Address} {block : Applied}

theorem foldlM_of_nextState (hnext : nextState crypto wire s block = .ok after) :
    ∃ changed : ValidatorSet PubKey Address,
      block.responses.validatorUpdates.foldlM (·.applyUpdate crypto) s.validators = .ok changed ∧
      after.validators.members = changed.members := by
  unfold nextState updateState nextValidators ValidatorSet.updateState at hnext
  simp only [Results.bind_eq_ok_iff, Results.mapError_eq_ok_iff] at hnext
  obtain ⟨_, ⟨_, ⟨nextValSet, ⟨changed, hchanged, hincremented⟩, hpair⟩, _, _, hreturn⟩,
    hsaved⟩ := hnext
  cases hpair
  cases hreturn
  cases hsaved
  refine ⟨changed, ?_, ValidatorSet.members_of_incrementAccum hincremented⟩
  unfold ValidatorSet.changed at hchanged
  split at hchanged
  next hempty =>
    cases hchanged
    rw [List.isEmpty_iff.mp hempty]
    rfl
  next =>
    unfold ValidatorSet.updateValidators at hchanged
    rw [Results.bind_eq_ok_iff] at hchanged
    obtain ⟨vp23, -, hloop⟩ := hchanged
    rw [Results.ite_error_eq_ok_iff] at hloop
    exact hloop.2

theorem proper_of_nextState (hnext : nextState crypto wire s block = .ok after)
    (hproper : Proper crypto s.validators.validators) :
    Proper crypto after.validators.validators := by
  obtain ⟨changed, hloop, hmembers⟩ := foldlM_of_nextState hnext
  exact (proper_of_foldlM hloop hproper).congr hmembers

theorem represents_of_nextState {table : Roster.Table Bytes} (hsound : Sound crypto)
    (hnext : nextState crypto wire s block = .ok after)
    (hproper : Proper crypto s.validators.validators)
    (hcanonical : ∀ v ∈ block.responses.validatorUpdates, Canonical crypto v.pubKey)
    (hpairs : Roster.Represents (s.validators.validators.map (keyPair crypto)) table) :
    Roster.Represents (after.validators.validators.map (keyPair crypto))
      (Roster.reviseAll table
        (block.responses.validatorUpdates.map Validators.TxBased.Validator.pair)) := by
  obtain ⟨changed, hloop, hmembers⟩ := foldlM_of_nextState hnext
  have hrevised := represents_of_foldlM hsound hloop hproper hpairs
  rw [map_decodedPair (List.forall_mem_map.mpr hcanonical), map_keyPair_eq] at hrevised
  rw [map_keyPair_eq]
  rwa [show after.validators.validators.map Validator.member =
    changed.validators.map Validator.member from hmembers]

theorem Proper.nodup {validators : List (Validator PubKey Address)}
    (hproper : Proper crypto validators) (hsound : Sound crypto) :
    ((validators.map (keyPair crypto)).map Prod.fst).Nodup := by
  rw [List.map_map]
  apply List.pairwise_map.mpr
  refine hproper.sorted.imp_of_mem fun hv hother hlt hsame ↦ hlt.ne ?_
  rw [(hproper.each _ hv).1, (hproper.each _ hother).1, hsound.bytes_injective hsame]

omit [LinearOrder Address] in
theorem slice_eq_ok_iff {genesisValidators : List (GenesisValidator PubKey)}
    {slice : List (Validator PubKey Address)} :
    (genesisValidators.mapM fun val ↦
      if crypto.empty val.pubKey then .error (.panic .nilDereference)
      else .ok (newValidator crypto val.pubKey val.power) : Fallible GenesisError _) = .ok slice ↔
    (∀ val ∈ genesisValidators, crypto.empty val.pubKey = false) ∧
      slice = genesisValidators.map fun val ↦ newValidator crypto val.pubKey val.power := by
  induction genesisValidators generalizing slice with
  | nil =>
    rw [List.mapM_nil]
    refine ⟨fun hnil ↦ ⟨by simp, (Except.ok.inj hnil).symm⟩, fun ⟨_, hnil⟩ ↦ ?_⟩
    rw [hnil]
    rfl
  | cons val rest ih =>
    simp only [List.mapM_cons, Results.bind_eq_ok_iff, Results.ite_error_eq_ok_iff, List.mem_cons,
      forall_eq_or_imp, List.map_cons]
    constructor
    · rintro ⟨first, ⟨hkey, hfirst⟩, others, hothers, hreturn⟩
      cases hfirst
      cases hreturn
      obtain ⟨hkeys, hmap⟩ := ih.mp hothers
      exact ⟨⟨eq_false_of_ne_true hkey, hkeys⟩, congrArg _ hmap⟩
    · rintro ⟨⟨hkey, hkeys⟩, rfl⟩
      exact ⟨_, ⟨ne_true_of_eq_false hkey, rfl⟩, _, ih.mpr ⟨hkeys, rfl⟩, rfl⟩

theorem proper_insertionSort {genesisValidators : List (GenesisValidator PubKey)}
    (hsound : Sound crypto)
    (hdistinct : (genesisValidators.map GenesisValidator.pubKey).Nodup)
    (hnonneg : ∀ v ∈ genesisValidators, 0 ≤ v.power) :
    Proper crypto ((genesisValidators.map fun val ↦
      newValidator crypto val.pubKey val.power).insertionSort
        fun v other ↦ v.address ≤ other.address) := by
  set slice := genesisValidators.map fun val ↦ newValidator crypto val.pubKey val.power with hslice
  have hperm := List.perm_insertionSort (fun v other : Validator PubKey Address ↦
    v.address ≤ other.address) slice
  have haddresses : (slice.map Validator.address).Nodup := by
    have hinjected := hdistinct.map hsound.address_injective
    rw [hslice, List.map_map]
    rwa [List.map_map] at hinjected
  constructor
  · have hle := List.pairwise_insertionSort (fun v other : Validator PubKey Address ↦
      v.address ≤ other.address) slice
    have hne := List.pairwise_map.mp ((hperm.map Validator.address).nodup_iff.mpr haddresses)
    exact hle.imp₂ (fun _ _ hle hne ↦ lt_of_le_of_ne hle hne) hne
  · intro v hv
    obtain ⟨val, hval, rfl⟩ := List.mem_map.mp (hperm.mem_iff.mp hv)
    exact ⟨rfl, hnonneg val hval⟩

/-- The validators of a genesis document with different keys and no negative power. -/
theorem proper_of_makeGenesisState {genDoc : GenesisDoc PubKey} {now : ℤ}
    {genesis : State PubKey Address} (hsound : Sound crypto)
    (hgenesis : makeGenesisState crypto now genDoc = .ok genesis)
    (hdistinct : (genDoc.validators.map GenesisValidator.pubKey).Nodup)
    (hnonneg : ∀ v ∈ genDoc.validators, 0 ≤ v.power) :
    Proper crypto genesis.validators.validators := by
  unfold makeGenesisState at hgenesis
  simp only [Results.bind_eq_ok_iff] at hgenesis
  obtain ⟨_, -, slice, hslice, valSet, hvalSet, _, -, hreturn⟩ := hgenesis
  cases hreturn
  have hsorted : Proper crypto (slice.insertionSort fun v other ↦ v.address ≤ other.address) := by
    rw [GenesisDoc.validatorSlice] at hslice
    rw [(slice_eq_ok_iff.mp hslice).2]
    exact proper_insertionSort hsound hdistinct hnonneg
  exact hsorted.congr (ValidatorSet.members_of_incrementAccum hvalSet)

end Chain

end LkChain.Tendermint.SortedSets
