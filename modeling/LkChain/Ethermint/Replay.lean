import LkChain.Ethermint.Application
import LkChain.Validators.Agreement

/-!
# Validator transactions that are delivered again

A validator transaction carries no number, and the strategy remembers none it has collected. What
stands against a replay is that the items set powers instead of adding to them: until another
transaction has taken effect, collecting the same items once more finds every power as it is. An
item of power zero is the exception, since it removes a key that is there and adds one that is not.
-/

namespace LkChain.Ethermint.Replay

open Foundation Ethereum State Transactions Calls Transition Outcomes Admission Application
open Validators.ParseTx (Codec Crypto ValidatorTx Item decodeTx)
open Validators.TxBased (Strategy Validator newValidatorsStrategy)
open Validators.Collect (Applied Applies Waiting write_heap_self map_pair_write collectTx_of_error
  collectTx_collected collectTx_wellFormed pairs_map_itemValidator)
open Validators.Agreement (signedByThree)
open Validators.VotingPower (decodeTx_of_checkValidatorTx)

/-! ## The current validators as an edited list -/

section Collect

variable {strategy after : Strategy} {ref : ℕ} {refs : List ℕ}

/-- An update with a power of its own edits the list of the current validators in place. -/
theorem pairs_eq_enter (happlied : Applied strategy ref after) (hwellFormed : strategy.WellFormed)
    (hpower : (strategy.heap ref).power ≠ 0) :
    after.pairs = Roster.enter strategy.pairs (strategy.heap ref).pair := by
  cases happlied with
  | added hfind =>
    have habsent : (strategy.heap ref).pair.1 ∉ strategy.pairs.map Prod.fst := by
      unfold Strategy.find at hfind
      rw [List.find?_eq_none] at hfind
      simpa [Strategy.pairs, Validator.pair] using hfind
    rw [Roster.enter_of_absent habsent]
    exact List.map_append
  | removed val hfind hzero => exact absurd hzero hpower
  | written val hfind hne =>
    obtain ⟨hkey, front, back, hcut, hfront⟩ := List.find?_eq_some_iff_append.mp hfind
    have hkey : (strategy.heap val).pubKey = (strategy.heap ref).pubKey := by simpa using hkey
    have hnodup : (front ++ val :: back).Nodup := hcut ▸ hwellFormed.nodup
    have hcurrent : (strategy.write val (strategy.heap ref).power).currentValidators =
        front ++ val :: back := hcut
    rw [List.nodup_middle, List.nodup_cons, List.mem_append, not_or] at hnodup
    obtain ⟨⟨hinFront, hinBack⟩, -⟩ := hnodup
    have habsent : (strategy.heap ref).pubKey ∉
        (front.map fun other ↦ (strategy.heap other).pair).map Prod.fst := by
      simpa [Validator.pair] using hfront
    have hpairs : strategy.pairs = (front.map fun other ↦ (strategy.heap other).pair) ++
        ((strategy.heap ref).pubKey, (strategy.heap val).power) ::
          back.map fun other ↦ (strategy.heap other).pair := by
      unfold Strategy.pairs
      rw [hcut, List.map_append, List.map_cons, ← hkey]
      rfl
    rw [hpairs, Validator.pair, Roster.enter_of_cut habsent]
    unfold Strategy.pairs
    rw [hcurrent, List.map_append, List.map_cons, write_heap_self, map_pair_write hinFront,
      map_pair_write hinBack, ← hkey]
    rfl

theorem pairs_eq_enterAll (happlies : Applies strategy refs after)
    (hwaiting : Waiting strategy refs) (hpower : ∀ ref ∈ refs, (strategy.heap ref).power ≠ 0) :
    after.pairs =
      Roster.enterAll strategy.pairs (refs.map fun ref ↦ (strategy.heap ref).pair) := by
  induction happlies with
  | nil => rfl
  | @cons strategy next after ref refs happlied _ ih =>
    have hstep := pairs_eq_enter happlied hwaiting.wellFormed (hpower ref List.mem_cons_self)
    have htail : ∀ other ∈ refs, (next.heap other).power ≠ 0 := by
      intro other hother
      rw [hwaiting.heap_eq happlied other hother]
      exact hpower other (List.mem_cons_of_mem _ hother)
    have hafter := ih (hwaiting.step happlied) htail
    rw [hwaiting.map_pair_eq happlied, hstep] at hafter
    exact hafter

variable {PubKey Signature NodeAddress : Type} {codec : Codec}
  {crypto : Crypto PubKey Signature NodeAddress} {tx : String}

/-- A collected transaction leaves the validators as they are, or enters its items. -/
theorem collectTx_pairs (hwellFormed : strategy.WellFormed) {data : ValidatorTx}
    (hcheck : strategy.checkValidatorTx codec crypto tx = .ok data)
    (hpower : ∀ item ∈ data.txs, item.power ≠ 0) :
    (strategy.collectTx codec crypto tx).1.pairs = strategy.pairs ∨
      (strategy.collectTx codec crypto tx).1.pairs =
        Roster.enterAll strategy.pairs (data.txs.map Item.pair) := by
  have hcollected := collectTx_collected hcheck
  generalize strategy.collectTx codec crypto tx = result at hcollected ⊢
  cases hcollected with
  | refused hfilled _ => exact Or.inl (hfilled.pairs_eq hwellFormed.cleared)
  | @applied filled after hfilled happly =>
    have happlies := Validators.Collect.applies_of_applyUpdates happly
    have hpairs : filled.pairs = strategy.pairs := hfilled.pairs_eq hwellFormed.cleared
    have hupdates := hfilled.updates_pairs rfl
    rw [pairs_map_itemValidator] at hupdates
    have hrefs : ∀ ref ∈ filled.updateValidators, (filled.heap ref).power ≠ 0 := by
      intro ref href
      have hmem : (filled.heap ref).pair ∈ data.txs.map Item.pair :=
        hupdates ▸ List.mem_map_of_mem href
      obtain ⟨item, hitem, hpair⟩ := List.mem_map.mp hmem
      have hvalue : (filled.heap ref).power = item.power := congrArg Prod.snd hpair.symm
      rw [hvalue]
      exact hpower item hitem
    rw [← hpairs, ← hupdates]
    exact Or.inr (pairs_eq_enterAll happlies (hfilled.waiting hwellFormed.cleared rfl) hrefs)

/-- Collecting a transaction that has changed the validators once more, while they are as it has
left them, changes nothing. -/
theorem collectTx_again {later : Strategy} (hwellFormed : strategy.WellFormed)
    (hlater : later.WellFormed)
    (hpower : ∀ data, decodeTx codec tx = .ok data → ∀ item ∈ data.txs, item.power ≠ 0)
    (hchanged : (strategy.collectTx codec crypto tx).1.pairs ≠ strategy.pairs)
    (hkept : later.pairs = (strategy.collectTx codec crypto tx).1.pairs) :
    (later.collectTx codec crypto tx).1.pairs = later.pairs := by
  cases hfirst : strategy.checkValidatorTx codec crypto tx with
  | error error =>
    rw [collectTx_of_error hfirst] at hchanged
    exact absurd rfl hchanged
  | ok data =>
    have hdecode := decodeTx_of_checkValidatorTx hfirst
    have hentered :=
      (collectTx_pairs hwellFormed hfirst (hpower data hdecode)).resolve_left hchanged
    cases hsecond : later.checkValidatorTx codec crypto tx with
    | error error => rw [collectTx_of_error hsecond]
    | ok again =>
      have hagain := decodeTx_of_checkValidatorTx hsecond
      rw [hdecode] at hagain
      cases hagain
      cases collectTx_pairs hlater hsecond (hpower data hdecode) with
      | inl hsame => exact hsame
      | inr hreentered => rw [hreentered, hkept, hentered, Roster.enterAll_idem]

end Collect

/-! ## Runs of the application -/

/-- A call of the consensus engine. `BeginBlock` and `Commit` renew the check state and the work;
how they do it does not matter for the validators. -/
inductive Request where
  | checkTx (txBytes : String)
  | deliverTx (written : Bool) (txBytes : String)
  | endBlock
  | renew (check : CheckState) (work : Pending.Work)

section Runs

variable {PubKey Signature NodeAddress : Type} (setup : Setup PubKey Signature NodeAddress)

/-- `InitChain` of a new application. -/
def initChain (app : EthermintApplication) (validators : List Validator) : EthermintApplication :=
  { app with strategy := newValidatorsStrategy.setValidators validators }

def step (app : EthermintApplication) (request : Request) : Except Panic EthermintApplication :=
  match request with
  | .checkTx txBytes => do
    let checked ← checkTx setup app txBytes
    return checked.1
  | .deliverTx written txBytes => do
    let delivered ← deliverTx setup written app txBytes
    return delivered.1
  | .endBlock => .ok { app with strategy := app.strategy.getUpdateValidators.2 }
  | .renew check work => .ok { app with check := check, work := work }

def run (app : EthermintApplication) (requests : List Request) :
    Except Panic EthermintApplication := requests.foldlM (step setup) app

/-- The delivery returns, and the current validators are not what they were. -/
def TakesEffect (written : Bool) (app : EthermintApplication) (txBytes : String)
    (after : EthermintApplication) : Prop :=
  (∃ response, deliverTx setup written app txBytes = .ok (after, response)) ∧
    after.strategy.current ≠ app.strategy.current

/-- The bytes are a validator transaction that the validators in force have signed: it passes
`CheckValidatorTx` now. -/
def PassesCheck (app : EthermintApplication) (txBytes : String) : Prop :=
  ∃ etherTx data, readEnvelope setup txBytes = .ok etherTx ∧ etherTx.type = "val" ∧
    app.strategy.checkValidatorTx setup.codec setup.crypto etherTx.tx = .ok data

/-- No item of the transaction in the bytes has power zero. -/
def KeepsAll (txBytes : String) : Prop :=
  ∀ etherTx data, readEnvelope setup txBytes = .ok etherTx →
    decodeTx setup.codec etherTx.tx = .ok data → ∀ item ∈ data.txs, item.power ≠ 0

variable {setup} {app after : EthermintApplication} {txBytes : String} {response : Response}

theorem pairs_eq_iff {left right : Strategy} :
    left.pairs = right.pairs ↔ left.current = right.current := by
  have hinjective : Function.Injective Validator.pair := by
    intro v w hpair
    cases v
    cases w
    cases hpair
    rfl
  rw [Validators.TxBased.pairs_eq_map_current, Validators.TxBased.pairs_eq_map_current]
  exact (List.map_injective_iff.mpr hinjective).eq_iff

/-- What a step does to the strategy. -/
inductive Moves (setup : Setup PubKey Signature NodeAddress) (app after : EthermintApplication) :
    Request → Prop
  | kept {request : Request} : after.strategy = app.strategy → Moves setup app after request
  | cleared : after.strategy = { app.strategy with updateValidators := [] } →
      Moves setup app after .endBlock
  | delivered {written : Bool} {txBytes : String} {response : Response} :
      deliverTx setup written app txBytes = .ok (after, response) →
      Moves setup app after (.deliverTx written txBytes)

theorem step_moves {request : Request} (hstep : step setup app request = .ok after) :
    Moves setup app after request := by
  unfold step at hstep
  cases request with
  | checkTx txBytes =>
    dsimp only at hstep
    rw [Results.bind_eq_ok_iff] at hstep
    obtain ⟨checked, hchecked, hreturn⟩ := hstep
    cases hreturn
    exact .kept (checkTx_strategy hchecked)
  | deliverTx written txBytes =>
    dsimp only at hstep
    rw [Results.bind_eq_ok_iff] at hstep
    obtain ⟨delivered, hdelivered, hreturn⟩ := hstep
    cases hreturn
    exact .delivered hdelivered
  | endBlock =>
    cases hstep
    exact .cleared rfl
  | renew check work =>
    cases hstep
    exact .kept rfl

theorem step_current {request : Request} (hstep : step setup app request = .ok after) :
    after.strategy.current = app.strategy.current ∨
      ∃ written txBytes, request = .deliverTx written txBytes ∧
        TakesEffect setup written app txBytes after := by
  cases step_moves hstep with
  | kept hkept =>
    left
    rw [hkept]
  | cleared hcleared =>
    left
    rw [hcleared]
    rfl
  | @delivered written txBytes response hdelivered =>
    by_cases hsame : after.strategy.current = app.strategy.current
    · exact Or.inl hsame
    · exact Or.inr ⟨written, txBytes, rfl, ⟨response, hdelivered⟩, hsame⟩

theorem step_wellFormed {request : Request} (hstep : step setup app request = .ok after)
    (hwellFormed : app.strategy.WellFormed) : after.strategy.WellFormed := by
  cases step_moves hstep with
  | kept hkept =>
    rw [hkept]
    exact hwellFormed
  | cleared hcleared =>
    rw [hcleared]
    exact hwellFormed.cleared
  | delivered hdelivered =>
    cases deliverTx_strategy hdelivered with
    | inl hsame =>
      rw [hsame]
      exact hwellFormed
    | inr hcollected =>
      obtain ⟨etherTx, -, -, hcollected⟩ := hcollected
      rw [hcollected]
      exact collectTx_wellFormed hwellFormed

theorem run_wellFormed {requests : List Request} (hrun : run setup app requests = .ok after)
    (hwellFormed : app.strategy.WellFormed) : after.strategy.WellFormed := by
  induction requests generalizing app with
  | nil =>
    cases hrun
    exact hwellFormed
  | cons request requests ih =>
    unfold run at hrun ih
    rw [List.foldlM_cons, Results.bind_eq_ok_iff] at hrun
    obtain ⟨next, hstep, hrest⟩ := hrun
    exact ih hrest (step_wellFormed hstep hwellFormed)

theorem initChain_wellFormed (app : EthermintApplication) (validators : List Validator) :
    (initChain app validators).strategy.WellFormed where
  nodup := List.nodup_range'
  allocated ref href := (List.mem_range'_1.mp href).2

theorem TakesEffect.collected {written : Bool}
    (heffect : TakesEffect setup written app txBytes after) :
    ∃ etherTx, readEnvelope setup txBytes = .ok etherTx ∧ etherTx.type = "val" ∧
      after.strategy = (app.strategy.collectTx setup.codec setup.crypto etherTx.tx).1 := by
  obtain ⟨⟨response, hdelivered⟩, hchanged⟩ := heffect
  cases deliverTx_strategy hdelivered with
  | inl hsame => exact absurd (congrArg Strategy.current hsame) hchanged
  | inr hcollected => exact hcollected

theorem TakesEffect.passesCheck {written : Bool}
    (heffect : TakesEffect setup written app txBytes after) : PassesCheck setup app txBytes := by
  obtain ⟨etherTx, hread, htype, hcollected⟩ := heffect.collected
  cases hcheck : app.strategy.checkValidatorTx setup.codec setup.crypto etherTx.tx with
  | error error =>
    rw [collectTx_of_error hcheck] at hcollected
    exact absurd (congrArg Strategy.current hcollected) heffect.2
  | ok data => exact ⟨etherTx, data, hread, htype, hcheck⟩

/-- Along a run the validators stay as they are up to the first delivery that takes effect. -/
theorem run_current {requests : List Request} (hrun : run setup app requests = .ok after) :
    after.strategy.current = app.strategy.current ∨
      ∃ early written txBytes late before next,
        requests = early ++ .deliverTx written txBytes :: late ∧
        run setup app early = .ok before ∧
        before.strategy.current = app.strategy.current ∧
        TakesEffect setup written before txBytes next := by
  induction requests generalizing app with
  | nil =>
    cases hrun
    exact Or.inl rfl
  | cons request requests ih =>
    have hcons := hrun
    unfold run at hcons
    rw [List.foldlM_cons, Results.bind_eq_ok_iff] at hcons
    obtain ⟨next, hstep, hrest⟩ := hcons
    cases step_current hstep with
    | inr heffect =>
      obtain ⟨written, txBytes, hrequest, heffect⟩ := heffect
      exact Or.inr ⟨[], written, txBytes, requests, app, next, by rw [hrequest]; rfl, rfl, rfl,
        heffect⟩
    | inl hsame =>
      cases ih hrest with
      | inl hlater => exact Or.inl (hlater.trans hsame)
      | inr hlater =>
        obtain ⟨early, written, txBytes, late, before, after, hcut, hearly, hbefore, heffect⟩ :=
          hlater
        refine Or.inr ⟨request :: early, written, txBytes, late, before, after, ?_, ?_,
          hbefore.trans hsame, heffect⟩
        · rw [hcut, List.cons_append]
        · unfold run at hearly ⊢
          rw [List.foldlM_cons, hstep]
          exact hearly

/-- What has taken effect does not do so again while the validators are as it has left them. -/
theorem not_takesEffect_again {written rewritten : Bool} {first again : EthermintApplication}
    (hwellFormed : app.strategy.WellFormed) (hkeeps : KeepsAll setup txBytes)
    (hfirst : TakesEffect setup written app txBytes first)
    (hagain : again.strategy.WellFormed)
    (hcurrent : again.strategy.current = first.strategy.current) :
    ¬ TakesEffect setup rewritten again txBytes after := by
  intro hsecond
  obtain ⟨etherTx, hread, -, hfirstly⟩ := hfirst.collected
  obtain ⟨other, hreread, -, hsecondly⟩ := hsecond.collected
  rw [hread] at hreread
  cases hreread
  have hkept : again.strategy.pairs =
      (app.strategy.collectTx setup.codec setup.crypto etherTx.tx).1.pairs := by
    rw [← hfirstly]
    exact pairs_eq_iff.mpr hcurrent
  have hchanged : (app.strategy.collectTx setup.codec setup.crypto etherTx.tx).1.pairs ≠
      app.strategy.pairs := by
    rw [← hfirstly]
    exact fun hsame ↦ hfirst.2 (pairs_eq_iff.mp hsame)
  have hpower := fun data hdecode ↦ hkeeps etherTx data hread hdecode
  have hsame := collectTx_again hwellFormed hagain hpower hchanged hkept
  rw [← hsecondly] at hsame
  exact hsecond.2 (pairs_eq_iff.mp hsame)

/-- In every run, what changes the validators passes the check at that moment. A transaction without
items of power zero that has taken effect takes effect again only after a different one has. -/
theorem takesEffect_again (setup : Setup PubKey Signature NodeAddress) (app : EthermintApplication)
    (validators : List Validator) (requests : List Request) (before : EthermintApplication)
    (hreach : run setup (initChain app validators) requests = .ok before) (written : Bool)
    (txBytes : String) (first : EthermintApplication)
    (hfirst : TakesEffect setup written before txBytes first) :
    PassesCheck setup before txBytes ∧
      ∀ (middle : List Request) (again : EthermintApplication) (rewritten : Bool)
        (after : EthermintApplication), KeepsAll setup txBytes →
        run setup first middle = .ok again →
        TakesEffect setup rewritten again txBytes after →
        ∃ early writing other late between next,
          middle = early ++ .deliverTx writing other :: late ∧ other ≠ txBytes ∧
          run setup first early = .ok between ∧ TakesEffect setup writing between other next := by
  refine ⟨hfirst.passesCheck, ?_⟩
  intro middle again rewritten after hkeeps hmiddle hsecond
  have hwellFormed := run_wellFormed hreach (initChain_wellFormed app validators)
  have hstep : step setup before (.deliverTx written txBytes) = .ok first := by
    obtain ⟨response, hdelivered⟩ := hfirst.1
    simp only [step, hdelivered]
    rfl
  have hfirstWellFormed := step_wellFormed hstep hwellFormed
  cases run_current hmiddle with
  | inl hsame =>
    have hagain := run_wellFormed hmiddle hfirstWellFormed
    exact absurd hsecond (not_takesEffect_again hwellFormed hkeeps hfirst hagain hsame)
  | inr heffect =>
    obtain ⟨early, writing, other, late, between, next, hcut, hearly, hsame, heffect⟩ := heffect
    refine ⟨early, writing, other, late, between, next, hcut, ?_, hearly, heffect⟩
    intro hother
    rw [hother] at heffect
    have hbetween := run_wellFormed hearly hfirstWellFormed
    exact absurd heffect (not_takesEffect_again hwellFormed hkeeps hfirst hbetween hsame)

end Runs

/-- Three validator transactions: the first validator is raised to eleven, it is set back to ten,
and an unknown key gets power zero. -/
def replaySetup : Setup UInt8 UInt8 ℕ :=
  sampleSetup [⟨"val", "0x00"⟩, ⟨"val", "0x01"⟩, ⟨"val", "0x02"⟩] ⟨"", none, none, none, ""⟩
    [signedByThree [{ cmd := "", pubKey := "aa", power := 11, name := "" }],
      signedByThree [{ cmd := "", pubKey := "aa", power := 10, name := "" }],
      signedByThree [{ cmd := "", pubKey := "ee", power := 0, name := "" }]]

/-- Four validators with ten votes each. -/
def replayStart : EthermintApplication :=
  initChain (sampleApplication newValidatorsStrategy)
    [⟨[0xaa], 10⟩, ⟨[0xbb], 10⟩, ⟨[0xcc], 10⟩, ⟨[0xdd], 10⟩]

/-- The application after a delivery, if it returns. -/
def replayed (app : EthermintApplication) (txBytes : String) : EthermintApplication :=
  match deliverTx replaySetup true app txBytes with
  | .error _ => app
  | .ok (after, _) => after

theorem keepsAll_raise : KeepsAll replaySetup "0x00" := by
  intro etherTx data hread hdecode
  cases hread
  cases hdecode
  decide

/-- The raise takes effect again once it has been set back. -/
theorem takesEffect_again_raise :
    TakesEffect replaySetup true replayStart "0x00" (replayed replayStart "0x00") ∧
      TakesEffect replaySetup true (replayed (replayed replayStart "0x00") "0x01") "0x00"
        (replayed (replayed (replayed replayStart "0x00") "0x01") "0x00") ∧
      ∃ early writing other late between next,
        [.deliverTx true "0x01"] = early ++ .deliverTx writing other :: late ∧ other ≠ "0x00" ∧
        run replaySetup (replayed replayStart "0x00") early = .ok between ∧
        TakesEffect replaySetup writing between other next := by
  have hfirst : TakesEffect replaySetup true replayStart "0x00" (replayed replayStart "0x00") :=
    ⟨⟨_, rfl⟩, by decide⟩
  have hsecond : TakesEffect replaySetup true (replayed (replayed replayStart "0x00") "0x01") "0x00"
      (replayed (replayed (replayed replayStart "0x00") "0x01") "0x00") :=
    ⟨⟨_, rfl⟩, by decide⟩
  have hagain := (takesEffect_again replaySetup (sampleApplication newValidatorsStrategy) _ []
    replayStart rfl true "0x00" _ hfirst).2
  exact ⟨hfirst, hsecond, hagain _ _ true _ keepsAll_raise rfl hsecond⟩

/-- A transaction takes effect twice with another one in between, and one of power zero takes effect
twice in a row. -/
theorem takesEffect_twice :
    (∃ first second third, TakesEffect replaySetup true replayStart "0x00" first ∧
      TakesEffect replaySetup true first "0x01" second ∧
      TakesEffect replaySetup true second "0x00" third) ∧
    ∃ first second, TakesEffect replaySetup true replayStart "0x02" first ∧
      TakesEffect replaySetup true first "0x02" second :=
  ⟨⟨_, _, _, ⟨⟨_, rfl⟩, by decide⟩, ⟨⟨_, rfl⟩, by decide⟩, ⟨⟨_, rfl⟩, by decide⟩⟩,
    _, _, ⟨⟨_, rfl⟩, by decide⟩, ⟨⟨_, rfl⟩, by decide⟩⟩

end LkChain.Ethermint.Replay
