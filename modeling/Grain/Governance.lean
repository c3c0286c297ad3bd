import Grain.Client
import Grain.Genesis

/-!
# The parameters of the chain

The parameters are set by votes, each to any text that `std::stoull` reads, and then divide, multiply and count: the gas of a
time to live, the price of gas, the size of the committee. `InBounds` are the parameter maps with which none of these uses goes
wrong, `Works` is what the uses are required to do.
-/

namespace Grain

open Eff

/-! ## Votes and values -/

/-- The `unsigned long long` that `std::stoull` returns, before it is stored in an `int64_t`. -/
def stoullU (s : String) : Except Stop Nat :=
  match splitNumeral s with
  | (_, []) => .error (.exn .invalidArgument)
  | (neg, cs) =>
    if 2 ^ 64 ≤ digitsVal cs then .error (.exn .outOfRange)
    else .ok (if neg then (2 ^ 64 - digitsVal cs) % 2 ^ 64 else digitsVal cs)

/-- The tree has the values. -/
def HasValues (Γ : Ctx) (s : St) (v : BcValues) : Prop :=
  (runEff Γ (getValuesNoCreate Γ) s).1.map (Option.map (·.val)) = .ok (some v)

instance (Γ : Ctx) (s : St) (v : BcValues) : Decidable (HasValues Γ s v) := inferInstanceAs (Decidable (_ = _))

/-- The values after a vote has set a parameter. -/
def BcValues.setValue (v : BcValues) (param : String) (n : Int) : BcValues :=
  { v with values :=
      if param = "validator_min_stake" then (v.values.insert param n).insert "validator_min_stake_activated" 1
      else v.values.insert param n }

/-- A vote for a text as the value of a parameter that `execute_vote` accepted, in whatever state, with the values before and
after it. -/
def Voted (Γ : Ctx) (param value : String) (v v' : BcValues) : Prop :=
  ∃ params b t i s s', yyGetString params "param" = .ok param ∧ yyGetString params "value" = .ok value ∧ HasValues Γ s v ∧
    runEff Γ (executeVote Γ params b t i) s = (.ok (), s') ∧ HasValues Γ s' v'

/-- A sequence of accepted votes, each of which satisfies a condition on the values before it. -/
inductive VoteRun (Γ : Ctx) (C : BcValues → String → String → Prop) : BcValues → BcValues → Prop
  | refl (v : BcValues) : VoteRun Γ C v v
  | tail {v v' v'' : BcValues} {param value : String} (h : VoteRun Γ C v v') (hc : C v' param value)
      (hs : Voted Γ param value v' v'') : VoteRun Γ C v v''

/-- The fees, as `feesSnapshot` reads them. -/
def BcValues.fees (v : BcValues) : Except Stop FeesSnapshot := do
  let gasPerToken ← v.getValue "gas_per_token"
  let gasPerByte ← v.getValue "gas_per_byte"
  let gasPerJsiStep ← v.getValue "gas_per_jsi_step"
  let gasPerHostcall ← v.getValue "gas_per_hostcall"
  let gasPerCall ← v.getValue "gas_per_call"
  let minTxFee ← v.getValue "min_tx_fee"
  let gasNodeCreate ← v.getValue "gas_node_create"
  let gasNodeEnable ← v.getValue "gas_node_enable"
  let gasNodeStake ← v.getValue "gas_node_stake"
  let gasNodeUpdate ← v.getValue "gas_node_update"
  let gasNodeDisable ← v.getValue "gas_node_disable"
  let gasContractDeploy ← v.getValue "gas_contract_deploy"
  let gasCreateBase ← v.getValue "gas_create_base"
  let ttlSecondsPerGas ← v.getValue "ttl_seconds_per_gas"
  let gasCreateAddress ← v.getValue "gas_create_address"
  .ok { gasPerToken, gasPerByte, gasPerJsiStep, gasPerHostcall, gasPerCall, minTxFee, gasNodeCreate, gasNodeEnable, gasNodeStake,
        gasNodeUpdate, gasNodeDisable, gasContractDeploy, gasCreateBase, ttlSecondsPerGas, gasCreateAddress }

/-! ## The uses of the parameters -/

/-- The exact results of the `int64_t` operations on fees: the gas of a time to live in `contract_deploy`, `createGranule` and
`setGranule`, the gas of a call, the price of gas, and the gas of up to so many written bytes. -/
def FeesSnapshot.arithmetic (f : FeesSnapshot) (bytes : Nat) : Set Int := fun n =>
  (∃ ttl, 0 < ttl ∧ ttl ≤ maxGranuleTtl ∧ (n = ttl + f.ttlSecondsPerGas - 1 ∨
    n = f.gasContractDeploy + (ttl + f.ttlSecondsPerGas - 1).tdiv f.ttlSecondsPerGas ∨
    n = f.gasCreateBase + (ttl + f.ttlSecondsPerGas - 1).tdiv f.ttlSecondsPerGas)) ∨
  n = f.gasPerCall + f.gasPerHostcall ∨
  (∃ priority, 0 ≤ priority ∧ priority ≤ 99 ∧ n = f.gasPerToken * (100 - priority)) ∨
  ∃ k : Nat, k ≤ bytes ∧ n = k * f.gasPerByte

/-- A gas limit in tokens, at no priority, that pays for an amount of gas. -/
def FeesSnapshot.Pays (f : FeesSnapshot) (gas : Int) : Prop :=
  ∃ limit gasLimit spent, token2Gas limit 0 f.gasPerToken = .ok gasLimit ∧ gas ≤ gasLimit ∧
    gas2Token gas 0 f.gasPerToken = .ok spent ∧ spent ≤ limit

/-- A network from which the values choose a committee: the share of validators is at least one node, and some node has the
stake. -/
structure Adequate (v : BcValues) (ns : List BcNode) : Prop where
  apart : (ns.map (·.name)).Nodup
  few : ns.length < 2 ^ 56
  enough : ∀ pct, v.getValue "validator_count_percent" = .ok pct → 100 ≤ ns.length * pct
  stake : ∀ m, v.getValue "validator_min_stake" = .ok m → ∃ n ∈ ns, m ≤ n.getFullStake

/-- What is required of the values in every state that has them. -/
structure Works (bytes : Nat) (v : BcValues) (f : FeesSnapshot) : Prop where
  /-- A block finds its fees. -/
  snapshot : ∀ Γ s, HasValues Γ s v → (runEff Γ (feesSnapshot Γ) s).1 = .ok f
  /-- No command of a transaction and no contract call divides by zero. -/
  commands : ∀ Γ b tp jtx s, b.fees = f → b.fullStake ≠ 0 →
    (runEff Γ (executeTxCommands Γ b tp jtx) s).1 ≠ .error (.exn .divByZero)
  /-- No block divides by zero. -/
  blocks : ∀ Γ b newEpoch txs s, b.fees = f → b.fullStake ≠ 0 →
    (runEff Γ (executeBlock Γ b newEpoch txs) s).1 ≠ .error (.exn .divByZero)
  /-- The arithmetic on the fees stays in `int64_t`. -/
  exact : ∀ n ∈ f.arithmetic bytes, InI64 n
  /-- The gas of the bytes that a transaction writes can be paid. -/
  pays : ∀ k : Nat, k ≤ bytes → f.Pays (k * f.gasPerByte)
  /-- The metadata of a window is computed, with a number of validators that an `int64_t` and a `size_t` hold. -/
  committee : ∀ (Γ : NodeCtx) s win root ns, HasValues Γ.ctx s.st v → (runEff Γ.ctx (enabledNodes Γ.ctx) s.st).1 = .ok ns →
    (∀ n ∈ ns, ∃ r, (runEff Γ.ctx (getNodeNoCreate Γ.ctx n.name) s.st).1 = .ok r) → Adequate v ns →
    (∃ m, (runNode (computeMeta Γ root win) s).1 = .ok m) ∧
      ∃ pct, v.getValue "validator_count_percent" = .ok pct ∧ InI64 (ns.length * pct) ∧ 0 ≤ ns.length * pct

/-! ## The bounds -/

/-- The bounds of the fees, for transactions that write up to so many bytes. -/
structure FeesSnapshot.InBounds (f : FeesSnapshot) (bytes : Nat) : Prop where
  ttl : 1 ≤ f.ttlSecondsPerGas ∧ f.ttlSecondsPerGas + maxGranuleTtl ≤ 2 ^ 63
  deploy : -2 ^ 63 ≤ f.gasContractDeploy ∧
    f.gasContractDeploy + (maxGranuleTtl + f.ttlSecondsPerGas - 1).tdiv f.ttlSecondsPerGas < 2 ^ 63
  create : -2 ^ 63 ≤ f.gasCreateBase ∧
    f.gasCreateBase + (maxGranuleTtl + f.ttlSecondsPerGas - 1).tdiv f.ttlSecondsPerGas < 2 ^ 63
  call : InI64 (f.gasPerCall + f.gasPerHostcall)
  token : 1 ≤ f.gasPerToken ∧ f.gasPerToken * 100 < 2 ^ 63
  byte : 0 ≤ f.gasPerByte ∧ bytes * f.gasPerByte + f.gasPerToken ≤ 2 ^ 63

/-- The bounds of the values. -/
structure BcValues.InBounds (v : BcValues) (bytes : Nat) : Prop where
  fees : ∃ f, v.fees = .ok f ∧ f.InBounds bytes
  share : ∃ pct, v.getValue "validator_count_percent" = .ok pct ∧ 1 ≤ pct ∧ pct ≤ 99
  minStake : ∃ n, v.getValue "validator_min_stake" = .ok n
  answeredMin : ∃ n, v.getValue "answered_committee_min" = .ok n

/-- The condition on a vote: its number fits an `int64_t`, and is in bounds for its parameter. -/
def VoteInBounds (bytes : Nat) (v : BcValues) (param value : String) : Prop :=
  ∀ u, stoullU value = .ok u → u < 2 ^ 63 ∧ (v.setValue param u).InBounds bytes

end Grain
