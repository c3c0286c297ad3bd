import Grain.Genesis

/-!
# The settlement of a transaction

`execute_transaction` in two parts: up to its commands (`reserve`), and what follows them (`afterCommands`), for whatever the
commands returned and left behind. `settlement` says on which of the exits the gas is charged, how much, and in which state;
`FeeBound` what the reserve is there for.
-/

namespace Grain

open Eff

/-- What a transaction has fixed when its commands start. -/
structure Reserved where
  a : Amounts
  gasLimitGas : Int
  t : TParams
  jtx : Json
  uu : Leaf BcAddressState

/-- `execute_transaction` up to its commands: it goes on only past the reserve check. -/
def reserve (Γ : Ctx) (b : BParams) (senderAddress : String) (tx : TX) : Eff Reserved := do
  let st ← getStateNoCreate Γ
  raiseIf st.isNone "if (!st.valid()) "
  let st ← need st
  assign st.ptr .incTxCount
  setDirty st.ptr false
  let root := (Γ.yyjsonRead tx.txBody).getD .null
  let jtx := root.objGet "tx"
  raiseIf jtx.isNone "if(!j_tx)"
  let jtx ← need jtx
  let a ← readAmountsEmit tx root
  let _ ← getValuesNoCreate Γ
  let gasLimitGas ← lift (token2Gas a.gasLimit a.priority b.fees.gasPerToken)
  beginTx a.value
  let nonce := match getNonce (Γ.yyjsonRead tx.txBody) with
    | .ok n => n
    | .error _ => 0
  let t : TParams := { senderAddress := senderAddress, tx := tx, gasLimitGas := gasLimitGas,
                       blockTimestamp := b.prevTimestamp, nonce := nonce, chainId := getChainId root }
  let uu ← getAddressStateNoCreate Γ senderAddress
  raiseIf uu.isNone "if(!uu.valid())"
  let uu ← need uu
  let reserve ← add64 a.gasLimit a.value
  failIf (uu.val.balance < reserve) "not enough funds to reserve gasLimit+value"
  calcTreeHash .saveZ
  pure { a := a, gasLimitGas := gasLimitGas, t := t, jtx := jtx, uu := uu }

/-- What follows the reserve check: the commands, and the settlement. -/
def spend (Γ : Ctx) (b : BParams) (x : Reserved) : Eff Unit := do
  let r ← catchErr (executeTxCommands Γ b x.t x.jtx)
  afterCommands b x.uu.ptr x.a x.gasLimitGas r

/-! ## The exits -/

/-- The gas that a token buys, as the conversions compute it. -/
def Reserved.rate (x : Reserved) (b : BParams) : Int := (wrap64 (b.fees.gasPerToken * (100 - x.a.priority))).tdiv 100

/-- The tokens for an amount of gas, as `gas_2_token` computes them. -/
def Reserved.tokens (x : Reserved) (b : BParams) (gas : Int) : Int := max 1 ((wrap64 (gas + x.rate b - 1)).tdiv (x.rate b))

/-- How a transaction is settled: whether it succeeded, whether undoing it raised, the gas to charge, and the state in which it
is charged. -/
structure Settlement where
  succeeded : Bool
  raised : Bool
  gas : Int
  st : St

/-- The start of `fail`: the gas of the log, and the rollback. -/
def undone (Γ : Ctx) (b : BParams) (gas : Int) (s : St) : Settlement :=
  let s := (exec Γ (.addGas ((exec Γ .rollSize s).1 * b.fees.gasPerByte)) s).2
  { succeeded := false, raised := !(exec Γ .rollback s).1.isOk, gas := gas, st := (exec Γ .rollback s).2 }

/-- After the deletions and the hashing, with the gas of the written leaves. -/
def hashed (Γ : Ctx) (b : BParams) (s : St) : St :=
  let s := (runEff Γ (deletePending s.deletedGranules) s).2
  let s := (exec Γ (.calcTreeHash .dbDump) s).2
  (exec Γ (.addGas ((exec Γ .dumpSize s).1 * b.fees.gasPerByte)) s).2

/-- The exit that is taken after the commands returned `r` in the state `s`. -/
def settlement (Γ : Ctx) (b : BParams) (gasLimitGas : Int) (r : Option String) (s : St) : Settlement :=
  if r.isSome ∨ s.value < 0 then undone Γ b s.gasUsed s
  else if s.gasUsed > gasLimitGas then undone Γ b gasLimitGas s
  else if (hashed Γ b s).gasUsed > gasLimitGas then undone Γ b gasLimitGas (hashed Γ b s)
  else { succeeded := true, raised := false, gas := (hashed Γ b s).gasUsed, st := hashed Γ b s }

/-- The gas is charged: the rollback did not raise and `gas_2_token` takes the amount. -/
def Settlement.Charges (z : Settlement) : Prop := z.raised = false ∧ 0 ≤ z.gas

instance (z : Settlement) : Decidable z.Charges := inferInstanceAs (Decidable (_ ∧ _))

/-- The balance in a payload object. -/
def balanceOf (o : DataObj) : Int := ((Payload.address? o.payload).map (·.balance)).getD 0

/-- The balance of the leaf that a pointer was found at. -/
def St.leafBalance (s : St) (d : DataPtr) : Int := ((s.store.leaf d.parent).map fun l => balanceOf l.2).getD 0

/-- The pointer is still that of the leaf's payload: a rollback that put the leaf back made a new one. -/
def St.Live (s : St) (d : DataPtr) : Prop :=
  (s.store.cell d.parent).data = some d.gen ∧ (Payload.address? (s.store.deref d).payload).isSome

instance (s : St) (d : DataPtr) : Decidable (s.Live d) := inferInstanceAs (Decidable (_ ∧ _))

/-! ## The bound -/

/-- The exact results of the `int64_t` operations of the reserve check and of the settlement, on the exit that is taken. -/
def Reserved.arithmetic (x : Reserved) (b : BParams) (z : Settlement) : Set Int := fun n =>
  n = x.a.gasLimit + x.a.value ∨ n = b.fees.gasPerToken * (100 - x.a.priority) ∨
    z.Charges ∧ (n = z.gas + x.rate b ∨ n = z.gas + x.rate b - 1 ∨
      n = balanceOf (z.st.store.deref x.uu.ptr) - x.tokens b z.gas ∨ n = z.st.nodeRewards + x.tokens b z.gas) ∨
    (z.Charges ∧ z.succeeded = true) ∧ (n = x.a.value - z.st.value ∨
      n = balanceOf (z.st.store.deref x.uu.ptr) - x.tokens b z.gas - (x.a.value - z.st.value))

/-- What the claim asks of a transaction past its reserve check, whatever its commands returned and left behind. -/
structure FeeBound (Γ : Ctx) (b : BParams) (x : Reserved) (r : Option String) (s : St) (e : Except Stop Unit) (u : St) : Prop where
  charged : wrap64 (u.nodeRewards - s.nodeRewards) ≤ x.a.gasLimit
  success : e = .ok () → x.uu.val.balance - (x.a.gasLimit + x.a.value) ≤ u.leafBalance x.uu.ptr
  failure : e ≠ .ok () → x.uu.val.balance - x.a.gasLimit ≤ u.leafBalance x.uu.ptr
  nonneg : 0 ≤ u.leafBalance x.uu.ptr
  exact : ∀ n ∈ x.arithmetic b (settlement Γ b x.gasLimitGas r s), InI64 n

/-- What the settlement takes from the sender's leaf: nothing if no gas is charged, or if the pointer it is charged through is no
longer the leaf's. -/
def Reserved.cost (x : Reserved) (b : BParams) (z : Settlement) : Int :=
  if z.Charges ∧ z.st.Live x.uu.ptr then x.tokens b z.gas + (if z.succeeded then x.a.value - z.st.value else 0) else 0

/-- When the bound holds, in terms of the state in which the gas is charged. -/
structure Affordable (b : BParams) (x : Reserved) (z : Settlement) : Prop where
  /-- The reserve and the price of gas can be computed. -/
  reserve : InI64 (x.a.gasLimit + x.a.value) ∧ InI64 (b.fees.gasPerToken * (100 - x.a.priority))
  /-- The limit covers the least charge, and the gas that is charged. -/
  limit : z.Charges → 1 ≤ x.a.gasLimit ∧ z.gas ≤ x.gasLimitGas
  /-- The charge can be computed. -/
  charge : z.Charges → InI64 (z.gas + x.rate b) ∧ InI64 (z.st.nodeRewards + x.tokens b z.gas) ∧
    InI64 (balanceOf (z.st.store.deref x.uu.ptr) - x.tokens b z.gas)
  /-- What was spent of the value can be computed. -/
  spent : z.Charges → z.succeeded = true → InI64 (x.a.value - z.st.value) ∧
    InI64 (balanceOf (z.st.store.deref x.uu.ptr) - x.tokens b z.gas - (x.a.value - z.st.value))
  /-- The leaf holds what is taken from it. -/
  funds : x.cost b z ≤ z.st.leafBalance x.uu.ptr
  /-- The commands left the leaf with its balance, but for what the reserve has not been needed for. -/
  kept : x.uu.val.balance - z.st.leafBalance x.uu.ptr ≤
    x.a.gasLimit - x.cost b z + (if z.Charges ∧ z.succeeded = true then x.a.value else 0)

end Grain
