import Grain.Execute

/-!
# The first state

`init_genesis`: the state a node starts from when its database is empty. The file it reads is given parsed, with the
addresses resolved. A small network at the end of the module gives the concrete inputs at which the development evaluates its
definitions; in it the only signature of a key is the key written twice.
-/

namespace Grain

open Eff

/-- An entry of `users`. -/
structure GenesisUser where
  addr : String
  balance : Int := 0
  keys : List (Nat × String) := []

/-- An entry of `nodes`. -/
structure GenesisNode where
  name : String
  owner : String
  blsPk : String := ""
  edPk : String := ""
  ip : String := ""
  stake : Int := 0

/-- The genesis file. -/
structure GenesisFile where
  chainId : Int := 1
  genesisTime : Int := 0
  params : List (String × Int) := []
  emitters : List String := []
  users : List GenesisUser := []
  nodes : List GenesisNode := []

/-- The values of the file over the defaults. -/
def GenesisFile.values (g : GenesisFile) : BcValues where
  values := g.params.foldl (fun m kv => m.insert kv.1 kv.2) BcValues.initial.values
  emittersBin := g.emitters.foldl (fun m a => m.insert a) ∅

/-- The checks and the keys of a user. -/
def genesisKeys (ua : DataPtr) : List (Nat × String) → Eff Unit
  | [] => pure ()
  | (type, kb) :: ks => do
    raiseIf (type = 0 ∧ kb.length ≠ 32) "genesis: bad ed25519 size"
    raiseIf ((type = 1 ∨ type = 2) ∧ kb.length ≠ 33 ∧ kb.length ≠ 65) "genesis: bad ecdsa size"
    let id ← addKey ua type kb
    raiseIf id.isNone "genesis: addKey failed"
    genesisKeys ua ks

/-- The users of the file. -/
def genesisUsers (Γ : Ctx) (st : DataPtr) : List GenesisUser → Eff Unit
  | [] => pure ()
  | u :: us => do
    let ua ← getAddressStateOrCreate Γ u.addr >>= need
    assign ua .clearBalance
    assign ua (.addBalance u.balance)
    raiseIf (u.keys.length > maxKeysPerAddress) "genesis: keys 1..5 required"
    genesisKeys ua u.keys
    setDirty ua false
    assign st (.addTotalSupply u.balance)
    genesisUsers Γ st us

/-- The nodes of the file. -/
def genesisNodes (Γ : Ctx) (st : DataPtr) : List GenesisNode → Eff Unit
  | [] => pure ()
  | n :: ns => do
    raiseIf (← getNodeNoCreate Γ n.name).isSome ("genesis: duplicate node " ++ n.name)
    let nn ← addNode Γ n.name
    assign nn (.initNode n.name n.owner n.blsPk n.edPk n.ip)
    assign nn (.addStake n.owner n.stake)
    setDirty nn false
    assign st (.addTotalStake n.stake)
    genesisNodes Γ st ns

/-- `init_genesis`, up to the write of the granules. There is no rollback log; what the creating lookups enter in one is
dropped. -/
def initGenesis (Γ : Ctx) (g : GenesisFile) : Eff Unit := inTx do
  let _ ← getOrCreate Γ .nodeList { payload := .nodelist ∅ } Payload.nodelist?
  let _ ← getOrCreate Γ .votes { payload := .votes ∅ } Payload.votes?
  let st ← getOrCreate Γ .state { payload := .state { chainId := g.chainId, genesisTime := g.genesisTime } } Payload.state? >>= need
  let _ ← getOrCreate Γ .values { payload := .values g.values } Payload.values?
  genesisUsers Γ st g.users
  setDirty st false
  genesisNodes Γ st g.nodes
  setDirty st false
  let _ ← proceedMerkle
  pure ()

/-- The pending granules go to the database. -/
def St.writeGranules (s : St) : St := { s with store := s.store.writeGranulesBatch s.dbToSaveZ, dbToSaveZ := {} }

/-- The state a node starts from. -/
def genesis (Γ : Ctx) (g : GenesisFile) : St := (runEff Γ (initGenesis Γ g) {}).2.writeGranules

/-! ## A small network -/

namespace Sample

/-- A key: 32 bytes. -/
def key (c : Char) : String := String.ofList (List.replicate 32 c)

/-- The signature of a key. -/
def sign (c : Char) : String := String.ofList (List.replicate 64 c)

/-- The identifier of a name: its place in the list of those in use, or a number above them. -/
def ident (names : List String) (n : String) : Nat :=
  if n ∈ names then names.idxOf n else names.length + Encodable.encode (n.toList.map Char.toNat)

theorem ident_injective (names : List String) : Function.Injective (ident names) := by
  intro a b h
  unfold ident at h
  by_cases ha : a ∈ names <;> by_cases hb : b ∈ names <;> simp only [ha, hb, if_true, if_false] at h
  · exact (List.idxOf_inj ha).1 h
  · have := List.idxOf_lt_length_of_mem ha
    omega
  · have := List.idxOf_lt_length_of_mem hb
    omega
  · have hinj : Function.Injective Char.toNat := fun _ _ => Char.toNat_inj.1
    exact String.toList_injective (List.map_injective_iff.2 hinj (Encodable.encode_injective (Nat.add_left_cancel h)))

/-- The names in use in the small network. -/
def names : List String :=
  [Name.state, .nodeList, .values, .votes, .addressState "a", .addressState "b", .node "n"].map Name.text

/-- The world of the small network: `docs` gives the documents that parse, `scripts` the code of the contracts' methods. -/
def ctx (docs : List (String × Json)) (scripts : String → Option Script) : Ctx where
  path n := [1, 2, 3, 4, ident names n]
  path_length _ := rfl
  path_inj a b h := by simpa [(ident_injective names).eq_iff] using h
  pathFromHash h := [1, 2, 3, 4, h.length]
  pathFromHash_length _ := rfl
  packedSize _ := 1
  yyjsonRead body := (docs.find? fun d => d.1 == body).map (·.2)
  edVerify pk sig _ := sig == pk ++ pk
  ecdsaVerify _ _ _ _ := false
  blsPkOk _ := true
  rewardDelta _ _ _ _ := 0
  rewardText _ _ _ := ""
  load _ := some 0
  method _ _ name _ := scripts name
  view _ _ _ _ := none

/-- Two users with their keys, and a node. -/
def file : GenesisFile where
  params := [("gas_per_token", 1000)]
  emitters := ["a"]
  users := [{ addr := "a", balance := 1000, keys := [(0, key 'k'), (0, key 'm')] },
    { addr := "b", balance := 50, keys := [(0, key 'l')] }]
  nodes := [{ name := "n", owner := "b", stake := 30 }]

/-- What does not change during a block of the small network. -/
def params : BParams where
  fees := {}
  blockTs := 5
  fullStake := 30
  prevTimestamp := 5
  prevValidators := none

/-- A command of the root contract. -/
def command (method : String) (params : List (String × Json)) : Json :=
  .obj [("contract", .str "root"), ("method", .str method), ("params", .obj params)]

/-- The body of a transaction. -/
def body (sender : String) (nonce value gasLimit : Nat) (commands : List Json) : Json :=
  .obj [("sender", .str (base16Encode sender)), ("key_id", .uint 0), ("nonce", .uint nonce), ("value", .uint value),
    ("gasLimit", .uint gasLimit), ("priority", .uint 0), ("tx", .arr commands)]

end Sample

end Grain
