import Grain.Json

/-!
# The payloads of the state tree

The leaf payloads of `bc_*.h` with their fields, the header `data_base` they share, and the assignments the code makes to
them. A `std::map` and a `std::set` are the extensional tree map and set of the standard library, so that equality of two
payloads is equality of their contents. Identifiers (`ADDRESS_id`, `CONTRACT_id`, `NODE_id`) are the strings they wrap.

What `pack` writes and `unpack` reads back is the payload as a value: a snapshot, a granule of the database and a hash
preimage are all `Packed` cells.
-/

namespace Grain

/-- `std::map`. -/
abbrev StdMap (κ ν : Type) [Ord κ] := Std.ExtTreeMap κ ν compare

/-- `std::set`. -/
abbrev StdSet (κ : Type) [Ord κ] := Std.ExtTreeSet κ compare

section StdMap

variable {κ ν : Type} [Ord κ] [Std.TransOrd κ]

theorem StdMap.mem_iff (m : StdMap κ ν) (a : κ) : a ∈ m ↔ ∃ v, m[a]? = some v := by
  rw [← Std.ExtTreeMap.isSome_getElem?_iff_mem, Option.isSome_iff_exists]

variable [Std.LawfulEqOrd κ]

theorem StdMap.mem_insert (m : StdMap κ ν) (k a : κ) (v : ν) : a ∈ m.insert k v ↔ k = a ∨ a ∈ m := by
  simp only [Std.ExtTreeMap.mem_insert, Std.LawfulEqCmp.compare_eq_iff_eq]

theorem StdMap.mem_erase (m : StdMap κ ν) (k a : κ) : a ∈ m.erase k ↔ k ≠ a ∧ a ∈ m := by
  simp only [Std.ExtTreeMap.mem_erase, ne_eq, Std.LawfulEqCmp.compare_eq_iff_eq]

variable [DecidableEq κ]

theorem StdMap.getElem?_insert (m : StdMap κ ν) (k a : κ) (v : ν) :
    (m.insert k v)[a]? = if k = a then some v else m[a]? := by
  simp only [Std.ExtTreeMap.getElem?_insert, Std.LawfulEqCmp.compare_eq_iff_eq]

theorem StdMap.getElem?_erase (m : StdMap κ ν) (k a : κ) : (m.erase k)[a]? = if k = a then none else m[a]? := by
  simp only [Std.ExtTreeMap.getElem?_erase, Std.LawfulEqCmp.compare_eq_iff_eq]

end StdMap

/-- `Key`: `type` is one of `KEY_ED25519` (0), `KEY_SECP256K1` (1) and `KEY_P256` (2), or a value no verifier knows. -/
structure Key where
  id : Nat
  type : Nat
  keybuffer : String
  deriving DecidableEq

/-- `bc_contract`. -/
structure BcContract where
  owners : StdSet String := ∅
  src : String := ""
  deriving DecidableEq

/-- `bc_address_state`. -/
structure BcAddressState where
  balance : Int := 0
  nonce : Int := 0
  keys : StdMap Nat Key := ∅
  contracts : StdSet String := ∅
  ownedNodes : StdSet String := ∅
  stakedIn : StdSet String := ∅
  deriving DecidableEq

/-- `bc_node`. -/
structure BcNode where
  name : String := ""
  ownerAddress : String := ""
  blsPk : String := ""
  edPk : String := ""
  ip : String := ""
  stakes : StdMap String Int := ∅
  enabled : Bool := true
  missedRounds : Int := 0
  answeredRounds : Int := 0
  deriving DecidableEq

/-- `bc_values`. -/
structure BcValues where
  values : StdMap String Int
  emittersBin : StdSet String := ∅
  deriving DecidableEq

/-- `vote`; in `bc_votes` it is filed under the hash of the parameter and the value text. -/
structure Vote where
  param : String
  value : Int
  nodes : StdSet String
  createTime : Int
  ttl : Int
  deriving DecidableEq

/-- `bc_state`. -/
structure BcState where
  totalSupply : Int := 0
  totalStake : Int := 0
  accountCount : Int := 0
  nodeCount : Int := 0
  contractCount : Int := 0
  txCount : Int := 0
  blockHeight : Int := 0
  genesisTime : Int := 0
  chainId : Int := 0
  deriving DecidableEq

/-- `hsh::hashers`: the constructor index of a cell's payload. -/
inductive Hsh
  | bcContract
  | bcAddressState
  | bcNode
  | bcNodelist
  | bcValues
  | bcContractData
  | bcVotes
  | bcContractBalance
  | bcState
  | bcContractActivity
  | hshEnd
  deriving DecidableEq

/-- The payload of a leaf, by its dynamic type. -/
inductive Payload
  | contract (v : BcContract)
  | addressState (v : BcAddressState)
  | node (v : BcNode)
  | nodelist (list : StdSet String)
  | values (v : BcValues)
  | contractData (container : String)
  | votes (votes : StdMap String Vote)
  | contractBalance (amount : Int)
  | state (v : BcState)
  | contractActivity (name : String)
  deriving DecidableEq

/-- The constructor index under which the payload's type is registered in `db_constructors`. -/
def Payload.hsh : Payload → Hsh
  | .contract _ => .bcContract
  | .addressState _ => .bcAddressState
  | .node _ => .bcNode
  | .nodelist _ => .bcNodelist
  | .values _ => .bcValues
  | .contractData _ => .bcContractData
  | .votes _ => .bcVotes
  | .contractBalance _ => .bcContractBalance
  | .state _ => .bcState
  | .contractActivity _ => .bcContractActivity

/-- `data_base`: the payload with the two fields every payload has. -/
structure DataObj where
  updateTime : Int := 0
  ttl : Int := -1
  payload : Payload
  deriving DecidableEq

namespace BcNode

/-- `get_user_stake`. -/
def getUserStake (n : BcNode) (user : String) : Int := n.stakes[user]?.getD 0

/-- `get_full_stake`. -/
def getFullStake (n : BcNode) : Int := n.stakes.toList.foldl (fun r z => wrap64 (r + z.2)) 0

end BcNode

/-- The defaults that the constructor of `bc_values` files. -/
def BcValues.initial : BcValues where
  values := .ofList ([("gas_per_token", 1), ("gas_per_byte", 1), ("gas_per_jsi_step", 10), ("gas_per_hostcall", 500),
    ("gas_per_call", 1000), ("min_tx_fee", 1), ("gas_node_create", 10000), ("gas_node_enable", 5000),
    ("gas_node_stake", 2000), ("gas_node_update", 1000), ("gas_node_disable", 5000), ("gas_contract_deploy", 10000),
    ("gas_create_base", 100), ("ttl_seconds_per_gas", 86400), ("gas_create_address", 1000),
    ("validator_count_percent", 50), ("validator_min_stake", 50), ("missed_rounds_max", 100),
    ("answered_committee_min", 10), ("ttl_cache", 20)] : List (String × Int))

/-- `getValue`: a missing name raises. -/
def BcValues.getValue (v : BcValues) (name : String) : Except Stop Int :=
  match v.values[name]? with
  | some n => .ok n
  | none => .error (.exn (.commonError ("fee '" ++ name ++ "' not found")))

/-- `MAX_KEYS_PER_ADDRESS`. -/
def maxKeysPerAddress : Nat := 5

/-- The identifier `addKey` gives to a new key: one above the largest, 0 for the first, none when the address is full. -/
def BcAddressState.newKeyId (u : BcAddressState) : Option Nat :=
  if u.keys.size ≥ maxKeysPerAddress then none
  else some (match u.keys.keys.getLast? with
    | none => 0
    | some m => (m + 1) % 2 ^ 64)

/-! ## Assignments -/

/-- The assignments the code makes to the fields of a payload. A subtraction is an addition of the negated amount. -/
inductive Write
  | addBalance (a : Int)
  | clearBalance
  | incNonce
  | insertKey (k : Key)
  | removeKey (id : Nat)
  | clearKeys
  | insertContract (c : String)
  | eraseContract (c : String)
  | insertOwnedNode (n : String)
  | eraseOwnedNode (n : String)
  | insertStakedIn (n : String)
  | eraseStakedIn (n : String)
  | initContract (owner src : String)
  | setSrc (src : String)
  | initNode (name owner blsPk edPk ip : String)
  | setIp (ip : String)
  | setEnabled (b : Bool)
  | addStake (user : String) (a : Int)
  | setRounds (missed answered : Int)
  | insertNode (n : String)
  | removeNode (n : String)
  | setValue (name : String) (v : Int)
  | setContainer (s : String)
  | setVote (h : String) (v : Vote)
  | eraseVote (h : String)
  | addAmount (a : Int)
  | addTotalSupply (a : Int)
  | addTotalStake (a : Int)
  | incAccountCount
  | addNodeCount (a : Int)
  | incContractCount
  | incTxCount
  | setBlockHeight (h : Int)
  | raiseUpdateTime (t : Int)
  | setUpdateTime (t : Int)
  | setTtl (ttl : Int)
  deriving DecidableEq

namespace Payload

def mapAddressState (f : BcAddressState → BcAddressState) : Payload → Payload
  | .addressState v => .addressState (f v)
  | p => p

def mapContract (f : BcContract → BcContract) : Payload → Payload
  | .contract v => .contract (f v)
  | p => p

def mapNode (f : BcNode → BcNode) : Payload → Payload
  | .node v => .node (f v)
  | p => p

def mapState (f : BcState → BcState) : Payload → Payload
  | .state v => .state (f v)
  | p => p

def mapNodelist (f : StdSet String → StdSet String) : Payload → Payload
  | .nodelist l => .nodelist (f l)
  | p => p

def mapValues (f : BcValues → BcValues) : Payload → Payload
  | .values v => .values (f v)
  | p => p

def mapVotes (f : StdMap String Vote → StdMap String Vote) : Payload → Payload
  | .votes v => .votes (f v)
  | p => p

end Payload

/-- What an assignment does to the payload. `int64_t` sums wrap; a write reaches only a payload of its own type. -/
def Write.payload : Write → Payload → Payload
  | .addBalance a => .mapAddressState fun u => { u with balance := wrap64 (u.balance + a) }
  | .clearBalance => .mapAddressState fun u => { u with balance := 0 }
  | .incNonce => .mapAddressState fun u => { u with nonce := wrap64 (u.nonce + 1) }
  | .insertKey k => .mapAddressState fun u => { u with keys := u.keys.insert k.id k }
  | .removeKey id => .mapAddressState fun u => { u with keys := u.keys.erase id }
  | .clearKeys => .mapAddressState fun u => { u with keys := ∅ }
  | .insertContract c => .mapAddressState fun u => { u with contracts := u.contracts.insert c }
  | .eraseContract c => .mapAddressState fun u => { u with contracts := u.contracts.erase c }
  | .insertOwnedNode n => .mapAddressState fun u => { u with ownedNodes := u.ownedNodes.insert n }
  | .eraseOwnedNode n => .mapAddressState fun u => { u with ownedNodes := u.ownedNodes.erase n }
  | .insertStakedIn n => .mapAddressState fun u => { u with stakedIn := u.stakedIn.insert n }
  | .eraseStakedIn n => .mapAddressState fun u => { u with stakedIn := u.stakedIn.erase n }
  | .initContract owner src => .mapContract fun _ => { owners := (∅ : StdSet String).insert owner, src := src }
  | .setSrc src => .mapContract fun c => { c with src := src }
  | .initNode name owner blsPk edPk ip => .mapNode fun n =>
      { n with name := name, ownerAddress := owner, blsPk := blsPk, edPk := edPk, ip := ip, enabled := true }
  | .setIp ip => .mapNode fun n => { n with ip := ip }
  | .setEnabled b => .mapNode fun n => { n with enabled := b, missedRounds := 0 }
  | .addStake user a => .mapNode fun n => { n with stakes := n.stakes.insert user (wrap64 (n.getUserStake user + a)) }
  | .setRounds missed answered => .mapNode fun n => { n with missedRounds := missed, answeredRounds := answered }
  | .insertNode n => .mapNodelist fun l => l.insert n
  | .removeNode n => .mapNodelist fun l => l.erase n
  | .setValue name v => .mapValues fun w => { w with values := w.values.insert name v }
  | .setContainer s => fun p => match p with
      | .contractData _ => .contractData s
      | p => p
  | .setVote h v => .mapVotes fun m => m.insert h v
  | .eraseVote h => .mapVotes fun m => m.erase h
  | .addAmount a => fun p => match p with
      | .contractBalance b => .contractBalance (wrap64 (b + a))
      | p => p
  | .addTotalSupply a => .mapState fun s => { s with totalSupply := s.totalSupply + a }
  | .addTotalStake a => .mapState fun s => { s with totalStake := s.totalStake + a }
  | .incAccountCount => .mapState fun s => { s with accountCount := wrap64 (s.accountCount + 1) }
  | .addNodeCount a => .mapState fun s => { s with nodeCount := wrap64 (s.nodeCount + a) }
  | .incContractCount => .mapState fun s => { s with contractCount := wrap64 (s.contractCount + 1) }
  | .incTxCount => .mapState fun s => { s with txCount := wrap64 (s.txCount + 1) }
  | .setBlockHeight h => .mapState fun s => { s with blockHeight := h }
  | .raiseUpdateTime _ => id
  | .setUpdateTime _ => id
  | .setTtl _ => id

/-- The effect of an assignment on the object: the payload, and the header for the three writes that are to it
(`update_time(t)` only raises the time). -/
def Write.apply (w : Write) (o : DataObj) : DataObj :=
  match w with
  | .raiseUpdateTime t => { o with updateTime := max t o.updateTime }
  | .setUpdateTime t => { o with updateTime := t }
  | .setTtl ttl => { o with ttl := ttl }
  | w => { o with payload := w.payload o.payload }

/-- The `int64_t` sum of an assignment to a balance, a stake or a contract balance leaves its range. The counters of
`bc_state` are not followed: they count steps from 0. -/
def Write.overflows (w : Write) (o : DataObj) : Bool :=
  match w, o.payload with
  | .addBalance a, .addressState u => ¬ InI64 (u.balance + a)
  | .addStake user a, .node n => ¬ InI64 (n.getUserStake user + a)
  | .addAmount a, .contractBalance b => ¬ InI64 (b + a)
  | _, _ => false

/-- The range of `i128`; its `+=` and `-=` raise outside of it. -/
def InI128 (n : Int) : Prop := -2 ^ 127 ≤ n ∧ n < 2 ^ 127

instance (n : Int) : Decidable (InI128 n) := inferInstanceAs (Decidable (_ ∧ _))

/-- The assignment raises: an `i128` counter leaves its range. -/
def Write.raises (w : Write) (o : DataObj) : Bool :=
  match w, o.payload with
  | .addTotalSupply a, .state s => ¬ InI128 (s.totalSupply + a)
  | .addTotalStake a, .state s => ¬ InI128 (s.totalStake + a)
  | _, _ => false

/-! ## Hashes -/

/-- The blake2b digest of a packed cell, as the term it is the digest of: equal digests have equal preimages. `empty` is the
default `THASH_id`. -/
inductive Hash
  | empty
  | cell (idx : Hsh) (data : Option DataObj)
  | child (id : Nat) (h rest : Hash)
  deriving DecidableEq

/-- What `pack_mx` writes of a cell. -/
structure Packed where
  idx : Hsh := .hshEnd
  hashes : StdMap Nat Hash := ∅
  data : Option DataObj := none
  deriving DecidableEq

/-- The digest over a list of child hashes and the cell's own part. -/
def Hash.ofList (base : Hash) : List (Nat × Hash) → Hash
  | [] => base
  | (id, h) :: l => .child id h (ofList base l)

/-- `blake2b_hash` of a packed cell. -/
def Packed.hash (b : Packed) : Hash := Hash.ofList (.cell b.idx b.data) b.hashes.toList

theorem Hash.ofList_inj {i i' : Hsh} {d d' : Option DataObj} {l l' : List (Nat × Hash)}
    (h : Hash.ofList (.cell i d) l = Hash.ofList (.cell i' d') l') : i = i' ∧ d = d' ∧ l = l' := by
  induction l generalizing l' with
  | nil =>
    cases l' with
    | nil =>
      simp only [Hash.ofList, Hash.cell.injEq] at h
      exact ⟨h.1, h.2, rfl⟩
    | cons a l' => nomatch h
  | cons a l ih =>
    cases l' with
    | nil => nomatch h
    | cons b l' =>
      simp only [Hash.ofList, Hash.child.injEq] at h
      obtain ⟨hid, hh, hrest⟩ := h
      obtain ⟨hi, hd, hl⟩ := ih hrest
      exact ⟨hi, hd, by rw [hl, Prod.ext hid hh]⟩

/-- The digest determines the cell. -/
theorem Packed.hash_inj {b b' : Packed} (h : b.hash = b'.hash) : b = b' := by
  obtain ⟨hi, hd, hl⟩ := Hash.ofList_inj h
  obtain ⟨i, m, d⟩ := b
  obtain ⟨i', m', d'⟩ := b'
  have hm : m = m' := Std.ExtTreeMap.ext_toList (by rw [hl])
  simp_all

/-- No cell has the default hash. -/
theorem Packed.hash_ne_empty (b : Packed) : b.hash ≠ .empty := by
  unfold Packed.hash
  cases b.hashes.toList <;> exact nofun

end Grain
