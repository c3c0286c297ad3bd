import Grain.Convert
import Grain.Lib.MapSum

/-!
# The gym contract

The methods of `gym.ts`. An admin issues visits and a user buys them, an entry takes visits out of the user's balance for the
length of a pass, and the admin marks the visits of the pass used. The methods run over the granules of the contract and its
token balance, as the interface of contracts gives them; what an argument is as a number or as text is up to the engine.
-/

namespace Grain

namespace Gym

open Grain.Convert (Jsi)

/-- The conversions of the engine: `Number(v)`, an `int64` or `undefined`, and `String(v)`. Both can raise. -/
structure Engine where
  number : Jsi → Except String (Option Int64)
  string : Jsi → Except String String

/-- One pass of an entry: `M` visits, of which `used` are marked used. -/
structure Pass where
  id : Int
  M : Int
  used : Int
  createdAt : Int
  expiresAt : Int
  disabled : Bool
  deriving DecidableEq

/-- The value of the granule `entry<user>`. -/
structure Entry where
  nextId : Int := 0
  passes : List Pass := []
  deriving DecidableEq

/-- The values of the contract's granules: `admin`, `abonement<user>` and `entry<user>`. -/
inductive Granule
  | admin (addr : String)
  | abonement (visits : Int)
  | entry (e : Entry)
  deriving DecidableEq

/-- What a contract keeps: its granules, and its token balance. -/
structure Store where
  granules : StdMap String Granule := ∅
  balance : Int := 0

/-- The state of a call: the store, what is left of the value the caller sent, the events, and whether a plain `int64_t` sum of
the interface left its range. -/
structure Host extends Store where
  value : Int
  events : List (String × Jsi) := []
  overflow : Bool := false

/-- The code of a method; an exception ends it. -/
abbrev Code := StateT Host (Except String)

/-! ## The interface -/

/-- `createGranule`. -/
def createGranule (key : String) (g : Granule) : Code Unit := do
  let h ← get
  if h.granules[key]?.isSome then throw ("createGranule: already exists: " ++ key)
  else set { h with granules := h.granules.insert key g }

/-- `setGranule`. -/
def setGranule (key : String) (g : Granule) : Code Unit := do
  let h ← get
  if h.granules[key]?.isNone then throw ("setGranule: not found: " ++ key)
  else set { h with granules := h.granules.insert key g }

/-- `addContractBalance`. -/
def addContractBalance (delta : Int) : Code Unit := modify fun h =>
  { h with balance := wrap64 (h.balance + delta), overflow := h.overflow || decide (¬ InI64 (h.balance + delta)) }

/-- `consumeValue`. -/
def consumeValue (amount : Int) : Code Unit := do
  let h ← get
  if amount < 0 then throw "consumeValue: amount < 0"
  else if amount > h.value then throw "consumeValue: insufficient value"
  else do
    set { h with value := h.value - amount }
    addContractBalance amount

/-- `refundValue`. -/
def refundValue (amount : Int) : Code Unit := do
  let h ← get
  if amount < 0 then throw "refundValue: amount < 0"
  else if h.balance < amount then throw "refundValue: insufficient contract balance"
  else do
    addContractBalance (-amount)
    modify fun h => { h with value := wrap64 (h.value + amount), overflow := h.overflow || decide (¬ InI64 (h.value + amount)) }

/-- `emit`. -/
def emit (name : String) (fields : List (String × Jsi)) : Code Unit :=
  modify fun h => { h with events := h.events ++ [(name, .obj (fields.map fun f => (f.1.toList, f.2)))] }

/-- The result of the engine's arithmetic, which raises outside of `int64`. -/
def checked (op : String) (n : Int) : Code Int := if InI64 n then pure n else throw (op ++ " overflow")

/-- An `int64` as a value. -/
def int (n : Int) : Jsi := .int (Int64.ofInt n)

/-- A text as a value. -/
def str (s : String) : Jsi := .str s.toList

/-! ## Arguments -/

/-- The property of a value under a name. -/
def propOf (p : Jsi) (name : String) : Jsi :=
  match p with
  | .obj props => (props.lookup name.toList).getD .undefined
  | .exotic props => (props.lookup name.toList).getD .undefined
  | _ => .undefined

/-- A property of the parameters. -/
def prop (p : Jsi) (name : String) : Code Jsi :=
  match p with
  | .undefined => throw ("cannot read property '" ++ name ++ "' of undefined")
  | .null => throw ("cannot read property '" ++ name ++ "' of null")
  | p => pure (propOf p name)

/-- What counts as true in a condition. -/
def truthy : Jsi → Bool
  | .undefined => false
  | .null => false
  | .bool b => b
  | .int n => n ≠ 0
  | .str s => !s.isEmpty
  | _ => true

/-- `Number(v)`. -/
def number (E : Engine) (v : Jsi) : Code (Option Int) := do
  let n ← liftM (E.number v)
  pure (n.map Int64.toInt)

/-- `String(v)`. -/
def string (E : Engine) (v : Jsi) : Code String := liftM (E.string v)

/-- `Number(v)` where the method goes on only if it is above 0; `undefined` is not. -/
def positive (n : Option Int) (text : String) : Code Int :=
  match n with
  | some n => if n > 0 then pure n else throw text
  | none => throw text

/-- `throw new Error(text)`, if the condition holds. -/
def throwIf (c : Prop) [Decidable c] (text : String) : Code Unit := if c then throw text else pure ()

/-- What there is, or else `throw new Error(text)`. -/
def orThrow {α : Type} (o : Option α) (text : String) : Code α :=
  match o with
  | some a => pure a
  | none => throw text

/-! ## The methods -/

/-- The parts of `msg` the methods read. -/
structure Msg where
  sender : String
  value : Int
  blockTimestamp : Int

/-- `PRICE_PER_VISIT`. -/
def pricePerVisit : Int := 10

/-- `_passKey`. -/
def passKey (u : String) : String := "abonement" ++ u

/-- `_entryKey`. -/
def entryKey (u : String) : String := "entry" ++ u

/-- The key of the admin's granule. -/
def adminKey : String := "admin"

namespace Store

/-- The address in the granule of the admin. The three kinds of keys differ in their first letters, so a granule is read as what
was stored. -/
def admin (s : Store) : Option String :=
  match s.granules[adminKey]? with
  | some (.admin addr) => some addr
  | _ => none

/-- The visit balance of a user. -/
def visits (s : Store) (u : String) : Option Int :=
  match s.granules[passKey u]? with
  | some (.abonement visits) => some visits
  | _ => none

/-- The entry of a user. -/
def entry (s : Store) (u : String) : Option Entry :=
  match s.granules[entryKey u]? with
  | some (.entry e) => some e
  | _ => none

end Store

/-- `getGranule("admin")`. -/
def getAdmin : Code (Option String) := do
  let h ← get
  pure h.admin

/-- `getGranule(_passKey(u))`. -/
def getVisits (u : String) : Code (Option Int) := do
  let h ← get
  pure (h.visits u)

/-- `getGranule(_entryKey(u))`. -/
def getEntry (u : String) : Code (Option Entry) := do
  let h ← get
  pure (h.entry u)

/-- `_isAdmin`. -/
def isAdmin (m : Msg) : Code Bool := do
  let a ← getAdmin
  pure (a = some m.sender)

/-- The checks of the methods of the admin. -/
def adminOnly (m : Msg) : Code Unit := do
  let a ← isAdmin m
  throwIf (a = false) "admin only"

/-- The end of `issuePass` and `buyVisits`: add to the visits of a user. -/
def credit (user : String) (n : Int) : Code Unit := do
  match ← getVisits user with
  | some visits => do
    let v ← checked "add" (visits + n)
    setGranule (passKey user) (.abonement v)
  | none => createGranule (passKey user) (.abonement n)

/-- `init`. -/
def init (E : Engine) (p : Jsi) (_ : Msg) : Code Unit := do
  let a ← getAdmin
  throwIf a.isSome "already init"
  let addr ← prop p "admin" >>= string E
  createGranule adminKey (.admin addr)

/-- `p.user ? String(p.user) : String(m.sender)`. -/
def userOf (E : Engine) (u : Jsi) (m : Msg) : Code String := if truthy u then string E u else pure m.sender

/-- `issuePass`. -/
def issuePass (E : Engine) (p : Jsi) (m : Msg) : Code Unit := do
  adminOnly m
  let u ← prop p "user"
  let user ← userOf E u m
  let n ← prop p "visits" >>= number E
  let n ← positive n "bad visits"
  credit user n
  emit "PassIssued" [("user", str user), ("visits", int n)]

/-- `buyVisits`. -/
def buyVisits (E : Engine) (p : Jsi) (m : Msg) : Code Unit := do
  let n ← prop p "visits" >>= number E
  let n ← positive n "bad visits"
  let total ← checked "sub" (n * pricePerVisit)
  consumeValue total
  credit m.sender n
  emit "PassIssued" [("user", str m.sender), ("visits", int n), ("paid", int total)]

/-- The pass is active: not disabled, not used up, and not expired. -/
def Pass.active (now : Int) (p : Pass) : Bool := !p.disabled && decide (p.used < p.M) && decide (now ≤ p.expiresAt)

/-- The entry of a user, created empty if there is none. -/
def entryOrCreate (user : String) : Code Entry := do
  match ← getEntry user with
  | some e => pure e
  | none => do
    createGranule (entryKey user) (.entry {})
    pure {}

/-- `createEntry`. -/
def createEntry (E : Engine) (p : Jsi) (m : Msg) : Code Unit := do
  let M ← prop p "M" >>= number E
  let ttl ← prop p "ttl" >>= number E
  let M ← positive M "bad M"
  let ttl ← positive ttl "bad ttl"
  let visits ← getVisits m.sender >>= (orThrow · "no pass")
  throwIf (visits < M) "no visits"
  let e ← entryOrCreate m.sender
  throwIf (e.passes.any (·.active m.blockTimestamp)) "entry active"
  let rest ← checked "sub" (visits - M)
  setGranule (passKey m.sender) (.abonement rest)
  let nextId ← checked "add" (e.nextId + 1)
  let expiresAt ← checked "add" (m.blockTimestamp + ttl)
  setGranule (entryKey m.sender) (.entry
    { nextId := nextId,
      passes := e.passes ++
        [{ id := e.nextId, M := M, used := 0, createdAt := m.blockTimestamp, expiresAt := expiresAt, disabled := false }] })
  emit "EntryCreated" [("user", str m.sender), ("id", int e.nextId), ("M", int M), ("ttl", int ttl)]

/-- `"no entry id=" + id`. -/
def noEntryId (id : Option Int) : String := "no entry id=" ++ (id.map toString).getD "undefined"

/-- The pass with the id, the entry it is in, and its place there. -/
def findPass (E : Engine) (p : Jsi) (user : String) : Code (Entry × Nat × Pass) := do
  let e ← getEntry user >>= (orThrow · "no entry")
  let id ← prop p "entry_id" >>= number E
  let idx ← orThrow (e.passes.findIdx? fun x => some x.id = id) (noEntryId id)
  let pp ← orThrow e.passes[idx]? (noEntryId id)
  pure (e, idx, pp)

/-- `p.count ? p.count : 1`. -/
def countOf (p : Jsi) : Jsi := if truthy (propOf p "count") then propOf p "count" else int 1

/-- `markUsed`. -/
def markUsed (E : Engine) (p : Jsi) (m : Msg) : Code Unit := do
  adminOnly m
  let u ← prop p "user"
  throwIf (truthy u = false) "user required"
  let user ← string E u
  let (e, idx, pp) ← findPass E p user
  throwIf (pp.disabled = true) "entry disabled"
  throwIf (m.blockTimestamp > pp.expiresAt) "entry expired"
  let cnt ← number E (countOf p)
  let cnt ← positive cnt "bad count"
  let used ← checked "add" (pp.used + cnt)
  throwIf (used > pp.M) ("entry exhausted used=" ++ toString used ++ " M=" ++ toString pp.M)
  if used = pp.M then do
    setGranule (entryKey user) (.entry { e with passes := e.passes.eraseIdx idx })
    emit "EntryClosed" [("user", str user), ("id", int pp.id)]
  else do
    setGranule (entryKey user) (.entry { e with passes := e.passes.set idx { pp with used := used } })
    emit "EntryUsed" [("user", str user), ("id", int pp.id), ("used", int used), ("M", int pp.M)]

/-- The refund of a cancelled pass; a user without a balance gets none. -/
def giveBack (user : String) (refund : Int) : Code Unit := do
  if refund > 0 then
    match ← getVisits user with
    | some visits => do
      let v ← checked "add" (visits + refund)
      setGranule (passKey user) (.abonement v)
    | none => pure ()
  else pure ()

/-- `cancelEntry`. -/
def cancelEntry (E : Engine) (p : Jsi) (m : Msg) : Code Unit := do
  let user ← prop p "user" >>= string E
  let (e, idx, pp) ← findPass E p user
  throwIf (user ≠ m.sender) "not owner"
  throwIf (pp.disabled = true) "entry disabled"
  let refund ← checked "sub" (pp.M - pp.used)
  giveBack user refund
  setGranule (entryKey user) (.entry { e with passes := e.passes.eraseIdx idx })
  emit "EntryCancelled" [("user", str user), ("id", int pp.id), ("refund", int refund)]

/-- `disableEntry`. -/
def disableEntry (E : Engine) (p : Jsi) (m : Msg) : Code Unit := do
  let user ← prop p "user" >>= string E
  let (e, idx, pp) ← findPass E p user
  throwIf (user ≠ m.sender) "not owner"
  setGranule (entryKey user) (.entry { e with passes := e.passes.set idx { pp with disabled := true } })
  emit "EntryDisabled" [("user", str user), ("id", int pp.id)]

/-- `setAdmin`. -/
def setAdmin (E : Engine) (p : Jsi) (m : Msg) : Code Unit := do
  adminOnly m
  let addr ← prop p "addr" >>= string E
  setGranule adminKey (.admin addr)

/-- `withdraw`. -/
def withdraw (E : Engine) (p : Jsi) (m : Msg) : Code Unit := do
  adminOnly m
  let amount ← prop p "amount" >>= number E
  let amount ← positive amount "bad amount"
  refundValue amount
  emit "Withdraw" [("user", str m.sender), ("amount", int amount)]

/-! ## Runs -/

/-- The methods the contract registers. -/
inductive Method
  | init
  | issuePass
  | buyVisits
  | createEntry
  | markUsed
  | cancelEntry
  | disableEntry
  | setAdmin
  | withdraw
  deriving DecidableEq

/-- The code a method is registered with. -/
def Method.code (E : Engine) : Method → Jsi → Msg → Code Unit
  | .init => Gym.init E
  | .issuePass => Gym.issuePass E
  | .buyVisits => Gym.buyVisits E
  | .createEntry => Gym.createEntry E
  | .markUsed => Gym.markUsed E
  | .cancelEntry => Gym.cancelEntry E
  | .disableEntry => Gym.disableEntry E
  | .setAdmin => Gym.setAdmin E
  | .withdraw => Gym.withdraw E

/-- A call of a method. The engine may stop it: for its gas, its stack, or a value it cannot write. -/
structure Call where
  method : Method
  params : Jsi
  msg : Msg
  stopped : Bool := false

/-- The store after a call that ends without an exception. An arithmetic overflow is an exception, of the engine as of the
interface. -/
def outcome (E : Engine) (c : Call) (s : Store) : Option Store :=
  match (c.method.code E c.params c.msg).run { toStore := s, value := c.msg.value } with
  | .ok (_, h) => if h.overflow ∨ c.stopped then none else some h.toStore
  | .error _ => none

/-- What the calls of a run asked for: visits issued and bought, visits marked used, tokens withdrawn. -/
structure Totals where
  issued : Int := 0
  bought : Int := 0
  used : Int := 0
  withdrawn : Int := 0
  deriving DecidableEq

instance : Add Totals := ⟨fun a b =>
  { issued := a.issued + b.issued, bought := a.bought + b.bought, used := a.used + b.used,
    withdrawn := a.withdrawn + b.withdrawn }⟩

theorem Totals.add_def (a b : Totals) : a + b =
    { issued := a.issued + b.issued, bought := a.bought + b.bought, used := a.used + b.used,
      withdrawn := a.withdrawn + b.withdrawn } := rfl

/-- A value as a number. -/
def numberOf (E : Engine) (v : Jsi) : Int :=
  match E.number v with
  | .ok (some n) => n.toInt
  | _ => 0

/-- What a call that goes through adds to the totals. -/
def Call.totals (E : Engine) (c : Call) : Totals :=
  match c.method with
  | .issuePass => { issued := numberOf E (propOf c.params "visits") }
  | .buyVisits => { bought := numberOf E (propOf c.params "visits") }
  | .markUsed => { used := numberOf E (countOf c.params) }
  | .withdraw => { withdrawn := numberOf E (propOf c.params "amount") }
  | _ => {}

/-- One call of a run: an exception leaves everything as it was. -/
def step (E : Engine) (x : Store × Totals) (c : Call) : Store × Totals :=
  match outcome E c x.1 with
  | some s => (s, x.2 + c.totals E)
  | none => x

/-- A run from the contract's deploy. -/
def run (E : Engine) (cs : List Call) : Store × Totals := cs.foldl (step E) ({}, {})

/-! ## The ledger -/

/-- The visits a granule holds in balances. -/
def Granule.held : Granule → Int
  | .abonement visits => visits
  | _ => 0

/-- The visits that remain in the passes of an entry. -/
def Entry.left (e : Entry) : Int := (e.passes.map fun p => p.M - p.used).sum

/-- The visits that remain in the passes of a granule. -/
def Granule.remaining : Granule → Int
  | .entry e => e.left
  | _ => 0

/-- The visits held by all users. -/
def Store.held (s : Store) : Int := MapSum.total (fun _ g => g.held) s.granules

/-- The visits remaining in all stored passes. -/
def Store.remaining (s : Store) : Int := MapSum.total (fun _ g => g.remaining) s.granules

/-- A stored entry is sound: its passes are partly used, and their ids are unique and below the next. -/
structure Entry.Sound (e : Entry) : Prop where
  partly : ∀ p ∈ e.passes, 0 ≤ p.used ∧ p.used < p.M
  unique : (e.passes.map (·.id)).Nodup
  below : ∀ p ∈ e.passes, p.id < e.nextId

/-- The active passes of an entry. -/
def Entry.active (now : Int) (e : Entry) : List Pass := e.passes.filter (·.active now)

/-- A granule is under a key of its kind. -/
def Granule.Fits (key : String) : Granule → Prop
  | .admin _ => key = adminKey
  | .abonement _ => ∃ u, key = passKey u
  | .entry _ => ∃ u, key = entryKey u

/-- What the contract keeps for its users and its owner. -/
structure Ledger (now : Int) (s : Store) (t : Totals) : Prop where
  kinds : ∀ (key : String) (g : Granule), s.granules[key]? = some g → g.Fits key
  balances : ∀ u v, s.visits u = some v → 0 ≤ v
  entries : ∀ u e, s.entry u = some e → e.Sound
  active : ∀ u e, s.entry u = some e → (e.active now).length ≤ 1
  visits : t.issued + t.bought = s.held + s.remaining + t.used
  tokens : s.balance = 10 * t.bought - t.withdrawn

end Gym

end Grain
