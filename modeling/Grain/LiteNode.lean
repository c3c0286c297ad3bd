import Grain.Convert
import Grain.Granules

/-!
# The database of a lite node

A lite node asks a full node over HTTP for what its own database does not have, and keeps what it gets (`CDatabaseLiteNode.h`). The
answer is believed as it comes; there is no hash in the request.
-/

namespace Grain

namespace Granules

/-- `CDatabaseLiteNode`, with what is in its own database. -/
structure LiteNode where
  db : StdMap String String := ∅

/-- `j["body"]`, if it is there and is a string. -/
def bodyOf : Convert.Lit → Option String
  | .obj members =>
    match (Convert.mapOf members).lookup ['b', 'o', 'd', 'y'] with
    | some (.str s) => some (String.ofList s)
    | _ => none
  | _ => none

/-- `getGranule`. What comes back for an address is a parameter, nothing where no answer comes in time. -/
def LiteNode.getGranule (get : String → Option Response) (n : LiteNode) (k : String) : LiteNode × Option String :=
  match n.db[k]? with
  | some v => (n, some v)
  | none =>
    match get ("/granule?addr=" ++ base16Encode k) with
    | none => (n, none)
    | some res =>
      if res.status ≠ 200 then (n, none)
      else
        match (Convert.jsonParse res.body.toList).bind bodyOf with
        | none => (n, none)
        | some hex =>
          match base16Decode hex with
          | .error _ => (n, none)
          | .ok v => ({ n with db := n.db.insert k v }, some v)

/-! ## A full node and a lite node -/

/-- The two nodes, and what the lite node's reads gave, the last first. -/
structure Uplink where
  full : Reader
  lite : LiteNode := {}
  answers : List (String × String) := []

/-- The full node takes a step, or the lite node reads a granule; the full node may be out of reach. -/
inductive UplinkStep
  | full (st : Step)
  | getGranule (k : String) (reached : Bool)

/-- What the full node writes to a request that reaches it. An exception in its handler is logged, and nothing is written. -/
def Uplink.get (blake2bHash : String → String) (s : Uplink) (reached : Bool) (uri : String) : Option Response :=
  if reached then
    match s.full.requestIncoming blake2bHash uri with
    | .ok rsp => rsp
    | .error _ => none
  else none

/-- One step. -/
def UplinkStep.run (blake2bHash : String → String) : UplinkStep → Uplink → Uplink
  | .full st, s => { s with full := st.run blake2bHash s.full }
  | .getGranule k reached, s =>
    let r := s.lite.getGranule (s.get blake2bHash reached) k
    { s with lite := r.1, answers := (r.2.map fun v => (k, v)).toList ++ s.answers }

/-- The steps in the order in which they happen. -/
def Uplink.run (blake2bHash : String → String) (steps : List UplinkStep) (s : Uplink) : Uplink :=
  steps.foldl (fun s st => st.run blake2bHash s) s

end Granules

end Grain
