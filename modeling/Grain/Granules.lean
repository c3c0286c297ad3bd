import Grain.Json
import Grain.Payload

/-!
# Granules of past blocks

A client that reads a leaf asks for its granule by address and hash. The block that follows may write another one in its place, so
`BlockDBStore` reads what it is about to overwrite and tells the reader service, which keeps it for a quarter of an hour
(`grainReaderService.cpp`). A string is a string of bytes. The events wait for the reader in a queue, and its clock is what the
steps say.
-/

namespace Grain

namespace Granules

/-- `_db_to_save` as it is written. -/
structure Batch where
  cells : StdMap String String := ∅
  deleted : StdSet String := ∅

/-- `_db_to_save::add`. -/
def Batch.add (d : Batch) (dbid body : String) : Batch := { d with cells := d.cells.insert dbid body }

/-- `write_granules_batch`. -/
def writeGranulesBatch (db : StdMap String String) (v : Batch) : StdMap String String :=
  v.cells.toList.foldl (fun m z => m.insert z.1 z.2) (v.deleted.toList.foldl (fun m k => m.erase k) db)

/-- What `BlockDBStore` finds that is about to be overwritten or deleted. -/
def staleGranules (blake2bHash : String → String) (db : StdMap String String) (d : Batch) : List (String × String) :=
  (d.cells.toList.filterMap fun z =>
    match db[z.1]? with
    | some oldBody => if oldBody ≠ "" ∧ oldBody ≠ z.2 then some (blake2bHash oldBody, oldBody) else none
    | none => none) ++
  d.deleted.toList.filterMap fun z =>
    match db[z]? with
    | some oldBody => if oldBody ≠ "" then some (blake2bHash oldBody, oldBody) else none
    | none => none

/-- `STALE_TTL_SEC`. -/
def staleTtlSec : Int := 15 * 60

/-- The database, the `StaleGranules` events that the reader service has not handled, and its `stale_cache` with the times. -/
structure Reader where
  db : StdMap String String := ∅
  queue : List (List (String × String)) := []
  staleCache : StdMap String (String × Int) := ∅

namespace Reader

variable (blake2bHash : String → String)

/-- The part of `BlockDBStore` that writes. -/
def blockDBStore (s : Reader) (dbToSave : Batch) (last : String) : Reader :=
  let d := dbToSave.add "...last_block..." last
  let stale := staleGranules blake2bHash s.db d
  { s with db := writeGranulesBatch s.db d, queue := if stale ≠ [] then s.queue ++ [stale] else s.queue }

/-- `on_StaleGranules` for the next event. -/
def onStaleGranules (s : Reader) (now : Int) : Reader :=
  match s.queue with
  | [] => s
  | v :: queue => { s with queue := queue, staleCache := v.foldl (fun m z => m.insert z.1 (z.2, now)) s.staleCache }

/-- `cleanup_stale`. -/
def cleanupStale (s : Reader) (now : Int) : Reader :=
  { s with staleCache := s.staleCache.filter fun _ e => !decide (e.2 + staleTtlSec < now) }

/-- `get_stale`. -/
def getStale (s : Reader) (hash : String) : Option String := s.staleCache[hash]?.map (·.1)

end Reader

/-- `GetGranuleRSP`. -/
structure GetGranuleRSP where
  found : Bool := false
  stale : Bool := false
  body : String := ""
  deriving DecidableEq

/-- The granule that is stored under the address, if it has the hash. -/
def Reader.current (blake2bHash : String → String) (s : Reader) (addr hash : String) : GetGranuleRSP :=
  match s.db[addr]? with
  | some body => if body ≠ "" ∧ (hash = "" ∨ blake2bHash body = hash) then { found := true, body := body } else {}
  | none => {}

/-- `ClientMsg` for a `GetGranuleREQ`. -/
def Reader.getGranuleREQ (blake2bHash : String → String) (full : Bool) (s : Reader) (addr hash : String) : GetGranuleRSP :=
  if addr.length ≠ 32 then {}
  else if hash ≠ "" ∧ hash.length ≠ 32 then {}
  else
    let rsp := s.current blake2bHash addr hash
    if rsp.found = false ∧ hash ≠ "" ∧ full then
      match s.getStale hash with
      | some body => { found := true, stale := true, body := body }
      | none => rsp
    else rsp

/-! ## Over HTTP -/

/-- What is written for a request. -/
structure Response where
  status : Nat := 200
  body : String
  deriving DecidableEq

/-- A string up to the first occurrence of a character, and what follows it. -/
def cutAt (c : Char) : List Char → List Char × Option (List Char)
  | [] => ([], none)
  | x :: xs => if x = c then ([], some xs) else (x :: (cutAt c xs).1, (cutAt c xs).2)

/-- The parameters of a query string; of two under one name the second counts. -/
def queryParams : Nat → List Char → StdMap String String → StdMap String String
  | 0, _, q => q
  | _, [], q => q
  | fuel + 1, qs, q =>
    let pair := cutAt '&' qs
    let q := match cutAt '=' pair.1 with
      | (key, some value) => q.insert (String.ofList key) (String.ofList value)
      | (_, none) => q
    match pair.2 with
    | none => q
    | some rest => queryParams fuel rest q

/-- The parameters of an address. -/
def paramsOf (uri : String) : StdMap String String :=
  match (cutAt '?' uri.toList).2 with
  | none => ∅
  | some qs => queryParams (qs.length + 1) qs ∅

/-- `RequestIncoming` of a full node; nothing is written to an address that is not for granules, and a parameter that is not
hexadecimal raises. -/
def Reader.requestIncoming (blake2bHash : String → String) (s : Reader) (uri : String) : Except Stop (Option Response) :=
  if !"/granule".toList.isPrefixOf uri.toList then .ok none
  else
    let q := paramsOf uri
    let addrHex := q["addr"]?.getD ""
    let hashHex := q["hash"]?.getD ""
    if addrHex = "" then .ok (some { status := 400, body := "\x7b\"error\":\"addr required\"\x7d" })
    else
      match base16Decode addrHex with
      | .error e => .error e
      | .ok addr =>
        if addr.length ≠ 32 then .ok (some { status := 400, body := "\x7b\"error\":\"addr must be 32 bytes hex\"\x7d" })
        else
          match if hashHex = "" then .ok "" else base16Decode hashHex with
          | .error e => .error e
          | .ok expected =>
            if expected ≠ "" ∧ expected.length ≠ 32 then
              .ok (some { status := 400, body := "\x7b\"error\":\"hash must be 32 bytes hex\"\x7d" })
            else
              let current := (s.db[addr]?.getD "")
              if current ≠ "" ∧ (expected = "" ∨ blake2bHash current = expected) then
                .ok (some { body := "\x7b\"body\":\"" ++ base16Encode current ++ "\",\"stale\":false\x7d" })
              else
                match if expected ≠ "" then s.getStale expected else none with
                | some body => .ok (some { body := "\x7b\"body\":\"" ++ base16Encode body ++ "\",\"stale\":true\x7d" })
                | none => .ok (some { status := 404, body := "\x7b\"error\":\"not found\"\x7d" })

/-! ## Runs -/

/-- What happens to the database and the reader service: a block is stored, granules of a synchronisation are written, the next
event is handled, the timer of the cache fires. -/
inductive Step
  | blockDBStore (dbToSave : Batch) (last : String)
  | getGranulesRSP (v : Batch)
  | onStaleGranules (now : Int)
  | onTimer (now : Int)

/-- One step. -/
def Step.run (blake2bHash : String → String) : Step → Reader → Reader
  | .blockDBStore d last, s => s.blockDBStore blake2bHash d last
  | .getGranulesRSP v, s => { s with db := writeGranulesBatch s.db v }
  | .onStaleGranules now, s => s.onStaleGranules now
  | .onTimer now, s => s.cleanupStale now

/-- The steps in the order in which they happen. -/
def run (blake2bHash : String → String) (steps : List Step) (s : Reader) : Reader :=
  steps.foldl (fun s st => st.run blake2bHash s) s

end Granules

end Grain
