import Grain.Pack

/-!
# Scanning for expired leaves

`Scan::Service::ClientMsg` of `scanService.cpp`. A request looks at the granules of the database in the order of their keys, from a
given key on, until the time for it is over; the answer has the keys of the expired leaves and the key to go on from.
-/

namespace Grain

/-- The switch of `ClientMsg` on the index of a cell: the times by which its leaf has expired. -/
def Hsh.expired (idx : Hsh) (ttl updateTime now : Int) : Bool :=
  match idx with
  | .bcContractData | .bcNode | .bcAddressState => decide (0 < ttl ∧ wrap64 (updateTime + ttl) < now)
  | .bcContractActivity => decide (updateTime < now)
  | _ => false

namespace Scan

/-- `ScanREQ`. -/
structure ScanREQ where
  start : String := ""
  maxSec : Int := 5
  now : Int := 0

/-- `ScanRSP`. -/
structure ScanRSP where
  dbids : List String := []
  nextFrom : String := ""
  done : Bool := false
  scanned : Nat := 0

/-- A granule that cannot be unpacked, or has no data, is passed over. -/
def expiredGranule (blsPkOk : String → Bool) (now : Int) (val : Buffer) : Bool :=
  match CellImage.unpack blsPkOk val with
  | some (c, _) =>
    match c.data with
    | some d => (Hsh.ofIndex c.payloadCtorIdx).expired d.ttl d.updateTime now
    | none => false
  | none => false

/-- The body of the loop. -/
def look (blsPkOk : String → Bool) (now : Int) (e : String × Buffer) (rsp : ScanRSP) : ScanRSP :=
  if e.1.length = 32 then
    { rsp with
      scanned := rsp.scanned + 1
      dbids := if expiredGranule blsPkOk now e.2 then rsp.dbids ++ [e.1] else rsp.dbids }
  else rsp

/-- The loop and what follows it; `elapsed` is what the clock shows at the test of each round, in microseconds from the start. -/
def scanLoop (blsPkOk : String → Bool) (now limit : Int) (elapsed : Nat → Int) : Nat → List (String × Buffer) → ScanRSP → ScanRSP
  | _, [], rsp => { rsp with done := true }
  | i, e :: es, rsp =>
    if elapsed i > limit then { rsp with nextFrom := e.1 }
    else scanLoop blsPkOk now limit elapsed (i + 1) es (look blsPkOk now e rsp)

/-- The iterator after `Seek`. -/
def seek (db : StdMap String Buffer) (start : String) : List (String × Buffer) :=
  if start = "" then db.toList else db.toList.filter fun e => compare e.1 start != .lt

/-- `ClientMsg` for a `ScanREQ`; a database that is not of RocksDB is not looked at. -/
def clientMsg (blsPkOk : String → Bool) (dbState : Option (StdMap String Buffer)) (time : Int) (elapsed : Nat → Int)
    (pp : ScanREQ) : ScanRSP :=
  let now := if pp.now > 0 then pp.now else time - 10
  let maxSec := if pp.maxSec > 0 then pp.maxSec else 5
  match dbState with
  | none => { done := true }
  | some db => scanLoop blsPkOk now (maxSec * 1000000) elapsed 0 (seek db pp.start) {}

/-- A page of a scan: what is asked, what the database holds then, and the clock. -/
structure Page where
  req : ScanREQ
  db : StdMap String Buffer
  time : Int
  elapsed : Nat → Int

/-- The answer to a page from a key on. -/
def Page.rsp (blsPkOk : String → Bool) (p : Page) (start : String) : ScanRSP :=
  clientMsg blsPkOk (some p.db) p.time p.elapsed { p.req with start := start }

/-- The answers to a client that goes on from `nextFrom` until it is told that the scan is done. -/
def pages (blsPkOk : String → Bool) : String → List Page → List ScanRSP
  | _, [] => []
  | start, p :: ps =>
    p.rsp blsPkOk start :: if (p.rsp blsPkOk start).done then [] else pages blsPkOk (p.rsp blsPkOk start).nextFrom ps

end Scan

end Grain
