import Grain.Payload
import Grain.Route

/-!
# Block streams

`BlockStreamer::Service` of `blockStreamerService.cpp`: who wants every block, who waits for a transaction, and what is passed back
when a block is accepted.
-/

namespace Grain

/-- `CInstance::passEvent` knows a way for an event with this route; it raises at the other kinds of elements and at an empty route.
-/
def RouteT.passes (r : RouteT) : Bool :=
  match r.getLast? with
  | some (.localService _) | some (.listener _) | some (.objectHandlerPolled _) | some (.objectHandlerThreaded _)
  | some (.remoteAddr _) => true
  | _ => false

namespace BlockStreamer

variable {β : Type}

/-- `clientTxSubscription` and `txWaitSubscription`. -/
structure Subscription where
  createdAt : Int
  ttl : Int
  backRoute : RouteT

/-- `StreamBlock`: the block, its diffs and its attachment are passed on as they are. -/
structure StreamBlock (β : Type) where
  content : β
  txHashes : List String

/-- `ClientTxSubscribeRSP`. -/
structure Rsp (β : Type) where
  block : StreamBlock β
  route : RouteT

/-- The fields of the service. -/
structure Service where
  allBlocksSubscriptions : List Subscription := []
  txWaitSubscriptions : StdMap String (List Subscription) := ∅

/-- The test of `on_timer`. -/
def Subscription.expired (now : Int) (s : Subscription) : Bool := decide (now - s.createdAt > s.ttl)

/-- The calls of `passEvent` for some subscriptions, up to the first that raises; whether there is none. -/
def passAll (b : StreamBlock β) : List Subscription → List (Rsp β) × Bool
  | [] => ([], true)
  | s :: l =>
    if RouteT.passes s.backRoute.dropLast then
      let r := passAll b l
      (⟨b, s.backRoute.dropLast⟩ :: r.1, r.2)
    else ([], false)

/-- The second loop of `StreamBlock`. -/
def streamWaits (b : StreamBlock β) :
    List String → StdMap String (List Subscription) → List (Rsp β) × StdMap String (List Subscription)
  | [], m => ([], m)
  | h :: hs, m =>
    match m[h]? with
    | none => streamWaits b hs m
    | some v =>
      let r := passAll b v
      if r.2 then
        let q := streamWaits b hs (m.erase h)
        (r.1 ++ q.1, q.2)
      else (r.1, m)

/-- What the service is sent; the times are those of its clock. -/
inductive Ev (β : Type)
  | clientTxSubscribeREQ (now : Int) (route : RouteT)
  | clientTxWaitREQ (now : Int) (txHash : String) (ttl : Int) (route : RouteT)
  | clientTxUnsubscribeREQ (txHash : String) (route : RouteT)
  | tickTimer (now : Int)
  | streamBlock (b : StreamBlock β)

namespace Service

variable (s : Service)

/-- `ClientTxSubscribeREQ`. -/
def clientTxSubscribeREQ (now : Int) (route : RouteT) : Service :=
  { s with allBlocksSubscriptions := s.allBlocksSubscriptions ++ [⟨now, 1800, route⟩] }

/-- `ClientTxWaitREQ`. -/
def clientTxWaitREQ (now : Int) (txHash : String) (ttl : Int) (route : RouteT) : Service :=
  let ttl := if ttl > 0 then ttl else 60
  { s with
    txWaitSubscriptions := s.txWaitSubscriptions.insert txHash (s.txWaitSubscriptions[txHash]?.getD [] ++ [⟨now, ttl, route⟩]) }

/-- `ClientTxUnsubscribeREQ`: without a hash it is about all blocks. -/
def clientTxUnsubscribeREQ (txHash : String) (route : RouteT) : Service :=
  if txHash = "" then
    { s with allBlocksSubscriptions := s.allBlocksSubscriptions.filter fun z => !RouteT.same z.backRoute route }
  else
    match s.txWaitSubscriptions[txHash]? with
    | none => s
    | some v =>
      let v := v.filter fun z => !RouteT.same z.backRoute route
      { s with
        txWaitSubscriptions :=
          if v.isEmpty then s.txWaitSubscriptions.erase txHash else s.txWaitSubscriptions.insert txHash v }

/-- `on_timer` at `TIMER_CLEAN_SUBSCRIPTIONS`. -/
def onTimer (now : Int) : Service where
  allBlocksSubscriptions := s.allBlocksSubscriptions.filter fun z => !z.expired now
  txWaitSubscriptions := s.txWaitSubscriptions.filterMap fun _ v =>
    let v := v.filter fun z => !z.expired now
    if v.isEmpty then none else some v

/-- `StreamBlock`: what is passed back, and the fields after it. -/
def streamBlock (b : StreamBlock β) : List (Rsp β) × Service :=
  let r := passAll b s.allBlocksSubscriptions
  if r.2 then
    let q := streamWaits b b.txHashes s.txWaitSubscriptions
    (r.1 ++ q.1, { s with txWaitSubscriptions := q.2 })
  else (r.1, s)

/-- `handleEvent`. -/
def handleEvent : Ev β → List (Rsp β) × Service
  | .clientTxSubscribeREQ now route => ([], s.clientTxSubscribeREQ now route)
  | .clientTxWaitREQ now txHash ttl route => ([], s.clientTxWaitREQ now txHash ttl route)
  | .clientTxUnsubscribeREQ txHash route => ([], s.clientTxUnsubscribeREQ txHash route)
  | .tickTimer now => ([], s.onTimer now)
  | .streamBlock b => s.streamBlock b

end Service

/-- Some events, one after the other: all that is passed back, and the fields at the end. -/
def run (evs : List (Ev β)) : List (Rsp β) × Service :=
  evs.foldl (fun r e => (r.1 ++ (r.2.handleEvent e).1, (r.2.handleEvent e).2)) ([], {})

end BlockStreamer

end Grain
