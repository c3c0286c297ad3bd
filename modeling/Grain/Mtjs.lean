import Grain.Json
import Grain.Payload

/-!
# Promises and callbacks

What a program has asked its nodes for: the promises of requests, those of `tx_wait_block`, and the callbacks of `tx_submit`, in the
tables of `mtjs_opaque`, with the handlers that settle them (`mtjsService.cpp`) and the functions that a program calls
(`createInstance.cpp`). A callback runs inside a handler and may call any of these functions. A promise or a callback is a number,
in the order in which they were made.
-/

namespace Grain

namespace Mtjs

/-- The alarms that time a request out. -/
inductive Timers
  | clientMsgTimedout
  | txWaitBlock
  deriving DecidableEq

/-- An event that is sent to the timer service, with the data of the alarm. -/
inductive TimerEvent
  | setAlarm (tid : Timers) (data : String)
  | stopAlarm (tid : Timers) (data : String)
  deriving DecidableEq

/-- What a callback of `tx_submit` is called with. -/
inductive Status
  | submitted
  | err
  | finalized
  | timeout
  deriving DecidableEq

/-- The tables of `mtjs_opaque`, the events sent to the timer service, and the record of which promises were resolved (`true`) or
rejected and which callbacks were called, the last first. -/
structure MtjsOpaque where
  nodeReqPromises : StdMap String Nat := ∅
  txWaitPromises : StdMap String Nat := ∅
  nodeTxCb : StdMap String Nat := ∅
  txSubscriptionCb : Bool := false
  made : Nat := 0
  settled : List (Nat × Bool) := []
  called : List (Nat × Status) := []
  toTimer : List TimerEvent := []

/-- The functions that a program calls: `request` is `get_user_nonce`, `call_view`, `scan_expired` and the others that ask a node,
by the hash of what they ask; `get_block` is `txWaitBlock` with the key `next:`. -/
inductive Call
  | request (hash : String)
  | txSubmit (hash : String)
  | txWaitBlock (key : String)
  | txSubscribe
  | txUnsubscribe

namespace MtjsOpaque

/-- `sendEvent` to the timer service. -/
def sendTimer (s : MtjsOpaque) (e : TimerEvent) : MtjsOpaque := { s with toTimer := s.toTimer ++ [e] }

/-- Ask a node. -/
def request (s : MtjsOpaque) (hash : String) : MtjsOpaque :=
  { s.sendTimer (.setAlarm .clientMsgTimedout hash) with
    nodeReqPromises := s.nodeReqPromises.insert hash s.made, made := s.made + 1 }

/-- `js_tx_submit`. The callback of a transaction that has one already is dropped. -/
def txSubmit (s : MtjsOpaque) (hash : String) : MtjsOpaque :=
  ({ s.sendTimer (.setAlarm .txWaitBlock hash) with
      nodeTxCb := s.nodeTxCb.insertIfNew hash s.made, made := s.made + 1 } : MtjsOpaque).request hash

/-- `js_tx_wait_block`, and `js_get_block`; who waits already gets a `TypeError`. -/
def txWaitBlock (s : MtjsOpaque) (key : String) : MtjsOpaque :=
  if s.txWaitPromises.contains key then s
  else
    { s.sendTimer (.setAlarm .txWaitBlock key) with
      txWaitPromises := s.txWaitPromises.insert key s.made, made := s.made + 1 }

end MtjsOpaque

/-- One call. -/
def Call.run : Call → MtjsOpaque → MtjsOpaque
  | .request hash, s => s.request hash
  | .txSubmit hash, s => s.txSubmit hash
  | .txWaitBlock key, s => s.txWaitBlock key
  | .txSubscribe, s => { s with txSubscriptionCb := true }
  | .txUnsubscribe, s => { s with txSubscriptionCb := false }

namespace MtjsOpaque

/-- What the program's code calls, one after the other. -/
def code (s : MtjsOpaque) (calls : List Call) : MtjsOpaque := calls.foldl (fun s c => c.run s) s

/-- A promise is resolved or rejected. -/
def settle (s : MtjsOpaque) (p : Nat) (resolved : Bool) : MtjsOpaque := { s with settled := (p, resolved) :: s.settled }

/-- A callback is called; `calls` is what its code calls. -/
def callback (s : MtjsOpaque) (c : Nat) (status : Status) (calls : List Call) : MtjsOpaque :=
  ({ s with called := (c, status) :: s.called } : MtjsOpaque).code calls

/-- `node_tx_cb.erase`. -/
def eraseTxCb (s : MtjsOpaque) (hash : String) : MtjsOpaque := { s with nodeTxCb := s.nodeTxCb.erase hash }

/-- The promise of a request is settled and erased. -/
def settleReq (s : MtjsOpaque) (hash : String) (p : Nat) (resolved : Bool) : MtjsOpaque :=
  { s.settle p resolved with nodeReqPromises := s.nodeReqPromises.erase hash }

/-- The promise of a block is settled and erased. -/
def settleWait (s : MtjsOpaque) (key : String) (p : Nat) (resolved : Bool) : MtjsOpaque :=
  { s.settle p resolved with txWaitPromises := s.txWaitPromises.erase key }

/-- `AddTxRSP`: the callback is told after the promise, and forgotten on an error. -/
def addTxRSP (s : MtjsOpaque) (hash : String) (errcode : Bool) (calls : Nat → List Call) : MtjsOpaque :=
  match s.nodeReqPromises[hash]? with
  | none => s
  | some p =>
    let s := s.settleReq hash p true
    let s := match s.nodeTxCb[hash]? with
      | none => s
      | some c =>
        if errcode then
          ((s.callback c .err (calls c)).eraseTxCb hash).sendTimer (.stopAlarm .txWaitBlock hash)
        else s.callback c .submitted (calls c)
    s.sendTimer (.stopAlarm .clientMsgTimedout hash)

/-- `ClientMsgReply`. A reply that cannot be unpacked, or is of no known type, raises. -/
def clientMsgReply (s : MtjsOpaque) (hash : String) (reply : Option Bool) : MtjsOpaque :=
  match s.nodeReqPromises[hash]? with
  | none => s
  | some p =>
    match reply with
    | none => s
    | some resolved => (s.settleReq hash p resolved).sendTimer (.stopAlarm .clientMsgTimedout hash)

/-- `TickAlarm` of the two alarms. -/
def tickAlarm (s : MtjsOpaque) (tid : Timers) (data : String) (calls : Nat → List Call) : MtjsOpaque :=
  match tid with
  | .clientMsgTimedout =>
    match s.nodeReqPromises[data]? with
    | none => s
    | some p => s.settleReq data p false
  | .txWaitBlock =>
    let s := match s.txWaitPromises[data]? with
      | none => s
      | some p => s.settleWait data p false
    match s.nodeTxCb[data]? with
    | none => s
    | some c => (s.callback c .timeout (calls c)).eraseTxCb data

/-- The promise of a block, if there is one under the key, is resolved. -/
def resolveWait (s : MtjsOpaque) (key : String) : MtjsOpaque :=
  match s.txWaitPromises[key]? with
  | none => s
  | some p => (s.settleWait key p true).sendTimer (.stopAlarm .txWaitBlock key)

/-- `ClientTxSubscribeRSP` for one transaction of the block. -/
def finalize (calls : Nat → List Call) (s : MtjsOpaque) (txHash : String) : MtjsOpaque :=
  let s := s.resolveWait (base16Encode txHash)
  match s.nodeTxCb[txHash]? with
  | none => s
  | some c => ((s.callback c .finalized (calls c)).eraseTxCb txHash).sendTimer (.stopAlarm .txWaitBlock txHash)

/-- `ClientTxSubscribeRSP`; `onBlock` is what the callback of `tx_subscribe` calls. -/
def clientTxSubscribeRSP (s : MtjsOpaque) (txHashes : List String) (calls : Nat → List Call) (onBlock : List Call) : MtjsOpaque :=
  let s := (txHashes.foldl (finalize calls) s).resolveWait "next:"
  if s.txSubscriptionCb then s.code onBlock else s

end MtjsOpaque

/-! ## Runs -/

/-- The service with the alarms that are set in the timer service and the ticks of those that went off. -/
structure Client where
  state : MtjsOpaque := {}
  alarms : List (Timers × String) := []
  ticks : List (Timers × String) := []

/-- What happens: the program's code runs, an event is handled, the timer service handles its next event, an alarm goes off, or its
tick is handled. -/
inductive Step
  | code (calls : List Call)
  | addTxRSP (hash : String) (errcode : Bool) (calls : Nat → List Call)
  | clientMsgReply (hash : String) (reply : Option Bool)
  | clientTxSubscribeRSP (txHashes : List String) (calls : Nat → List Call) (onBlock : List Call)
  | timer
  | goesOff (i : Nat)
  | tickAlarm (i : Nat) (calls : Nat → List Call)

/-- The alarms after an event: a stop takes all of them that have the data. -/
def handleTimer (alarms : List (Timers × String)) : TimerEvent → List (Timers × String)
  | .setAlarm tid data => alarms ++ [(tid, data)]
  | .stopAlarm tid data => alarms.filter fun a => a ≠ (tid, data)

/-- One step. -/
def Step.run : Step → Client → Client
  | .code calls, s => { s with state := s.state.code calls }
  | .addTxRSP hash errcode calls, s => { s with state := s.state.addTxRSP hash errcode calls }
  | .clientMsgReply hash reply, s => { s with state := s.state.clientMsgReply hash reply }
  | .clientTxSubscribeRSP txHashes calls onBlock, s =>
    { s with state := s.state.clientTxSubscribeRSP txHashes calls onBlock }
  | .timer, s =>
    match s.state.toTimer with
    | [] => s
    | e :: rest => { s with state := { s.state with toTimer := rest }, alarms := handleTimer s.alarms e }
  | .goesOff i, s =>
    match s.alarms[i]? with
    | none => s
    | some a => { s with alarms := s.alarms.eraseIdx i, ticks := s.ticks ++ [a] }
  | .tickAlarm i calls, s =>
    match s.ticks[i]? with
    | none => s
    | some a => { s with state := s.state.tickAlarm a.1 a.2 calls, ticks := s.ticks.eraseIdx i }

/-- The steps in the order in which they happen. -/
def run (steps : List Step) : Client := steps.foldl (fun s st => st.run s) {}

end Mtjs

end Grain
