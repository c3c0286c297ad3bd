import Grain.Client

/-!
# The events of a node

`handleEvent`, from the point where a message has passed the entry points: a request with the sender that signed it, a response
with its signature, a transaction, an alarm, or granules of other nodes. An exception of a handler is logged and nothing else.
-/

namespace Grain

/-- The requests of other nodes; a heartbeat comes in an envelope with the sender's previous block. -/
inductive Request
  | heartBeatREQ (h : HeartBeatREQ) (remote : Option BlockAccepted2REQ)
  | confirmLeaderREQ (hb : HeartBeatREQ)
  | getTransactionREQ (hb : HeartBeatREQ)
  | validateBlockREQ (r : ValidateBlockREQ)
  | blockDiffValidateREQ (r : BlockDiffValidateREQ)
  | blockDBStore (r : BlockDBStore)
  | delayNotificationREQ (lc : BlockAccepted2REQ)

/-- The handler of a request. -/
def Request.handler (Γ : NodeCtx) (t : Clock) (src : String) : Request → Node Unit
  | .heartBeatREQ h remote => do
    let _ ← Grain.heartBeatREQ Γ t h remote src
    pure ()
  | .confirmLeaderREQ hb => Grain.confirmLeaderREQ Γ t hb
  | .getTransactionREQ hb => Grain.getTransactionREQ t hb src
  | .validateBlockREQ r => Grain.validateBlockREQ Γ t r src
  | .blockDiffValidateREQ r => Grain.blockDiffValidateREQ Γ t r src
  | .blockDBStore r => Grain.blockDBStore Γ t r src
  | .delayNotificationREQ lc => Grain.delayNotificationREQ Γ lc src

/-- What `GetGranulesRSP` leaves behind: any granules and outstanding keys, and, if there are none, the tree opened by
`on_sync_finished`. -/
def granulesArrived (Γ : NodeCtx) (db : StdMap Path Packed) (y : Sync) : Node Unit := do
  Node.modify fun s => { s with st := { s.st with store := { s.st.store with db := db }, sync := y } }
  if y.empty then
    Node.modify fun s => { s with st := { s.st with store := s.getRoot Γ }, blockMetaFull := ∅ }
  else pure ()

/-- The events of a node. -/
inductive NodeEvent
  | request (src : String) (r : Request)
  | response (m : NodeMsgRSP)
  | putTransactionREQ (tx : TX)
  | alarm (a : Alarm)
  | granules (db : StdMap Path Packed) (y : Sync)

/-- The handler of an event. -/
def NodeEvent.handler (Γ : NodeCtx) (parse : String → Option Response) (t : Clock) : NodeEvent → Node Unit
  | .request src r => r.handler Γ t src
  | .response m => nodeMsgRSP Γ parse t m
  | .putTransactionREQ tx => Grain.putTransactionREQ Γ t tx
  | .alarm a => onAlarm Γ a
  | .granules db y => granulesArrived Γ db y

/-- An event of a node. -/
def nodeStep (Γ : NodeCtx) (parse : String → Option Response) (e : Clock × NodeEvent) (s : NodeSt) : NodeSt :=
  (runNode (e.2.handler Γ parse e.1) s).2

/-- The state after a sequence of events. -/
def nodeRun (Γ : NodeCtx) (parse : String → Option Response) (es : List (Clock × NodeEvent)) (s : NodeSt) : NodeSt :=
  es.foldl (fun s e => nodeStep Γ parse e s) s

end Grain
