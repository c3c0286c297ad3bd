import Grain.Lib.Rose
import Grain.Payload

/-!
# The broadcaster tree

`buildTree` and the service that passes a message down the tree. The network is modelled as what is in it: the `SendToChild`
and `SendToChildAck` messages in flight, the alarms that the processes have set and the ticks of those that went off. A process
is known by its address; `live` says which of them handle what reaches them.
-/

namespace Grain

/-- `NodeElement`. -/
structure NodeElement where
  name : String
  stakeA : Int := 0
  ip : String := ""
  deriving DecidableEq

/-- `TreeNode`. -/
abbrev TreeNode := Rose NodeElement

/-! ## buildTree -/

/-- `cur->children.emplace_back(r)`; the pointer to the new child goes into the queue. A pointer is the path from the root. -/
def emplaceBack (cur : List Nat) (r : NodeElement) (q : List (List Nat)) (root : TreeNode) : List (List Nat) × TreeNode :=
  (q ++ [cur ++ [root.degree cur]], root.addChild r cur)

/-- The loop of `buildTree`: the node at the head of the queue gets the next two. -/
def buildLoop : List NodeElement → List (List Nat) → TreeNode → TreeNode
  | r₁ :: r₂ :: rest, cur :: q, root =>
    let x := emplaceBack cur r₁ q root
    let y := emplaceBack cur r₂ x.1 x.2
    buildLoop rest y.1 y.2
  | [r], cur :: q, root => (emplaceBack cur r q root).2
  | _, _, root => root

/-- `buildTree`: the nodes in order, under a root that is none of them. -/
def buildTree (nodes : List NodeElement) : Except Stop TreeNode :=
  if nodes = [] then .error (.exn (.commonError "if(nodes.empty())"))
  else .ok (buildLoop nodes [[]] (.mk { name := "fake" } []))

/-! ## Messages -/

/-- The services a message can be for. -/
inductive ServiceId
  | node
  | broadcasterTree
  | other (id : Nat)
  deriving DecidableEq

/-- One step of a route: the last one is taken first. -/
inductive Route
  | localService (id : ServiceId)
  | remoteAddr (addr : String)
  deriving DecidableEq

/-- `BroadcastMessage`. -/
structure BroadcastMessage where
  dstService : ServiceId
  nodeSigner : String
  nodeStartTimestamp : Int
  nodes : TreeNode
  seqId : Int
  signaturePl : String
  msg : String
  route : List Route

/-- `SendToChild`. -/
structure SendToChild where
  nodeSigner : String
  nodeStartTimestamp : Int
  seqId2 : Int
  payloadSignature : String
  payload : String
  bt : TreeNode
  dstService : ServiceId
  dstNodeName : String
  route : List Route

/-- `SendToChild::hash`; the digest is collision-free, and the text that is hashed stands for it. -/
def SendToChild.hash (e : SendToChild) : String :=
  e.nodeSigner ++ toString e.nodeStartTimestamp ++ toString e.seqId2 ++ e.payloadSignature ++ e.payload ++ e.bt.node.name

/-- `NodeMsgREQ`, as it is handed to the destination service. -/
structure NodeMsgREQ where
  nodeSigner : String
  nodeStartTimestamp : Int
  seqId2 : Int
  signature : String
  msgPayload : String
  route : List Route

/-- A `SendToChild` in flight from one process to another. -/
structure Packet where
  src : String
  dst : String
  ev : SendToChild

/-- A message as it comes out of the network: the way back is put on its route. -/
def Packet.arrived (p : Packet) : SendToChild :=
  { p.ev with route := p.ev.route ++ [.remoteAddr p.src, .localService .broadcasterTree] }

/-- A `SendToChildAck` in flight, with what is left of its route. -/
structure Ack where
  dst : String
  hash : String
  route : List Route

/-- An alarm `TIMER_BROADCAST_ACK_TIMEDOUT` of the broadcaster of a process; its data is the hash of the cookie. -/
structure Timer where
  owner : String
  cookie : SendToChild

/-- A message that a process has handed to a service. -/
structure Delivery where
  ip : String
  service : ServiceId
  req : NodeMsgREQ

/-- What is going on between the processes. -/
structure Net where
  packets : List Packet := []
  acks : List Ack := []
  alarms : List Timer := []
  ticks : List Timer := []
  delivered : List Delivery := []

namespace Net

/-! ## Handlers -/

/-- `make_broadcast_message_to_tree` at the process `me`: a message to every child of the root, and an alarm for it. -/
def makeBroadcastMessageToTree (me : String) (dstService : ServiceId) (nodeSigner : String) (nodeStartTimestamp seqId : Int)
    (signature msg : String) (root : TreeNode) (route : List Route) (n : Net) : Net :=
  let e (it : TreeNode) : SendToChild :=
    { nodeSigner := nodeSigner, nodeStartTimestamp := nodeStartTimestamp, seqId2 := seqId, payloadSignature := signature,
      payload := msg, bt := it, dstService := dstService, dstNodeName := it.node.name, route := route }
  { n with
    packets := n.packets ++ root.children.map fun it => ⟨me, it.node.ip, e it⟩
    alarms := n.alarms ++ root.children.map fun it => ⟨me, e it⟩ }

/-- `BroadcastMessage`. -/
def broadcastMessage (me : String) (e : BroadcastMessage) (n : Net) : Net :=
  n.makeBroadcastMessageToTree me e.dstService e.nodeSigner e.nodeStartTimestamp e.seqId e.signaturePl e.msg e.nodes e.route

/-- `passEvent` of an acknowledgement: it goes where the end of its route says. -/
def passAck (hash : String) (route : List Route) (n : Net) : Net :=
  match route.getLast? with
  | some (.remoteAddr addr) => { n with acks := n.acks ++ [⟨addr, hash, route.dropLast⟩] }
  | _ => n

/-- `SendToChild` at the process `me`: the message is handed over, acknowledged and passed on. -/
def sendToChild (me : String) (e : SendToChild) (n : Net) : Net :=
  let req : NodeMsgREQ :=
    { nodeSigner := e.nodeSigner, nodeStartTimestamp := e.nodeStartTimestamp, seqId2 := e.seqId2,
      signature := e.payloadSignature, msgPayload := e.payload, route := e.route }
  let n : Net := { n with delivered := n.delivered ++ [⟨me, e.dstService, req⟩] }
  let n := n.passAck e.hash e.route.dropLast
  n.makeBroadcastMessageToTree me e.dstService e.nodeSigner e.nodeStartTimestamp e.seqId2 e.payloadSignature e.payload e.bt
    e.route

/-- `SendToChildAck`, if the route ends at the broadcaster: every alarm of the process with this hash is stopped. Another
service stops its own alarms. -/
def sendToChildAck (a : Ack) (n : Net) : Net :=
  match a.route.getLast? with
  | some (.localService .broadcasterTree) =>
    { n with alarms := n.alarms.filter fun x => ¬ (x.owner = a.dst ∧ x.cookie.hash = a.hash) }
  | _ => n

/-- `on_alarm`: the children of the child that did not answer are sent to instead. -/
def onAlarm (me : String) (c : SendToChild) (n : Net) : Net :=
  n.makeBroadcastMessageToTree me c.dstService c.nodeSigner c.nodeStartTimestamp c.seqId2 c.payloadSignature c.payload c.bt
    c.route

/-- The steps: a message reaches a live process or is lost with a crashed one, an alarm goes off, a tick is handled. -/
inductive Step (live : String → Prop) : Net → Net → Prop
  | sendToChild {n : Net} {l r : List Packet} {p : Packet} (h : n.packets = l ++ p :: r) (hl : live p.dst) :
      Step live n (({ n with packets := l ++ r } : Net).sendToChild p.dst p.arrived)
  | packetLost {n : Net} {l r : List Packet} {p : Packet} (h : n.packets = l ++ p :: r) (hl : ¬ live p.dst) :
      Step live n { n with packets := l ++ r }
  | sendToChildAck {n : Net} {l r : List Ack} {a : Ack} (h : n.acks = l ++ a :: r) (hl : live a.dst) :
      Step live n (({ n with acks := l ++ r } : Net).sendToChildAck a)
  | ackLost {n : Net} {l r : List Ack} {a : Ack} (h : n.acks = l ++ a :: r) (hl : ¬ live a.dst) :
      Step live n { n with acks := l ++ r }
  | expired {n : Net} {l r : List Timer} {a : Timer} (h : n.alarms = l ++ a :: r) (hl : live a.owner) :
      Step live n { n with alarms := l ++ r, ticks := n.ticks ++ [a] }
  | tickAlarm {n : Net} {l r : List Timer} {a : Timer} (h : n.ticks = l ++ a :: r) (hl : live a.owner) :
      Step live n (({ n with ticks := l ++ r } : Net).onAlarm a.owner a.cookie)

/-- A run: any number of steps. -/
def Run (live : String → Prop) : Net → Net → Prop := Relation.ReflTransGen (Step live)

/-- Nothing is in flight and no alarm is pending. -/
structure Quiet (n : Net) : Prop where
  packets : n.packets = []
  acks : n.acks = []
  alarms : n.alarms = []
  ticks : n.ticks = []

end Net

end Grain
