import Grain.Payload
import Grain.Route

/-!
# Events between instances

`RPC::Service` of `rpcService.cpp`, one handler at a time, and instances that send events to each other over connections. A packet
that is sent before its connection is there waits in the session; one that is passed to a socket that is not accepted waits under
the socket. An event carries its way back: the receiver puts the socket and the service on its route, and an answer takes them off.
-/

namespace Grain

namespace Rpc

open RouteT (CInt SocketId Route)

/-- `msockaddr_in`. -/
abbrev Addr := Nat

/-- `Event::Base`, with the route on it. -/
structure Event where
  body : String
  route : RouteT

/-- What is packed for the other side: an event that is passed back, or one for a service. -/
inductive Packet
  | pass (e : Event)
  | send (dst : CInt) (e : Event)

/-- `Session`: `esi` is the socket, once it is there. -/
structure Session where
  socketId : SocketId
  esi : Option SocketId := none
  outCache : List Packet := []

/-- The notices to subscribers. -/
inductive Notice
  | connected (addr : Addr)
  | accepted (sock : SocketId)
  | connectFailed (addr : Addr)
  | disconnected (addr : Addr)
  | disaccepted (sock : SocketId)

/-- `IncomingOnAcceptor`, and with an address `IncomingOnConnector`: the event for a service. -/
structure Incoming where
  dst : CInt
  sock : SocketId
  addr : Option Addr
  e : Event

/-- What a handler sends. -/
inductive Out
  | connect (sock : SocketId) (addr : Addr)
  | sendPacket (sock : SocketId) (p : Packet)
  | incoming (i : Incoming)
  | notice (n : Notice) (route : RouteT)
  | close (sock : SocketId)

/-- `__sessions`. -/
structure Sessions where
  subscribers : List RouteT := []
  sock2sess : StdMap Int Session := ∅
  sa2sess : StdMap Nat Session := ∅
  passCache : StdMap Int (List Packet) := ∅

/-- The notices, one for each subscriber. -/
def Sessions.notices (s : Sessions) (n : Notice) : List Out := s.subscribers.map (.notice n)

/-- `flushOutCache`: what is sent, and the session after it; one without a socket raises if there is something to send. -/
def Session.flushOutCache (S : Session) : List Out × Session :=
  match S.esi with
  | some sock => (S.outCache.map (.sendPacket sock), { S with outCache := [] })
  | none => ([], { S with outCache := [] })

/-- `addSendPacket`. -/
def Session.addSendPacket (S : Session) (p : Packet) : List Out × Session :=
  match S.esi with
  | none => ([], { S with outCache := S.outCache ++ [p] })
  | some sock => (S.flushOutCache.1 ++ [.sendPacket sock p], S.flushOutCache.2)

/-- The packets of a list, one `addSendPacket` after the other. -/
def Session.addAll : List Packet → Session → List Out × Session
  | [], S => ([], S)
  | p :: ps, S =>
    let r := S.addSendPacket p
    let q := addAll ps r.2
    (r.1 ++ q.1, q.2)

/-- `insert` of a `std::set<route_t>`, in the order of `operator<`. -/
def insertRoute (r : RouteT) : List RouteT → List RouteT
  | [] => [r]
  | x :: l => if RouteT.less x r then x :: insertRoute r l else if RouteT.less r x then r :: x :: l else x :: l

namespace Sessions

variable (s : Sessions)

/-- `on_SendPacket`; `newId` is what `getNewSocketId` gives if there is no session for the address. -/
def onSendPacket (addressTo : Addr) (destination : CInt) (e : Event) (newId : SocketId) : List Out × Sessions :=
  match s.sa2sess[addressTo]? with
  | some S =>
    let r := S.addSendPacket (.send destination e)
    (r.1, { s with sa2sess := s.sa2sess.insert addressTo r.2 })
  | none =>
    let r := Session.addSendPacket { socketId := newId } (.send destination e)
    (.connect newId addressTo :: r.1, { s with sa2sess := s.sa2sess.insert addressTo r.2 })

/-- `on_PassPacket`. -/
def onPassPacket (socketIdTo : SocketId) (e : Event) : List Out × Sessions :=
  match s.sock2sess[socketIdTo.1]? with
  | some S =>
    let r := S.addSendPacket (.pass e)
    (r.1, { s with sock2sess := s.sock2sess.insert socketIdTo.1 r.2 })
  | none => ([], { s with passCache := s.passCache.insert socketIdTo.1 (s.passCache[socketIdTo.1]?.getD [] ++ [.pass e]) })

/-- `on_Connected`; without a session for the address it raises. -/
def onConnected (esi : SocketId) (requestForConnect : Addr) : List Out × Sessions :=
  match s.sa2sess[requestForConnect]? with
  | none => ([], s)
  | some S =>
    let r := Session.flushOutCache { S with esi := some esi }
    (s.notices (.connected requestForConnect) ++ r.1, { s with sa2sess := s.sa2sess.insert requestForConnect r.2 })

/-- `on_Accepted`. -/
def onAccepted (esi : SocketId) : List Out × Sessions :=
  let r := Session.addAll (s.passCache[esi.1]?.getD []) { socketId := esi, esi := some esi }
  let sock2sess := if esi.1 ∈ s.sock2sess then s.sock2sess else s.sock2sess.insert esi.1 r.2
  (r.1 ++ s.notices (.accepted esi), { s with sock2sess := sock2sess, passCache := s.passCache.erase esi.1 })

/-- `on_ConnectFailed`. -/
def onConnectFailed (requestForConnect : Addr) : List Out × Sessions :=
  (s.notices (.connectFailed requestForConnect), { s with sa2sess := s.sa2sess.erase requestForConnect })

/-- `on_Disconnected`. -/
def onDisconnected (requestForConnect : Addr) : List Out × Sessions :=
  (s.notices (.disconnected requestForConnect), { s with sa2sess := s.sa2sess.erase requestForConnect })

/-- `on_Disaccepted`. -/
def onDisaccepted (esi : SocketId) : List Out × Sessions :=
  (s.notices (.disaccepted esi), { s with sock2sess := s.sock2sess.erase esi.1 })

/-- `on_SubscribeNotifications`; `pop_back` raises on a route without elements. -/
def onSubscribe (route : RouteT) : Sessions :=
  match route with
  | [] => s
  | _ => { s with subscribers := insertRoute route.dropLast s.subscribers }

/-- `on_UnsubscribeNotifications`. -/
def onUnsubscribe (route : RouteT) : Sessions :=
  { s with subscribers := s.subscribers.filter fun r => RouteT.less r route || RouteT.less route r }

/-- `flushAll`. -/
def flushAll : List Out × Sessions :=
  let flush := fun S : Session => if S.esi.isSome then S.flushOutCache else ([], S)
  (s.sock2sess.toList.flatMap (fun z => (flush z.2).1) ++ s.sa2sess.toList.flatMap (fun z => (flush z.2).1),
    { s with
      sock2sess := s.sock2sess.map fun _ S => (flush S).2
      sa2sess := s.sa2sess.map fun _ S => (flush S).2 })

end Sessions

/-- The event can be unpacked: `route_t::unpack` raises at a `LISTENER`. -/
def Event.unpacks (e : Event) : Bool :=
  e.route.all fun r =>
    match r with
    | .listener _ => false
    | _ => true

/-- `on_PacketOnAcceptor`, with an address `on_PacketOnConnector`. -/
def onPacket (esi : SocketId) (addr : Option Addr) : Packet → Out
  | .pass e =>
    if e.unpacks then
      match e.route.getLast? with
      | some (.localService id) => .incoming { dst := id, sock := esi, addr := addr, e := { e with route := e.route.dropLast } }
      | _ => .close esi
    else .close esi
  | .send dst e =>
    if e.unpacks then
      .incoming { dst := dst, sock := esi, addr := addr, e := { e with route := e.route ++ [.remoteAddr esi, .localService dst] } }
    else .close esi

/-! ## Instances and connections -/

/-- A connection, from the side that asked for it. `sent` and `passed` are what the two instances have handed to their service for
the connection, `inbox` and `answers` what services have been given from it. -/
structure Conn where
  addr : Addr
  /-- The socket that the other instance has accepted. -/
  peer : Option SocketId := none
  up : Bool := false
  clientOpen : Bool := true
  serverOpen : Bool := false
  ab : List Packet := []
  ba : List Packet := []
  sent : List (CInt × Event) := []
  inbox : List Incoming := []
  answers : List Incoming := []

/-- The instances; `host` says which one listens at an address. -/
structure Net where
  sessions : Nat → Sessions
  used : Nat → SocketId → Bool
  conns : Nat → SocketId → Option Conn
  /-- The connection that a socket was accepted for. -/
  accepted : Nat → SocketId → Option (Nat × SocketId)
  passed : Nat → SocketId → List Event

/-- No event yet. -/
def Net.init : Net where
  sessions _ := {}
  used _ _ := false
  conns _ _ := none
  accepted _ _ := none
  passed _ _ := []

/-- Assign to a function of two arguments. -/
def upd {α β γ : Type} [DecidableEq α] [DecidableEq β] (f : α → β → γ) (a : α) (b : β) (v : γ) : α → β → γ :=
  fun x y => if x = a ∧ y = b then v else f x y

namespace Net

variable (n : Net)

def setSessions (a : Nat) (s : Sessions) : Net := { n with sessions := fun x => if x = a then s else n.sessions x }

def setConn (a : Nat) (sock : SocketId) (c : Conn) : Net := { n with conns := upd n.conns a sock (some c) }

def use (a : Nat) (sock : SocketId) : Net := { n with used := upd n.used a sock true }

/-- Oscar sends a packet on a socket of an instance: to the acceptor of the connection, or back. -/
def transmit (a : Nat) (sock : SocketId) (p : Packet) : Net :=
  match n.conns a sock with
  | some c => if c.clientOpen then n.setConn a sock { c with ab := c.ab ++ [p] } else n
  | none =>
    match n.accepted a sock with
    | some (b, k) =>
      match n.conns b k with
      | some c => if c.serverOpen then n.setConn b k { c with ba := c.ba ++ [p] } else n
      | none => n
    | none => n

/-- One message of the service of an instance: a connection is asked for, or a packet is sent. -/
def effect (a : Nat) (n : Net) : Out → Net
  | .connect sock addr => n.setConn a sock { addr := addr }
  | .sendPacket sock p => n.transmit a sock p
  | _ => n

/-- What the service of an instance does. -/
def apply (a : Nat) (r : List Out × Sessions) : Net := r.1.foldl (effect a) (n.setSessions a r.2)

end Net

/-- What happens. -/
inductive Step
  /-- `sendEvent` to an address. -/
  | send (a : Nat) (addr : Addr) (dst : CInt) (e : Event) (newId : SocketId)
  /-- `passEvent`. -/
  | pass (b : Nat) (e : Event)
  | accept (a : Nat) (sock : SocketId) (newId : SocketId)
  | connected (a : Nat) (sock : SocketId)
  | connectFailed (a : Nat) (sock : SocketId)
  | deliver (a : Nat) (sock : SocketId)
  | answer (a : Nat) (sock : SocketId)
  | disconnected (a : Nat) (sock : SocketId)
  | disaccepted (a : Nat) (sock : SocketId)
  | subscribe (a : Nat) (route : RouteT)
  | unsubscribe (a : Nat) (route : RouteT)
  | bound (a : Nat)

/-- The state after a step; a step that cannot be taken changes nothing. -/
def Step.run (host : Addr → Nat) : Step → Net → Net
  | .send a addr dst e newId, n =>
    if n.used a newId then n
    else
      let r := (n.sessions a).onSendPacket addr dst e newId
      let n := (n.use a newId).apply a r
      match r.2.sa2sess[addr]? with
      | some S =>
        match n.conns a S.socketId with
        | some c => n.setConn a S.socketId { c with sent := c.sent ++ [(dst, e)] }
        | none => n
      | none => n
  | .pass b e, n =>
    match e.route.getLast? with
    | some (.remoteAddr sock) =>
      let e := { e with route := e.route.dropLast }
      let n := n.apply b ((n.sessions b).onPassPacket sock e)
      { n with passed := upd n.passed b sock (n.passed b sock ++ [e]) }
    | _ => n
  | .accept a sock newId, n =>
    match n.conns a sock with
    | some c =>
      let b := host c.addr
      if c.peer.isSome ∨ n.used b newId then n
      else
        let n := (n.use b newId).setConn a sock { c with peer := some newId, serverOpen := true }
        let n := { n with accepted := upd n.accepted b newId (some (a, sock)) }
        n.apply b ((n.sessions b).onAccepted newId)
    | none => n
  | .connected a sock, n =>
    match n.conns a sock with
    | some c =>
      if c.up = false ∧ c.clientOpen then
        (n.setConn a sock { c with up := true }).apply a ((n.sessions a).onConnected sock c.addr)
      else n
    | none => n
  | .connectFailed a sock, n =>
    match n.conns a sock with
    | some c =>
      if c.up = false ∧ c.clientOpen then
        (n.setConn a sock { c with clientOpen := false }).apply a ((n.sessions a).onConnectFailed c.addr)
      else n
    | none => n
  | .deliver a sock, n =>
    match n.conns a sock with
    | some c =>
      match c.peer, c.ab with
      | some j, p :: ps =>
        if c.serverOpen then
          match onPacket j none p with
          | .incoming i => n.setConn a sock { c with ab := ps, inbox := c.inbox ++ [i] }
          | _ => n.setConn a sock { c with ab := ps }
        else n
      | _, _ => n
    | none => n
  | .answer a sock, n =>
    match n.conns a sock with
    | some c =>
      match c.ba with
      | p :: ps =>
        if c.up ∧ c.clientOpen then
          match onPacket sock (some c.addr) p with
          | .incoming i => n.setConn a sock { c with ba := ps, answers := c.answers ++ [i] }
          | _ => n.setConn a sock { c with ba := ps }
        else n
      | [] => n
    | none => n
  | .disconnected a sock, n =>
    match n.conns a sock with
    | some c =>
      if c.up ∧ c.clientOpen then
        (n.setConn a sock { c with clientOpen := false }).apply a ((n.sessions a).onDisconnected c.addr)
      else n
    | none => n
  | .disaccepted a sock, n =>
    match n.conns a sock with
    | some c =>
      match c.peer with
      | some j =>
        if c.serverOpen then
          (n.setConn a sock { c with serverOpen := false }).apply (host c.addr) ((n.sessions (host c.addr)).onDisaccepted j)
        else n
      | none => n
    | none => n
  | .subscribe a route, n => n.setSessions a ((n.sessions a).onSubscribe route)
  | .unsubscribe a route, n => n.setSessions a ((n.sessions a).onUnsubscribe route)
  | .bound a, n => n.apply a (n.sessions a).flushAll

/-- The state after some steps. -/
def run (host : Addr → Nat) (steps : List Step) : Net := steps.foldl (fun n s => s.run host n) .init

end Rpc

end Grain
