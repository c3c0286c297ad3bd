import Grain.TrExec

/-!
# Incoming messages of other nodes

The two entry points of signed messages, `NodeMsgREQ` and `SendToChild` with `handle_send_to_child`, up to the call of the
handler. Both go through the filter of sequence numbers. What the tree says about the signer at the time is an input: the public
key of a known node.
-/

namespace Grain

/-- The types of messages that one of the entry points passes on, and the rest. -/
inductive MsgType
  | getTransactionREQ
  | validateBlockREQ
  | blockAccepted2REQ
  | confirmLeaderREQ
  | delayNotificationREQ
  | blockDiffValidateREQ
  | blockDBStore
  | lcEnvelopeREQ
  | other
  deriving DecidableEq

/-- The entry points. -/
inductive Entry
  | nodeMsgREQ
  | sendToChild
  deriving DecidableEq

/-- The entry point has a handler for the type; for the others it raises. -/
def Entry.handles : Entry → MsgType → Bool
  | .nodeMsgREQ, .lcEnvelopeREQ => false
  | .nodeMsgREQ, .other => false
  | .nodeMsgREQ, _ => true
  | .sendToChild, .lcEnvelopeREQ => true
  | .sendToChild, _ => false

/-- A signed message of another node, as it arrives at an entry point. -/
structure NodeMsg where
  entry : Entry
  nodeSigner : String
  nodeStartTimestamp : Int
  seqId2 : Int
  signature : String
  msgPayload : String
  deriving DecidableEq

/-- What identifies a message. -/
def NodeMsg.ident (m : NodeMsg) : String × Int × Int := (m.nodeSigner, m.nodeStartTimestamp, m.seqId2)

/-- `filter_NodeMsgREQ`: by signer and start time, the sequence numbers seen. -/
abbrev Filter := StdMap String (StdMap Int (StdSet Int))

/-- `filter_NodeMsgREQ[signer][start]`. -/
def Filter.at (f : Filter) (signer : String) (start : Int) : StdSet Int := (f[signer]?.getD ∅)[start]?.getD ∅

/-- The assignment to it. -/
def Filter.set (f : Filter) (signer : String) (start : Int) (s : StdSet Int) : Filter :=
  f.insert signer ((f[signer]?.getD ∅).insert start s)

/-- The loop that erases the smallest numbers until a hundred are left. -/
def evict (s : StdSet Int) : StdSet Int := (s.toList.take (s.size - 100)).foldl (fun s z => s.erase z) s

/-- What happens to a message: `known` gives the public key of a node in the tree, `parse` the type of a payload that unpacks.
The answer says which handler is called, if any. -/
def receive (Γ : Ctx) (parse : String → Option MsgType) (known : String → Option String) (m : NodeMsg) (f : Filter) :
    Option MsgType × Filter :=
  let s := evict (f.at m.nodeSigner m.nodeStartTimestamp)
  if m.seqId2 ∈ s then (none, f.set m.nodeSigner m.nodeStartTimestamp s)
  else
    let f := f.set m.nodeSigner m.nodeStartTimestamp (s.insert m.seqId2)
    match known m.nodeSigner with
    | none => (none, f)
    | some pk =>
      match verifyEdPk Γ pk m.signature m.msgPayload with
      | .ok true =>
        match parse m.msgPayload with
        | some type => (if m.entry.handles type then some type else none, f)
        | none => (none, f)
      | _ => (none, f)

/-- A message that arrives, with what is known of the nodes then. -/
abbrev Arrival := (String → Option String) × NodeMsg

/-- The messages of a run that reach a handler, and the filter at its end. -/
def receiveAll (Γ : Ctx) (parse : String → Option MsgType) : List Arrival → Filter → List NodeMsg × Filter
  | [], f => ([], f)
  | (known, m) :: ms, f =>
    let r := receive Γ parse known m f
    let rs := receiveAll Γ parse ms r.2
    (if r.1.isSome then m :: rs.1 else rs.1, rs.2)

end Grain
