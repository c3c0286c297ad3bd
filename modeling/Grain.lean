import Grain.Lib.Prog
import Grain.Lib.Rose
import Grain.Lib.Heap
import Grain.Lib.Framing
import Grain.Lib.Codec
import Grain.Lib.Format
import Grain.Lib.Http1
import Grain.Lib.Bits
import Grain.Lib.Runs
import Grain.Lib.MapSum
import Grain.Json
import Grain.Payload
import Grain.Cellable
import Grain.Cells
import Grain.State
import Grain.Leaves
import Grain.TrExec
import Grain.Contract
import Grain.Frames
import Grain.Execute
import Grain.Events
import Grain.Genesis
import Grain.Chain
import Grain.Fees
import Grain.Messages
import Grain.Broadcast
import Grain.Node
import Grain.HeartBeat
import Grain.Leader
import Grain.Client
import Grain.Service
import Grain.Governance
import Grain.Sync
import Grain.Reader
import Grain.BroadcasterTree
import Grain.Contexts
import Grain.Http
import Grain.WebSocket
import Grain.IoBuffer
import Grain.Pack
import Grain.Wire
import Grain.I128
import Grain.InBuffer
import Grain.BitStream
import Grain.Route
import Grain.Timer
import Grain.Oscar
import Grain.WebSocketClient
import Grain.HttpResponse
import Grain.Lemmas.Change
import Grain.Lemmas.Track
import Grain.Lemmas.Footprint
import Grain.Lemmas.Commands
import Grain.Lemmas.Calls
import Grain.Lemmas.Blocks
import Grain.Lemmas.Watch
import Grain.Lemmas.Idle
import Grain.Lemmas.Emits
import Grain.Lemmas.Events
import Grain.Lemmas.Reads
import Grain.Lemmas.Meta
import Grain.Lemmas.Views
import Grain.Lemmas.Handlers
import Grain.Lemmas.Rounds
import Grain.Lemmas.Tables
import Grain.Lemmas.Pool
import Grain.Lemmas.Certificates
import Grain.Lemmas.Reading
import Grain.Lemmas.Gym
import Grain.Lemmas.Traps
import Grain.Theorems.Keys
import Grain.Theorems.Preimages
import Grain.Theorems.Dedup
import Grain.Theorems.Frames
import Grain.Theorems.Confirm
import Grain.Theorems.Contexts
import Grain.Theorems.Election
import Grain.Theorems.MetaCache
import Grain.Theorems.Sync
import Grain.Theorems.Counting
import Grain.Theorems.Binding
import Grain.Theorems.Assembly
import Grain.Theorems.Events
import Grain.Theorems.Isolation
import Grain.Theorems.Reader
import Grain.Theorems.ReadOnly
import Grain.Theorems.Delivery
import Grain.Theorems.BuildTree
import Grain.Theorems.Ranking
import Grain.Theorems.Committee
import Grain.Theorems.Gym
import Grain.Theorems.Http
import Grain.Theorems.WebSocket
import Grain.Theorems.Convert
import Grain.Theorems.Pack
import Grain.Theorems.Wire
import Grain.Theorems.Fees
import Grain.Theorems.Governance
import Grain.Theorems.Quorum
import Grain.Theorems.Gas
import Grain.Theorems.I128
import Grain.Theorems.IoBuffer
import Grain.Theorems.BitStream
import Grain.Theorems.Route
import Grain.Theorems.Timer
import Grain.Theorems.Oscar
import Grain.Theorems.WebSocketClient
import Grain.Theorems.HttpResponse
import Grain.Lemmas.Coherent
import Grain.Theorems.Representation
import Grain.LeafMap
import Grain.Lemmas.Hashing
import Grain.Lemmas.LeafTree
import Grain.Theorems.Merkle
import Grain.Lemmas.WriteSet
import Grain.Theorems.Commit
import Grain.Theorems.Replica
import Grain.BlockStreamer
import Grain.Lemmas.Rpc
import Grain.Scan
import Grain.Theorems.BlockStreamer
import Grain.Theorems.Rpc
import Grain.Theorems.Scan
import Grain.CatchUp
import Grain.Theorems.CatchUp
import Grain.EventDeque
import Grain.Granules
import Grain.LiteNode
import Grain.Theorems.EventDeque
import Grain.Theorems.Granules
import Grain.Theorems.LiteNode
import Grain.Mtjs
import Grain.Theorems.Mtjs
