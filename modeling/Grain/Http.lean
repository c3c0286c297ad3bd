import Grain.Payload

/-!
# The HTTP server: requests

The callbacks of `httpService.cpp` that the parser calls while it reads a connection, and the context they fill. The parser
(llhttp) is outside: what it calls for a request is given as documented, with every text handed over in pieces
(`HttpRequest.Calls`). Texts and bodies are byte strings.
-/

namespace Grain

/-- `llhttp_method`. -/
inductive LlhttpMethod
  | delete | get | head | post | put | connect | options | trace | copy | lock | mkcol | move | propfind | proppatch
  | search | unlock | bind | rebind | unbind | acl | report | mkactivity | checkout | merge | msearch | notify
  | subscribe | unsubscribe | patch | purge | mkcalendar | link | unlink | source | pri | describe | announce | setup
  | play | pause | teardown | getParameter | setParameter | redirect | record | flush
  deriving DecidableEq

/-- `llhttp_method_name`. -/
def llhttpMethodName : LlhttpMethod → String
  | .delete => "DELETE"
  | .get => "GET"
  | .head => "HEAD"
  | .post => "POST"
  | .put => "PUT"
  | .connect => "CONNECT"
  | .options => "OPTIONS"
  | .trace => "TRACE"
  | .copy => "COPY"
  | .lock => "LOCK"
  | .mkcol => "MKCOL"
  | .move => "MOVE"
  | .propfind => "PROPFIND"
  | .proppatch => "PROPPATCH"
  | .search => "SEARCH"
  | .unlock => "UNLOCK"
  | .bind => "BIND"
  | .rebind => "REBIND"
  | .unbind => "UNBIND"
  | .acl => "ACL"
  | .report => "REPORT"
  | .mkactivity => "MKACTIVITY"
  | .checkout => "CHECKOUT"
  | .merge => "MERGE"
  | .msearch => "M-SEARCH"
  | .notify => "NOTIFY"
  | .subscribe => "SUBSCRIBE"
  | .unsubscribe => "UNSUBSCRIBE"
  | .patch => "PATCH"
  | .purge => "PURGE"
  | .mkcalendar => "MKCALENDAR"
  | .link => "LINK"
  | .unlink => "UNLINK"
  | .source => "SOURCE"
  | .pri => "PRI"
  | .describe => "DESCRIBE"
  | .announce => "ANNOUNCE"
  | .setup => "SETUP"
  | .play => "PLAY"
  | .pause => "PAUSE"
  | .teardown => "TEARDOWN"
  | .getParameter => "GET_PARAMETER"
  | .setParameter => "SET_PARAMETER"
  | .redirect => "REDIRECT"
  | .record => "RECORD"
  | .flush => "FLUSH"

/-! ## The context of a request -/

/-- `HttpContext`. -/
structure HttpContext where
  method : String := ""
  methodInt : LlhttpMethod := .get
  url : String := ""
  currentField : String := ""
  currentValue : String := ""
  headers : StdMap String String := ∅
  keepalive : Bool := true
  upgrade : Bool := false
  body : Option String := none
  chunkSize : Nat := 0
  isChunked : Bool := false
  chunkId : Int := 0
  isWebSocket : Bool := false
  websocketBuffer : List UInt8 := []

/-- The events that the server passes on, with the context as it is then, and what it writes to the connection itself. -/
inductive HttpEvent
  | requestIncoming (req : HttpContext)
  | requestChunkReceived (req : HttpContext) (id : Int) (chunk : String)
  | requestChunkingCompleted (req : HttpContext) (n : Int)
  | wsTextMessage (req : HttpContext) (msg : List UInt8)
  | write (text : String)

/-- What the parser knows when the headers are complete. -/
structure Llhttp where
  method : LlhttpMethod
  keepAlive : Bool
  upgrade : Bool
  chunked : Bool

/-! ## The callbacks -/

/-- `on_url`. -/
def onUrl (c : HttpContext) (piece : String) : HttpContext := { c with url := c.url ++ piece }

/-- `on_header_field`: the field before is entered when it has got a value. -/
def onHeaderField (c : HttpContext) (piece : String) : HttpContext :=
  if c.currentValue ≠ "" then
    { c with headers := c.headers.insert c.currentField c.currentValue, currentField := piece, currentValue := "" }
  else { c with currentField := c.currentField ++ piece }

/-- `on_header_value`. -/
def onHeaderValue (c : HttpContext) (piece : String) : HttpContext := { c with currentValue := c.currentValue ++ piece }

/-- `headers[name]` of the C++ map: a name that is not there is entered without a value. -/
def HttpContext.header (c : HttpContext) (name : String) : String × HttpContext :=
  (c.headers[name]?.getD "", { c with headers := c.headers.insertIfNew name "" })

/-- `equals_case_insensitive`. -/
def equalsCaseInsensitive (a b : String) : Bool := a.map Char.toLower = b.map Char.toLower

/-- The switch of protocols: the answer is written, and the connection is a web socket from then on. -/
def onUpgrade (calcKeyAnswer : String → String) (c : HttpContext) : List HttpEvent × HttpContext :=
  let (ug, c) := c.header "Upgrade"
  if equalsCaseInsensitive ug "websocket" then
    let (_, c) := c.header "Sec-WebSocket-Version"
    let (key, c) := c.header "Sec-WebSocket-Key"
    ([.write ("HTTP/1.1 101 Switching Protocols\r\nUpgrade: websocket\r\nConnection: Upgrade\r\nSec-WebSocket-Accept: " ++
        calcKeyAnswer key ++ "\r\n\r\n")], { c with isWebSocket := true })
  else ([], c)

/-- `on_headers_complete`. -/
def onHeadersComplete (calcKeyAnswer : String → String) (c : HttpContext) (p : Llhttp) : List HttpEvent × HttpContext :=
  let c := { c with
    keepalive := p.keepAlive
    upgrade := p.upgrade
    headers := if c.currentField ≠ "" then c.headers.insert c.currentField c.currentValue else c.headers
    method := llhttpMethodName p.method
    methodInt := p.method }
  if p.chunked then ([.requestIncoming { c with isChunked := true }], { c with isChunked := true })
  else if p.upgrade then onUpgrade calcKeyAnswer c
  else ([], c)

/-- `on_body`. -/
def onBody (c : HttpContext) (piece : String) : HttpContext := { c with body := some (c.body.getD "" ++ piece) }

/-- `on_message_complete`. Only a request that was chunked, a `GET` and a `POST` leave a new context behind. -/
def onMessageComplete (c : HttpContext) : List HttpEvent × HttpContext :=
  if c.isChunked then ([.requestChunkingCompleted c c.chunkId], {})
  else if c.methodInt = .get then ([.requestIncoming c], {})
  else if c.methodInt = .post then ([.requestIncoming c], {})
  else ([], c)

/-- `on_chunk_header`. -/
def onChunkHeader (c : HttpContext) (contentLength : Nat) : HttpContext :=
  { c with body := none, chunkSize := contentLength }

/-- `on_chunk_complete`. -/
def onChunkComplete (c : HttpContext) : Except String (List HttpEvent × HttpContext) :=
  match c.body with
  | none => .ok ([], c)
  | some body =>
    if body.length ≠ c.chunkSize then .error "chunk size mismatch"
    else .ok ([.requestChunkReceived c c.chunkId body],
      { c with chunkId := wrap32 (c.chunkId + 1), body := none, chunkSize := 0 })

/-- The callbacks, with what the parser passes to each. -/
inductive Callback
  | messageBegin
  | url (piece : String)
  | headerField (piece : String)
  | headerValue (piece : String)
  | headersComplete (p : Llhttp)
  | body (piece : String)
  | messageComplete
  | chunkHeader (contentLength : Nat)
  | chunkComplete

/-- One callback: the events it passes on, and the context it leaves; an exception ends the parsing. -/
def Callback.run (calcKeyAnswer : String → String) (c : HttpContext) : Callback → Except String (List HttpEvent × HttpContext)
  | .messageBegin => .ok ([], c)
  | .url piece => .ok ([], onUrl c piece)
  | .headerField piece => .ok ([], onHeaderField c piece)
  | .headerValue piece => .ok ([], onHeaderValue c piece)
  | .headersComplete p => .ok (onHeadersComplete calcKeyAnswer c p)
  | .body piece => .ok ([], onBody c piece)
  | .messageComplete => .ok (onMessageComplete c)
  | .chunkHeader contentLength => .ok ([], onChunkHeader c contentLength)
  | .chunkComplete => onChunkComplete c

/-- A list of callbacks, one after the other. -/
def runCallbacks (calcKeyAnswer : String → String) : HttpContext → List Callback → Except String (List HttpEvent × HttpContext)
  | c, [] => .ok ([], c)
  | c, k :: ks => do
    let (ev, c) ← k.run calcKeyAnswer c
    let (ev', c) ← runCallbacks calcKeyAnswer c ks
    .ok (ev ++ ev', c)

/-! ## What the parser calls -/

/-- A header; its name is not empty. -/
structure Header where
  name : String
  value : String
  name_ne : name ≠ ""

/-- The content of a request: a body, which may be empty, or chunks, none of them empty, with trailing headers. -/
inductive Content
  | whole (body : String)
  | chunked (chunks : List {s : String // s ≠ ""}) (trailers : List Header)

/-- A request that does not switch the protocol. -/
structure HttpRequest where
  method : LlhttpMethod
  url : String
  headers : List Header
  keepAlive : Bool
  content : Content

/-- The callbacks of a header: its name and its value, each in any number of pieces. -/
def Header.Calls (h : Header) (ks : List Callback) : Prop :=
  ∃ names values, String.join names = h.name ∧ String.join values = h.value ∧
    ks = names.map .headerField ++ values.map .headerValue

/-- The callbacks of a list of headers. -/
inductive HeaderCalls : List Header → List Callback → Prop
  | nil : HeaderCalls [] []
  | cons {h : Header} {hs : List Header} {k ks : List Callback} (hk : h.Calls k) (hks : HeaderCalls hs ks) :
      HeaderCalls (h :: hs) (k ++ ks)

/-- The callbacks of a list of chunks. -/
inductive ChunkCalls : List {s : String // s ≠ ""} → List Callback → Prop
  | nil : ChunkCalls [] []
  | cons {chunk : {s : String // s ≠ ""}} {chunks : List {s : String // s ≠ ""}} {pieces : List String} {ks : List Callback}
      (hp : String.join pieces = chunk) (hks : ChunkCalls chunks ks) :
      ChunkCalls (chunk :: chunks) (.chunkHeader chunk.1.length :: pieces.map .body ++ .chunkComplete :: ks)

/-- The callbacks of the content: the last chunk is empty, and the trailing headers come before its end. -/
def Content.Calls : Content → List Callback → Prop
  | .whole body, ks => ∃ pieces, String.join pieces = body ∧ ks = pieces.map .body
  | .chunked chunks trailers, ks => ∃ k t, ChunkCalls chunks k ∧ HeaderCalls trailers t ∧
      ks = k ++ .chunkHeader 0 :: t ++ [.chunkComplete]

/-- The content comes in chunks. -/
def Content.isChunked : Content → Bool
  | .whole _ => false
  | .chunked _ _ => true

/-- What the parser knows of the request. -/
def HttpRequest.llhttp (rq : HttpRequest) : Llhttp :=
  { method := rq.method, keepAlive := rq.keepAlive, upgrade := false, chunked := rq.content.isChunked }

/-- The callbacks of a request. -/
def HttpRequest.Calls (rq : HttpRequest) (ks : List Callback) : Prop :=
  ∃ urls hs cs, String.join urls = rq.url ∧ HeaderCalls rq.headers hs ∧ rq.content.Calls cs ∧
    ks = .messageBegin :: urls.map .url ++ hs ++ .headersComplete rq.llhttp :: cs ++ [.messageComplete]

end Grain
