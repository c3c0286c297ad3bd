import Grain.IoBuffer
import Grain.Lib.Http1

/-!
# The HTTP server: responses

`HTTP::Response` of `httpConnection.cpp`. What the functions write to the connection is their result; `write_and_close` writes
the same bytes as `write_`.
-/

namespace Grain

/-- `get_name_of_http_code`. -/
def getNameOfHttpCode (code : Int) : String :=
  match code with
  | 200 => "OK"
  | 203 => "Non-Authoritative Information"
  | 206 => "Partial Content"
  | 302 => "Found"
  | 303 => "See Other"
  | 400 => "Bad Request"
  | 401 => "Unauthorized"
  | 402 => "Payment Required"
  | 403 => "Forbidden"
  | 404 => "Not Found"
  | 405 => "Method Not Allowed"
  | 406 => "Not Acceptable"
  | 413 => "Request Entity Too Large"
  | 500 => "Internal Server Error"
  | 501 => "Not Implemented"
  | 502 => "Bad Gateway"
  | 503 => "Service Unavailable"
  | 505 => "HTTP Version not supported"
  | _ => "Unknow"

/-- `HTTP::Response`. -/
structure HttpResponse where
  httpCode : Int := 200
  httpContentType : Buffer := "text/html".toList
  content : Buffer := []
  httpCharset : Buffer := []
  serverName : Buffer := []
  httpHeaderOut : Buffer := []
  chunkedHttpHeaderSent : Bool := false
  isChunked : Bool := false

namespace HttpResponse

/-- The key `Connection` of `setHeader`, compared by `strcasecmp`. -/
def isConnection (key : Buffer) : Bool := Http1.lower (key.takeWhile (· ≠ Char.ofNat 0)) = "connection".toList

/-- `setHeader`. The connection type that it sets for the key `Connection` is used nowhere. -/
def setHeader (r : HttpResponse) (key value : Buffer) : HttpResponse :=
  if isConnection key then r
  else { r with httpHeaderOut := r.httpHeaderOut ++ key ++ ": ".toList ++ value ++ "\r\n".toList }

/-- `build_html_response`. -/
def buildHtmlResponse (r : HttpResponse) (keepalive : Bool) : Buffer :=
  ["HTTP/1.1 ".toList ++ (toString r.httpCode).toList ++ " ".toList ++ (getNameOfHttpCode r.httpCode).toList ++ "\r\n".toList,
    if r.httpContentType ≠ [] then
      "Content-Type: ".toList ++ r.httpContentType ++ (if r.httpCharset ≠ [] then "; charset: ".toList ++ r.httpCharset else []) ++
        "\r\n".toList
    else [],
    "Server: ".toList ++ (if r.serverName ≠ [] then r.serverName else "Web Server".toList) ++ "\r\n".toList,
    if ¬ r.isChunked ∧ r.content ≠ [] then "Content-Length: ".toList ++ (toString r.content.length).toList ++ "\r\n".toList else [],
    if keepalive ∧ ¬ r.isChunked then
      "Connection: Keep-Alive\r\n".toList ++ "Keep-Alive: timeout=7200, max=1000000000\r\n".toList
    else "Connection: close\r\n".toList,
    if r.isChunked then "Transfer-Encoding: chunked\r\n".toList else [],
    r.httpHeaderOut,
    "\r\n".toList,
    if ¬ r.isChunked then r.content else []].flatten

/-- `make_response`: what it writes, or the text of what it throws. -/
def makeResponse (keepalive : Bool) (r : HttpResponse) (str : Buffer) : Except String Buffer × HttpResponse :=
  if r.isChunked then (.error "if(is_chunked)", r)
  else
    let r := { r with content := str }
    (.ok (r.buildHtmlResponse keepalive), r)

/-- `send_chunked`: the header before the first chunk, and the chunk with its size (`%lx`). -/
def sendChunked (keepalive : Bool) (r : HttpResponse) (str : Buffer) : Except String Buffer × HttpResponse :=
  let r := { r with isChunked := true }
  if r.content ≠ [] then (.error "if(content.size())", r)
  else
    let chunk := Nat.toDigits 16 str.length ++ "\r\n".toList ++ str ++ "\r\n".toList
    if r.chunkedHttpHeaderSent then (.ok chunk, r)
    else (.ok (r.buildHtmlResponse keepalive ++ chunk), { r with chunkedHttpHeaderSent := true })

/-- `end_chunked`. -/
def endChunked (r : HttpResponse) : Except String Buffer :=
  if ¬ r.isChunked then .error "if(!is_chunked)"
  else if r.content ≠ [] then .error "if(content.size())"
  else .ok "0\r\n\r\n".toList

end HttpResponse

/-- How a handler answers: with a text, or with pieces of a text and the end. -/
inductive HttpReply
  | whole (str : Buffer)
  | chunked (strs : List Buffer)

/-- What a call has written; one that throws has written nothing. -/
def written : Except String Buffer → Buffer
  | .ok b => b
  | .error _ => []

/-- The calls of `send_chunked`, one after the other. -/
def sendAll : HttpResponse → List Buffer → Buffer × HttpResponse
  | r, [] => ([], r)
  | r, s :: ss => (written (r.sendChunked true s).1 ++ (sendAll (r.sendChunked true s).2 ss).1, (sendAll (r.sendChunked true s).2 ss).2)

/-- What an answer writes to a connection that is kept alive. -/
def HttpReply.write (r : HttpResponse) : HttpReply → Buffer
  | .whole str => written (r.makeResponse true str).1
  | .chunked strs => (sendAll r strs).1 ++ written (sendAll r strs).2.endChunked

/-- The body that an answer stands for. -/
def HttpReply.body : HttpReply → Buffer
  | .whole str => str
  | .chunked strs => strs.flatten

end Grain
