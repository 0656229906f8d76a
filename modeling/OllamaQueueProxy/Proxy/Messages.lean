import OllamaQueueProxy.Config
import OllamaQueueProxy.Library.Json
import OllamaQueueProxy.Library.Url

/-!
# Requests and responses

A request as the handlers see it.  The server percent-decodes the path of the request
target once into the path of the scope.  The URL of a request is composed of that path and
the query string, and taken apart again, so that a `?` or `#` in the decoded path cuts it, and
tabs and line breaks are removed from it.
-/

open Url (Octets ascii)

namespace OllamaQueueProxy

/-- A string of bytes, by its length and by what `json.loads` makes of it. -/
structure Bytes where
  length : ℕ
  json : Option Json
  /-- The empty string is no JSON. -/
  json_eq_none : length = 0 → json = none

namespace Bytes

/-- The empty string. -/
def empty : Bytes := ⟨0, none, fun _ => rfl⟩

/-- It is received in no chunks. -/
theorem sum_nil_eq_length_empty :
  ([] : List ℕ).sum = empty.length
  := rfl

/-- The string as a condition: it is not empty. -/
def truthy (b : Bytes) : Bool := b.length != 0

theorem encodedLength_write_ne_zero (esc : ℕ → Json.Text) (j : Json) :
  Json.encodedLength (j.write esc) ≠ 0
  := by
  obtain ⟨c, t, hwrite, _⟩ := Json.exists_head esc j
  rw [hwrite]
  simp only [Json.encodedLength, List.map_cons, List.sum_cons]
  split_ifs <;> omega

/-- The bytes of a JSON value, with the characters of its strings escaped by `esc`. -/
def dumps (esc : ℕ → Json.Text) (j : Json) : Bytes where
  length := Json.encodedLength (j.write esc)
  json := some j
  json_eq_none h := absurd h (encodedLength_write_ne_zero esc j)

end Bytes

/-- A request.  The headers have their names in lower case. -/
structure Request where
  method : String
  /-- The path of the request target as the client sent it. -/
  target : Octets
  queryString : Octets
  headers : Dict String String
  /-- `request.client.host`. -/
  clientHost : Option String
  /-- `request.state.request_id`, set by the middleware. -/
  requestId : String
  /-- The lengths of the chunks in which the body is received. -/
  chunks : List ℕ
  body : Bytes
  sum_chunks : chunks.sum = body.length

namespace Request

/-- `request.headers.get`: the value of the first header of the name. -/
def header? (r : Request) (name : String) : Option String := Dict.get? r.headers name

/-- `scope["path"]`, as octets in UTF-8.  The server replaces octets that are none, which are kept
here. -/
def scopePath (r : Request) : Octets := Url.decode r.target

/-- The part of the path of the scope that the pattern of the catch-all routes matches: a line
feed at the end is none of it. -/
def matchedPath (r : Request) : Octets :=
  if r.scopePath.getLast? = some Url.lineFeed then r.scopePath.dropLast else r.scopePath

/-- The pattern `/(.*)` of the catch-all routes matches the path of the scope. -/
def isMatched (r : Request) : Bool :=
  r.matchedPath.head? == some Url.slash && !r.matchedPath.contains Url.lineFeed

/-- The parameter `path` of the catch-all routes: the path without the leading slash. -/
def routePath (r : Request) : Octets := r.matchedPath.tail

/-- The path of the scope and the query string, as they stand in the URL once it is taken
apart. -/
def relativeUrl (r : Request) : Octets :=
  Url.removeUnsafe (if r.queryString.isEmpty then r.scopePath
    else r.scopePath ++ Url.questionMark :: r.queryString)

/-- `request.url.path`. -/
def urlPath (r : Request) : Octets := Url.pathOf r.relativeUrl

/-- `request.url.query`. -/
def urlQuery (r : Request) : Octets := Url.queryOf r.relativeUrl

/-! ### The middleware -/

/-- `parse_priority`. -/
def parsePriority (r : Request) : Tier :=
  (Tier.ofName? ((r.header? "x-queue-priority").getD "normal").toLower).getD .normal

/-- `get_client_id`. -/
def getClientId (r : Request) : Option String := r.header? "x-client-id"

end Request

/-! ### Responses -/

/-- The body of a response. -/
inductive Content where
  /-- The content of a `JSONResponse`. -/
  | json (content : Json)
  /-- The stream of a `StreamingResponse`. -/
  | stream

structure Response where
  statusCode : ℕ
  content : Content
  headers : Dict String String

namespace Response

/-- `headers[name] = value`. -/
def setHeader (r : Response) (name value : String) : Response :=
  { r with headers := Dict.set r.headers name value }

/-- A `JSONResponse` that says what went wrong. -/
def error (statusCode : ℕ) (message requestId : String) (headers : Dict String String) :
    Response where
  statusCode := statusCode
  content := .json (.object [(Json.text "error", .string (Json.text message)),
    (Json.text "request_id", .string (Json.text requestId))])
  headers := headers

end Response

/-! ### The compatibility layer for OpenAI -/

/-- `_OPENAI_COMPAT_PATHS`. -/
def openaiCompatPaths : List Octets := [ascii "/v1/embeddings"]

/-- The path with one leading slash. -/
def normalizedPath (path : Octets) : Octets := Url.slash :: path.dropWhile (· == Url.slash)

def isOpenaiCompatPath (path : Octets) : Bool := openaiCompatPaths.contains (normalizedPath path)

def rewritePath (path : Octets) : Octets :=
  if openaiCompatPaths.contains (normalizedPath path) then ascii "/api/embed" else path

/-- The path that `proxy_handler` passes on in place of the one of the request. -/
def Request.nativePath (r : Request) : Option Octets :=
  let compatPath := Url.slash :: r.routePath
  if isOpenaiCompatPath compatPath then some (rewritePath compatPath) else none

end OllamaQueueProxy
