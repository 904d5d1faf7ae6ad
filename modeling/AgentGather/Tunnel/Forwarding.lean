import AgentGather.Library.Base64
import AgentGather.Library.Json
import AgentGather.Library.Utf8
import AgentGather.Protocol.Urls
import AgentGather.Tunnel.Relay

/-!
# Forwarding

A participant's request reaches the room server directly, by the broker's own `fetch`, or
through the relay: the broker puts it into an envelope, the host fetches it from its local
room server and sends the response back, with both bodies in base64.  `fetch` is a
parameter; it is none where it throws.
-/

namespace AgentGather.Tunnel

open AgentGather.Library AgentGather.Protocol

abbrev Bytes := List UInt8

/-! ## Requests -/

/-- The value of a header, as Node gives it. -/
inductive HeaderValue where
  | single (value : String)
  | repeated (values : List String)
deriving DecidableEq, Repr

def HeaderValue.text : HeaderValue → String
  | .single value => value
  | .repeated values => ", ".intercalate values

/-- The headers of a request; Node gives their names in lower case. -/
structure IncomingHeaders where
  map : OrderedMap String (Option HeaderValue)
  lower : ∀ name ∈ map.keys, name.toLower = name

/-- A request with its body in the chunks in which it is read. -/
structure IncomingMessage where
  method : Option String
  headers : IncomingHeaders
  chunks : List Bytes

def IncomingMessage.verb (req : IncomingMessage) : String := req.method.getD "GET"

/-- What the room server is asked; the order of the headers does not matter. -/
structure FetchRequest where
  url : List Char
  method : String
  headers : String → Option String
  body : Option Bytes

/-- What the room server answers: a header by its name, the declared length if there is one,
and the chunks of the body, if there is a body at all. -/
structure HostResponse where
  status : Nat
  header : String → Option String
  contentLength : Option Nat
  body : Option (List Bytes)

def HostResponse.bytes (response : HostResponse) : Bytes := (response.body.getD []).flatten

/-- What is written to the participant, a header by its name; a response that is not
completed is cut off. -/
structure WrittenResponse where
  status : Nat
  headers : String → Option String
  body : Bytes
  completed : Bool

structure ForwardResult where
  status : Nat
  bytesIn : Nat
  bytesOut : Nat
deriving DecidableEq, Repr

/-- One forwarded request: what the room server saw, what the participant was sent, and what
the forwarding returned. -/
structure Exchange where
  seen : List FetchRequest
  written : Option WrittenResponse
  result : Except TunnelError ForwardResult

/-! ## Headers -/

def forwardedRequestHeaders : List String := ["authorization", "content-type", "accept"]

def envelopeHeaders : List String :=
  ["authorization", "content-type", "accept", "origin", "referer"]

def forwardedResponseHeaders : List String :=
  ["content-type", "content-security-policy", "x-content-type-options", "referrer-policy"]

/-- The headers of these names, each as one text. -/
def selectHeaders (names : List String) (headers : IncomingHeaders) :
    OrderedMap String String :=
  OrderedMap.select String.toLower (fun name value =>
    if names.contains name.toLower then value.map HeaderValue.text else none)
    headers.map.entries

/-- A header of the participant is there. -/
def IncomingHeaders.has (headers : IncomingHeaders) (name : String) : Bool :=
  (headers.map.get? name).join.isSome

def selectRequestHeaders (headers : IncomingHeaders) (targetOrigin : String) :
    OrderedMap String String :=
  let selected := selectHeaders forwardedRequestHeaders headers
  let selected := if headers.has "origin" then selected.set "origin" targetOrigin else selected
  if headers.has "referer" then selected.set "referer" (targetOrigin ++ "/") else selected

def selectEnvelopeHeaders (headers : IncomingHeaders) : List (String × String) :=
  (selectHeaders envelopeHeaders headers).entries

def translateEnvelopeHeaders (headers : List (String × String)) (targetOrigin : String) :
    OrderedMap String String :=
  OrderedMap.select String.toLower (fun name value =>
    if name.toLower = "origin" then some targetOrigin
    else if name.toLower = "referer" then some (targetOrigin ++ "/")
    else if forwardedRequestHeaders.contains name.toLower then some value
    else none) headers

/-- The headers of a response that are forwarded. -/
def selectForwardedResponseHeaders (header : String → Option String) :
    OrderedMap String String :=
  OrderedMap.select id (fun name _ => header name)
    (forwardedResponseHeaders.map fun name => (name, ()))

/-! ## Bodies -/

def requestTooLarge : TunnelError :=
  ⟨.requestTooLarge, 413, "request body exceeds the broker limit"⟩

/-- The chunks read so far and the rest, up to the limit; no chunks are no body. -/
def collectBody (limitBytes total : Nat) (collected : List Bytes) :
    List Bytes → Except TunnelError (Option Bytes)
  | [] => .ok (if collected = [] then none else some collected.flatten)
  | chunk :: chunks =>
      if limitBytes < total + chunk.length then .error requestTooLarge
      else collectBody limitBytes (total + chunk.length) (collected ++ [chunk]) chunks

def bodiless (method : String) : Prop := method = "GET" ∨ method = "HEAD"

instance (method : String) : Decidable (bodiless method) := inferInstanceAs (Decidable (_ ∨ _))

/-- `readRequestBody` of the direct forwarding, and `readBody` of the broker. -/
def readRequestBody (req : IncomingMessage) (limitBytes : Nat) :
    Except TunnelError (Option Bytes) :=
  if bodiless req.verb then .ok none else collectBody limitBytes 0 [] req.chunks

/-- Write the chunks through until the limit is passed. -/
def streamChunks (limitBytes : Nat) (out : Bytes) : List Bytes → Bytes × Bool
  | [] => (out, true)
  | chunk :: chunks =>
      if limitBytes < out.length + chunk.length then (out, false)
      else streamChunks limitBytes (out ++ chunk) chunks

/-! ## The target -/

/-- The base URL of the room server, and its origin. -/
structure TargetBase where
  base : List Char
  origin : String

def targetBase (H : HostParser) (target : List Char) : Option TargetBase := do
  let base ← normalizeBaseUrl H target
  let url ← Url.parse H none base
  return ⟨base, String.ofList url.origin⟩

def targetUrl (target : TargetBase) (path : List Char) : List Char :=
  target.base ++ if path.head? = some '/' then path else '/' :: path

/-- What the participant is told of an error that is not the tunnel's. -/
def internalTunnelError : TunnelError := ⟨.internalError, 500, "internal tunnel error"⟩

/-! ## Directly -/

structure ForwardOptions where
  target : List Char
  path : List Char
  req : IncomingMessage
  requestBodyBytes : Nat
  responseBodyBytes : Nat

def couldNotReach : TunnelError :=
  ⟨.internalError, 502, "could not reach the host room server"⟩

/-- The response is streamed; one that declares too much is rejected before. -/
def forwardResponse (responseBodyBytes : Nat) (request : FetchRequest)
    (response : HostResponse) : Exchange :=
  if responseBodyBytes < response.contentLength.getD 0 then
    ⟨[request], none, .error responseTooLarge⟩
  else
    let headers := selectForwardedResponseHeaders response.header
    let streamed := streamChunks responseBodyBytes [] (response.body.getD [])
    ⟨[request], some ⟨response.status, headers.get?, streamed.1, streamed.2⟩,
      if streamed.2 then
        .ok ⟨response.status, (request.body.getD []).length, streamed.1.length⟩
      else .error responseTooLarge⟩

def forwardToHost (H : HostParser) (fetch : FetchRequest → Option HostResponse)
    (o : ForwardOptions) : Exchange :=
  match targetBase H o.target with
  | none => ⟨[], none, .error internalTunnelError⟩
  | some target =>
      match readRequestBody o.req o.requestBodyBytes with
      | .error e => ⟨[], none, .error e⟩
      | .ok body =>
          let request : FetchRequest := ⟨targetUrl target o.path, o.req.verb,
            (selectRequestHeaders o.req.headers target.origin).get?, body⟩
          match fetch request with
          | none => ⟨[request], none, .error couldNotReach⟩
          | some response => forwardResponse o.responseBodyBytes request response

/-! ## Through the relay -/

def unreachable : TunnelError := ⟨.hostUnavailable, 502, "host room server is unreachable"⟩

def hostResponseTooLarge : TunnelError :=
  ⟨.responseTooLarge, 502, "host response exceeds the broker limit"⟩

def bodyText (bytes : Bytes) : String := String.ofList (Base64.encode bytes)

def bodyBytes (text : String) : Bytes := Base64.decode text.toList

/-- What the room server saw of an envelope, and the envelope of its response; none is an
error that is not the tunnel's. -/
def relayToLocalServer (H : HostParser) (fetch : FetchRequest → Option HostResponse)
    (target : List Char) (request : ForwardedRequest) (responseBodyBytes : Nat) :
    List FetchRequest × Except (Option TunnelError) ForwardedResponse :=
  match targetBase H target with
  | none => ([], .error none)
  | some target =>
      let envelope := request.envelope
      let fetched : FetchRequest := ⟨targetUrl target envelope.path.toList, envelope.method,
        (translateEnvelopeHeaders envelope.headers target.origin).get?,
        if bodiless envelope.method then none else envelope.bodyBase64.map bodyBytes⟩
      match fetch fetched with
      | none => ([fetched], .error (some unreachable))
      | some response =>
          let buffer := response.bytes
          if responseBodyBytes < buffer.length then
            ([fetched], .error (some hostResponseTooLarge))
          else ([fetched], .ok ⟨response.status,
            (selectForwardedResponseHeaders response.header).entries,
            if 0 < buffer.length then some (bodyText buffer) else none⟩)

/-- A failure becomes a response, so that the participant never hangs. -/
def failureResponse (error : Option TunnelError) : ForwardedResponse :=
  let code := (error.map TunnelError.code).getD .hostUnavailable
  let body := Json.print (.obj [("ok", .bool false), ("error", .str code.text)])
  ⟨(error.map TunnelError.status).getD 502,
    [("content-type", "application/json; charset=utf-8")],
    some (bodyText ((Utf8.encode body).map UInt8.ofNat))⟩

/-- What the host responds to a request it has claimed. -/
def handleClaim (H : HostParser) (fetch : FetchRequest → Option HostResponse)
    (target : List Char) (responseBodyBytes : Nat) (request : ForwardedRequest) :
    List FetchRequest × ForwardedResponse :=
  match relayToLocalServer H fetch target request responseBodyBytes with
  | (seen, .ok response) => (seen, response)
  | (seen, .error error) => (seen, failureResponse error)

/-- An envelope through the hub: queued, claimed, answered by the host, and settled. -/
def throughHub (o : RelayOptions) (mint : IdSupply) (envelope : RequestEnvelope)
    (host : ForwardedRequest → List FetchRequest × ForwardedResponse) :
    List FetchRequest × Except TunnelError ForwardedResponse :=
  let queued := RelayHub.initial.enqueue o mint envelope.routeSlug envelope
  match queued.1.claim o envelope.routeSlug with
  | (_, none) => ([], .error didNotAttend)
  | (hub, some request) =>
      let (seen, response) := host request
      match (hub.respond o request.requestId response).1.settlements.lookup queued.2 with
      | some (.resolved response) => (seen, .ok response)
      | some (.rejected e) => (seen, .error e)
      | none => (seen, .error didNotRespond)

/-- Of the response's envelope only the forwarded headers are written. -/
def writeRelayed (response : ForwardedResponse) : WrittenResponse :=
  ⟨response.status, (OrderedMap.select String.toLower (fun name value =>
      if forwardedResponseHeaders.contains name.toLower then some value else none)
      response.headers).get?,
    (response.bodyBase64.map bodyBytes).getD [], true⟩

/-- To a route whose host is attending. -/
def forwardViaRelay (slug : String) (path : List Char) (req : IncomingMessage)
    (requestBodyBytes : Nat)
    (relay : RequestEnvelope → List FetchRequest × Except TunnelError ForwardedResponse) :
    Exchange :=
  match readRequestBody req requestBodyBytes with
  | .error e => ⟨[], none, .error e⟩
  | .ok body =>
      match relay ⟨slug, req.verb, String.ofList path, selectEnvelopeHeaders req.headers,
        body.map bodyText⟩ with
      | (seen, .error e) => ⟨seen, none, .error e⟩
      | (seen, .ok response) =>
          let written := writeRelayed response
          ⟨seen, some written, .ok ⟨response.status, (body.getD []).length,
            written.body.length⟩⟩

/-- The two ends of the relay, with the hub between them. -/
def relayed (H : HostParser) (fetch : FetchRequest → Option HostResponse) (mint : IdSupply)
    (timeouts : RelayOptions) (slug : String) (o : ForwardOptions) : Exchange :=
  forwardViaRelay slug o.path o.req o.requestBodyBytes fun envelope =>
    throughHub { timeouts with responseBodyBytes := o.responseBodyBytes } mint envelope
      (handleClaim H fetch o.target o.responseBodyBytes)

end AgentGather.Tunnel
