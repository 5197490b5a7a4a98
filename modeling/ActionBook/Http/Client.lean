import ActionBook.Action.Basic
import ActionBook.Http.Arrival
import ActionBook.Http.Credentials
import ActionBook.Http.Network
import ActionBook.Plugin.Basic
import ActionBook.Url.Parser

/-!
# `Http.Client`: sending requests

A client checks that a request can be sent, sends it, and follows redirections. What cannot be sent
is a fault of the configuration and reaches no server; what gets lost on the way is a fault of the
connection.
-/

namespace ActionBook.Http

/-- A request that can be sent. -/
structure Outgoing where
  method : String
  /-- The address; its user is among the headers. -/
  url : Url
  /-- Names in lower case with their values. -/
  headers : List (String × String)
  body : Option String

/-! ## Checks -/

/-- The schemes that can be spoken. -/
def spokenSchemes : List (List Char) := [['h', 't', 't', 'p'], ['h', 't', 't', 'p', 's']]

/-- The number of octets that an address stays below. -/
def targetLimit : Nat := 65535

/-- Whether a character may stand in the name of a host that is sent. -/
def isHostChar (c : Char) : Bool := !(c = '"' || c.toNat = 0x60 || c = '{' || c = '}')

/-- Whether an address can be put into a request. -/
def isSendable (u : Url) : Bool :=
  u.scheme ∈ spokenSchemes && u.writeHost.all isHostChar && u.write.length < targetLimit

/-- The fault of something that cannot be put into a request, at an address if there is one. -/
def builderFault (u : Option Url) : PluginError :=
  match u with
  | none => .configuration "builder error"
  | some u => .configuration s!"builder error for url ({u.text})"

/-- The fault of a request that got lost. -/
def sendFault (u : Url) : PluginError := .connection s!"error sending request for url ({u.text})"

/-! ## Headers -/

/-- What this client calls itself. -/
def userAgent : String := "actionhub/0.1.0"

/-- The header, unless there is one of its name. -/
def withDefault (name value : String) (headers : List (String × String)) :
    List (String × String) :=
  if headers.any fun h => h.1 = name then headers else (name, value) :: headers

/-- The headers without those of the given names. -/
def without (names : List String) (headers : List (String × String)) : List (String × String) :=
  headers.filter fun h => h.1 ∉ names

/-- Headers in the order of their names; those of one name stay in order. -/
def inOrder (headers : List (String × String)) : List (String × String) :=
  headers.mergeSort fun a b => a.1 ≤ b.1

/-- The address of a request as it is sent: the user in it becomes a header, if it is one. -/
def sentUrl (url : Url) : Url := if (Credentials.ofUrl? url).isSome then url.withoutUser else url

/-- The request that can be sent for a method, an address, headers and a body, if there is one. An
address without a host is at fault before the headers are looked at, any other only after them. -/
def outgoing (method : String) (url : Url) (headers : List Property) (body : Option String) :
    Except PluginError Outgoing :=
  let sent := sentUrl url
  if sent.writeHost.isEmpty then .error (builderFault (some sent))
  else if headers.all fun h => isHeaderName h.key.toList && isHeaderValue h.value.toList then
    if isSendable sent then
      let given := headers.map fun h => (lowered h.key, h.value)
      let authorization := ((Credentials.ofUrl? url).map fun c => ("authorization", c.header)).toList
      let headers := authorization ++ given |> withDefault "accept" "*/*"
        |> withDefault "user-agent" userAgent
      .ok { method, url := sent, headers, body }
    else .error (builderFault (some sent))
  else .error (builderFault none)

/-- The request as the server sees it. -/
def Outgoing.request (o : Outgoing) : Request where
  method := o.method
  target := String.ofList o.url.withoutUser.writeTarget
  headers :=
    let length := o.body.map fun b => ("content-length", toString (Text.octets b).length)
    inOrder (("host", String.ofList o.url.writeHost) :: length.toList ++ o.headers)
  body := o.body

/-! ## Redirections -/

/-- How many redirections are followed. -/
def redirectionLimit : Nat := 10

/-- The headers that describe a body. -/
def bodyHeaders : List String :=
  ["content-type", "content-length", "content-encoding", "transfer-encoding"]

/-- The headers that are meant for one server only. -/
def privateHeaders : List String :=
  ["authorization", "cookie", "cookie2", "proxy-authorization", "www-authenticate"]

/-- Whether a character is taken for a slash. -/
def isSlash (c : Char) : Bool := c = '/' || c = '\\'

/-- What a reference says about a base, unless it stands for itself. One with the scheme of the base
is about the base if no two slashes follow the scheme. -/
def aboutBase? (base : Url) (reference : List Char) : Option (List Char) :=
  match Url.cutScheme? reference with
  | none => some reference
  | some (scheme, rest) =>
    if scheme = base.scheme && (rest.takeWhile isSlash).length < 2 then some rest else none

/-- The address that a reference at an address stands for. -/
def resolve? [Url.Idna] (base : Url) (reference : List Char) : Option Url :=
  let reference := Url.cleaned reference
  let origin := base.scheme ++ ':' :: base.writeAuthority
  let directory := (base.path.write.reverse.dropWhile (!isSlash ·)).reverse
  let text :=
    match aboutBase? base reference with
    | none => reference
    | some [] => origin ++ base.path.write ++ base.writeQuery
    | some ('?' :: rest) => origin ++ base.path.write ++ '?' :: rest
    | some ('#' :: rest) => origin ++ base.path.write ++ base.writeQuery ++ '#' :: rest
    | some rest =>
      if 2 ≤ (rest.takeWhile isSlash).length then base.scheme ++ ':' :: rest
      else if rest.head?.any isSlash then origin ++ rest
      else origin ++ directory ++ rest
  match Url.parse text with
  | .ok url => some url
  | .error _ => none

/-- Where a response sends the client, if it does. -/
def redirection? [Url.Idna] (o : Outgoing) (r : Response) : Option Url :=
  if r.status ∈ [301, 302, 303, 307, 308] then
    match r.values "location" with
    | [] => none
    | location :: _ => (Text.decode? location).bind (resolve? o.url)
  else none

/-- The request that follows a redirection. A request that had a body may become one that fetches;
what is meant for one server does not go to another; and the new one tells where it was sent
from. -/
def Outgoing.follow (o : Outgoing) (status : Nat) (url : Url) : Outgoing :=
  let dropsBody := status = 303 || ((status = 301 || status = 302) && o.method = "POST")
  let method := if dropsBody && o.method ≠ "HEAD" then "GET" else o.method
  let headers := if dropsBody then without bodyHeaders o.headers else o.headers
  let isElsewhere := url.host ≠ o.url.host || url.port ≠ o.url.port
  let headers := if isElsewhere then without privateHeaders headers else headers
  let from? := { o.url.withoutUser with fragment := none }
  { method, url
    headers := ("referer", from?.text) :: without ["referer"] headers
    body := if dropsBody then none else o.body }

/-! ## Sending -/

/-- What comes of a request. -/
inductive Result where
  | response (r : Response)
  | failed (e : PluginError)
  /-- Nothing ever comes. -/
  | silent

/-- Sends a request and follows redirections, at most as many as given. The body of a response that
redirects is not waited for. -/
def send [Url.Idna] (o : Outgoing) (network : Network) (redirections : Nat) : Result × Network :=
  match network.exchange o.request with
  | (.silent, network) => (.silent, network)
  | (.dropped, network) => (.failed (sendFault o.url), network)
  | (.answered r, network) =>
    match r.received o.method with
    | none => (.failed (sendFault o.url), network)
    | some arrival =>
      match redirection? o arrival.response with
      | none =>
        if arrival.isWhole then (.response arrival.response, network)
        else (.failed (.response "error decoding response body"), network)
      | some url =>
        match redirections with
        | 0 =>
          (.failed (.connection s!"error following redirect for url ({url.text})"), network)
        | redirections + 1 =>
          if isSendable url then send (o.follow arrival.response.status url) network redirections
          else (.failed (builderFault (some url)), network)

end ActionBook.Http
