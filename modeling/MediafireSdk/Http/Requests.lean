import Mathlib.Tactic
import MediafireSdk.Utils.Base64

/-! What a request is made of: URLs (`url.cpp`), proxies and the redirect policy
(`http_config.hpp`), and the headers that are written to a proxy (`state_proxy_connect.hpp`)
and to a server (`state_send_header.hpp`). Strings hold one character for each byte. -/

namespace MediafireSdk.Http

/-! ### URLs -/

/-- `std::search`: what stands before the first separator and what behind it. -/
def search (separator : List Char) : List Char → Option (List Char × List Char)
  | [] => none
  | c :: text =>
    if separator.isPrefixOf (c :: text) then some ([], (c :: text).drop separator.length)
    else (search separator text).map fun (before, after) => (c :: before, after)

/-- The parts of a URL that requests use. -/
structure Url where
  fullUrl : String
  scheme : String
  host : String
  port : String
  fullPath : String
  deriving DecidableEq, Repr

/-- The constructor; `none` is `InvalidUrl` with the text `Invalid scheme separator`. -/
def Url.parse (url : String) : Option Url := do
  let (scheme, rest) ← search "://".toList url.toList
  let (chunk, path) := (rest.takeWhile (· ≠ '/'), rest.dropWhile (· ≠ '/'))
  let login := match search ['@'] chunk with
    | some (_, host) => host
    | none => chunk
  let (host, port) := (search [':'] login).getD (login, [])
  return {
    fullUrl := url
    scheme := String.ofList scheme
    host := String.ofList host
    port := String.ofList port
    fullPath := if path = [] then "/" else String.ofList path }

/-! ### Configuration -/

structure Proxy where
  host : String
  port : ℕ
  username : String
  password : String
  deriving DecidableEq, Repr

inductive RedirectPolicy where
  | deny | denyDowngrade | allow
  deriving DecidableEq, Repr

/-- What is posted: a buffer, or what a pipe of that size gives chunk by chunk. -/
inductive Post where
  | data (bytes : List UInt8)
  | pipe (postDataSize : ℕ)
  deriving DecidableEq, Repr

/-! ### Base64 -/

/-- The encoder of `base64.cpp` on the bytes that the characters stand for. -/
def base64Encode (text : String) : String :=
  String.ofList ((Utils.Base64.base64Encode
    (text.toList.map fun c => UInt8.ofNat c.toNat)).map fun b => Char.ofNat b.toNat)

example : base64Encode "user:pw" = "dXNlcjpwdw==" := by decide +kernel

/-! ### Requests -/

/-- The credentials of a proxy as its header has them, if it has any. -/
def Proxy.authorization (proxy : Proxy) : Option String :=
  if proxy.username = "" then none
  else some ("Basic " ++ base64Encode (proxy.username ++ ":" ++ proxy.password))

/-- The headers of a request. The value of `Proxy-Authorization` stands apart from the headers
that the caller sets. -/
structure Request where
  line : String
  firstHeader : String × String
  proxyAuthorization : Option String
  headers : List (String × String)
  deriving DecidableEq, Repr

/-- What is written. -/
def Request.text (request : Request) : String :=
  let authorization := (request.proxyAuthorization.map ("Proxy-Authorization", ·)).toList
  (request.firstHeader :: authorization ++ request.headers).foldl
    (fun text (name, value) => text ++ name ++ ": " ++ value ++ "\r\n") (request.line ++ "\r\n")
    ++ "\r\n"

def lower (text : String) : String := String.ofList (text.toList.map Char.toLower)

/-- `boost::iequals`. -/
def iequals (a b : String) : Bool := lower a = lower b

/-- `SetHeader`: the value of the name that is there in any case, or a new header. -/
def setHeader (name value : String) : List (String × String) → List (String × String)
  | [] => [(name, value)]
  | header :: headers =>
    if iequals header.1 name then (header.1, value) :: headers
    else header :: setHeader name value headers

/-- Without the headers that are left out over SSL. -/
def sentHeaders (isSsl : Bool) (headers : List (String × String)) : List (String × String) :=
  headers.filter fun header => !(isSsl && lower header.1 = "accept-encoding")

/-- The request of `SendHeader`, to a proxy or without one. -/
def serverRequest (method : String) (url : Url) (isSsl : Bool) (proxy : Option Proxy)
    (headers : List (String × String)) : Request where
  line := method ++ " " ++ (if proxy.isSome then url.fullUrl else url.fullPath) ++ " HTTP/1.1"
  firstHeader := ("Host", url.host)
  proxyAuthorization := if isSsl then none else proxy.bind Proxy.authorization
  headers := sentHeaders isSsl headers

/-- The request of `ProxyConnect`. -/
def connectRequest (url : Url) (proxy : Option Proxy) : Request where
  line := "CONNECT " ++ url.host ++ ":" ++ (if url.port ≠ "" then url.port
    else if url.scheme = "https" then "443" else "80") ++ " HTTP/1.1"
  firstHeader := ("User-Agent", "HttpRequester")
  proxyAuthorization := proxy.bind Proxy.authorization
  headers := []

end MediafireSdk.Http
