import Sret.Http
import Sret.Router

namespace Sret

open Text

/-!
# The request handler

The pure parts of `handle_request` and `do_proxy_request`, in the order in which a request goes
through them:

* `generateCacheKey`, `cacheKey` — the key under which the answer may be cached;
* `requestHost` — the host that the router sees;
* `targetPath`, `targetUrl` — the URL that the request is sent to, put together as text;
* `forwardedHeaders`, `upstreamRequest` — the request that is sent;
* `notFound`, `badGateway`, `relayedResponse` — the answers.
-/

/-! ### The cache key -/

/-- `is_cacheable_method`. -/
def isCacheableMethod : Method → Bool
  | .get | .head => true
  | _ => false

/-- `generate_cache_key`. -/
def generateCacheKey (method path : Str) (headers : HeaderMap) (query : Option Str) : Str :=
  let host := (headers.get HeaderName.host).bind HeaderValue.toStr
  let cookieHeader := (headers.get HeaderName.cookie).bind HeaderValue.toStr
  let authHeader := (headers.get HeaderName.authorization).bind HeaderValue.toStr
  let key := match host with
    | some host => method ++ ":".toList ++ host ++ path
    | none => method ++ ":".toList ++ path
  let key := match query with
    | some query => key ++ "?".toList ++ query
    | none => key
  let key := match cookieHeader with
    | some cookie => key ++ ";cookie:".toList ++ cookie
    | none => key
  match authHeader with
  | some auth => key ++ ";auth:".toList ++ auth
  | none => key

/-- The cache key of a request, when the server has a cache and the method allows it. -/
def cacheKey (hasCache : Bool) (req : Request) : Option Str :=
  if hasCache then
    if isCacheableMethod req.method then
      some (generateCacheKey req.method.asStr req.uri.path req.headers req.uri.query)
    else none
  else none

/-- A key means that there is a cache. -/
theorem cacheKey_true {hasCache : Bool} {req : Request} {key : Str}
    (h : cacheKey hasCache req = some key) : cacheKey true req = some key := by
  cases hasCache with
  | true => exact h
  | false => simp [cacheKey] at h

/-- Only GET and HEAD requests have a key, the generated one. -/
theorem cacheKey_eq_some {hasCache : Bool} {req : Request} {key : Str}
    (h : cacheKey hasCache req = some key) :
    isCacheableMethod req.method = true ∧
      key = generateCacheKey req.method.asStr req.uri.path req.headers req.uri.query := by
  have hkey := cacheKey_true h
  unfold cacheKey at hkey
  rw [if_pos rfl] at hkey
  split at hkey
  · exact ⟨‹_›, (Option.some.inj hkey).symm⟩
  · simp at hkey

/-! ### The target URL -/

/-- The host that `handle_request` passes to the router. -/
def requestHost (req : Request) : Option Str :=
  (req.headers.get HeaderName.host).bind HeaderValue.toStr

/-- `target_path`: the path without the matched prefix. -/
def targetPath (matchedPrefix : Option Str) (path : Str) : Str :=
  match matchedPrefix with
  | some pre => (stripPrefix path pre).getD path
  | none => path

/-- `target_url`. -/
def targetUrl (target : Target) (targetPath : Str) (query : Option Str) : Str :=
  "http://".toList ++ target.host ++ ":".toList ++ decimal target.port ++ targetPath ++
    (query.map fun q => "?".toList ++ q).getD []

/-- The URL that a routed request is sent to. -/
def routedUrl (d : Routed) (req : Request) : Str :=
  targetUrl d.target (targetPath d.matchedPrefix req.uri.path) req.uri.query

/-! ### The request that is sent and the answers -/

/-- The header lines that are sent on: all but Host, if they are visible ASCII. -/
def forwardedHeaders (headers : HeaderMap) : List (HeaderName × Str) :=
  headers.lines.filterMap fun l =>
    if l.1 ≠ HeaderName.host then l.2.toStr.map fun value => (l.1, value) else none

/-- The request that the client is given.  It follows redirects. -/
structure UpstreamRequest where
  method : Method
  url : Str
  headers : List (HeaderName × Str)
  body : Option (List UInt8)

/-- The request that `do_proxy_request` builds once it has read the body. -/
def upstreamRequest (req : Request) (targetUrl : Str) (bodyBytes : List UInt8) :
    UpstreamRequest where
  method := req.method
  url := targetUrl
  headers := forwardedHeaders req.headers
  body := if bodyBytes.isEmpty then none else some bodyBytes

/-- The answer to a request that no route takes. -/
def notFound : Response :=
  ⟨404, HeaderMap.empty, "No matching route found".toList.map fun c => UInt8.ofNat c.toNat⟩

/-- The answer when the proxied request failed. -/
def badGateway : Response :=
  ⟨502, HeaderMap.empty, "Bad Gateway".toList.map fun c => UInt8.ofNat c.toNat⟩

/-- The answer to a proxied request: status, headers and body of the response that the client
    returns. -/
def relayedResponse (response : Response) : Response where
  status := response.status
  headers := response.headers
  body := response.body

end Sret
