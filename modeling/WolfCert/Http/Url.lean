import WolfCert.Address
import WolfCert.Http.Env
import WolfCert.Http.Fields

/-!
# URLs and the request head

`wolfcert_http_url_parse`, `basic_auth_header` and `build_head`.
-/

namespace WolfCert.Http

open WolfCert.CLib

variable {σ : Type}

def maxHostLen : Nat := 256

def maxPathLen : Nat := 8192

def authBufSz : Nat := 512

def versionString : Bytes := ascii "0.1.0"

structure Url where
  scheme : Bytes
  host : Bytes
  port : Int
  path : Bytes
  tls : Bool
deriving DecidableEq, Repr

/-- The default port and the TLS flag of a scheme. -/
def schemeDefaults (scheme : Bytes) : Option (Int × Bool) :=
  if ciCmp scheme (ascii "https") = 0 then some (443, true)
  else if ciCmp scheme (ascii "http") = 0 then some (80, false)
  else none

/-- The host of an authority and what follows it. -/
def splitHost (hostStart : Bytes) : Option (Bytes × Bytes) :=
  if charAt hostStart = 91 then
    match strstr [93] hostStart.tail with
    | none => none
    | some (host, rest) => some (host, rest)
  else
    let inHost := fun c : UInt8 => c != 58 && c != 47 && c != 63 && c != 35
    some (hostStart.takeWhile inHost, hostStart.dropWhile inHost)

/-- The port after the host, when one is written. -/
def splitPort (port : Int) (hostEnd : Bytes) : Option (Int × Bytes) :=
  if charAt hostEnd = 58 then
    let (p, rest) := strtol hostEnd.tail
    if p ≤ 0 ∨ p > 65535 then none else some (p, rest)
  else some (port, hostEnd)

/-- The request target without its fragment; an empty path becomes `/`. -/
def targetPath (hostEnd : Bytes) : Bytes :=
  let target := hostEnd.takeWhile (· != 35)
  if charAt hostEnd = 47 then target else 47 :: target

/-- The parse after the scheme: host, port and path, each in its own allocation. -/
def urlParseRest (env : Env σ) (w : σ) (scheme : Bytes) (port : Int) (tls : Bool)
    (hostStart : Bytes) : Except Rc Url × σ :=
  match splitHost hostStart with
  | none => (.error .errParse, w)
  | some (host, hostEnd) =>
      if host.length > maxHostLen then (.error .errParse, w)
      else
        env.withAlloc w (host.length + 1) (.error .errMemory) fun w =>
          match splitPort port hostEnd with
          | none => (.error .errParse, w)
          | some (port, hostEnd) =>
              let path := targetPath hostEnd
              if path.length > maxPathLen then (.error .errParse, w)
              else
                env.withAlloc w (path.length + 1) (.error .errMemory) fun w =>
                  (.ok { scheme, host, port, path, tls }, w)

def httpUrlParse (env : Env σ) (w : σ) (url : Bytes) : Except Rc Url × σ :=
  match strstr (ascii "://") url with
  | none =>
      env.withAlloc w 6 (.error .errMemory) fun w =>
        urlParseRest env w (ascii "https") 443 true url
  | some (scheme, hostStart) =>
      if scheme.length > 16 then (.error .errParse, w)
      else
        env.withAlloc w (scheme.length + 1) (.error .errMemory) fun w =>
          match schemeDefaults scheme with
          | none => (.error .errUnsupported, w)
          | some (port, tls) => urlParseRest env w scheme port tls hostStart

def basicAuthHeader (env : Env σ) (w : σ) (user pass : Bytes) : Except Rc Bytes × σ :=
  let raw := user ++ [58] ++ pass
  env.withAlloc w raw.length (.error .errMemory) fun w =>
    env.withAlloc w ((raw.length + 2) / 3 * 4 + 4) (.error .errMemory) fun w =>
      match env.base64EncodeNoNl raw with
      | none => (.error .errCrypto, w)
      | some enc =>
          let line := ascii "Authorization: Basic " ++ enc ++ [13, 10]
          if line.length ≥ authBufSz then (.error .errMemory, w) else (.ok line, w)

/-- `WolfCertHttpRequest`, the fields the session reads; absent strings are NULL. -/
structure HttpRequest where
  method : Bytes
  url : Bytes
  contentType : Option Bytes
  contentTransferEncoding : Option Bytes
  accept : Option Bytes
  body : Bytes
  basicUser : Option Bytes
  basicPass : Option Bytes
deriving DecidableEq, Repr

def hostIsIpLiteral (host : Bytes) : Bool :=
  match parseIp host with
  | some ip => ip.length == 16
  | none => false

def optionalLine (name : String) : Option Bytes → Bytes
  | some value => ascii name ++ value ++ [13, 10]
  | none => []

def portFragment (u : Url) : Bytes :=
  if (u.tls = true ∧ u.port ≠ 443) ∨ (u.tls = false ∧ u.port ≠ 80) then
    ascii ":" ++ decimal u.port.toNat
  else []

/-- The text `build_head` formats, `auth` being the Authorization line or nothing. -/
def headText (keepAlive : Bool) (req : HttpRequest) (u : Url) (auth : Bytes) : Bytes :=
  let openBr := if hostIsIpLiteral u.host then ascii "[" else []
  let closeBr := if hostIsIpLiteral u.host then ascii "]" else []
  req.method ++ ascii " " ++ u.path ++ ascii " HTTP/1.1\r\n" ++
  ascii "Host: " ++ openBr ++ u.host ++ closeBr ++ portFragment u ++ [13, 10] ++
  ascii "User-Agent: wolfCert/" ++ versionString ++ [13, 10] ++
  ascii "Connection: " ++ (if keepAlive then ascii "keep-alive" else ascii "close") ++ [13, 10] ++
  optionalLine "Accept: " req.accept ++
  optionalLine "Content-Type: " req.contentType ++
  optionalLine "Content-Transfer-Encoding: " req.contentTransferEncoding ++
  ascii "Content-Length: " ++ decimal req.body.length ++ [13, 10] ++
  auth ++ [13, 10]

def optionLength : Option Bytes → Nat
  | some value => value.length
  | none => 0

def headCap (req : HttpRequest) (u : Url) (auth : Bytes) : Nat :=
  1024 + optionLength req.contentType + optionLength req.contentTransferEncoding +
    optionLength req.accept + u.host.length + u.path.length + auth.length

/-- The head allocation and the formatting into it, which must fit. -/
def formatHead (env : Env σ) (w : σ) (keepAlive : Bool) (req : HttpRequest) (u : Url)
    (auth : Bytes) : Except Rc Bytes × σ :=
  env.withAlloc w (headCap req u auth) (.error .errMemory) fun w =>
    let head := headText keepAlive req u auth
    if head.length ≥ headCap req u auth then (.error .errMemory, w) else (.ok head, w)

def buildHead (env : Env σ) (w : σ) (keepAlive : Bool) (req : HttpRequest) (u : Url) :
    Except Rc Bytes × σ :=
  match req.basicUser with
  | none => formatHead env w keepAlive req u []
  | some user =>
      match basicAuthHeader env w user (req.basicPass.getD []) with
      | (.error rc, w) => (.error rc, w)
      | (.ok auth, w) => formatHead env w keepAlive req u auth

end WolfCert.Http
