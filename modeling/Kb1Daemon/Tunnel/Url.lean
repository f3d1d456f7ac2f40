import Kb1Daemon.Foundation.Json
import Kb1Daemon.Manager.Paths
import Kb1Daemon.Vault.Path
import Kb1Daemon.Snapshot.Paths

/-! # References and the URLs they resolve to

A reference is resolved against the URL of the daemon. What comes before its authority decides
whether it has one (`reference`); the authority is cut into a host and a port (`parseAuthority`).
The host parser, the path parser and the parsers of schemes without an authority of this kind are
parameters (`UrlParser`). -/

namespace Kb1Daemon

open JsString Json

def colon : CodeUnit := 58
def questionMark : CodeUnit := 63
def atSign : CodeUnit := 64
def openBracket : CodeUnit := 91
def closeBracket : CodeUnit := 93
def hashMark : CodeUnit := 35
def percent : CodeUnit := 37

namespace Url

/-- The C0 controls and the space. -/
def isC0OrSpace (unit : CodeUnit) : Bool := unit ≤ 32

/-- A reference without controls and spaces around it and without tabs and newlines in it. -/
def stripped (text : JsString) : JsString :=
  ((text.dropWhile isC0OrSpace).reverse.dropWhile isC0OrSpace).reverse.filter fun unit =>
    unit ∉ ([9, 10, 13] : List CodeUnit)

def isAlpha (unit : CodeUnit) : Bool := 97 ≤ foldUnit unit && foldUnit unit ≤ 122

/-- The units of a scheme after its first one. -/
def isSchemeUnit (unit : CodeUnit) : Bool :=
  isAlpha unit || isDigit unit || unit ∈ ([43, 45, 46] : List CodeUnit)

/-- The scheme of a reference and what follows its colon. -/
def splitScheme (text : JsString) : Option (JsString × JsString) :=
  if text.head?.any isAlpha then
    match text.dropWhile isSchemeUnit with
    | [] => none
    | mark :: rest =>
        if mark = colon then some ((text.takeWhile isSchemeUnit).map foldUnit, rest) else none
  else none

/-- The port that a special scheme leaves out. -/
def defaultPort (scheme : JsString) : Option Nat :=
  if scheme = units "http" ∨ scheme = units "ws" then some 80
  else if scheme = units "https" ∨ scheme = units "wss" then some 443
  else if scheme = units "ftp" then some 21
  else none

def isSpecial (scheme : JsString) : Bool :=
  (defaultPort scheme).isSome || scheme = units "file"

def isSlash (unit : CodeUnit) : Bool := unit = slash || unit = backslash

/-- The text starts with two slashes of either kind. -/
def startsAuthority : JsString → Bool
  | first :: second :: _ => isSlash first && isSlash second
  | _ => false

/-- What a reference stands for: a text that keeps the authority of the base, an authority of its
own under a special scheme, a file, or what follows another scheme. -/
inductive Reference where
  | relative (rest : JsString)
  | authority (scheme rest : JsString)
  | file (rest : JsString)
  | other (scheme rest : JsString)
  deriving DecidableEq, Repr

/-- A reference against a base with a special scheme that is no file. -/
def reference (baseScheme text : JsString) : Reference :=
  match splitScheme text with
  | some (scheme, rest) =>
      if scheme = units "file" then .file rest
      else if !isSpecial scheme then .other scheme rest
      else if scheme = baseScheme && !startsAuthority rest then .relative rest
      else .authority scheme (rest.dropWhile isSlash)
  | none =>
      if startsAuthority text then .authority baseScheme (text.dropWhile isSlash)
      else .relative text

/-- A reference with an authority of its own has a special scheme. -/
theorem isSpecial_of_reference_authority {baseScheme text scheme rest : JsString}
    (special : isSpecial baseScheme = true)
    (referred : reference baseScheme text = .authority scheme rest) : isSpecial scheme = true := by
  rw [reference] at referred
  split at referred
  · split_ifs at referred with file other same
    cases referred
    simpa using other
  · split_ifs at referred
    cases referred
    exact special

theorem not_isSpecial_of_reference_other {baseScheme text scheme rest : JsString}
    (referred : reference baseScheme text = .other scheme rest) : isSpecial scheme = false := by
  rw [reference] at referred
  split at referred
  · split_ifs at referred with file other same
    cases referred
    simpa using other
  · split_ifs at referred

/-- A reference with an authority of its own is no file. -/
theorem ne_file_of_reference_authority {baseScheme text scheme rest : JsString}
    (base : baseScheme ≠ units "file")
    (referred : reference baseScheme text = .authority scheme rest) : scheme ≠ units "file" := by
  rw [reference] at referred
  split at referred
  · split_ifs at referred with file other same
    cases referred
    exact file
  · split_ifs at referred
    cases referred
    exact base

/-- The units that end an authority. -/
def endsAuthority (unit : CodeUnit) : Bool :=
  isSlash unit || unit = questionMark || unit = hashMark

/-- An authority without what comes before its last at sign. -/
def withoutCredentials (authority : JsString) : JsString :=
  (authority.reverse.takeWhile (· ≠ atSign)).reverse

/-- The text before the first colon that is not in brackets, and the text after it. -/
def splitPort (inBrackets : Bool) : JsString → JsString × Option JsString
  | [] => ([], none)
  | unit :: rest =>
      if unit = colon && !inBrackets then ([], some rest)
      else
        let split := splitPort ((inBrackets || unit = openBracket) && unit ≠ closeBracket) rest
        (unit :: split.1, split.2)

/-- The port of a special URL; its default port counts as none. -/
def parsePort (scheme : JsString) : Option JsString → Option (Option Nat)
  | none => some none
  | some [] => some none
  | some digits =>
      if !digits.all isDigit then none
      else if 65535 < digitsValue 10 digitValue 0 digits then none
      else if defaultPort scheme = some (digitsValue 10 digitValue 0 digits) then some none
      else some (some (digitsValue 10 digitValue 0 digits))

/-- The text after the first hash mark. -/
def hashOf (text : JsString) : JsString := (text.dropWhile (· ≠ hashMark)).drop 1

/-- The text before a query or a hash. -/
def pathText (text : JsString) : JsString :=
  text.takeWhile fun unit => unit ≠ questionMark && unit ≠ hashMark

end Url

/-- The host of a special URL, its port, and the text after its authority. -/
structure UrlAuthority where
  host : JsString
  port : Option Nat
  rest : JsString
  deriving DecidableEq, Repr

/-- The parts of the URL parser that do not decide whether a reference has an authority: the
parser of a host, the parser of a path against the path of the base, what `file:` and other
schemes parse to, and the origin of the path of a `blob:` URL. -/
structure UrlParser where
  host : JsString → Option JsString
  pathname : Option JsString → JsString → JsString
  file : JsString → Option (JsString × JsString)
  other : JsString → JsString → Option JsString
  blobOrigin : JsString → Option (JsString × JsString × Option Nat)

/-- A URL; only special URLs have a host here, and the hash is not encoded. -/
structure Url where
  scheme : JsString
  host : JsString
  port : Option Nat
  pathname : JsString
  hash : JsString
  deriving DecidableEq, Repr

/-- The URL of the daemon. -/
structure DaemonUrl where
  secure : Bool
  host : JsString
  port : Option Nat
  pathname : JsString
  deriving DecidableEq, Repr

def DaemonUrl.scheme (daemon : DaemonUrl) : JsString :=
  if daemon.secure then units "https" else units "http"

theorem DaemonUrl.isSpecial_scheme (daemon : DaemonUrl) :
    Url.isSpecial daemon.scheme = true := by
  rw [scheme]
  cases daemon.secure <;> decide

theorem DaemonUrl.scheme_ne_file (daemon : DaemonUrl) : daemon.scheme ≠ units "file" := by
  rw [scheme]
  cases daemon.secure <;> decide

theorem DaemonUrl.scheme_eq_https_iff (daemon : DaemonUrl) :
    daemon.scheme = units "https" ↔ daemon.secure = true := by
  rw [scheme]
  cases daemon.secure <;> decide

theorem DaemonUrl.scheme_eq_http_iff (daemon : DaemonUrl) :
    daemon.scheme = units "http" ↔ daemon.secure = false := by
  rw [scheme]
  cases daemon.secure <;> decide

namespace Url

variable (parser : UrlParser)

def parseAuthority (scheme text : JsString) : Option UrlAuthority :=
  let authority := withoutCredentials (text.takeWhile fun unit => !endsAuthority unit)
  let split := splitPort false authority
  if split.1 = [] then none
  else (parser.host split.1).bind fun host =>
    (parsePort scheme split.2).map fun port =>
      ⟨host, port, text.dropWhile fun unit => !endsAuthority unit⟩

/-- `new URL` of a reference and the URL of the daemon. -/
def resolve (daemon : DaemonUrl) (text : JsString) : Option Url :=
  match reference daemon.scheme (stripped text) with
  | .relative rest =>
      some ⟨daemon.scheme, daemon.host, daemon.port,
        parser.pathname (some daemon.pathname) (pathText rest), hashOf rest⟩
  | .authority scheme rest =>
      (parseAuthority parser scheme rest).map fun authority =>
        ⟨scheme, authority.host, authority.port, parser.pathname none (pathText authority.rest),
          hashOf authority.rest⟩
  | .file rest =>
      (parser.file rest).map fun parsed => ⟨units "file", parsed.1, none, parsed.2, hashOf rest⟩
  | .other scheme rest =>
      (parser.other scheme rest).map fun pathname => ⟨scheme, [], none, pathname, hashOf rest⟩

/-- The origin, when it is not opaque. -/
def origin (url : Url) : Option (JsString × JsString × Option Nat) :=
  if (defaultPort url.scheme).isSome then some (url.scheme, url.host, url.port)
  else if url.scheme = units "blob" then parser.blobOrigin url.pathname
  else none

/-- The setter of `protocol`, for a web socket scheme. -/
def setProtocol (url : Url) (scheme : JsString) : Url :=
  if !isSpecial url.scheme then url
  else if url.scheme = units "file" ∧ url.host = [] then url
  else { url with
    scheme := scheme
    port := if url.port = defaultPort scheme then none else url.port }

end Url

end Kb1Daemon
