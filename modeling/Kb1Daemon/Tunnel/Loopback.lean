import Kb1Daemon.Tunnel.Routing
import Kb1Daemon.Tunnel.Url

/-! # Where the relay can reach

The relay chooses the path of every request that the tunnel client makes for it. An HTTP request
is forwarded only to the origin of the daemon and never to its private endpoints; a document
stream is opened wherever its path resolves to. So a message of the relay reaches only the daemon
exactly when it is an HTTP request, or the path of its document stream has no authority but the
daemon's (`relay_confined_iff`).
-/

namespace Kb1Daemon

open JsString Json

/-- The percent sequences at the front, and the text after them. -/
def percentRun : Nat → JsString → JsString × JsString
  | 0, text => ([], text)
  | fuel + 1, text =>
      match percentByte text with
      | none => ([], text)
      | some (_, rest) => (text.take 3 ++ (percentRun fuel rest).1, (percentRun fuel rest).2)

/-- Decode each run of percent sequences that can be decoded. -/
def decodeRuns : Nat → JsString → JsString
  | 0, text => text
  | _ + 1, [] => []
  | fuel + 1, unit :: rest =>
      match percentRun (unit :: rest).length (unit :: rest) with
      | ([], _) => unit :: decodeRuns fuel rest
      | (run, after) => (decodeURI run).getD run ++ decodeRuns fuel after

def escapePercentSigns : JsString → JsString
  | [] => []
  | unit :: rest =>
      if unit = percent ∧ rest.take 2 = units "25" then
        units "%25" ++ escapePercentSigns rest
      else unit :: escapePercentSigns rest

def daemonRoutingPath (pathname : JsString) : JsString :=
  let escaped := escapePercentSigns pathname
  (decodeURI escaped).getD (decodeRuns escaped.length escaped)

def privateDaemonHttpPaths : List JsString := [units "/api/ops/snapshot.zip"]

example : daemonRoutingPath (units "/api/ops/snapshot%2Ezip") = units "/api/ops/snapshot.zip" := by
  decide +kernel

example :
    daemonRoutingPath (units "/api/ops/snapshot%252Ezip") = units "/api/ops/snapshot%252Ezip" := by
  decide +kernel

section Escape

variable {text rest after decoded : JsString} {byte count value bits : Nat}

theorem escapePercentSigns_of_ne {unit : CodeUnit} (plain : unit ≠ percent) (rest : JsString) :
    escapePercentSigns (unit :: rest) = unit :: escapePercentSigns rest := by
  rw [escapePercentSigns, if_neg fun sign => plain sign.1]

/-- A sequence of another unit than the percent sign is not escaped. -/
theorem percentByte_escape (read : percentByte text = some (byte, rest)) (other : byte ≠ 37) :
    percentByte (escapePercentSigns text) = some (byte, escapePercentSigns rest) ∧
      (escapePercentSigns text).take 3 = text.take 3 := by
  obtain ⟨high, low, upper, lower, rfl, first, second, rfl⟩ := percentByte_eq read
  have digit : ∀ {unit : CodeUnit} {value : Nat}, hexValue unit = some value → unit ≠ percent := by
    rintro _ value known rfl
    cases known
  have whole : ¬(percent = percent ∧ (high :: low :: rest).take 2 = units "25") := by
    rintro ⟨-, sign⟩
    cases sign
    cases first
    cases second
    exact other rfl
  rw [escapePercentSigns, if_neg whole, escapePercentSigns_of_ne (digit first),
    escapePercentSigns_of_ne (digit second), percentByte, if_pos rfl, first, second]
  exact ⟨rfl, rfl⟩

/-- What follows the first byte of a sequence is not escaped. -/
theorem continuation_escape (read : continuation count bits text = some (value, rest)) :
    continuation count bits (escapePercentSigns text) = some (value, escapePercentSigns rest) := by
  induction count generalizing bits text with
  | zero =>
      cases read
      rfl
  | succ count ih =>
      obtain ⟨⟨octet, tail⟩, first, more⟩ := Option.bind_eq_some_iff.mp read
      dsimp only at more
      split_ifs at more with within
      rw [continuation, (percentByte_escape first (by omega)).1, Option.bind_some]
      exact (if_pos within).trans (ih more)

/-- **One sequence.** The sequence of a percent sign is escaped to decode to itself, and every
other one stays. -/
theorem decodeSequence_escape
    (read : decodeSequence (percent :: uriReserved) text = some (decoded, after)) :
    (decoded = units "%25" ∧ escapePercentSigns text =
        units "%25" ++ (units "25" ++ escapePercentSigns after)) ∨
      decodeSequence uriReserved (escapePercentSigns text) =
        some (decoded, escapePercentSigns after) := by
  obtain ⟨⟨byte, rest⟩, first, more⟩ := Option.bind_eq_some_iff.mp read
  dsimp only at more
  by_cases sign : byte = 37
  · subst sign
    have reserved : UInt16.ofNat 37 ∈ percent :: uriReserved := List.mem_cons_self
    rw [if_pos (by decide), if_pos reserved] at more
    cases more
    obtain ⟨high, low, upper, lower, rfl, digit, unit, same⟩ := percentByte_eq first
    have small := hexValue_lt unit
    obtain rfl : upper = 2 := by omega
    obtain rfl : lower = 5 := by omega
    obtain rfl := eq_of_hexValue digit (by decide)
    obtain rfl := eq_of_hexValue unit (by decide)
    refine .inl ⟨rfl, ?_⟩
    rw [escapePercentSigns, if_pos ⟨rfl, rfl⟩, escapePercentSigns_of_ne (by decide),
      escapePercentSigns_of_ne (by decide)]
    rfl
  · refine .inr ?_
    obtain ⟨escaped, front⟩ := percentByte_escape first sign
    rw [decodeSequence, escaped, Option.bind_some]
    dsimp only
    by_cases short : byte < 0x80
    · have other : UInt16.ofNat byte ≠ percent := by
        intro same
        have value := congrArg UInt16.toNat same
        rw [UInt16.toNat_ofNat_of_lt' (show byte < 65536 by omega)] at value
        exact sign value
      rw [if_pos short] at more ⊢
      by_cases reserved : UInt16.ofNat byte ∈ uriReserved
      · rw [if_pos (List.mem_cons_of_mem _ reserved)] at more
        cases more
        rw [if_pos reserved, front]
      · rw [if_neg fun member => (List.mem_cons.mp member).elim other reserved] at more
        cases more
        rw [if_neg reserved]
    · rw [if_neg short] at more ⊢
      obtain ⟨⟨count, bits⟩, lead, more⟩ := Option.bind_eq_some_iff.mp more
      obtain ⟨⟨value, last⟩, continued, more⟩ := Option.bind_eq_some_iff.mp more
      dsimp only at more
      split_ifs at more with scalar
      cases more
      rw [lead, Option.bind_some]
      dsimp only
      rw [continuation_escape continued, Option.bind_some]
      exact if_pos scalar

theorem decodeUriLoop_cons_of_ne {preserved : JsString} {fuel : Nat} {unit : CodeUnit}
    (plain : unit ≠ percent) (rest : JsString) :
    decodeUriLoop preserved (fuel + 1) (unit :: rest) =
      (decodeUriLoop preserved fuel rest).map (unit :: ·) := by
  rw [decodeUriLoop, if_neg plain]

/-- **Escaping percent signs** and then decoding everything is decoding all but them. -/
theorem decodeUriLoop_escape {fuel enough : Nat}
    (kept : decodeUriLoop (percent :: uriReserved) fuel text = some decoded)
    (fueled : (escapePercentSigns text).length < enough) :
    decodeUriLoop uriReserved enough (escapePercentSigns text) = some decoded := by
  induction fuel generalizing text decoded enough with
  | zero => cases kept
  | succ fuel ih =>
      obtain ⟨enough, rfl⟩ := Nat.exists_eq_succ_of_ne_zero (Nat.ne_zero_of_lt fueled)
      cases text with
      | nil =>
          cases kept
          rfl
      | cons unit rest =>
          rw [decodeUriLoop] at kept
          split_ifs at kept with sign
          · obtain ⟨⟨part, after⟩, sequence, more⟩ := Option.bind_eq_some_iff.mp kept
            obtain ⟨others, tail, rfl⟩ := Option.map_eq_some_iff.mp more
            rcases decodeSequence_escape sequence with ⟨rfl, shape⟩ | same
            · rw [shape] at fueled ⊢
              have longer : (escapePercentSigns after).length + 4 < enough := by
                simpa [units] using Nat.lt_of_succ_lt_succ fueled
              obtain ⟨left, rfl⟩ : ∃ left, enough = left + 2 := ⟨enough - 2, by omega⟩
              have first : decodeSequence uriReserved (units "%25" ++ (units "25" ++
                  escapePercentSigns after)) =
                  some ([percent], units "25" ++ escapePercentSigns after) := rfl
              rw [show units "%25" ++ (units "25" ++ escapePercentSigns after) =
                percent :: (units "25" ++ (units "25" ++ escapePercentSigns after)) from rfl]
                at first ⊢
              rw [decodeUriLoop, if_pos rfl, first, Option.bind_some]
              dsimp only
              rw [show units "25" ++ escapePercentSigns after =
                50 :: 53 :: escapePercentSigns after from rfl,
                decodeUriLoop_cons_of_ne (by decide), decodeUriLoop_cons_of_ne (by decide),
                ih tail (by omega)]
              rfl
            · obtain ⟨⟨octet, next⟩, first, -⟩ := Option.bind_eq_some_iff.mp same
              obtain ⟨high, low, -, -, shape, -⟩ := percentByte_eq first
              have shorter := length_of_decodeSequence same
              rw [shape] at same shorter fueled ⊢
              rw [decodeUriLoop, if_pos rfl, same, Option.bind_some]
              dsimp only
              rw [ih tail (Nat.lt_of_lt_of_le shorter (Nat.lt_succ_iff.mp fueled))]
              rfl
          · obtain ⟨others, tail, rfl⟩ := Option.map_eq_some_iff.mp kept
            rw [escapePercentSigns_of_ne sign] at fueled ⊢
            rw [decodeUriLoop_cons_of_ne sign, ih tail (Nat.lt_of_succ_lt_succ fueled)]
            rfl

/-- **The filter covers the route.** A path that the daemon routes to the snapshot is refused. -/
theorem Router.RoutesToSnapshot.refused {router : Router} {pathname : JsString}
    (routed : router.RoutesToSnapshot pathname) :
    daemonRoutingPath pathname ∈ privateDaemonHttpPaths := by
  cases decoded : decodeUriKeeping (percent :: uriReserved) pathname with
  | none =>
      have left := router.leaves pathname decoded
      rw [routed] at left
      exact absurd left (by decide)
  | some path =>
      have same : path = snapshotRoute := (router.decodes pathname path decoded).symm.trans routed
      have again : decodeURI (escapePercentSigns pathname) = some path :=
        decodeUriLoop_escape decoded (Nat.lt_succ_self _)
      rw [daemonRoutingPath, again, Option.getD_some, same]
      exact List.mem_singleton_self _

end Escape

/-- Where a connection goes. -/
inductive Endpoint where
  | tcp (secure : Bool) (host : JsString) (port : Nat)
  | socket (path : JsString)
  deriving DecidableEq, Repr

/-- The endpoint of a host and a port, or else the default port. -/
def endpointOf (secure : Bool) (host : JsString) (port : Option Nat) : Endpoint :=
  .tcp secure host (port.getD (if secure then 443 else 80))

def DaemonUrl.endpoint (daemon : DaemonUrl) : Endpoint :=
  endpointOf daemon.secure daemon.host daemon.port

def DaemonUrl.origin (daemon : DaemonUrl) : JsString × JsString × Option Nat :=
  (daemon.scheme, daemon.host, daemon.port)

/-- The connections of `fetch`; other schemes make none. -/
def fetchConnections (url : Url) : List Endpoint :=
  if url.scheme = units "http" then [endpointOf false url.host url.port]
  else if url.scheme = units "https" then [endpointOf true url.host url.port]
  else []

/-- The connections of `new WebSocket`; it throws for other schemes, for a hash, and for a socket
without a path. -/
def webSocketConnections (url : Url) : List Endpoint :=
  if url.scheme = units "ws+unix" then
    if url.pathname = [] ∨ url.hash ≠ [] then [] else [.socket url.pathname]
  else if url.scheme = units "ws" then
    if url.hash ≠ [] then [] else [endpointOf false url.host url.port]
  else if url.scheme = units "wss" then
    if url.hash ≠ [] then [] else [endpointOf true url.host url.port]
  else []

/-- What becomes of an HTTP request: its URL is refused, or it is answered with 404, or it is
forwarded. -/
inductive HttpOutcome where
  | invalidUrl
  | notFound
  | forwarded (url : Url)
  deriving DecidableEq, Repr

section Relay

variable (parser : UrlParser) (daemon : DaemonUrl)

def proxyHttp (path : JsString) : HttpOutcome :=
  match Url.resolve parser daemon path with
  | none => .invalidUrl
  | some upstreamUrl =>
      if upstreamUrl.origin parser ≠ some daemon.origin ∨
          daemonRoutingPath upstreamUrl.pathname ∈ privateDaemonHttpPaths then .notFound
      else .forwarded upstreamUrl

/-- The URL of the web socket that is opened, unless `new URL` throws. -/
def openDocumentLoopback (path : JsString) : Option Url :=
  (Url.resolve parser daemon path).map fun daemonWsUrl =>
    daemonWsUrl.setProtocol (if daemonWsUrl.scheme = units "https" then units "wss" else units "ws")

/-- The messages of the relay that name a path. -/
inductive RelayMessage where
  | httpRequest (path : JsString)
  | assembledRequest (path : JsString)
  | wsOpen (path : JsString)
  deriving DecidableEq, Repr

namespace RelayMessage

/-- The URLs that HTTP requests are forwarded to. -/
def forwarded : RelayMessage → List Url
  | .httpRequest path | .assembledRequest path =>
      match proxyHttp parser daemon path with
      | .forwarded url => [url]
      | _ => []
  | .wsOpen _ => []

/-- The connections that are made for a message. -/
def connections (message : RelayMessage) : List Endpoint :=
  match message with
  | .httpRequest _ | .assembledRequest _ =>
      (message.forwarded parser daemon).flatMap fetchConnections
  | .wsOpen path => (openDocumentLoopback parser daemon path).toList.flatMap webSocketConnections

/-- Every connection goes to the daemon, and no request is forwarded that the daemon routes to the
snapshot. -/
structure Confined (router : Router) (message : RelayMessage) : Prop where
  reaches : ∀ endpoint ∈ message.connections parser daemon, endpoint = daemon.endpoint
  isPublic : ∀ url ∈ message.forwarded parser daemon, ¬router.RoutesToSnapshot url.pathname

/-- The authority of a reference with a special scheme is the daemon's. -/
def OwnAuthority (scheme : JsString) (authority : UrlAuthority) : Prop :=
  (scheme = units "https" ↔ daemon.secure = true) ∧ authority.host = daemon.host ∧
    authority.port.getD (if daemon.secure then 443 else 80) =
      daemon.port.getD (if daemon.secure then 443 else 80)

/-- A message reaches only the daemon: it is an HTTP request, or the path of its stream cannot be
opened, or has no authority, or has the daemon's. -/
def Admitted : RelayMessage → Prop
  | .httpRequest _ | .assembledRequest _ => True
  | .wsOpen path =>
      match Url.reference daemon.scheme (Url.stripped path) with
      | .relative _ => True
      | .authority scheme rest =>
          ∀ authority, Url.parseAuthority parser scheme rest = some authority →
            Url.hashOf authority.rest = [] → OwnAuthority daemon scheme authority
      | .file rest =>
          ∀ host pathname, parser.file rest = some (host, pathname) → host ≠ [] →
            Url.hashOf rest = [] → OwnAuthority daemon (units "file") ⟨host, none, []⟩
      | .other scheme rest =>
          scheme = units "ws+unix" → ∀ pathname, parser.other scheme rest = some pathname →
            pathname ≠ [] → Url.hashOf rest ≠ []

variable {parser daemon} {router : Router}

/-- What is fetched from the origin of the daemon is fetched from the daemon. -/
theorem eq_endpoint_of_fetch {url : Url} (same : url.origin parser = some daemon.origin)
    {endpoint : Endpoint} (connected : endpoint ∈ fetchConnections url) :
    endpoint = daemon.endpoint := by
  rw [fetchConnections] at connected
  by_cases plain : url.scheme = units "http"
  · rw [if_pos plain, List.mem_singleton] at connected
    rw [Url.origin, plain, if_pos (by decide), DaemonUrl.origin, Option.some.injEq,
      Prod.mk.injEq, Prod.mk.injEq] at same
    rw [connected, DaemonUrl.endpoint, same.2.1, same.2.2,
      daemon.scheme_eq_http_iff.mp same.1.symm]
  · rw [if_neg plain] at connected
    by_cases secure : url.scheme = units "https"
    · rw [if_pos secure, List.mem_singleton] at connected
      rw [Url.origin, secure, if_pos (by decide), DaemonUrl.origin, Option.some.injEq,
        Prod.mk.injEq, Prod.mk.injEq] at same
      rw [connected, DaemonUrl.endpoint, same.2.1, same.2.2,
        daemon.scheme_eq_https_iff.mp same.1.symm]
    · rw [if_neg secure] at connected
      cases connected

theorem proxyHttp_forwarded {path : JsString} {url : Url}
    (passed : proxyHttp parser daemon path = .forwarded url) :
    url.origin parser = some daemon.origin ∧
      daemonRoutingPath url.pathname ∉ privateDaemonHttpPaths := by
  rw [proxyHttp] at passed
  split at passed
  · cases passed
  · split_ifs at passed with refused
    cases passed
    push Not at refused
    exact refused

theorem mem_forwarded_iff {path : JsString} {url : Url} :
    url ∈ (RelayMessage.httpRequest path).forwarded parser daemon ↔
      proxyHttp parser daemon path = .forwarded url := by
  rw [forwarded]
  split <;> simp_all [eq_comm]

/-- **An HTTP request is confined.** -/
theorem confined_httpRequest (path : JsString) :
    (RelayMessage.httpRequest path).Confined parser daemon router where
  reaches := by
    intro endpoint connected
    obtain ⟨url, sent, connected⟩ := List.mem_flatMap.mp connected
    exact eq_endpoint_of_fetch (proxyHttp_forwarded (mem_forwarded_iff.mp sent)).1 connected
  isPublic := by
    intro url sent
    exact fun routed => (proxyHttp_forwarded (mem_forwarded_iff.mp sent)).2 routed.refused

/-- The endpoint of a host is the daemon's when the security, the host and the port are. -/
theorem endpointOf_eq_endpoint_iff {secure : Bool} {host : JsString} {port : Option Nat} :
    endpointOf secure host port = daemon.endpoint ↔
      secure = daemon.secure ∧ host = daemon.host ∧
        port.getD (if daemon.secure then 443 else 80) =
          daemon.port.getD (if daemon.secure then 443 else 80) := by
  rw [DaemonUrl.endpoint, endpointOf, endpointOf, Endpoint.tcp.injEq]
  constructor
  · rintro ⟨rfl, hosts, ports⟩
    exact ⟨rfl, hosts, ports⟩
  · rintro ⟨rfl, hosts, ports⟩
    exact ⟨rfl, hosts, ports⟩

/-- The port that is left out when the scheme changes is the default port of the endpoint. -/
theorem endpointOf_default {secure : Bool} {host : JsString} {port : Option Nat} :
    endpointOf secure host
        (if port = some (if secure then 443 else 80) then none else port) =
      endpointOf secure host port := by
  by_cases same : port = some (if secure then 443 else 80)
  · rw [if_pos same, same, endpointOf, endpointOf, Option.getD_none, Option.getD_some]
  · rw [if_neg same]

theorem webSocketConnections_wss {url : Url} (secure : url.scheme = units "wss") :
    webSocketConnections url =
      if url.hash ≠ [] then [] else [endpointOf true url.host url.port] := by
  rw [webSocketConnections, secure, if_neg (by decide), if_neg (by decide), if_pos rfl]

theorem webSocketConnections_ws {url : Url} (plain : url.scheme = units "ws") :
    webSocketConnections url =
      if url.hash ≠ [] then [] else [endpointOf false url.host url.port] := by
  rw [webSocketConnections, plain, if_neg (by decide), if_pos rfl]

/-- The web socket of a special URL with a host goes to that host, securely for `https` only. -/
theorem webSocketConnections_special {url : Url} (special : Url.isSpecial url.scheme = true)
    (hosted : ¬(url.scheme = units "file" ∧ url.host = [])) :
    webSocketConnections
        (url.setProtocol (if url.scheme = units "https" then units "wss" else units "ws")) =
      if url.hash ≠ [] then []
      else [endpointOf (decide (url.scheme = units "https")) url.host url.port] := by
  rw [Url.setProtocol, special, Bool.not_true, if_neg Bool.false_ne_true, if_neg hosted]
  by_cases secure : url.scheme = units "https"
  · rw [if_pos secure, webSocketConnections_wss rfl, decide_eq_true secure]
    rw [← @endpointOf_default true url.host url.port]
    rfl
  · rw [if_neg secure, webSocketConnections_ws rfl, decide_eq_false secure]
    rw [← @endpointOf_default false url.host url.port]
    rfl

/-- A file without a host and a URL of another scheme keep their scheme. -/
theorem setProtocol_of_not_hosted {url : Url} {scheme : JsString}
    (kept : Url.isSpecial url.scheme = false ∨ url.scheme = units "file" ∧ url.host = []) :
    url.setProtocol scheme = url := by
  rw [Url.setProtocol]
  rcases kept with other | file
  · rw [other, Bool.not_false, if_pos rfl]
  · rw [if_pos file, ite_self]

/-- The web socket of a special URL with a host is confined when that is the daemon's. -/
theorem special_reaches_iff {url : Url} (special : Url.isSpecial url.scheme = true)
    (hosted : ¬(url.scheme = units "file" ∧ url.host = [])) :
    (∀ endpoint ∈ webSocketConnections
        (url.setProtocol (if url.scheme = units "https" then units "wss" else units "ws")),
      endpoint = daemon.endpoint) ↔
      (url.hash = [] → OwnAuthority daemon url.scheme ⟨url.host, url.port, []⟩) := by
  rw [webSocketConnections_special special hosted]
  by_cases bare : url.hash = []
  · rw [if_neg (not_not_intro bare)]
    simp only [List.mem_singleton, forall_eq, bare, true_implies]
    rw [endpointOf_eq_endpoint_iff, OwnAuthority, Bool.eq_iff_iff, decide_eq_true_iff]
  · simp [bare]

theorem mem_connections_wsOpen_iff {path : JsString} {endpoint : Endpoint} :
    endpoint ∈ (wsOpen path).connections parser daemon ↔
      ∃ url, Url.resolve parser daemon path = some url ∧ endpoint ∈ webSocketConnections
        (url.setProtocol (if url.scheme = units "https" then units "wss" else units "ws")) := by
  rw [connections, openDocumentLoopback]
  cases Url.resolve parser daemon path <;> simp

theorem confined_wsOpen_iff_resolve {path : JsString} :
    (wsOpen path).Confined parser daemon router ↔
      ∀ url, Url.resolve parser daemon path = some url →
        ∀ endpoint ∈ webSocketConnections
            (url.setProtocol (if url.scheme = units "https" then units "wss" else units "ws")),
          endpoint = daemon.endpoint := by
  constructor
  · intro confined url resolved endpoint connected
    exact confined.reaches endpoint (mem_connections_wsOpen_iff.mpr ⟨url, resolved, connected⟩)
  · intro reaching
    refine ⟨?_, by simp [forwarded]⟩
    intro endpoint connected
    obtain ⟨url, resolved, connected⟩ := mem_connections_wsOpen_iff.mp connected
    exact reaching url resolved endpoint connected

/-- A URL that keeps its scheme is only connected to when it names a socket. -/
theorem unhosted_reaches_iff {url : Url}
    (kept : Url.isSpecial url.scheme = false ∨ url.scheme = units "file" ∧ url.host = [])
    {scheme : JsString} :
    (∀ endpoint ∈ webSocketConnections (url.setProtocol scheme), endpoint = daemon.endpoint) ↔
      (url.scheme = units "ws+unix" → url.pathname ≠ [] → url.hash ≠ []) := by
  have notPlain : url.scheme ≠ units "ws" ∧ url.scheme ≠ units "wss" := by
    rcases kept with other | ⟨file, -⟩
    · constructor <;> intro named <;> rw [named] at other <;> revert other <;> decide
    · rw [file]
      decide
  rw [setProtocol_of_not_hosted kept, webSocketConnections, if_neg notPlain.1,
    if_neg notPlain.2]
  by_cases socket : url.scheme = units "ws+unix"
  · rw [if_pos socket]
    by_cases refused : url.pathname = [] ∨ url.hash ≠ []
    · rw [if_pos refused]
      simp only [List.not_mem_nil, IsEmpty.forall_iff, implies_true, true_iff]
      intro _ named
      exact refused.resolve_left named
    · push Not at refused
      rw [if_neg (by push Not; exact refused)]
      simp [socket, refused, DaemonUrl.endpoint, endpointOf]
  · simp [socket]

/-- **Confinement of a document stream.** -/
theorem confined_wsOpen_iff (path : JsString) :
    (wsOpen path).Confined parser daemon router ↔ (wsOpen path).Admitted parser daemon := by
  rw [confined_wsOpen_iff_resolve, Admitted, Url.resolve]
  generalize referred : Url.reference daemon.scheme (Url.stripped path) = referent
  cases referent with
  | relative rest =>
      simp only [Option.some.injEq, forall_eq', iff_true]
      rw [special_reaches_iff daemon.isSpecial_scheme fun named => daemon.scheme_ne_file named.1]
      intro _
      exact ⟨daemon.scheme_eq_https_iff, rfl, rfl⟩
  | authority scheme rest =>
      have special := Url.isSpecial_of_reference_authority daemon.isSpecial_scheme referred
      have noFile := Url.ne_file_of_reference_authority daemon.scheme_ne_file referred
      simp only [Option.map_eq_some_iff, forall_exists_index, and_imp, forall_apply_eq_imp_iff₂]
      refine forall₂_congr fun authority _ => ?_
      exact special_reaches_iff special fun named => noFile named.1
  | file rest =>
      dsimp only
      generalize parser.file rest = parsed
      rcases parsed with _ | ⟨host, pathname⟩
      · simp
      · simp only [Option.map_some, Option.some.injEq, forall_eq', Prod.mk.injEq, and_imp]
        by_cases hosted : host = []
        · rw [unhosted_reaches_iff (.inr ⟨rfl, hosted⟩)]
          refine iff_of_true (fun named : units "file" = units "ws+unix" => ?_) ?_
          · exact absurd named (by decide)
          rintro _ _ rfl - named
          exact absurd hosted named
        · rw [special_reaches_iff rfl fun named => hosted named.2]
          constructor
          · rintro admitted _ _ rfl - - bare
            exact admitted bare
          · intro admitted bare
            exact admitted host pathname rfl rfl hosted bare
  | other scheme rest =>
      have other := Url.not_isSpecial_of_reference_other referred
      simp only [Option.map_eq_some_iff, forall_exists_index, and_imp, forall_apply_eq_imp_iff₂]
      constructor
      · intro confined named pathname parsed
        exact (unhosted_reaches_iff (.inl other)).mp (confined pathname parsed) named
      · intro admitted pathname parsed
        refine (unhosted_reaches_iff (.inl other)).mpr fun named => ?_
        exact admitted named pathname parsed

/-- **The relay is confined to the daemon exactly when its document streams are admitted.** Every
HTTP request is, and so is a document stream whose path has no authority but the daemon's. -/
theorem relay_confined_iff (parser : UrlParser) (daemon : DaemonUrl) (router : Router)
    (message : RelayMessage) :
    message.Confined parser daemon router ↔ message.Admitted parser daemon := by
  cases message with
  | httpRequest path => exact iff_of_true (confined_httpRequest path) trivial
  | assembledRequest path =>
      have confined := @confined_httpRequest parser daemon router path
      exact iff_of_true ⟨confined.reaches, confined.isPublic⟩ trivial
  | wsOpen path => exact confined_wsOpen_iff path

/-- A parser that takes hosts as they are and joins no paths. -/
def literalParser : UrlParser where
  host := some
  pathname _ text := if text = [] then [slash] else text
  file rest := some ([], rest)
  other _ rest := some rest
  blobOrigin _ := none

/-- A stream whose path starts with two slashes connects the relay to any host. -/
theorem relay_reaches_another_host :
    (wsOpen (units "//relay.example/sync")).connections literalParser
        ⟨false, units "127.0.0.1", some 4317, units "/"⟩ =
      [.tcp false (units "relay.example") 80] ∧
    ¬∀ (parser : UrlParser) (daemon : DaemonUrl) (router : Router) (message : RelayMessage),
      message.Confined parser daemon router := by
  have connected : (wsOpen (units "//relay.example/sync")).connections literalParser
        ⟨false, units "127.0.0.1", some 4317, units "/"⟩ =
      [.tcp false (units "relay.example") 80] := by
    decide +kernel
  refine ⟨connected, fun confined => ?_⟩
  have reached := (confined literalParser ⟨false, units "127.0.0.1", some 4317, units "/"⟩
    lenientRouter (wsOpen (units "//relay.example/sync"))).reaches (.tcp false (units "relay.example") 80)
      (connected ▸ List.mem_singleton_self _)
  revert reached
  decide

end RelayMessage

end Relay

end Kb1Daemon
