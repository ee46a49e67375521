/-
Route rules of the edge (`tunnel/internal/route/matcher.go`,
`tunnel/internal/route/matching_rules.go`) and their normalization: hosts, paths and the
checks a rule passes before it may be staged.

The third-party IDNA table (`idna.Lookup.ToASCII`) is the parameter `toASCII`; nothing
is assumed of it. A Go string of a rule or a request is a Lean `String`, so it is valid
UTF-8; lengths are in bytes.

A rule that passes keeps everything but its match type, hosts, path, state and origin
scheme (`normalizeRule_eq`).
-/
import Paperboat.Core.Net

namespace Paperboat.Route

open Text Net

/-- the errors of the registry -/
inductive RouteError where
  | invalid
  | noMatch
  | matchConflict
  | generationStale
  | generationNotReady
  | generationConflict
  | generationClosed
  | drainTimeout
  | streamOverloaded
  /-- the error of a cancelled context -/
  | contextDone
deriving DecidableEq, Repr

inductive Kind where
  | helperHTTPSWSS
  | previewHTTPSWSS
  | tunnelHTTPSWSS
  | tunnelTCP
  | tunnelTLS
  | tunnelPrivateTCP
deriving DecidableEq, Repr

def matchExact : String := "exact"
def matchManagedExact : String := "managed_exact"
def matchOneLabelWildcard : String := "one_label_wildcard"
def matchCatchAll : String := "catch_all"

/-- a route match; `wildcardSuffix` is without the leading "*.". The fields that nothing reads on their own (the
assignment, the connector's session, the edge, the TCP listener and the observed state) are in `rest`: two lists of
rules are compared as a whole. -/
structure RouteRule where
  id : String
  generation : ℕ := 0
  routeID : String := ""
  accountID : String := ""
  hostID : String := ""
  machineIdentityThumbprint : String := ""
  tunnelID : String := ""
  connectorID : String := ""
  viewerPolicyGeneration : ℕ := 0
  kind : Kind
  matchType : String := ""
  hostname : String := ""
  wildcardSuffix : String := ""
  pathPrefix : String := ""
  priority : Int := 0
  target : String := ""
  originScheme : String := ""
  accessMode : String := ""
  hostOverride : String := ""
  desiredState : String := ""
  rest : String := ""
deriving DecidableEq, Repr

/-! ## Hosts and paths -/

section

variable (u : Unicode) (toASCII : String → Option String)

/-- a DNS label: 1 to 63 bytes, no "-" at either end -/
def labelOk (label : String) : Bool :=
  label.utf8ByteSize ≠ 0 && label.utf8ByteSize ≤ 63 && label.toList.head? != some '-' &&
    label.toList.getLast? != some '-'

/-- the host of a host with an optional port -/
def hostOnly (host : String) : Option String :=
  match splitHostPort host with
  | some (parsed, _) => some parsed
  | none => if count host ':' > 0 then none else some host

/-- the checks on the ASCII form -/
def asciiHost (host : String) : Except RouteError String :=
  match toASCII host with
  | none => .error .invalid
  | some ascii =>
    if ascii = "" ∨ ascii.utf8ByteSize > 253 ∨ contains ascii ".." then .error .invalid
    else if (split ascii '.').all labelOk then .ok (toLower u ascii)
    else .error .invalid

def normalizeMatchHost (host : String) : Except RouteError String :=
  let trimmed := trimSpace host
  if trimmed = "" ∨ containsAny trimmed "\r\n\x00 /?" then .error .invalid
  else
    match hostOnly trimmed with
    | none => .error .invalid
    | some h =>
      let name := trimSuffix h "."
      if name = "" ∨ parseIP name then .error .invalid else asciiHost u toASCII name

def normalizeRequestPath (path : String) : Except RouteError String :=
  if path = "" then .ok "/"
  else if !hasPrefix path "/" ∨ containsAny path "\r\n\x00?#" ∨ contains path "//" then .error .invalid
  else if (split path '/').any fun segment => segment = "." ∨ segment = ".." then .error .invalid
  else .ok (if path.utf8ByteSize > 1 then trimSuffix path "/" else path)

/-! ## One rule -/

def normalizeHost (host : String) : String := toLower u (trimSuffix (trimSpace host) ".")

/-- the syntax of a tunnel's hostname: two labels or more of lower-case letters, digits and "-" -/
def validTunnelHostname (host : String) : Bool :=
  host ≠ "" && host == normalizeHost u host && decide (host.utf8ByteSize ≤ 253) && !parseIP host &&
    decide (2 ≤ (split host '.').length) && (split host '.').all fun label =>
      labelOk label && label.toList.all fun c => c == '-' || ('a' ≤ c && c ≤ 'z') || ('0' ≤ c && c ≤ '9')

/-- hostname and wildcard suffix of a rule with the match type `matchType` -/
def normalizeHosts (matchType : String) (r : RouteRule) : Except RouteError (String × String) :=
  if matchType = matchExact ∨ matchType = matchManagedExact then
    if r.hostname = "" ∧ r.wildcardSuffix ≠ "" then .error .invalid
    else if contains r.hostname "*" ∨ contains r.wildcardSuffix "*" then .error .invalid
    else
      match normalizeMatchHost u toASCII r.hostname with
      | .error _ => .error .invalid
      | .ok host =>
        if host = "" ∨ parseIP host then .error .invalid
        else if matchType = matchManagedExact ∧ r.kind = .tunnelHTTPSWSS ∧ validTunnelHostname u host = false then
          .error .invalid
        else .ok (host, "")
  else if matchType = matchOneLabelWildcard then
    let written := if r.wildcardSuffix = "" ∧ hasPrefix r.hostname "*." then trimPrefix r.hostname "*."
        else r.wildcardSuffix
    if written = "" ∨ contains written "*" then .error .invalid
    else
      match normalizeMatchHost u toASCII written with
      | .error _ => .error .invalid
      | .ok suffix =>
        if suffix = "" ∨ parseIP suffix ∨ contains suffix "." = false then .error .invalid else .ok ("", suffix)
  else if matchType = matchCatchAll then
    if r.wildcardSuffix ≠ "" ∨ contains r.hostname "*" then .error .invalid
    else if r.hostname ≠ "" then
      match normalizeMatchHost u toASCII r.hostname with
      | .error _ => .error .invalid
      | .ok host => .ok (host, r.wildcardSuffix)
    else .ok (r.hostname, r.wildcardSuffix)
  else .error .invalid

def desiredStates : List String :=
  ["active", "ready", "degraded", "offline", "registering", "disabled", "deleted", "expired", "removed"]

def originSchemes : List String := ["http", "https", "h2c", "unix"]

/-- the checks on where a rule leads; a tunnel's target is an opaque binding and is never read as an address -/
def targetOk (r : RouteRule) : Bool :=
  if r.target = "" ∨ containsAny r.target "\r\n\x00" then false
  else if r.kind = .tunnelHTTPSWSS then !containsAny r.target " \t?#"
  else if r.originScheme = "unix" then hasPrefix r.target "/" && !containsAny r.target "?#"
  else if r.originScheme ≠ "" then (splitHostPort r.target).isSome
  else true

/-- the match type in lower case; exact when none is written -/
def RouteRule.typeOf (r : RouteRule) : String :=
  if toLower u (trimSpace r.matchType) = "" then matchExact else toLower u (trimSpace r.matchType)

def RouteRule.stateOf (r : RouteRule) : String := if r.desiredState = "" then "active" else r.desiredState

/-- the checks of fields on their own: ID, generation, kind, desired state, host override, origin scheme -/
def fieldsOk (generation : ℕ) (r : RouteRule) : Bool :=
  r.id != "" && !containsAny r.id "\r\n\x00" && (r.generation == 0 || r.generation == generation) &&
    decide (r.kind ∈ [.helperHTTPSWSS, .previewHTTPSWSS, .tunnelHTTPSWSS]) && decide (r.stateOf ∈ desiredStates) &&
    (r.hostOverride == "" || !containsAny r.hostOverride "\r\n\x00/?# \t") &&
    (r.originScheme == "" || decide (toLower u r.originScheme ∈ originSchemes))

/-- the rule with its fields in normal form -/
def RouteRule.normalized (generation : ℕ) (r : RouteRule) (hostname suffix path : String) : RouteRule :=
  { r with generation := generation, hostname := hostname, wildcardSuffix := suffix, matchType := r.typeOf u,
           pathPrefix := path, desiredState := r.stateOf, originScheme := toLower u r.originScheme }

def normalizeRule (generation : ℕ) (r : RouteRule) : Except RouteError RouteRule :=
  match normalizeHosts u toASCII (r.typeOf u) r, normalizeRequestPath r.pathPrefix with
  | .ok (hostname, suffix), .ok path =>
    if fieldsOk u generation r && targetOk (r.normalized u generation hostname suffix path) then
      .ok (r.normalized u generation hostname suffix path)
    else .error .invalid
  | _, _ => .error .invalid

/-- a normalized rule is the rule it was with its fields in normal form -/
theorem normalizeRule_eq {generation : ℕ} {r n : RouteRule} (h : normalizeRule u toASCII generation r = .ok n) :
    ∃ hostname suffix path, normalizeHosts u toASCII (r.typeOf u) r = .ok (hostname, suffix) ∧
      normalizeRequestPath r.pathPrefix = .ok path ∧ n = r.normalized u generation hostname suffix path := by
  unfold normalizeRule at h
  split at h
  · rename_i hostname suffix path hh hp
    split_ifs at h
    exact ⟨hostname, suffix, path, hh, hp, (Except.ok.inj h).symm⟩
  · cases h

end

end Paperboat.Route
