import BTagent.Lib.OrderedDict
import BTagent.Response.Safelist

namespace BTagent

inductive IOCType where
  | ip
  | domain
  | url
  | hashMd5
  | hashSha1
  | hashSha256
  | email
  | filePath
  | registryKey
  | cve
  | userAgent
  | mutex
  | processName
  | other
  deriving DecidableEq

def IOCType.value : IOCType → String
  | ip => "ip"
  | domain => "domain"
  | url => "url"
  | hashMd5 => "hash_md5"
  | hashSha1 => "hash_sha1"
  | hashSha256 => "hash_sha256"
  | email => "email"
  | filePath => "file_path"
  | registryKey => "registry_key"
  | cve => "cve"
  | userAgent => "user_agent"
  | mutex => "mutex"
  | processName => "process_name"
  | other => "other"

structure IOCRef where
  type : IOCType
  value : String
  deriving DecidableEq

inductive MitigationDecision where
  | block
  | skipAllowlisted
  | skipInvalid
  | skipUnsupported
  | skipDuplicate
  deriving DecidableEq

def MitigationDecision.value : MitigationDecision → String
  | block => "block"
  | skipAllowlisted => "skip_allowlisted"
  | skipInvalid => "skip_invalid"
  | skipUnsupported => "skip_unsupported"
  | skipDuplicate => "skip_duplicate"

structure MitigationAction where
  id : String
  iocType : IOCType
  iocValue : String
  decision : MitigationDecision
  tool : String := ""
  policyObject : String := ""
  policyPreview : String := ""
  description : String := ""
  destructive : Bool := false
  requiresApproval : Bool := false
  rollback : Option String := none
  reason : String := ""

structure MitigationPlan where
  summary : String
  actions : List MitigationAction
  blockCount : ℕ
  skipCount : ℕ
  tools : List String

namespace BulkMitigation
open Safelist SafelistPolicy

variable (T : CharTable)

section Validation

-- `$` also matches before a newline that ends the text.
def dropFinalNewline (cs : List Char) : List Char :=
  if cs.getLast? = some '\n' then cs.dropLast else cs

def isLabelChar (c : Char) : Bool := c.isAlphanum || c == '-'

def isLabel (cs : List Char) : Bool :=
  cs ≠ [] && cs.length ≤ 63 && cs.all isLabelChar && cs.head? != some '-' &&
    cs.getLast? != some '-'

-- `_DOMAIN_RE`
def matchesDomain (s : String) : Bool :=
  let cs := dropFinalNewline s.toList
  cs.length ≤ 253 && 2 ≤ (cs.splitOn '.').length && (cs.splitOn '.').all isLabel

-- `_MD5_RE`, `_SHA1_RE` and `_SHA256_RE`
def matchesHash (length : ℕ) (s : String) : Bool :=
  let cs := dropFinalNewline s.toList
  cs.length = length && cs.all Ipv6.isHex

def validIp (v : String) : Bool := (IpAddress.parse v.toList).isSome

def validDomain (v : String) : Bool := matchesDomain (rstrip '.' (T.strip v))

def validUrl (v : String) : Bool :=
  let s := T.strip v
  ("http://".toList.isPrefixOf s.toList || "https://".toList.isPrefixOf s.toList) && 10 < s.length

def validEmail (v : String) : Bool := v.toList.contains '@' && v.toList.contains '.'

end Validation

structure Route where
  tool : String
  policyObject : String
  validator : String → Bool

def ROUTES : IOCType → Option Route
  | .ip => some ⟨"panorama", "perimeter-blocklist", validIp⟩
  | .domain => some ⟨"umbrella", "dns-denylist", validDomain T⟩
  | .url => some ⟨"zscaler", "url-blocklist", validUrl T⟩
  | .hashMd5 => some ⟨"crowdstrike", "ioc-blocklist", matchesHash 32⟩
  | .hashSha1 => some ⟨"crowdstrike", "ioc-blocklist", matchesHash 40⟩
  | .hashSha256 => some ⟨"crowdstrike", "ioc-blocklist", matchesHash 64⟩
  | .email => some ⟨"email_gateway", "sender-blocklist", validEmail⟩
  | _ => none

def UNSUPPORTED : List IOCType :=
  [.filePath, .registryKey, .cve, .userAgent, .mutex, .processName, .other]

def allowlisted (ioc : IOCRef) (extra : List String) (policy : SafelistPolicy) : Bool :=
  if extra.contains (T.strip ioc.value) then true
  else match ioc.type with
    | .ip => policy.ipSafelisted T ioc.value
    | .domain => policy.domainSafelisted T ioc.value
    | .url => policy.urlSafelisted T ioc.value
    | _ => false

-- `{seq:03d}`
def sequenceId (seq : ℕ) : String :=
  "mit_" ++ String.ofList (List.replicate (3 - (digits seq).length) '0' ++ digits seq)

def skip (seq : ℕ) (ioc : IOCRef) (decision : MitigationDecision) (reason : String) :
    MitigationAction where
  id := sequenceId seq
  iocType := ioc.type
  iocValue := T.strip ioc.value
  decision := decision
  description := "Skip " ++ ioc.type.value ++ " " ++
    if T.strip ioc.value = "" then "(empty)" else T.strip ioc.value
  reason := reason

def block (seq : ℕ) (ioc : IOCRef) (route : Route) : MitigationAction :=
  let value := T.strip ioc.value
  { id := sequenceId seq
    iocType := ioc.type
    iocValue := value
    decision := .block
    tool := route.tool
    policyObject := route.policyObject
    policyPreview := "+ " ++ route.tool ++ ":" ++ route.policyObject ++ " ADD " ++ ioc.type.value ++
      "=" ++ value ++ " (action=deny)"
    description := "Block " ++ ioc.type.value ++ " " ++ value ++ " on " ++ route.tool ++ " (" ++
      route.policyObject ++ ")"
    destructive := true
    requiresApproval := true
    rollback := some ("Remove " ++ value ++ " from " ++ route.tool ++ ":" ++ route.policyObject) }

structure Progress where
  seq : ℕ := 0
  seen : List (IOCType × String) := []
  actions : List MitigationAction := []
  blockCount : ℕ := 0
  skipCount : ℕ := 0
  tools : List String := []

def Progress.skip (s : Progress) (ioc : IOCRef) (decision : MitigationDecision) (reason : String) :
    Progress :=
  { s with
    actions := s.actions ++ [BulkMitigation.skip T s.seq ioc decision reason]
    skipCount := s.skipCount + 1 }

def Progress.block (s : Progress) (ioc : IOCRef) (route : Route) : Progress :=
  { s with
    actions := s.actions ++ [BulkMitigation.block T s.seq ioc route]
    blockCount := s.blockCount + 1
    tools := if route.tool ∈ s.tools then s.tools else s.tools ++ [route.tool] }

def key (ioc : IOCRef) : IOCType × String := (ioc.type, T.lower (T.strip ioc.value))

def screen (extra : List String) (policy : SafelistPolicy) (s : Progress) (ioc : IOCRef) :
    Progress :=
  if allowlisted T ioc extra policy then
    s.skip T ioc .skipAllowlisted
      "Matches the never-block allowlist (would risk a self-inflicted outage)."
  else if ioc.type ∈ UNSUPPORTED then
    s.skip T ioc .skipUnsupported
      ("No automated block path for " ++ ioc.type.value ++ "; handle manually.")
  else
    match (ROUTES T ioc.type).filter fun route => route.validator (T.strip ioc.value) with
    | none => s.skip T ioc .skipInvalid ("Malformed " ++ ioc.type.value ++ " value.")
    | some route => s.block T ioc route

def step (extra : List String) (policy : SafelistPolicy) (s : Progress) (ioc : IOCRef) : Progress :=
  let s := { s with seq := s.seq + 1 }
  if T.strip ioc.value = "" then s.skip T ioc .skipInvalid "Empty IOC value."
  else if key T ioc ∈ s.seen then s.skip T ioc .skipDuplicate "Already in this batch."
  else screen T extra policy { s with seen := key T ioc :: s.seen } ioc

def addCount (counts : OrderedDict String ℕ) (a : MitigationAction) : OrderedDict String ℕ :=
  if a.decision = .block then counts
  else counts.set a.decision.value ((counts.get? a.decision.value).getD 0 + 1)

def skipBreakdown (actions : List MitigationAction) : String :=
  let counts := actions.foldl addCount OrderedDict.empty
  if counts.entries = [] then "none"
  else ", ".intercalate ((counts.entries.insertionSort fun a b => a.1 ≤ b.1).map fun kv =>
    toString kv.2 ++ " " ++ kv.1)

def summaryOf (s : Progress) : String :=
  toString s.blockCount ++ " block action(s) across " ++ toString s.tools.length ++ " tool(s); " ++
    toString s.skipCount ++ " IOC(s) skipped (" ++ skipBreakdown s.actions ++
    "). All blocks require approval before execution."

def planPolicy (safelistIps safelistDomainSuffixes : List String) : SafelistPolicy :=
  (BASELINE_SAFELIST T).merge T safelistIps safelistDomainSuffixes []

def buildPlan (iocs : List IOCRef) (extraAllowlist safelistIps safelistDomainSuffixes : List String) :
    MitigationPlan :=
  let extra := (present T extraAllowlist).map T.strip
  let s := iocs.foldl (step T extra (planPolicy T safelistIps safelistDomainSuffixes)) {}
  { summary := summaryOf s
    actions := s.actions
    blockCount := s.blockCount
    skipCount := s.skipCount
    tools := s.tools }

end BulkMitigation

end BTagent
