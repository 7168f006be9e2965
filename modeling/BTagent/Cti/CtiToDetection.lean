import BTagent.Cti.PrPaths
import BTagent.Cti.Proposals
import BTagent.Cti.StixExchange
import BTagent.Data.Sha256

namespace BTagent

-- The IOC types a rule can detect; a command line has no path of its own in an exchange.
inductive DetectableType where
  | ioc (t : Stix.IocType)
  | cmdline
  deriving DecidableEq

-- An object of a bundle; `rest` are the entries that only the egress gate reads.
structure CtiObject where
  type : String
  id : String
  name : String
  description : String
  pattern : String
  killChainPhases : List KillChainPhase
  confidence : Option ℤ
  objectMarkingRefs : List String
  rest : List (Option String × EgressPayload)

structure CtiBundle where
  id : String
  objects : List CtiObject

structure ExtractedIndicator where
  stixId : String
  iocType : DetectableType
  value : String
  logsourceCategory : String
  logsourceProduct : String
  confidence : ℚ
  name : String
  description : String
  killChainPhases : List KillChainPhase

inductive DetectableIndicator where
  | extracted (indicator : ExtractedIndicator)
  | unsupported (stixId pattern : String)

structure DetectionBlock where
  selections : List (String × String × String)
  condition : String
  deriving DecidableEq

-- The parts of a rule that differ from proposal to proposal.
structure ProposedRule where
  title : String
  id : String
  description : String
  references : List String
  logsource : List (String × String)
  detection : DetectionBlock
  level : String
  tags : List String

structure SigmaProposal extends DetectionProposal where
  rule : ProposedRule
  sourceIndicators : List String

-- `str.upper`, the keyword mapper where it is installed, `yaml.dump`, and the UUID of a text.
structure RuleTools where
  upper : String → String
  suggestTechniques : Option (String → List String)
  dump : ProposedRule → String
  uuid5 : String → String

inductive IndicatorSkip where
  | unsupported (pattern : String)
  | duplicate (t : DetectableType) (value : String)
  | notIndicator (type : String)
  deriving DecidableEq

structure SkippedIndicator where
  stixId : String
  pattern : String
  reason : IndicatorSkip
  deriving DecidableEq

structure CTIToDetectionResponse where
  proposals : List SigmaProposal
  skipped : List SkippedIndicator

namespace DetectableType

def name : DetectableType → String
  | ioc t => t.name
  | cmdline => "cmdline"

def level : DetectableType → String
  | ioc .ip => "high"
  | ioc .domain => "high"
  | ioc .url => "medium"
  | ioc .hashMd5 => "high"
  | ioc .hashSha1 => "high"
  | ioc .hashSha256 => "critical"
  | ioc .email => "medium"
  | cmdline => "high"

def label : DetectableType → String
  | ioc .ip => "IP Address"
  | ioc .domain => "Domain Name"
  | ioc .url => "URL"
  | ioc .hashMd5 => "MD5 Hash"
  | ioc .hashSha1 => "SHA-1 Hash"
  | ioc .hashSha256 => "SHA-256 Hash"
  | ioc .email => "Email Address"
  | cmdline => "Command Line"

end DetectableType

namespace CtiObject

def payload (obj : CtiObject) : EgressPayload :=
  .dict ([(some "type", .text obj.type), (some "id", .text obj.id), (some "name", .text obj.name),
    (some "description", .text obj.description), (some "pattern", .text obj.pattern),
    (some "object_marking_refs", .seq (obj.objectMarkingRefs.map .text))] ++ obj.rest)

end CtiObject

namespace CtiToDetection
open Stix

structure PatternRow where
  path : String
  type : DetectableType
  category : String
  product : String

-- `_PATTERN_MAP`
def PATTERN_MAP : List PatternRow :=
  [⟨"ipv4-addr:value", .ioc .ip, "network_connection", ""⟩,
    ⟨"ipv6-addr:value", .ioc .ip, "network_connection", ""⟩,
    ⟨"domain-name:value", .ioc .domain, "proxy", ""⟩,
    ⟨"url:value", .ioc .url, "proxy", ""⟩,
    ⟨"file:hashes.'MD5'", .ioc .hashMd5, "process_creation", "windows"⟩,
    ⟨"file:hashes.'SHA-1'", .ioc .hashSha1, "process_creation", "windows"⟩,
    ⟨"file:hashes.'SHA-256'", .ioc .hashSha256, "process_creation", "windows"⟩,
    ⟨"process:command_line", .cmdline, "process_creation", "windows"⟩,
    ⟨"email-addr:value", .ioc .email, "email", ""⟩]

variable (T : CharTable)

-- `_parse_stix_pattern`
def parseDetectable (pattern : String) : Option (PatternRow × String) :=
  let inner := unwrap T pattern.toList
  PATTERN_MAP.findSome? fun row =>
    if row.path.toList <:+: inner then
      (afterEquals inner).map fun rest => (row, String.ofList (literal T rest))
    else none

def indicatorConfidence (obj : CtiObject) : ℚ := (min 100 (max 0 (obj.confidence.getD 50)) : ℤ) / 100

def detectableIndicator (obj : CtiObject) : DetectableIndicator :=
  match parseDetectable T obj.pattern with
  | none => .unsupported obj.id obj.pattern
  | some (row, value) =>
      .extracted {
        stixId := obj.id
        iocType := row.type
        value := value
        logsourceCategory := row.category
        logsourceProduct := row.product
        confidence := indicatorConfidence obj
        name := obj.name
        description := obj.description
        killChainPhases := obj.killChainPhases }

def extractDetectableIndicators (bundle : CtiBundle) : List DetectableIndicator :=
  (bundle.objects.filter (·.type = "indicator")).map (detectableIndicator T)

def buildDetectionBlock (t : DetectableType) (value : String) : DetectionBlock :=
  match t with
  | .ioc .ip => ⟨[("selection", "DestinationIp", value)], "selection"⟩
  | .ioc .domain =>
      ⟨[("selection", "cs-host|endswith", if value.startsWith "." then value else "." ++ value),
        ("selection_exact", "cs-host", value)], "selection or selection_exact"⟩
  | .ioc .url => ⟨[("selection", "cs-uri|contains", value)], "selection"⟩
  | .ioc .hashMd5 => ⟨[("selection", "Hashes|contains", value)], "selection"⟩
  | .ioc .hashSha1 => ⟨[("selection", "Hashes|contains", value)], "selection"⟩
  | .ioc .hashSha256 => ⟨[("selection", "Hashes|contains", value)], "selection"⟩
  | .cmdline => ⟨[("selection", "CommandLine|contains", value)], "selection"⟩
  | .ioc .email => ⟨[("selection", "SenderFromAddress|contains", value)], "selection"⟩

def buildLogsource (indicator : ExtractedIndicator) : List (String × String) :=
  let source := (if indicator.logsourceCategory = "" then []
      else [("category", indicator.logsourceCategory)]) ++
    if indicator.logsourceProduct = "" then [] else [("product", indicator.logsourceProduct)]
  if source = [] then [("category", "generic")] else source

def shown (n : ℕ) (value : String) : String := String.ofList (value.toList.take n)

def proposalTitle (indicator : ExtractedIndicator) : String :=
  "CTI-Derived Detection: " ++ (indicator.iocType.label ++ (" IOC — " ++ shown 60 indicator.value))

def tacticForLogsource : List (String × String) :=
  [("network_connection", "command-and-control"), ("proxy", "command-and-control"),
    ("process_creation", "execution"), ("email", "initial-access")]

variable (tools : RuleTools)

def resolveTechniqueIds (indicator : ExtractedIndicator) : List String :=
  let stated := CtiDetection.techniqueIdsFromKillChain T tools.upper indicator.killChainPhases
  let ids := if stated = [] then
      (tools.suggestTechniques.map fun suggest =>
        suggest (" ".intercalate
          [indicator.iocType.name, indicator.value, indicator.name, indicator.description])).getD []
    else stated
  ids.eraseDups

def buildTags (indicator : ExtractedIndicator) (techniqueIds : List String) : List String :=
  ((OrderedDict.find indicator.logsourceCategory tacticForLogsource).map ("attack." ++ ·)).toList ++
    techniqueIds.map fun tid => "attack." ++ T.lower tid

def buildReferences (techniqueIds : List String) : List String :=
  if techniqueIds = [] then ["https://attack.mitre.org/"]
  else techniqueIds.map fun tid =>
    "https://attack.mitre.org/techniques/" ++ String.ofList (replace '.' ['/'] tid.toList) ++ "/"

def proposedRule (indicator : ExtractedIndicator) (techniqueIds : List String) : ProposedRule where
  title := proposalTitle indicator
  id := tools.uuid5 indicator.stixId
  description := if indicator.description = "" then
      "CTI-derived detection for " ++ indicator.iocType.label ++ " indicator: " ++
        shown 200 indicator.value ++ ". Source: " ++ indicator.stixId ++
        ". Auto-generated by the BTagent STIX→Sigma pipeline — review and approve before " ++
        "promoting to production."
    else indicator.description
  references := buildReferences techniqueIds
  logsource := buildLogsource indicator
  detection := buildDetectionBlock indicator.iocType indicator.value
  level := indicator.iocType.level
  tags := buildTags T indicator techniqueIds

def proposeSigmaRule (indicator : ExtractedIndicator) (techniqueIds : List String) : SigmaProposal where
  id := "prop_" ++ shown 24 (sha256 indicator.stixId.toByteArray)
  sourceStixId := indicator.stixId
  title := proposalTitle indicator
  sigmaYaml := tools.dump (proposedRule T tools indicator techniqueIds)
  techniqueIds := techniqueIds
  confidence := indicator.confidence
  rationale := "STIX indicator '" ++ (if indicator.name = "" then indicator.stixId else indicator.name) ++
    "' of type '" ++ indicator.iocType.name ++ "' with value '" ++ shown 60 indicator.value ++
    "' maps to logsource.category='" ++ indicator.logsourceCategory ++ "'. MITRE techniques: " ++
    (if techniqueIds = [] then "none resolved" else ", ".intercalate techniqueIds) ++ "."
  rule := proposedRule T tools indicator techniqueIds
  sourceIndicators := [if ':' ∈ indicator.value.toList then indicator.value
    else "[" ++ indicator.iocType.name ++ ":" ++ indicator.value ++ "]"]

def dedupKey (indicator : ExtractedIndicator) : String :=
  indicator.iocType.name ++ ":" ++ indicator.value

structure Responding where
  seenValues : List String
  proposals : List SigmaProposal
  skipped : List SkippedIndicator

def respondTo (s : Responding) : DetectableIndicator → Responding
  | .unsupported stixId pattern =>
      { s with skipped := s.skipped ++ [⟨stixId, pattern, .unsupported pattern⟩] }
  | .extracted indicator =>
      if dedupKey indicator ∈ s.seenValues then
        { s with
          skipped := s.skipped ++ [⟨indicator.stixId,
            "[" ++ indicator.iocType.name ++ ":value = '" ++ indicator.value ++ "']",
            .duplicate indicator.iocType indicator.value⟩] }
      else
        { s with
          seenValues := s.seenValues ++ [dedupKey indicator]
          proposals := s.proposals ++ [proposeSigmaRule T tools indicator (resolveTechniqueIds T tools indicator)] }

def skippedObjects (bundle : CtiBundle) : List SkippedIndicator :=
  (bundle.objects.filter (·.type ≠ "indicator")).map fun obj => ⟨obj.id, "", .notIndicator obj.type⟩

def bundlePayload (bundle : CtiBundle) : EgressPayload :=
  .dict [(some "type", .text "bundle"), (some "id", .text bundle.id),
    (some "objects", .seq (bundle.objects.map CtiObject.payload))]

def bundleHasRedMarking (bundle : CtiBundle) : Bool :=
  bundle.objects.any fun obj => markingRefsToTlp obj.objectMarkingRefs = some .red

def respond (bundle : CtiBundle) : CTIToDetectionResponse :=
  let s := (extractDetectableIndicators T bundle).foldl (respondTo T tools) ⟨[], [], []⟩
  ⟨s.proposals, s.skipped ++ skippedObjects bundle⟩

def processStixBundle (bundle : CtiBundle) (activeTlp : TLP) : Except EgressError CTIToDetectionResponse :=
  match (TlpEgress.assertTlpAllowsEgress (bundlePayload bundle) "stix_export" (.tlp activeTlp) none).result with
  | .error e => .error e
  | .ok () =>
      if bundleHasRedMarking bundle then .error (.violation .red (TlpEgress.channel "stix_export"))
      else .ok (respond T tools bundle)

end CtiToDetection

end BTagent
