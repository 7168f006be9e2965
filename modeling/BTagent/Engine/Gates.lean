import BTagent.Data.Json
import BTagent.Engine.Compiler
import Mathlib.Data.List.Infix

namespace BTagent

inductive AutonomyLevel where
  | l0Manual
  | l1Assisted
  | l2Supervised
  | l3Autonomous
  | l4FullAuto
  deriving DecidableEq, Repr

inductive TLP where
  | red
  | amberStrict
  | amber
  | green
  | white
  deriving DecidableEq, Repr

namespace TLP

def value : TLP → String
  | red => "red"
  | amberStrict => "amber_strict"
  | amber => "amber"
  | green => "green"
  | white => "white"

def order : TLP → ℕ
  | white => 0
  | green => 1
  | amber => 2
  | amberStrict => 3
  | red => 4

def allows (capabilityMax active : TLP) : Bool := active.order ≤ capabilityMax.order

end TLP

structure IntegrationAutonomy where
  siemQuery : AutonomyLevel := .l3Autonomous
  edrQuery : AutonomyLevel := .l3Autonomous
  ctiLookup : AutonomyLevel := .l3Autonomous
  hostIsolation : AutonomyLevel := .l0Manual
  firewallRule : AutonomyLevel := .l0Manual
  accountDisable : AutonomyLevel := .l0Manual
  playbookExecution : AutonomyLevel := .l2Supervised

inductive NodeCategory where
  | trigger
  | integration
  | reasoning
  | knowledge
  | decision
  | data
  | output
  deriving DecidableEq, Repr

structure Capability where
  id : String
  ocsfEmits : List String
  tlpEgress : TLP
  costClass : String
  hitlRequired : Bool

structure ConnectorManifest where
  name : String
  queries : List Capability
  actions : List Capability
  streams : List Capability

namespace ConnectorManifest

def capabilities (m : ConnectorManifest) : List Capability := m.queries ++ m.actions ++ m.streams

def capability (m : ConnectorManifest) (id : String) : Option Capability :=
  m.capabilities.find? fun c => c.id = id

end ConnectorManifest

structure NodeClass where
  id : String
  category : NodeCategory
  inputFields : List String
  validate : Dict → Except String Dict
  manifest : Option ConnectorManifest
  capabilityId : Option String

structure Metadata where
  currentStepId : Option StepId
  approvedSteps : List StepId
  connectorName : Option String
  capabilityId : Option String
  costClass : Option String

inductive Pause where
  | hitl (nodeId : String) (requiredLevel agentLevel : AutonomyLevel)
  | hitlGate (nodeId requiredRole prompt : String)
  | pendingApproval (capabilityId connectorName : String)
  deriving DecidableEq, Repr

structure Posture where
  agentAutonomy : AutonomyLevel
  integrationAutonomy : IntegrationAutonomy
  activeTlp : Option TLP
  lower : String → String

namespace Gates

def hitlGateNodeId : String := "decision.hitl_gate"

inductive AutonomyField where
  | siemQuery
  | edrQuery
  | ctiLookup
  | hostIsolation
  | firewallRule
  | accountDisable
  | playbookExecution
  deriving DecidableEq, Repr

def AutonomyField.level (a : IntegrationAutonomy) : AutonomyField → AutonomyLevel
  | siemQuery => a.siemQuery
  | edrQuery => a.edrQuery
  | ctiLookup => a.ctiLookup
  | hostIsolation => a.hostIsolation
  | firewallRule => a.firewallRule
  | accountDisable => a.accountDisable
  | playbookExecution => a.playbookExecution

def nodeAutonomyMap : List (String × AutonomyField) := [
  ("splunk", .siemQuery),
  ("elastic", .siemQuery),
  ("sentinelone", .edrQuery),
  ("sentinel", .siemQuery),
  ("siem", .siemQuery),
  ("crowdstrike", .edrQuery),
  ("defender", .edrQuery),
  ("carbon_black", .edrQuery),
  ("edr", .edrQuery),
  ("virustotal", .ctiLookup),
  ("misp", .ctiLookup),
  ("otx", .ctiLookup),
  ("abuse", .ctiLookup),
  ("greynoise", .ctiLookup),
  ("shodan", .ctiLookup),
  ("cti", .ctiLookup),
  ("isolate", .hostIsolation),
  ("quarantine", .hostIsolation),
  ("contain", .hostIsolation),
  ("mitigate", .hostIsolation),
  ("firewall", .firewallRule),
  ("block_ip", .firewallRule),
  ("block_domain", .firewallRule),
  ("disable_account", .accountDisable),
  ("disable_user", .accountDisable),
  ("lock_account", .accountDisable),
  ("playbook", .playbookExecution),
  ("soar", .playbookExecution)]

def alwaysGateCategories : List AutonomyField := [.hostIsolation, .firewallRule, .accountDisable]

def containmentTokens : List String :=
  (nodeAutonomyMap.filter fun tf => tf.2 ∈ alwaysGateCategories).map Prod.fst

def occursIn (token text : String) : Bool := token.toList <:+: text.toList

def isContainmentNode (P : Posture) (nodeId : String) : Bool :=
  containmentTokens.any fun token => occursIn token (P.lower nodeId)

def resolveNodeAutonomy (P : Posture) (nodeId : String) : AutonomyLevel :=
  match nodeAutonomyMap.find? fun tf => occursIn tf.1 (P.lower nodeId) with
  | some tf => tf.2.level P.integrationAutonomy
  | none => .l2Supervised

def levelIndex : AutonomyLevel → ℕ
  | .l0Manual => 0
  | .l1Assisted => 1
  | .l2Supervised => 2
  | .l3Autonomous => 3
  | .l4FullAuto => 4

def requiresApproval (P : Posture) (nodeId : String) : Bool :=
  if isContainmentNode P nodeId then true
  else
    let nodeLevel := resolveNodeAutonomy P nodeId
    match P.agentAutonomy with
    | .l0Manual => true
    | .l1Assisted => levelIndex nodeLevel < levelIndex .l3Autonomous
    | .l2Supervised => levelIndex nodeLevel ≤ levelIndex .l1Assisted
    | _ => nodeLevel = .l0Manual

def stepIsApproved (md : Metadata) : Bool :=
  match md.currentStepId with
  | some s => s ∈ md.approvedSteps
  | none => false

def hitlBefore (P : Posture) (node : NodeClass) (md : Metadata) : Option Pause :=
  if node.category ≠ .integration then none
  else if stepIsApproved md then none
  else if !requiresApproval P node.id then none
  else some (.hitl node.id (resolveNodeAutonomy P node.id) P.agentAutonomy)

-- `getattr(input, field, "") or default` on a field that the gate's schema types as a string.
def textOr (default : String) : Option Json → String
  | some (.str s) => if s = "" then default else s
  | _ => default

def hitlGateBefore (node : NodeClass) (input : Dict) (md : Metadata) : Option Pause :=
  if node.id ≠ hitlGateNodeId then none
  else if stepIsApproved md then none
  else some (.hitlGate node.id (textOr "senior_analyst" (input.get? "required_role"))
    (textOr "" (input.get? "prompt")))

def resolveCapability (m : ConnectorManifest) (node : NodeClass) (input : Dict) :
    Option Capability :=
  match input.get? "_capability_id" with
  | some (.str requested) => m.capability requested
  | none | some .null =>
      match node.capabilityId with
      | some declared => m.capability declared
      | none => if m.capabilities.length = 1 then m.capabilities.head? else none
  | some _ => none

inductive PolicyViolation where
  | noCapability (connector : String)
  | tlpEgress (connector capability : String) (egress active : TLP)
  deriving DecidableEq, Repr

inductive PolicyOutcome where
  | pass (md : Metadata)
  | violation (v : PolicyViolation)
  | pause (p : Pause)

def connectorPolicyBefore (P : Posture) (node : NodeClass) (input : Dict) (md : Metadata) :
    PolicyOutcome :=
  match node.manifest with
  | none => .pass md
  | some m =>
      match resolveCapability m node input with
      | none => .violation (.noCapability m.name)
      | some cap =>
          let active := P.activeTlp.getD .red
          if !cap.tlpEgress.allows active then
            .violation (.tlpEgress m.name cap.id cap.tlpEgress active)
          else if cap.hitlRequired && !stepIsApproved md then
            .pause (.pendingApproval cap.id m.name)
          else
            .pass { md with
              connectorName := some m.name
              capabilityId := some cap.id
              costClass := some cap.costClass }

def strings (xs : List Json) : List String :=
  xs.filterMap fun x =>
    match x with
    | .str s => some s
    | _ => none

def arrayItems : Option Json → List Json
  | some (.arr xs) => xs
  | _ => []

def eventClass : Json → Option Json
  | .obj kvs => OrderedDict.find "class" kvs
  | _ => none

def extractOcsfClaims (output : Dict) : List String :=
  (strings (output.get? "ocsf_event_class").toList ++
    strings (arrayItems (output.get? "ocsf_emits")) ++
    strings ((arrayItems (output.get? "events")).filterMap eventClass)).reverse.dedup.reverse

def ocsfUndeclared (node : NodeClass) (output : Dict) (md : Metadata) : List String :=
  match node.manifest, md.capabilityId with
  | some m, some capabilityId =>
      match m.capability capabilityId with
      | some cap =>
          if cap.ocsfEmits.isEmpty then []
          else (extractOcsfClaims output).filter fun c => c ∉ cap.ocsfEmits
      | none => []
  | _, _ => []

section Spec
variable {P : Posture} {node : NodeClass} {input : Dict} {md md' : Metadata} {p : Pause}

theorem hitlBefore_eq_some : hitlBefore P node md = some p ↔
    node.category = .integration ∧ requiresApproval P node.id = true ∧ stepIsApproved md = false ∧
      p = .hitl node.id (resolveNodeAutonomy P node.id) P.agentAutonomy := by
  cases happ : stepIsApproved md <;> cases hreq : requiresApproval P node.id <;>
    simp [hitlBefore, happ, hreq, eq_comm]

theorem hitlGateBefore_eq_some : hitlGateBefore node input md = some p ↔
    node.id = hitlGateNodeId ∧ stepIsApproved md = false ∧
      p = .hitlGate node.id (textOr "senior_analyst" (input.get? "required_role"))
        (textOr "" (input.get? "prompt")) := by
  cases happ : stepIsApproved md <;> simp [hitlGateBefore, happ, eq_comm]

theorem connectorPolicyBefore_pause (h : connectorPolicyBefore P node input md = .pause p) :
    ∃ m cap, node.manifest = some m ∧ resolveCapability m node input = some cap ∧
      cap.hitlRequired = true ∧ stepIsApproved md = false ∧
      p = .pendingApproval cap.id m.name := by
  cases hm : node.manifest with
  | none => simp [connectorPolicyBefore, hm] at h
  | some m =>
      cases hcap : resolveCapability m node input with
      | none => simp [connectorPolicyBefore, hm, hcap] at h
      | some cap =>
          simp only [connectorPolicyBefore, hm, hcap] at h
          split at h
          · cases h
          · split at h
            · next hreq =>
                cases h
                exact ⟨m, cap, rfl, hcap, by simp_all⟩
            · cases h

theorem connectorPolicyBefore_pass (h : connectorPolicyBefore P node input md = .pass md') :
    md'.approvedSteps = md.approvedSteps ∧ md'.currentStepId = md.currentStepId ∧
      ∀ m cap, node.manifest = some m → resolveCapability m node input = some cap →
        cap.hitlRequired = true → stepIsApproved md = true := by
  cases hm : node.manifest with
  | none =>
      simp only [connectorPolicyBefore, hm] at h
      cases h
      exact ⟨rfl, rfl, by simp⟩
  | some m =>
      cases hcap : resolveCapability m node input with
      | none => simp [connectorPolicyBefore, hm, hcap] at h
      | some cap =>
          simp only [connectorPolicyBefore, hm, hcap] at h
          split at h
          · cases h
          · split at h
            · cases h
            · next hreq =>
                cases h
                refine ⟨rfl, rfl, ?_⟩
                rintro m' cap' hm' hcap' hreq'
                cases hm'
                rw [hcap] at hcap'
                cases hcap'
                simpa [hreq'] using hreq

end Spec

end Gates

end BTagent
