import BTagent.Lib.Machine
import BTagent.Lib.Slots

namespace BTagent

inductive EventType where
  | INVESTIGATION_INIT
  | INVESTIGATION_COMPLETE
  | INVESTIGATION_FAILED
  | INVESTIGATION_PAUSED
  | INVESTIGATION_RESUMED
  | THINKING
  | OUTPUT
  | OUTPUT_CHUNK
  | OUTPUT_COMPLETE
  | STEP_HEADER
  | AGENT_STATUS
  | TOOL_START
  | TOOL_END
  | TOOL_PROGRESS
  | HITL_CHECKPOINT
  | HITL_RESPONSE
  | HITL_TIMEOUT
  | IOC_DISCOVERED
  | IOC_ENRICHED
  | IOC_CROSS_MATCH
  | IOC_ENRICHMENT_STARTED
  | IOC_ENRICHMENT_COMPLETE
  | ALERT_CLASSIFIED
  | CONTAINMENT_PROPOSED
  | CONTAINMENT_APPROVED
  | CONTAINMENT_EXECUTED
  | EVIDENCE_COLLECTED
  | TIMELINE_UPDATED
  | QUERY_GENERATED
  | QUERY_RESULTS
  | THREAT_ASSESSMENT_UPDATE
  | KNOWLEDGE_INDEXED
  | KNOWLEDGE_QUERIED
  | TLP_VIOLATION_ATTEMPT
  | REPORT_GENERATION_STARTED
  | REPORT_GENERATION_COMPLETE
  | REMEDIATION_GENERATED
  | PLAYBOOK_STARTED
  | PLAYBOOK_STEP_COMPLETE
  | PLAYBOOK_COMPLETE
  | PLAYBOOK_FAILED
  | PLAYBOOK_HITL_GATE
  | HUNT_STARTED
  | HUNT_RULE_FIRED
  | HUNT_FINDING_CREATED
  | HUNT_FINDING_TRIAGED
  | HUNT_FINDING_SUPPRESSED
  | HUNT_FINDING_PROMOTED
  | BEHAVIORAL_OUTLIER_DETECTED
  | METRICS_UPDATE
  | COST_UPDATE
  | TOKEN_USAGE
  | ERROR
  | TERMINATION_REASON
  | SERVER_SHUTDOWN
  | NOTIFICATION
  deriving DecidableEq

-- `orgId` is `data["org_id"]`, `body` is what else the event carries.
structure EventEnvelope where
  type : EventType
  id : String
  investigationId : String
  orgId : Option String
  body : String
  deriving DecidableEq

inductive QueueItem where
  | event (e : EventEnvelope)
  | subscribed (investigationId : String)
  | unsubscribed (investigationId : String)
  deriving DecidableEq

namespace WebSocketHub

def CHANNEL_PREFIX : String := "btagent:events"

def investigationChannel (investigationId : String) : String :=
  CHANNEL_PREFIX ++ ":" ++ investigationId

def globalChannel : String := CHANNEL_PREFIX ++ ":global"

def CRITICAL_EVENT_TYPES : List EventType :=
  [.HITL_CHECKPOINT, .HITL_RESPONSE, .HITL_TIMEOUT, .ERROR, .INVESTIGATION_COMPLETE,
    .INVESTIGATION_FAILED, .CONTAINMENT_PROPOSED, .CONTAINMENT_APPROVED, .CONTAINMENT_EXECUTED,
    .SERVER_SHUTDOWN]

def BACKPRESSURE_QUEUE_LIMIT : ℕ := 256

def isCritical (e : EventEnvelope) : Bool := CRITICAL_EVENT_TYPES.contains e.type

end WebSocketHub

-- `enqueued` is all that was put into the queue so far, `overflowed` whether it was ever full then.
structure ConnectedClient where
  orgId : Option String
  subscriptions : List String
  queue : List QueueItem
  enqueued : List QueueItem
  overflowed : Bool

inductive Publishing where
  | investigationCopy (e : EventEnvelope)
  | globalCopy (e : EventEnvelope)
  | sent
  deriving DecidableEq

-- `wire` holds what Redis has yet to deliver, `published` the events that passed the gate.
structure WebSocketHub where
  clients : List ConnectedClient
  investigationClients : String → List ℕ
  globalClients : List ℕ
  publishing : List Publishing
  wire : List (String × EventEnvelope)
  published : List EventEnvelope

inductive HubEvent where
  | connect (orgId investigationId : Option String)
  | disconnect (client : ℕ)
  | subscribe (client : ℕ) (investigationId : String)
  | unsubscribe (client : ℕ) (investigationId : String)
  | publish (e : EventEnvelope)
  | redisPublish (call : ℕ)
  | deliver
  | send (client : ℕ)

namespace ConnectedClient
open WebSocketHub

-- A full queue keeps its critical events and its acknowledgements.
def keeps : QueueItem → Bool
  | .event e => isCritical e
  | .subscribed _ | .unsubscribed _ => true

def enqueue (c : ConnectedClient) (item : QueueItem) (critical : Bool) : ConnectedClient :=
  if c.queue.length < BACKPRESSURE_QUEUE_LIMIT then
    { c with queue := c.queue ++ [item], enqueued := c.enqueued ++ [item] }
  else if critical then
    let keep := c.queue.filter keeps ++ [item]
    { c with
      queue := keep.drop (keep.length - BACKPRESSURE_QUEUE_LIMIT)
      enqueued := c.enqueued ++ [item]
      overflowed := true }
  else { c with overflowed := true }

-- `_client_passes_org_filter`
def passesOrgFilter (c : ConnectedClient) (eventOrgId : Option String) (strict : Bool) : Bool :=
  match eventOrgId, c.orgId with
  | none, orgId => !(strict && orgId.isSome)
  | some _, none => true
  | some eventOrgId, some orgId => orgId = eventOrgId

end ConnectedClient

namespace WebSocketHub
open ConnectedClient

variable (restricted : EventEnvelope → Bool)

-- `restricted` stands for the TLP egress gate; its own alert is exempt.
def shouldDropForTlp (e : EventEnvelope) : Bool :=
  e.type ≠ .TLP_VIOLATION_ATTEMPT && restricted e

def discard (h : WebSocketHub) (client : ℕ) (channels : List String) : String → List ℕ := fun ch =>
  if ch ∈ channels then (h.investigationClients ch).filter (· ≠ client)
  else h.investigationClients ch

def subscribe (h : WebSocketHub) (client : ℕ) (investigationId : String) : WebSocketHub :=
  { h with
    investigationClients := Function.update h.investigationClients
      (investigationChannel investigationId)
      ((h.investigationClients (investigationChannel investigationId)).insert client)
    clients := h.clients.modify client fun c =>
      { c with subscriptions := c.subscriptions.insert investigationId }.enqueue
        (.subscribed investigationId) true }

def unsubscribe (h : WebSocketHub) (client : ℕ) (investigationId : String) : WebSocketHub :=
  { h with
    investigationClients := h.discard client [investigationChannel investigationId]
    clients := h.clients.modify client fun c =>
      { c with subscriptions := c.subscriptions.filter (· ≠ investigationId) }.enqueue
        (.unsubscribed investigationId) true }

def connect (h : WebSocketHub) (orgId investigationId : Option String) : WebSocketHub :=
  let client := h.clients.length
  let h : WebSocketHub := { h with clients := h.clients ++ [⟨orgId, [], [], [], false⟩] }
  match investigationId with
  | some investigationId => h.subscribe client investigationId
  | none => { h with globalClients := h.globalClients.insert client }

def disconnect (h : WebSocketHub) (client : ℕ) : WebSocketHub :=
  match h.clients[client]? with
  | none => h
  | some c =>
      { h with
        investigationClients := h.discard client (c.subscriptions.map investigationChannel)
        globalClients := h.globalClients.filter (· ≠ client) }

def publish (h : WebSocketHub) (e : EventEnvelope) : WebSocketHub :=
  if shouldDropForTlp restricted e then h
  else
    { h with publishing := h.publishing ++ [.investigationCopy e], published := h.published ++ [e] }

def redisPublish (h : WebSocketHub) (i : ℕ) : Option WebSocketHub :=
  match h.publishing[i]? with
  | some (.investigationCopy e) =>
      some { h with
        wire := h.wire ++ [(investigationChannel e.investigationId, e)]
        publishing := h.publishing.set i (.globalCopy e) }
  | some (.globalCopy e) =>
      some { h with
        wire := h.wire ++ [(globalChannel, e)]
        publishing := h.publishing.set i .sent }
  | _ => none

def isTarget (h : WebSocketHub) (channel : String) (e : EventEnvelope) (i : ℕ)
    (c : ConnectedClient) : Bool :=
  if channel = globalChannel then
    i ∈ h.globalClients ∧ e.investigationId ∉ c.subscriptions ∧ c.passesOrgFilter e.orgId true
  else i ∈ h.investigationClients channel ∧ c.passesOrgFilter e.orgId false

def dispatch (h : WebSocketHub) (channel : String) (e : EventEnvelope) : WebSocketHub :=
  if shouldDropForTlp restricted e then h
  else
    { h with
      clients := h.clients.mapIdx fun i c =>
        if h.isTarget channel e i c then c.enqueue (.event e) (isCritical e) else c }

def deliver (h : WebSocketHub) : Option WebSocketHub :=
  match h.wire with
  | [] => none
  | (channel, e) :: wire => some { h.dispatch restricted channel e with wire := wire }

-- One round of `_sender_loop`.
def send (h : WebSocketHub) (client : ℕ) : WebSocketHub :=
  { h with clients := h.clients.modify client fun c => { c with queue := c.queue.tail } }

def hub : Machine WebSocketHub HubEvent where
  step h
    | .connect orgId investigationId => some (h.connect orgId investigationId)
    | .disconnect client => some (h.disconnect client)
    | .subscribe client investigationId =>
        if client < h.clients.length then some (h.subscribe client investigationId) else none
    | .unsubscribe client investigationId =>
        if client < h.clients.length then some (h.unsubscribe client investigationId) else none
    | .publish e => some (h.publish restricted e)
    | .redisPublish call => h.redisPublish call
    | .deliver => h.deliver restricted
    | .send client => some (h.send client)

def started : WebSocketHub := ⟨[], fun _ => [], [], [], [], []⟩

end WebSocketHub

end BTagent
