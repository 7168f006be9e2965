import BTagent.Lib.OrderedDict
import BTagent.Mcp.CircuitBreaker
import Mathlib.Data.Finset.Basic

namespace BTagent

structure MCPServerConfig where
  name : String
  circuitBreakerThreshold : ℕ := 5
  circuitBreakerRecovery : ℤ := 30
  circuitBreakerRecoveryMax : Option ℤ := none

def getRecoveryTimeoutMax (config : MCPServerConfig) : ℚ :=
  match config.circuitBreakerRecoveryMax with
  | some value => value
  | none => 600

-- `ref` is the object: two objects made for one server differ in it.
structure ManagedConnection where
  ref : ℕ
  connectionId : String
  serverName : String
  createdAt : ℚ
  lastUsedAt : ℚ
  consumers : Finset String := ∅
  isHealthy : Bool := true
  lastHealthCheck : ℚ := 0
  healthCheckFailures : ℕ := 0
  circuitBreaker : CircuitBreaker
  connected : Bool := false

inductive PoolError where
  | circuitOpen (error : CircuitOpenError)
  | runtimeError (text : String)

namespace ManagedConnection

def make (ref : ℕ) (serverName : String) (config : MCPServerConfig) (now : ℚ) :
    ManagedConnection where
  ref := ref
  connectionId := serverName
  serverName := serverName
  createdAt := now
  lastUsedAt := now
  circuitBreaker :=
    { connectionId := serverName
      failureThreshold := config.circuitBreakerThreshold
      recoveryTimeout := config.circuitBreakerRecovery
      recoveryTimeoutMax := getRecoveryTimeoutMax config }

def isIdle (conn : ManagedConnection) : Prop := conn.consumers = ∅

instance (conn : ManagedConnection) : Decidable conn.isIdle :=
  inferInstanceAs (Decidable (_ = _))

def idleTime (conn : ManagedConnection) (now : ℚ) : ℚ :=
  if conn.isIdle then now - conn.lastUsedAt else 0

def touch (conn : ManagedConnection) (now : ℚ) : ManagedConnection :=
  { conn with lastUsedAt := now }

def addConsumer (conn : ManagedConnection) (consumer : String) (now : ℚ) : ManagedConnection :=
  { conn with consumers := insert consumer conn.consumers, lastUsedAt := now }

def removeConsumer (conn : ManagedConnection) (consumer : String) (now : ℚ) : ManagedConnection :=
  let conn := { conn with consumers := conn.consumers.erase consumer }
  if conn.isIdle then conn.touch now else conn

def connect (conn : ManagedConnection) (now : ℚ) : ManagedConnection :=
  if conn.connected then conn
  else { conn with connected := true, isHealthy := true, lastHealthCheck := now }

def disconnect (conn : ManagedConnection) : ManagedConnection :=
  { conn with connected := false, isHealthy := false }

def healthCheck (conn : ManagedConnection) (now : ℚ) : ManagedConnection :=
  if conn.connected then
    { conn with isHealthy := true, healthCheckFailures := 0, lastHealthCheck := now }
  else { conn with isHealthy := false, healthCheckFailures := conn.healthCheckFailures + 1 }

def onBreaker (conn : ManagedConnection) (f : CircuitBreaker → CircuitBreaker) :
    ManagedConnection :=
  { conn with circuitBreaker := f conn.circuitBreaker }

def reconnect (conn : ManagedConnection) (now : ℚ) : ManagedConnection :=
  (conn.disconnect.connect now).onBreaker CircuitBreaker.reset

-- `if consumer_id: managed.add_consumer(consumer_id)`
def acquire (conn : ManagedConnection) (consumer : Option String) (now : ℚ) : ManagedConnection :=
  match consumer with
  | some consumer => if consumer = "" then conn else conn.addConsumer consumer now
  | none => conn

end ManagedConnection

structure PoolSettings where
  maxConnections : ℕ := 50
  idleTimeout : ℚ := 300

structure MCPConnectionRegistry where
  connections : OrderedDict String ManagedConnection := OrderedDict.empty
  made : ℕ := 0

namespace MCPConnectionRegistry

def size (r : MCPConnectionRegistry) : ℕ := r.connections.entries.length

def put (r : MCPConnectionRegistry) (serverName : String) (conn : ManagedConnection) :
    MCPConnectionRegistry :=
  { r with connections := r.connections.set serverName conn }

def forEach (r : MCPConnectionRegistry) (f : ManagedConnection → ManagedConnection) :
    MCPConnectionRegistry :=
  { r with connections := r.connections.mapVal f }

def forServer (r : MCPConnectionRegistry) (serverName : String)
    (f : ManagedConnection → ManagedConnection) : MCPConnectionRegistry :=
  match r.connections.get? serverName with
  | some conn => r.put serverName (f conn)
  | none => r

section Settings
variable (P : PoolSettings)

def toEvict (r : MCPConnectionRegistry) (now : ℚ) : List String :=
  (r.connections.entries.filter fun kv =>
    decide (kv.2.isIdle ∧ P.idleTimeout < kv.2.idleTime now)).map Prod.fst

def evictIdleConnections (r : MCPConnectionRegistry) (now : ℚ) : MCPConnectionRegistry :=
  { r with
    connections := r.connections.filterKeys fun name => decide (name ∉ r.toEvict P now) }

def runHealthChecks (r : MCPConnectionRegistry) (now : ℚ) : MCPConnectionRegistry :=
  (r.forEach fun conn => conn.healthCheck now).evictIdleConnections P now

def runKeepalive (r : MCPConnectionRegistry) (now : ℚ) : MCPConnectionRegistry :=
  r.forEach fun conn => if conn.connected ∧ ¬ conn.isIdle then conn.touch now else conn

def getExisting (r : MCPConnectionRegistry) (now : ℚ) (serverName : String)
    (existing : ManagedConnection) (consumerId : Option String) :
    MCPConnectionRegistry × Except PoolError ManagedConnection :=
  let (breaker, checked) := existing.circuitBreaker.checkState now
  let existing := { existing with circuitBreaker := breaker }
  match checked with
  | .error error => (r.put serverName existing, .error (.circuitOpen error))
  | .ok () =>
      let existing := if existing.isHealthy then existing else existing.reconnect now
      let existing := existing.acquire consumerId now
      (r.put serverName existing, .ok existing)

def withRoom (r : MCPConnectionRegistry) (now : ℚ) : MCPConnectionRegistry :=
  if P.maxConnections ≤ r.size then r.evictIdleConnections P now else r

def create (r : MCPConnectionRegistry) (now : ℚ) (serverName : String)
    (config : Option MCPServerConfig) (consumerId : Option String) :
    MCPConnectionRegistry × Except PoolError ManagedConnection :=
  let r := r.withRoom P now
  if P.maxConnections ≤ r.size then
    (r, .error (.runtimeError s!"MCP pool full ({P.maxConnections} connections)"))
  else
    match config with
    | none =>
        (r, .error (.runtimeError
          s!"No existing connection for '{serverName}' and no config provided"))
    | some config =>
        let managed := (ManagedConnection.make r.made serverName config now).connect now
        let managed := managed.acquire consumerId now
        ({ r.put serverName managed with made := r.made + 1 }, .ok managed)

def getConnection (r : MCPConnectionRegistry) (now : ℚ) (serverName : String)
    (config : Option MCPServerConfig) (consumerId : Option String) :
    MCPConnectionRegistry × Except PoolError ManagedConnection :=
  match r.connections.get? serverName with
  | some existing => r.getExisting now serverName existing consumerId
  | none => r.create P now serverName config consumerId

end Settings

def releaseConnection (r : MCPConnectionRegistry) (now : ℚ) (serverName consumerId : String) :
    MCPConnectionRegistry :=
  r.forServer serverName fun conn => conn.removeConsumer consumerId now

def recordSuccess (r : MCPConnectionRegistry) (now : ℚ) (serverName : String) :
    MCPConnectionRegistry :=
  r.forServer serverName fun conn => (conn.onBreaker CircuitBreaker.recordSuccess).touch now

def recordFailure (r : MCPConnectionRegistry) (now : ℚ) (serverName : String) :
    MCPConnectionRegistry :=
  r.forServer serverName fun conn => conn.onBreaker fun cb => cb.recordFailure now

-- `_check_circuit` of the adapters
def checkCircuit (r : MCPConnectionRegistry) (now : ℚ) (serverName : String) :
    MCPConnectionRegistry :=
  r.forServer serverName fun conn => conn.onBreaker fun cb => (cb.checkState now).1

def getStatus (r : MCPConnectionRegistry) (now : ℚ) : MCPConnectionRegistry :=
  r.forEach fun conn => conn.onBreaker fun cb => cb.effectiveState now

end MCPConnectionRegistry

end BTagent
