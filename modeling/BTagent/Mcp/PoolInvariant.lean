import BTagent.Mcp.CircuitBreaker
import BTagent.Mcp.Registry

namespace BTagent

inductive PoolEvent where
  | getConnection (serverName : String) (config : Option MCPServerConfig)
      (consumerId : Option String)
  | releaseConnection (serverName consumerId : String)
  | recordSuccess (serverName : String)
  | recordFailure (serverName : String)
  | checkCircuit (serverName : String)
  | getStatus
  | runHealthChecks
  | runKeepalive

-- `due` is the end of the wait of a server's last trip; `holders` are the consumers of a server
-- that have not released it, each with the connection that it was given.
structure PoolRun where
  registry : MCPConnectionRegistry := {}
  clock : ℚ
  due : String → Option ℚ := fun _ => none
  holders : String → String → Option ℕ := fun _ _ => none

namespace PoolRun

open BreakerRun CircuitBreaker

variable (P : PoolSettings)

def after (r : MCPConnectionRegistry) (now : ℚ) : PoolEvent → MCPConnectionRegistry
  | .getConnection name config consumerId => (r.getConnection P now name config consumerId).1
  | .releaseConnection name consumerId => r.releaseConnection now name consumerId
  | .recordSuccess name => r.recordSuccess now name
  | .recordFailure name => r.recordFailure now name
  | .checkCircuit name => r.checkCircuit now name
  | .getStatus => r.getStatus now
  | .runHealthChecks => r.runHealthChecks P now
  | .runKeepalive => r.runKeepalive now

def evicted (r : MCPConnectionRegistry) (now : ℚ) : PoolEvent → List String
  | .getConnection name _ _ =>
      if r.connections.get? name = none ∧ P.maxConnections ≤ r.size then r.toEvict P now else []
  | .runHealthChecks => (r.forEach fun conn => conn.healthCheck now).toEvict P now
  | _ => []

def dueAfter (due : Option ℚ) (now : ℚ) : Option ManagedConnection → Option ManagedConnection →
    Option ℚ
  | some a, some b =>
      if Trips a.circuitBreaker b.circuitBreaker
      then some (now + b.circuitBreaker.computeRecoveryTimeout) else due
  | _, _ => due

def hold (holders : String → String → Option ℕ) (name consumerId : String) (ref : Option ℕ) :
    String → String → Option ℕ :=
  Function.update holders name (Function.update (holders name) consumerId ref)

def holdersAfter (s : PoolRun) (now : ℚ) : PoolEvent → String → String → Option ℕ
  | .getConnection name config (some consumerId) =>
      match (s.registry.getConnection P now name config (some consumerId)).2 with
      | .ok conn =>
          if consumerId = "" then s.holders else hold s.holders name consumerId (some conn.ref)
      | .error _ => s.holders
  | .releaseConnection name consumerId => hold s.holders name consumerId none
  | _ => s.holders

def next (s : PoolRun) (now : ℚ) (e : PoolEvent) : PoolRun where
  registry := after P s.registry now e
  clock := now
  due name := dueAfter (s.due name) now (s.registry.connections.get? name)
    ((after P s.registry now e).connections.get? name)
  holders := holdersAfter P s now e

def machine : Machine PoolRun (ℚ × PoolEvent) where
  step s e := if s.clock ≤ e.1 then some (s.next P e.1 e.2) else none

structure PoolSafe (s : PoolRun) : Prop where
  bounded : s.registry.size ≤ P.maxConnections
  onePerServer : ∀ kv ∈ s.registry.connections.entries,
    ∀ kv' ∈ s.registry.connections.entries, kv.2.serverName = kv'.2.serverName → kv = kv'
  held : ∀ name consumerId ref, s.holders name consumerId = some ref →
    ∃ conn, s.registry.connections.get? name = some conn ∧ conn.ref = ref ∧
      consumerId ∈ conn.consumers
  failsFast : ∀ name now config consumerId conn, s.clock ≤ now →
    (s.registry.getConnection P now name config consumerId).2 = .ok conn →
    ∀ due ∈ s.due name, due ≤ now
  remembered : ∀ name, ∀ due ∈ s.due name, ∀ now, s.clock ≤ now → now < due →
    ∃ conn, s.registry.connections.get? name = some conn ∧ conn.circuitBreaker.Rejects now

-- A connection is evicted only when the wait of its server's last trip is over.
def EvictsRecovered (s : PoolRun) (e : ℚ × PoolEvent) : Prop :=
  ∀ name ∈ evicted P s.registry e.1 e.2, ∀ due ∈ s.due name, due ≤ e.1

instance (s : PoolRun) (e : ℚ × PoolEvent) : Decidable (EvictsRecovered P s e) :=
  inferInstanceAs (Decidable (∀ name ∈ evicted P s.registry e.1 e.2, ∀ due ∈ s.due name, due ≤ e.1))

inductive BreakerChange (now : ℚ) (cb cb' : CircuitBreaker) : Prop where
  | same (h : cb' = cb)
  | called (c : Call) (hc : c ≠ .reset) (h : cb' = cb.call now c)
  | restored (hpasses : ¬ cb.Rejects now) (hstate : cb'.state = .CLOSED)

-- A connection that stays in the pool.
structure Kept (now : ℚ) (e : PoolEvent) (name : String) (a b : ManagedConnection) : Prop where
  ref : b.ref = a.ref
  server : b.serverName = a.serverName
  breaker : BreakerChange now a.circuitBreaker b.circuitBreaker
  consumers : ∀ c ∈ a.consumers, e = .releaseConnection name c ∨ c ∈ b.consumers

inductive SlotChange (r : MCPConnectionRegistry) (now : ℚ) (e : PoolEvent) (name : String) :
    Option ManagedConnection → Option ManagedConnection → Prop where
  | absent : SlotChange r now e name none none
  | made (b : ManagedConnection) (hserver : b.serverName = name)
      (hstate : b.circuitBreaker.state = .CLOSED) : SlotChange r now e name none (some b)
  | kept (a b : ManagedConnection) (h : Kept now e name a b) :
      SlotChange r now e name (some a) (some b)
  | dropped (a : ManagedConnection) (hidle : a.isIdle) (hevicted : name ∈ evicted P r now e) :
      SlotChange r now e name (some a) none

section Slots
variable {r : MCPConnectionRegistry} {now : ℚ} {e : PoolEvent} {name : String}

open MCPConnectionRegistry

theorem get?_forServer (r : MCPConnectionRegistry) (server name : String)
    (f : ManagedConnection → ManagedConnection) :
    (r.forServer server f).connections.get? name =
      if name = server then (r.connections.get? server).map f else r.connections.get? name := by
  cases hconn : r.connections.get? server with
  | none =>
      simp only [forServer, hconn, Option.map_none]
      split
      · rename_i heq
        rw [heq, hconn]
      · rfl
  | some conn =>
      simp only [forServer, hconn, Option.map_some]
      exact OrderedDict.get?_set _ _ _ _

theorem get?_forEach (r : MCPConnectionRegistry) (name : String)
    (f : ManagedConnection → ManagedConnection) :
    (r.forEach f).connections.get? name = (r.connections.get? name).map f :=
  OrderedDict.get?_mapVal f _ _

theorem get?_evict (r : MCPConnectionRegistry) (now : ℚ) (name : String) :
    (r.evictIdleConnections P now).connections.get? name =
      if name ∈ r.toEvict P now then none else r.connections.get? name := by
  rw [evictIdleConnections, OrderedDict.get?_filterKeys]
  split <;> simp_all

theorem idle_of_toEvict {conn : ManagedConnection} (h : name ∈ r.toEvict P now)
    (hconn : r.connections.get? name = some conn) : conn.isIdle := by
  simp only [toEvict, List.mem_map, List.mem_filter, decide_eq_true_eq] at h
  obtain ⟨⟨key, other⟩, ⟨hmem, hidle, -⟩, rfl⟩ := h
  rw [OrderedDict.mem_entries_iff] at hmem
  obtain rfl := Option.some.inj (hmem.symm.trans hconn)
  exact hidle

theorem Kept.refl (a : ManagedConnection) : Kept now e name a a :=
  ⟨rfl, rfl, .same rfl, fun _ h => .inr h⟩

theorem SlotChange.refl (x : Option ManagedConnection) : SlotChange P r now e name x x := by
  cases x with
  | none => exact .absent
  | some a => exact .kept a a (Kept.refl a)

theorem SlotChange.map {f : ManagedConnection → ManagedConnection}
    (hf : ∀ a, Kept now e name a (f a)) (x : Option ManagedConnection) :
    SlotChange P r now e name x (x.map f) := by
  cases x with
  | none => exact .absent
  | some a => exact .kept a (f a) (hf a)

theorem slot_forServer {server : String} {f : ManagedConnection → ManagedConnection}
    (hf : ∀ a, Kept now e server a (f a)) :
    SlotChange P r now e name (r.connections.get? name)
      ((r.forServer server f).connections.get? name) := by
  rw [get?_forServer]
  split
  · rename_i heq
    rw [heq]
    exact SlotChange.map P hf _
  · exact SlotChange.refl P _

theorem slot_forEach {f : ManagedConnection → ManagedConnection}
    (hf : ∀ a, Kept now e name a (f a)) :
    SlotChange P r now e name (r.connections.get? name)
      ((r.forEach f).connections.get? name) := by
  rw [get?_forEach]
  exact SlotChange.map P hf _

theorem slot_evict (hevicted : name ∈ r.toEvict P now → name ∈ evicted P r now e) :
    SlotChange P r now e name (r.connections.get? name)
      ((r.evictIdleConnections P now).connections.get? name) := by
  rw [get?_evict]
  split
  · rename_i hmem
    cases hconn : r.connections.get? name with
    | none => exact .absent
    | some a => exact .dropped a (idle_of_toEvict P hmem hconn) (hevicted hmem)
  · exact SlotChange.refl P _

theorem kept_removeConsumer (a : ManagedConnection) (consumerId : String) :
    Kept now (.releaseConnection name consumerId) name a (a.removeConsumer consumerId now) := by
  have hkept : ∀ c ∈ a.consumers,
      PoolEvent.releaseConnection name consumerId = .releaseConnection name c ∨
        c ∈ a.consumers.erase consumerId := by
    intro c hc
    rcases eq_or_ne c consumerId with rfl | hne
    · exact .inl rfl
    · exact .inr (Finset.mem_erase.mpr ⟨hne, hc⟩)
  rw [ManagedConnection.removeConsumer]
  split
  · exact ⟨rfl, rfl, .same rfl, hkept⟩
  · exact ⟨rfl, rfl, .same rfl, hkept⟩

theorem Kept.acquire {a b : ManagedConnection} (h : Kept now e name a b)
    (consumerId : Option String) : Kept now e name a (b.acquire consumerId now) := by
  cases consumerId with
  | none => exact h
  | some consumer =>
      simp only [ManagedConnection.acquire]
      split
      · exact h
      · refine ⟨h.ref, h.server, h.breaker, ?_⟩
        intro c hc
        exact (h.consumers c hc).imp_right fun hmem => Finset.mem_insert_of_mem hmem

theorem kept_call (a : ManagedConnection) (c : Call) (hc : c ≠ .reset) :
    Kept now e name a (a.onBreaker fun cb => cb.call now c) :=
  ⟨rfl, rfl, .called c hc rfl, fun _ h => .inr h⟩

theorem kept_healthCheck (a : ManagedConnection) : Kept now e name a (a.healthCheck now) := by
  rw [ManagedConnection.healthCheck]
  split <;> exact ⟨rfl, rfl, .same rfl, fun _ h => .inr h⟩

theorem kept_reconnect (a : ManagedConnection) {cb : CircuitBreaker}
    (hpasses : ¬ a.circuitBreaker.Rejects now) :
    Kept now e name a ({ a with circuitBreaker := cb }.reconnect now) := by
  rw [ManagedConnection.reconnect, ManagedConnection.connect]
  split <;> exact ⟨rfl, rfl, .restored hpasses rfl, fun _ h => .inr h⟩

theorem getExisting_cases (r : MCPConnectionRegistry) (now : ℚ) (server : String)
    (a : ManagedConnection) (consumerId : Option String) (e : PoolEvent) :
    ∃ b, (r.getExisting now server a consumerId).1 = r.put server b ∧ Kept now e server a b ∧
      ∀ conn, (r.getExisting now server a consumerId).2 = .ok conn →
        ¬ a.circuitBreaker.Rejects now ∧ conn = b ∧ ∃ d : ManagedConnection, conn = d.acquire consumerId now := by
  rw [getExisting]
  have herror := CircuitBreaker.checkState_error a.circuitBreaker now
  have hbreaker := CircuitBreaker.checkState_fst a.circuitBreaker now
  rcases hcheck : a.circuitBreaker.checkState now with ⟨cb, checked⟩
  rw [hcheck] at herror hbreaker
  have hchange : BreakerChange now a.circuitBreaker cb :=
    .called .checkState nofun (hbreaker.trans (checkState_fst _ _).symm)
  cases checked with
  | error error =>
      refine ⟨{ a with circuitBreaker := cb }, rfl, ⟨rfl, rfl, hchange, fun _ h => .inr h⟩, ?_⟩
      intro conn hok
      cases hok
  | ok _ =>
      have hpasses : ¬ a.circuitBreaker.Rejects now := by
        intro hrejects
        obtain ⟨error, hsame⟩ := herror.mpr hrejects
        cases hsame
      refine ⟨_, rfl, ?_, ?_⟩
      · apply Kept.acquire
        split
        · exact ⟨rfl, rfl, hchange, fun _ h => .inr h⟩
        · exact kept_reconnect a hpasses
      · intro conn hok
        cases hok
        exact ⟨hpasses, rfl, _, rfl⟩

theorem put_connections (r : MCPConnectionRegistry) (server : String) (b : ManagedConnection) :
    (r.put server b).connections = r.connections.set server b := rfl

theorem slot_put {server : String} {a b : ManagedConnection}
    (hconn : r.connections.get? server = some a) (hkept : Kept now e server a b) :
    SlotChange P r now e name (r.connections.get? name)
      ((r.put server b).connections.get? name) := by
  rw [put_connections, OrderedDict.get?_set]
  split
  · rename_i heq
    rw [heq, hconn]
    exact .kept a b (heq ▸ hkept)
  · exact SlotChange.refl P _

theorem acquire_made (ref : ℕ) (server : String) (config : MCPServerConfig) (now : ℚ)
    (consumerId : Option String) :
    let b := ((ManagedConnection.make ref server config now).connect now).acquire consumerId now
    b.serverName = server ∧ b.circuitBreaker.state = .CLOSED := by
  cases consumerId with
  | none => exact ⟨rfl, rfl⟩
  | some consumer =>
      simp only [ManagedConnection.acquire]
      split <;> exact ⟨rfl, rfl⟩

theorem create_cases (r : MCPConnectionRegistry) (now : ℚ) (server : String)
    (config : Option MCPServerConfig) (consumerId : Option String) :
    ((r.create P now server config consumerId).1 = r.withRoom P now ∧
      ∀ conn, (r.create P now server config consumerId).2 ≠ .ok conn) ∨
    ∃ b d : ManagedConnection,
      (r.create P now server config consumerId).1.connections =
        (r.withRoom P now).connections.set server b ∧
      (r.withRoom P now).size < P.maxConnections ∧ b.serverName = server ∧
      b.circuitBreaker.state = .CLOSED ∧ b = d.acquire consumerId now ∧
      (r.create P now server config consumerId).2 = .ok b := by
  simp only [create]
  split
  · left
    simp only [ne_eq, reduceCtorEq, not_false_eq_true, implies_true, and_self]
  · rename_i hroom
    cases config with
    | none =>
        left
        simp only [ne_eq, reduceCtorEq, not_false_eq_true, implies_true, and_self]
    | some config =>
        have hmade := acquire_made (r.withRoom P now).made server config now consumerId
        exact .inr ⟨_, _, rfl, Nat.lt_of_not_le hroom, hmade.1, hmade.2, rfl, rfl⟩

theorem slot_withRoom {server : String} {config : Option MCPServerConfig}
    {consumerId : Option String} (hnone : r.connections.get? server = none) :
    SlotChange P r now (.getConnection server config consumerId) name (r.connections.get? name)
      ((r.withRoom P now).connections.get? name) := by
  rw [withRoom]
  split
  · rename_i hfull
    apply slot_evict
    intro hmem
    rw [evicted, if_pos ⟨hnone, hfull⟩]
    exact hmem
  · exact SlotChange.refl P _

theorem get?_withRoom_none (hnone : r.connections.get? name = none) :
    (r.withRoom P now).connections.get? name = none := by
  rw [withRoom]
  split
  · rw [get?_evict, hnone, ite_self]
  · exact hnone

theorem slot_getConnection {server : String} {config : Option MCPServerConfig}
    {consumerId : Option String} :
    SlotChange P r now (.getConnection server config consumerId) name (r.connections.get? name)
      ((r.getConnection P now server config consumerId).1.connections.get? name) := by
  rw [getConnection]
  cases hconn : r.connections.get? server with
  | some a =>
      obtain ⟨b, hafter, hkept, -⟩ := getExisting_cases r now server a consumerId
        (.getConnection server config consumerId)
      simp only [hafter]
      exact slot_put P hconn hkept
  | none =>
      rcases create_cases P r now server config consumerId with ⟨hafter, -⟩ | hmade
      · simp only [hafter]
        exact slot_withRoom P hconn
      · obtain ⟨b, d, hafter, -, hserver, hstate, -, -⟩ := hmade
        simp only [hafter]
        rw [OrderedDict.get?_set]
        split
        · rename_i heq
          rw [heq, hconn]
          exact .made b hserver hstate
        · exact slot_withRoom P hconn

theorem step_slots (r : MCPConnectionRegistry) (now : ℚ) (e : PoolEvent) (name : String) :
    SlotChange P r now e name (r.connections.get? name)
      ((after P r now e).connections.get? name) := by
  cases e with
  | getConnection server config consumerId => exact slot_getConnection P
  | releaseConnection server consumerId =>
      exact slot_forServer P fun a => kept_removeConsumer a consumerId
  | recordSuccess server =>
      apply slot_forServer P
      intro a
      exact ⟨rfl, rfl, .called .recordSuccess nofun rfl, fun _ h => .inr h⟩
  | recordFailure server => exact slot_forServer P fun a => kept_call a .recordFailure nofun
  | checkCircuit server => exact slot_forServer P fun a => kept_call a .checkState nofun
  | getStatus => exact slot_forEach P fun a => kept_call a .readState nofun
  | runHealthChecks =>
      have hcheck := get?_forEach r name fun conn => conn.healthCheck now
      rw [after, runHealthChecks, get?_evict, hcheck]
      split
      · rename_i hmem
        cases hconn : r.connections.get? name with
        | none => exact .absent
        | some a =>
            refine .dropped a ?_ hmem
            rw [hconn] at hcheck
            have hidle := idle_of_toEvict P hmem hcheck
            have hconsumers : (a.healthCheck now).consumers = a.consumers := by
              simp only [ManagedConnection.healthCheck]
              split <;> rfl
            exact hconsumers.symm.trans hidle
      · exact SlotChange.map P kept_healthCheck _
  | runKeepalive =>
      apply slot_forEach P
      intro a
      split <;> exact ⟨rfl, rfl, .same rfl, fun _ h => .inr h⟩

end Slots

section Size
variable {r : MCPConnectionRegistry} {now : ℚ}

open MCPConnectionRegistry

theorem size_put (r : MCPConnectionRegistry) (server : String) (b : ManagedConnection) :
    (r.put server b).size =
      if (r.connections.get? server).isSome then r.size else r.size + 1 := by
  have hkeys := congrArg List.length (OrderedDict.keys_set r.connections server b)
  rw [apply_ite List.length, List.length_append] at hkeys
  simp only [OrderedDict.keys, List.length_map] at hkeys
  simp only [OrderedDict.get?_isSome]
  exact hkeys

theorem size_forEach (r : MCPConnectionRegistry) (f : ManagedConnection → ManagedConnection) :
    (r.forEach f).size = r.size := List.length_map _

theorem size_evict_le (r : MCPConnectionRegistry) (now : ℚ) :
    (r.evictIdleConnections P now).size ≤ r.size := List.length_filter_le _ _

theorem size_forServer (r : MCPConnectionRegistry) (server : String)
    (f : ManagedConnection → ManagedConnection) : (r.forServer server f).size = r.size := by
  cases hconn : r.connections.get? server with
  | none => simp only [forServer, hconn]
  | some conn =>
      simp only [forServer, hconn]
      rw [size_put, hconn]
      rfl

theorem size_withRoom_le (r : MCPConnectionRegistry) (now : ℚ) :
    (r.withRoom P now).size ≤ r.size := by
  rw [withRoom]
  split
  · exact size_evict_le P r now
  · exact le_rfl

theorem size_getConnection (h : r.size ≤ P.maxConnections) (server : String)
    (config : Option MCPServerConfig) (consumerId : Option String) :
    (r.getConnection P now server config consumerId).1.size ≤ P.maxConnections := by
  rw [getConnection]
  cases hconn : r.connections.get? server with
  | some a =>
      obtain ⟨b, hafter, -, -⟩ := getExisting_cases r now server a consumerId
        .getStatus
      simp only [hafter]
      rw [size_put, hconn]
      exact h
  | none =>
      rcases create_cases P r now server config consumerId with ⟨hafter, -⟩ | hmade
      · simp only [hafter]
        exact (size_withRoom_le P r now).trans h
      · obtain ⟨b, d, hafter, hroom, -, -, -, -⟩ := hmade
        have hsize := size_put (r.withRoom P now) server b
        rw [get?_withRoom_none P hconn] at hsize
        rw [MCPConnectionRegistry.size, hafter]
        exact hsize.trans_le hroom

theorem size_after (h : r.size ≤ P.maxConnections) (e : PoolEvent) :
    (after P r now e).size ≤ P.maxConnections := by
  cases e with
  | getConnection server config consumerId => exact size_getConnection P h _ _ _
  | releaseConnection server consumerId => exact (size_forServer _ _ _).trans_le h
  | recordSuccess server => exact (size_forServer _ _ _).trans_le h
  | recordFailure server => exact (size_forServer _ _ _).trans_le h
  | checkCircuit server => exact (size_forServer _ _ _).trans_le h
  | getStatus => exact (size_forEach _ _).trans_le h
  | runHealthChecks =>
      have hchecked := (size_forEach r fun conn => conn.healthCheck now).trans_le h
      exact (size_evict_le P _ now).trans hchecked
  | runKeepalive => exact (size_forEach _ _).trans_le h

end Size

section Breakers
variable {cb cb' : CircuitBreaker} {now : ℚ}

theorem wait_congr (hsettings : cb'.settings = cb.settings)
    (hcycles : cb'.openCycles = cb.openCycles) :
    cb'.computeRecoveryTimeout = cb.computeRecoveryTimeout := by
  simp only [settings, Prod.mk.injEq] at hsettings
  obtain ⟨-, hbase, hmax, -⟩ := hsettings
  rw [computeRecoveryTimeout, computeRecoveryTimeout, hcycles, hbase, hmax]

theorem BreakerChange.trips (h : BreakerChange now cb cb') (htrips : Trips cb cb') :
    cb'.lastFailureTime = now := by
  cases h with
  | same h => exact absurd (h ▸ htrips.2) htrips.1
  | restored _ hstate => exact absurd (hstate.symm.trans htrips.2) nofun
  | called c hc h =>
      subst h
      cases call_move cb now c with
      | stays hstate => exact absurd (hstate.symm.trans htrips.2) htrips.1
      | closes hstate => exact absurd (hstate.symm.trans htrips.2) nofun
      | trips _ _ _ htime => exact htime
      | recovers _ hstate => exact absurd (hstate.symm.trans htrips.2) nofun

theorem BreakerChange.waits (h : BreakerChange now cb cb') (hopen : cb.state = .OPEN)
    (hpast : cb.lastFailureTime ≤ now) :
    cb.lastFailureTime + cb.computeRecoveryTimeout ≤ now ∨
      cb'.state = .OPEN ∧ cb.lastFailureTime + cb.computeRecoveryTimeout ≤
        cb'.lastFailureTime + cb'.computeRecoveryTimeout := by
  cases h with
  | same h => exact .inr ⟨h ▸ hopen, h ▸ le_rfl⟩
  | restored hpasses _ =>
      rw [CircuitBreaker.rejects_iff] at hpasses
      exact .inl (le_of_not_gt fun hlt => hpasses ⟨hopen, hlt⟩)
  | called c hc h =>
      subst h
      cases call_move cb now c with
      | stays hstate hcycles _ htime =>
          rw [wait_congr (settings_call cb now c) hcycles]
          refine .inr ⟨hstate.trans hopen, ?_⟩
          rcases htime with hsame | ⟨-, hnow⟩ <;> linarith
      | closes _ _ _ hfrom => exact absurd (hfrom hopen) hc
      | trips hfrom => exact absurd hopen hfrom
      | recovers hrecovered =>
          have hwait := hrecovered.2
          exact .inl (by linarith)

theorem BreakerChange.past (h : BreakerChange now cb cb')
    (hpast : cb.state = .OPEN → cb.lastFailureTime ≤ now) (hopen : cb'.state = .OPEN) :
    cb'.lastFailureTime ≤ now := by
  cases h with
  | same h =>
      subst h
      exact hpast hopen
  | restored _ hstate => exact absurd (hstate.symm.trans hopen) nofun
  | called c hc h =>
      subst h
      cases call_move cb now c with
      | stays hstate _ _ htime =>
          rcases htime with hsame | ⟨-, hnow⟩
          · exact hsame.trans_le (hpast (hstate.symm.trans hopen))
          · exact hnow.le
      | closes hstate => exact absurd (hstate.symm.trans hopen) nofun
      | trips _ _ _ htime => exact htime.le
      | recovers _ hstate => exact absurd (hstate.symm.trans hopen) nofun

end Breakers

section Slot
variable {r : MCPConnectionRegistry} {now clock : ℚ} {e : PoolEvent} {name : String}
  {x y : Option ManagedConnection}

def Past (clock : ℚ) (x : Option ManagedConnection) : Prop :=
  ∀ conn ∈ x, conn.circuitBreaker.state = .OPEN → conn.circuitBreaker.lastFailureTime ≤ clock

def Covers (x : Option ManagedConnection) (due : ℚ) : Prop :=
  ∃ conn ∈ x, conn.circuitBreaker.state = .OPEN ∧
    due ≤ conn.circuitBreaker.lastFailureTime + conn.circuitBreaker.computeRecoveryTimeout

theorem SlotChange.past (h : SlotChange P r now e name x y) (hclock : clock ≤ now)
    (hpast : Past clock x) : Past now y := by
  intro conn hconn hopen
  cases h with
  | absent | dropped => cases hconn
  | made b _ hstate =>
      cases hconn
      exact absurd (hstate.symm.trans hopen) nofun
  | kept a b hkept =>
      cases hconn
      exact hkept.breaker.past (fun hopen => (hpast a rfl hopen).trans hclock) hopen

theorem SlotChange.covered (h : SlotChange P r now e name x y) (hclock : clock ≤ now)
    (hpast : Past clock x) {d : Option ℚ} (hd : ∀ due ∈ d, due ≤ clock ∨ Covers x due)
    (hevicted : name ∈ evicted P r now e → ∀ due ∈ d, due ≤ now) :
    ∀ due ∈ dueAfter d now x y, due ≤ now ∨ Covers y due := by
  intro due hdue
  cases h with
  | absent | made =>
      rcases hd due hdue with hle | ⟨conn, hconn, -⟩
      · exact .inl (hle.trans hclock)
      · cases hconn
  | dropped a _ hmem => exact .inl (hevicted hmem due hdue)
  | kept a b hkept =>
      rw [dueAfter] at hdue
      split at hdue
      · rename_i htrips
        cases hdue
        refine .inr ⟨b, rfl, htrips.2, ?_⟩
        rw [hkept.breaker.trips htrips]
      · rcases hd due hdue with hle | ⟨conn, hconn, hopen, hle⟩
        · exact .inl (hle.trans hclock)
        · cases hconn
          have hwas := (hpast a rfl hopen).trans hclock
          rcases hkept.breaker.waits hopen hwas with hover | ⟨hstays, hlater⟩
          · exact .inl (hle.trans hover)
          · exact .inr ⟨b, rfl, hstays, hle.trans hlater⟩

theorem SlotChange.keyed (h : SlotChange P r now e name x y)
    (hkeyed : ∀ conn ∈ x, conn.serverName = name) : ∀ conn ∈ y, conn.serverName = name := by
  intro conn hconn
  cases h with
  | absent | dropped => cases hconn
  | made b hserver _ =>
      cases hconn
      exact hserver
  | kept a b hkept =>
      cases hconn
      exact hkept.server.trans (hkeyed a rfl)

def HeldIn (x : Option ManagedConnection) (c : String) (ref : ℕ) : Prop :=
  ∃ conn ∈ x, conn.ref = ref ∧ c ∈ conn.consumers

theorem SlotChange.held (h : SlotChange P r now e name x y) {c : String} {ref : ℕ}
    (hheld : HeldIn x c ref) (hnot : e ≠ .releaseConnection name c) : HeldIn y c ref := by
  obtain ⟨conn, hconn, href, hmem⟩ := hheld
  cases h with
  | absent | made => cases hconn
  | dropped a hidle _ =>
      cases hconn
      rw [ManagedConnection.isIdle] at hidle
      rw [hidle] at hmem
      cases hmem
  | kept a b hkept =>
      cases hconn
      exact ⟨b, rfl, hkept.ref.trans href, (hkept.consumers c hmem).resolve_left hnot⟩

end Slot

theorem mem_acquire (d : ManagedConnection) {c : String} (hc : c ≠ "") (now : ℚ) :
    c ∈ (d.acquire (some c) now).consumers := by
  simp only [ManagedConnection.acquire, if_neg hc]
  exact Finset.mem_insert_self _ _

section Step
variable {s s' : PoolRun} {e : ℚ × PoolEvent}

structure PoolSound (s : PoolRun) : Prop where
  bounded : s.registry.size ≤ P.maxConnections
  keyed : ∀ name, ∀ conn ∈ s.registry.connections.get? name, conn.serverName = name
  held : ∀ name c ref, s.holders name c = some ref →
    HeldIn (s.registry.connections.get? name) c ref
  past : ∀ name, Past s.clock (s.registry.connections.get? name)
  covered : ∀ name, ∀ due ∈ s.due name,
    due ≤ s.clock ∨ Covers (s.registry.connections.get? name) due

variable {P}

theorem getConnection_ok {r : MCPConnectionRegistry} {now : ℚ} {name : String}
    {config : Option MCPServerConfig} {consumerId : Option String} {conn : ManagedConnection}
    (h : (r.getConnection P now name config consumerId).2 = .ok conn) :
    (r.getConnection P now name config consumerId).1.connections.get? name = some conn ∧
      (∃ d : ManagedConnection, conn = d.acquire consumerId now) ∧
      ∀ a ∈ r.connections.get? name, ¬ a.circuitBreaker.Rejects now := by
  rw [MCPConnectionRegistry.getConnection] at h ⊢
  cases hconn : r.connections.get? name with
  | some a =>
      simp only [hconn] at h ⊢
      obtain ⟨b, hafter, -, hok⟩ := getExisting_cases r now name a consumerId .getStatus
      obtain ⟨hpasses, rfl, hacquired⟩ := hok conn h
      refine ⟨?_, hacquired, ?_⟩
      · rw [hafter, put_connections, OrderedDict.get?_set_self]
      · rintro _ ⟨⟩
        exact hpasses
  | none =>
      simp only [hconn] at h ⊢
      rcases create_cases P r now name config consumerId with ⟨-, herror⟩ | hmade
      · exact absurd h (herror conn)
      · obtain ⟨b, d, hafter, -, -, -, hacquired, hok⟩ := hmade
        rw [hok] at h
        cases h
        refine ⟨by rw [hafter, OrderedDict.get?_set_self], ⟨d, hacquired⟩, ?_⟩
        intro a ha
        exact absurd ha (Option.not_mem_none a)

theorem PoolSound.onePerServer (h : PoolSound P s) :
    ∀ kv ∈ s.registry.connections.entries, ∀ kv' ∈ s.registry.connections.entries,
      kv.2.serverName = kv'.2.serverName → kv = kv' := by
  rintro ⟨name, a⟩ ha ⟨name', b⟩ hb hserver
  rw [OrderedDict.mem_entries_iff] at ha hb
  have hname : name = name' :=
    (h.keyed name a ha).symm.trans (hserver.trans (h.keyed name' b hb))
  subst hname
  rw [Option.some.inj (ha.symm.trans hb)]

theorem PoolSound.safe (h : PoolSound P s) : PoolSafe P s where
  bounded := h.bounded
  onePerServer := h.onePerServer
  held := h.held
  failsFast := by
    intro name now config consumerId conn hclock hok due hdue
    obtain ⟨-, -, hpasses⟩ := getConnection_ok hok
    rcases h.covered name due hdue with hle | ⟨a, ha, hopen, hle⟩
    · exact hle.trans hclock
    · have hnot := hpasses a ha
      rw [CircuitBreaker.rejects_iff] at hnot
      exact hle.trans (le_of_not_gt fun hlt => hnot ⟨hopen, hlt⟩)
  remembered := by
    intro name due hdue now hclock hnow
    rcases h.covered name due hdue with hle | ⟨a, ha, hopen, hle⟩
    · exact absurd (hle.trans hclock) (not_le_of_gt hnow)
    · exact ⟨a, ha, (CircuitBreaker.rejects_iff _ _).mpr ⟨hopen, hnow.trans_le hle⟩⟩

theorem holdersAfter_cases {now : ℚ} {e : PoolEvent} {name c : String} {ref : ℕ}
    (h : holdersAfter P s now e name c = some ref) :
    (s.holders name c = some ref ∧ e ≠ .releaseConnection name c) ∨
      HeldIn ((after P s.registry now e).connections.get? name) c ref := by
  have hhold : ∀ {server d : String} {new : Option ℕ},
      hold s.holders server d new name c = some ref →
      (server = name ∧ d = c ∧ new = some ref) ∨
        (s.holders name c = some ref ∧ ¬ (server = name ∧ d = c)) := by
    intro server d new hnew
    rw [hold] at hnew
    rcases eq_or_ne name server with rfl | hserver
    · rw [Function.update_self] at hnew
      rcases eq_or_ne c d with rfl | hd
      · rw [Function.update_self] at hnew
        exact .inl ⟨rfl, rfl, hnew⟩
      · rw [Function.update_of_ne hd] at hnew
        exact .inr ⟨hnew, fun heq => hd heq.2.symm⟩
    · rw [Function.update_of_ne hserver] at hnew
      exact .inr ⟨hnew, fun heq => hserver heq.1.symm⟩
  cases e with
  | getConnection server config consumerId =>
      cases consumerId with
      | none => exact .inl ⟨h, nofun⟩
      | some d =>
          rcases hres : (s.registry.getConnection P now server config (some d)).2 with _ | conn
          · simp only [holdersAfter, hres] at h
            exact .inl ⟨h, nofun⟩
          · simp only [holdersAfter, hres] at h
            split at h
            · exact .inl ⟨h, nofun⟩
            · rename_i hd
              rcases hhold h with ⟨rfl, rfl, href⟩ | ⟨hold, -⟩
              · obtain ⟨hget, ⟨a, rfl⟩, -⟩ := getConnection_ok hres
                exact .inr ⟨_, hget, Option.some.inj href, mem_acquire a hd now⟩
              · exact .inl ⟨hold, nofun⟩
  | releaseConnection server d =>
      rcases hhold h with ⟨-, -, hnone⟩ | ⟨hold, hnot⟩
      · cases hnone
      · refine .inl ⟨hold, ?_⟩
        rintro ⟨⟩
        exact hnot ⟨rfl, rfl⟩
  | recordSuccess | recordFailure | checkCircuit | getStatus | runHealthChecks | runKeepalive =>
      exact .inl ⟨h, nofun⟩

theorem step_iff : (machine P).step s e = some s' ↔ s.clock ≤ e.1 ∧ s' = s.next P e.1 e.2 := by
  simp only [machine]
  split <;> simp_all [eq_comm]

theorem sound_init (start : ℚ) : PoolSound P { clock := start } where
  bounded := Nat.zero_le _
  keyed _ _ hconn := absurd hconn (Option.not_mem_none _)
  held _ _ _ hholds := absurd hholds.symm (Option.some_ne_none _)
  past _ _ hconn := absurd hconn (Option.not_mem_none _)
  covered _ _ hdue := absurd hdue (Option.not_mem_none _)

theorem sound_step (h : PoolSound P s) (hg : EvictsRecovered P s e)
    (hstep : (machine P).step s e = some s') : PoolSound P s' := by
  obtain ⟨hclock, rfl⟩ := step_iff.mp hstep
  obtain ⟨now, e⟩ := e
  have hslots := step_slots P s.registry now e
  constructor
  · exact size_after P h.bounded e
  · intro name
    exact (hslots name).keyed P (h.keyed name)
  · intro name c ref hholds
    rcases holdersAfter_cases hholds with ⟨hbefore, hnot⟩ | hnew
    · exact (hslots name).held P (h.held name c ref hbefore) hnot
    · exact hnew
  · intro name
    exact (hslots name).past P hclock (h.past name)
  · intro name
    exact (hslots name).covered P hclock (h.past name) (h.covered name) (hg name)

theorem evicted_absent {r : MCPConnectionRegistry} {now : ℚ} {e : PoolEvent} {name : String}
    (h : name ∈ evicted P r now e) : (after P r now e).connections.get? name = none := by
  cases e with
  | runHealthChecks =>
      rw [after, MCPConnectionRegistry.runHealthChecks, get?_evict]
      exact if_pos h
  | getConnection server config consumerId =>
      rw [evicted] at h
      split at h
      · rename_i hroom
        have hgone : (r.withRoom P now).connections.get? name = none := by
          rw [MCPConnectionRegistry.withRoom, if_pos hroom.2, get?_evict]
          exact if_pos h
        simp only [after, MCPConnectionRegistry.getConnection, hroom.1]
        rcases create_cases P r now server config consumerId with ⟨hafter, -⟩ | hmade
        · rw [hafter]
          exact hgone
        · obtain ⟨b, d, hafter, -⟩ := hmade
          have hne : name ≠ server := by
            rintro rfl
            simp only [MCPConnectionRegistry.toEvict, List.mem_map] at h
            obtain ⟨⟨key, conn⟩, hmem, rfl⟩ := h
            have hget := OrderedDict.mem_entries_iff.mp (List.mem_of_mem_filter hmem)
            rw [hroom.1] at hget
            cases hget
          rw [hafter, OrderedDict.get?_set_ne _ _ hne]
          exact hgone
      · cases h
  | releaseConnection | recordSuccess | recordFailure | checkCircuit | getStatus | runKeepalive =>
      cases h

theorem eviction_forgets (hg : ¬ EvictsRecovered P s e)
    (hstep : (machine P).step s e = some s') : ¬ PoolSafe P s' := by
  obtain ⟨-, rfl⟩ := step_iff.mp hstep
  obtain ⟨now, e⟩ := e
  simp only [EvictsRecovered, not_forall, not_le] at hg
  obtain ⟨name, hmem, due, hdue, hlt⟩ := hg
  have habsent : (s.next P now e).registry.connections.get? name = none := evicted_absent hmem
  have hsame : (s.next P now e).due name = s.due name := by
    have hnone := evicted_absent hmem
    simp only [next, hnone]
    cases s.registry.connections.get? name <;> rfl
  intro hsafe
  obtain ⟨conn, hconn, -⟩ := hsafe.remembered name due (hsame ▸ hdue) now le_rfl hlt
  rw [habsent] at hconn
  cases hconn

theorem pool_safe {start : ℚ} {events : List (ℚ × PoolEvent)} {t : PoolRun}
    (hrun : (machine P).run { clock := start } events = some t) :
    (∀ past rest, events = past ++ rest →
      ∀ u, (machine P).run { clock := start } past = some u → PoolSafe P u) ↔
      (machine P).Along (EvictsRecovered P) { clock := start } events :=
  (machine P).reached_iff (fun h => h.safe) sound_step (fun _ => eviction_forgets)
    (sound_init start) hrun

end Step

def config : MCPServerConfig := { name := "splunk", circuitBreakerThreshold := 1 }

def settings : PoolSettings := {}

-- The breaker trips, its wait passes, and then the connection is idle for long and is evicted.
def shortOutage : List (ℚ × PoolEvent) :=
  [(0, .getConnection "splunk" config (some "inv_1")), (1, .recordFailure "splunk"),
    (20, .getConnection "splunk" config (some "inv_2")),
    (31, .getConnection "splunk" config (some "inv_2")),
    (32, .releaseConnection "splunk" "inv_1"), (33, .releaseConnection "splunk" "inv_2"),
    (400, .runHealthChecks)]

theorem short_outage_safe : ∃ t, (machine settings).run { clock := 0 } shortOutage = some t ∧
    t.registry.size = 0 ∧
    ∀ past rest, shortOutage = past ++ rest →
      ∀ u, (machine settings).run { clock := 0 } past = some u → PoolSafe settings u := by
  have hrun : ((machine settings).run { clock := 0 } shortOutage).any
      fun t => decide (t.registry.size = 0) := by decide +kernel
  obtain ⟨t, ht, hsize⟩ := (Option.any_eq_true _ _).mp hrun
  exact ⟨t, ht, of_decide_eq_true hsize, (pool_safe ht).mpr (by decide +kernel)⟩

def slowConfig : MCPServerConfig := { config with circuitBreakerRecovery := 600 }

-- The trip at 1 is to wait for 600 seconds; the connection is idle for 300 before that.
def longOutage : List (ℚ × PoolEvent) :=
  [(0, .getConnection "splunk" slowConfig (some "inv_1")), (1, .recordFailure "splunk"),
    (2, .releaseConnection "splunk" "inv_1"), (303, .runHealthChecks)]

theorem long_outage_forgotten : ∃ t,
    (machine settings).run { clock := 0 } longOutage = some t ∧
    ∃ conn, (t.registry.getConnection settings 304 "splunk" slowConfig (some "inv_2")).2 =
        .ok conn ∧
      t.due "splunk" = some 601 ∧ t.clock ≤ 304 ∧ ¬ PoolSafe settings t := by
  have hrun : ((machine settings).run { clock := 0 } longOutage).any fun t =>
      decide ((t.due "splunk" = some 601 ∧ t.clock ≤ 304) ∧
        (t.registry.getConnection settings 304 "splunk" slowConfig (some "inv_2")).2.isOk =
          true) := by
    decide +kernel
  obtain ⟨t, ht, hstate⟩ := (Option.any_eq_true _ _).mp hrun
  obtain ⟨⟨hdue, hclock⟩, hok⟩ := of_decide_eq_true hstate
  cases hres : (t.registry.getConnection settings 304 "splunk" slowConfig (some "inv_2")).2 with
  | error error =>
      rw [hres] at hok
      cases hok
  | ok conn =>
      refine ⟨t, ht, conn, hres, hdue, hclock, ?_⟩
      intro hsafe
      have hle := hsafe.failsFast "splunk" 304 slowConfig (some "inv_2") conn hclock hres 601 hdue
      norm_num at hle

end PoolRun

end BTagent
