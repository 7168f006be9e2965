import BTagent.Lib.Machine
import BTagent.Lib.Slots

namespace BTagent

inductive ReadyState where
  | CONNECTING
  | OPEN
  | CLOSING
  | CLOSED
  deriving DecidableEq

def ReadyState.live : ReadyState → Bool
  | CONNECTING | OPEN => true
  | CLOSING | CLOSED => false

inductive ClientFrame where
  | SUBSCRIBE (investigationId : String)
  | UNSUBSCRIBE (investigationId : String)
  | PING
  deriving DecidableEq

-- A socket of the browser, with the frames that were sent on it.
structure BrowserSocket where
  readyState : ReadyState
  attached : Bool
  closeDelivered : Bool
  sent : List ClientFrame

def BrowserSocket.created : BrowserSocket := ⟨.CONNECTING, true, false, []⟩

-- `detach` and then `close()`.
def BrowserSocket.discard (socket : BrowserSocket) : BrowserSocket :=
  { socket with
    attached := false
    readyState := if socket.readyState.live then .CLOSING else socket.readyState }

structure SubscriptionHandle where
  investigationId : String
  outstanding : Bool

structure WebSocketClientOptions where
  heartbeatIntervalMs : ℕ
  maxReconnectDelayMs : ℕ
  initialReconnectDelayMs : ℕ

def TERMINAL_CLOSE_CODES : List ℕ := [4404, 1008]

-- The client, and the sockets and timers that the browser holds for it. `notifying` is set while
-- `onclose` calls the disconnect listeners. The last four fields only record what happened:
-- the handles, whether the client was stopped (by `disconnect()` or a terminal close) and not
-- connected again, the states of the sockets that were replaced, and whether a socket was made
-- while the client was stopped.
structure WebSocketClient where
  ws : Option ℕ
  reconnectDelay : ℕ
  heartbeatTimer : Option ℕ
  reconnectTimer : Option ℕ
  intentionalClose : Bool
  terminalClose : Option (ℕ × String)
  desiredSubscriptions : List String
  sockets : List BrowserSocket
  timeouts : List (ℕ × ℕ)
  intervals : List (ℕ × ℕ)
  nextTimer : ℕ
  notifying : Bool
  handles : List SubscriptionHandle
  stopped : Bool
  replaced : List ReadyState
  madeStopped : Bool

inductive ClientCall where
  | connect
  | disconnect
  | subscribeToInvestigation (investigationId : String)
  | unsubscribe (handle : ℕ)

inductive SocketEvent where
  | call (c : ClientCall)
  | opened (i : ℕ)
  | closing (i : ℕ)
  | failed (i : ℕ)
  | errored (i : ℕ)
  | closed (i code : ℕ) (reason : String)
  | notified
  | reconnect (timer : ℕ)
  | heartbeat (timer : ℕ)

namespace WebSocketClient

variable (O : WebSocketClientOptions)

def start : WebSocketClient where
  ws := none
  reconnectDelay := O.initialReconnectDelayMs
  heartbeatTimer := none
  reconnectTimer := none
  intentionalClose := false
  terminalClose := none
  desiredSubscriptions := []
  sockets := []
  timeouts := []
  intervals := []
  nextTimer := 1
  notifying := false
  handles := []
  stopped := false
  replaced := []
  madeStopped := false

def current (s : WebSocketClient) : Option BrowserSocket := s.ws.bind fun i => s.sockets[i]?

def setSocket (s : WebSocketClient) (i : ℕ) (socket : BrowserSocket) : WebSocketClient :=
  { s with sockets := s.sockets.set i socket }

def sendFrame (s : WebSocketClient) (frame : ClientFrame) : WebSocketClient :=
  match s.ws, s.current with
  | some i, some socket =>
      if socket.readyState = .OPEN then
        s.setSocket i { socket with sent := socket.sent ++ [frame] }
      else s
  | _, _ => s

def stopHeartbeat (s : WebSocketClient) : WebSocketClient :=
  match s.heartbeatTimer with
  | some timer =>
      { s with heartbeatTimer := none, intervals := s.intervals.filter (·.1 ≠ timer) }
  | none => s

def startHeartbeat (s : WebSocketClient) : WebSocketClient :=
  let s := s.stopHeartbeat
  { s with
    heartbeatTimer := some s.nextTimer
    intervals := s.intervals ++ [(s.nextTimer, O.heartbeatIntervalMs)]
    nextTimer := s.nextTimer + 1 }

def clearReconnect (s : WebSocketClient) : WebSocketClient :=
  match s.reconnectTimer with
  | some timer => { s with timeouts := s.timeouts.filter (·.1 ≠ timer) }
  | none => s

def scheduleReconnect (s : WebSocketClient) : WebSocketClient :=
  let s := s.clearReconnect
  { s with
    reconnectTimer := some s.nextTimer
    timeouts := s.timeouts ++ [(s.nextTimer, s.reconnectDelay)]
    nextTimer := s.nextTimer + 1 }

def replaceSocket (s : WebSocketClient) : WebSocketClient :=
  match s.ws, s.current with
  | some i, some socket =>
      { s.setSocket i socket.discard with
        ws := none, replaced := s.replaced ++ [socket.readyState] }
  | _, _ => s

def doConnect (s : WebSocketClient) : WebSocketClient :=
  let s := s.replaceSocket
  { s with
    ws := some s.sockets.length
    sockets := s.sockets ++ [.created]
    madeStopped := s.madeStopped || s.stopped }

def connect (s : WebSocketClient) : WebSocketClient :=
  let s := { s with intentionalClose := false, terminalClose := none, stopped := false }
  if s.current.any (·.readyState.live) then s else s.doConnect

def hangUp (s : WebSocketClient) : WebSocketClient :=
  match s.ws, s.current with
  | some i, some socket => { s.setSocket i socket.discard with ws := none }
  | _, _ => s

def disconnect (s : WebSocketClient) : WebSocketClient :=
  let s := { s with intentionalClose := true, stopped := true }.stopHeartbeat.clearReconnect
  let s : WebSocketClient := { s with
    reconnectTimer := none
    desiredSubscriptions := []
    handles := s.handles.map fun handle => { handle with outstanding := false } }
  s.hangUp

def subscribeToInvestigation (s : WebSocketClient) (investigationId : String) :
    WebSocketClient :=
  let s : WebSocketClient := { s with
    desiredSubscriptions :=
      if investigationId ∈ s.desiredSubscriptions then s.desiredSubscriptions
      else s.desiredSubscriptions ++ [investigationId]
    handles := s.handles ++ [⟨investigationId, true⟩] }
  s.sendFrame (.SUBSCRIBE investigationId)

def unsubscribeFromInvestigation (s : WebSocketClient) (investigationId : String) :
    WebSocketClient :=
  let s : WebSocketClient := { s with
    desiredSubscriptions := s.desiredSubscriptions.filter (· ≠ investigationId) }
  s.sendFrame (.UNSUBSCRIBE investigationId)

def invoke (s : WebSocketClient) (h : ℕ) (handle : SubscriptionHandle) : WebSocketClient :=
  let s : WebSocketClient := { s with
    handles := s.handles.set h { handle with outstanding := false } }
  s.unsubscribeFromInvestigation handle.investigationId

def onopen (s : WebSocketClient) : WebSocketClient :=
  let s := { s with reconnectDelay := O.initialReconnectDelayMs }.startHeartbeat O
  s.desiredSubscriptions.foldl (fun s investigationId => s.sendFrame (.SUBSCRIBE investigationId)) s

-- `onclose` up to the calls of the disconnect listeners.
def onclose (s : WebSocketClient) (i code : ℕ) (reason : String) : WebSocketClient :=
  if s.ws ≠ some i then s
  else
    let s := { s with ws := none }.stopHeartbeat
    if code ∈ TERMINAL_CLOSE_CODES then
      { s with terminalClose := some (code, reason), stopped := true, notifying := true }
    else { s with notifying := true }

def retries (s : WebSocketClient) : Bool := !s.intentionalClose && s.terminalClose.isNone

def afterNotifying (s : WebSocketClient) : WebSocketClient :=
  let s := { s with notifying := false }
  if s.retries then s.scheduleReconnect else s

def onReconnect (s : WebSocketClient) : WebSocketClient :=
  let s := { s with
    reconnectTimer := none
    reconnectDelay := min (s.reconnectDelay * 2) O.maxReconnectDelayMs }
  if s.retries then s.doConnect else s

def call (s : WebSocketClient) : ClientCall → Option WebSocketClient
  | .connect => some s.connect
  | .disconnect => some s.disconnect
  | .subscribeToInvestigation investigationId => some (s.subscribeToInvestigation investigationId)
  | .unsubscribe h => (s.handles[h]?).map fun handle => s.invoke h handle

-- An event of the browser: of a socket whose close was not delivered yet, or of a timer.
def browserStep (s : WebSocketClient) : SocketEvent → Option WebSocketClient
  | .opened i => do
      let socket ← s.sockets[i]?
      if socket.readyState = .CONNECTING then
        let s := s.setSocket i { socket with readyState := .OPEN }
        return if socket.attached then s.onopen O else s
      else none
  | .closing i => do
      let socket ← s.sockets[i]?
      if socket.readyState.live then
        return s.setSocket i { socket with readyState := .CLOSING }
      else none
  | .failed i => do
      let socket ← s.sockets[i]?
      if socket.closeDelivered then none
      else return s.setSocket i { socket with readyState := .CLOSED }
  | .errored i => do
      let socket ← s.sockets[i]?
      if socket.closeDelivered then none else return s
  | .closed i code reason => do
      let socket ← s.sockets[i]?
      if socket.closeDelivered then none
      else
        let s := s.setSocket i { socket with readyState := .CLOSED, closeDelivered := true }
        return if socket.attached then s.onclose i code reason else s
  | .reconnect timer =>
      if timer ∈ s.timeouts.map Prod.fst then
        some ({ s with timeouts := s.timeouts.filter (·.1 ≠ timer) }.onReconnect O)
      else none
  | .heartbeat timer =>
      if timer ∈ s.intervals.map Prod.fst then some (s.sendFrame .PING) else none
  | .call _ | .notified => none

-- While the listeners run nothing else does.
def step (s : WebSocketClient) : SocketEvent → Option WebSocketClient
  | .call c => s.call c
  | .notified => if s.notifying then some s.afterNotifying else none
  | e => if s.notifying then none else s.browserStep O e

def machine : Machine WebSocketClient SocketEvent := ⟨step O⟩

end WebSocketClient

end BTagent
