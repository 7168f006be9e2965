import BTagent.Frontend.WebSocketClient

namespace BTagent

structure SocketView where
  readyState : ReadyState
  attached : Bool
  closeDelivered : Bool

def BrowserSocket.view (socket : BrowserSocket) : SocketView :=
  ⟨socket.readyState, socket.attached, socket.closeDelivered⟩

-- A socket that has delivered its close delivers nothing more to its handlers.
def SocketView.carries (v : SocketView) : Bool := v.attached && !v.closeDelivered

-- The sockets that carry handlers are the current one.
structure Carried (ws : Option ℕ) (views : List SocketView) : Prop where
  only : ∀ i v, views[i]? = some v → v.carries = true → ws = some i
  current : ∀ i, ws = some i → ∃ v, views[i]? = some v ∧ v.carries = true

namespace Carried

variable {ws : Option ℕ} {views : List SocketView} {i : ℕ} {v v' : SocketView}

theorem set_same (h : Carried ws views) (hv : views[i]? = some v)
    (hcarries : v'.carries = v.carries) : Carried ws (views.set i v') where
  only := by
    intro j u hj hu
    rcases Slots.getElem?_set_cases hj with ⟨rfl, rfl⟩ | ⟨-, hold⟩
    · rw [hcarries] at hu
      exact h.only j v hv hu
    · exact h.only j u hold hu
  current := by
    intro j hj
    obtain ⟨u, hu, hcarry⟩ := h.current j hj
    rcases eq_or_ne i j with rfl | hne
    · rw [hv] at hu
      cases hu
      have hlt : i < views.length := (List.getElem?_eq_some_iff.mp hv).1
      exact ⟨v', List.getElem?_set_self hlt, hcarries.trans hcarry⟩
    · exact ⟨u, (List.getElem?_set_ne hne).trans hu, hcarry⟩

theorem drop (h : Carried (some i) views) (hcarries : v'.carries = false) :
    Carried none (views.set i v') where
  only := by
    intro j u hj hu
    rcases Slots.getElem?_set_cases hj with ⟨rfl, rfl⟩ | ⟨hne, hold⟩
    · rw [hcarries] at hu
      cases hu
    · have heq := h.only j u hold hu
      exact absurd (Option.some.inj heq).symm hne
  current := by
    intro j hj
    cases hj

theorem add (h : Carried none views) (hcarries : v.carries = true) :
    Carried (some views.length) (views ++ [v]) where
  only := by
    intro j u hj hu
    rcases Nat.lt_trichotomy j views.length with hlt | rfl | hgt
    · rw [List.getElem?_append_left hlt] at hj
      cases h.only j u hj hu
    · rfl
    · rw [List.getElem?_eq_none (by rw [List.length_append]; exact hgt)] at hj
      cases hj
  current := by
    rintro j heq
    cases heq
    exact ⟨v, List.getElem?_concat_length, hcarries⟩

end Carried

namespace WebSocketClient

variable {O : WebSocketClientOptions} {s s' : WebSocketClient} {i : ℕ}

-- One socket has handlers, and it is the current one; there is one timer of each kind at most; a
-- socket that was replaced was not live; and a client that was stopped has no timer, and makes no
-- socket.
structure Lifecycle (s : WebSocketClient) : Prop where
  handlers : ∀ i socket, s.sockets[i]? = some socket → socket.attached = true →
    socket.closeDelivered = false → s.ws = some i
  oneReconnect : s.timeouts.length ≤ 1
  oneHeartbeat : s.intervals.length ≤ 1
  kept : ∀ r ∈ s.replaced, r.live = false
  quiet : s.stopped = true → s.timeouts = []
  madeRunning : s.madeStopped = false

-- `connect()` is not called while a reconnect is scheduled; and when the listeners of a close have
-- returned, they have not left a new socket to a client that will schedule one.
def Unscheduled (s : WebSocketClient) : SocketEvent → Prop
  | .call .connect => s.reconnectTimer = none
  | .notified => s.retries = true → s.ws = none
  | _ => True

def views (s : WebSocketClient) : List SocketView := s.sockets.map BrowserSocket.view

structure Sound (s : WebSocketClient) : Prop where
  carried : Carried s.ws s.views
  reconnects : s.timeouts.map Prod.fst = s.reconnectTimer.toList
  heartbeats : s.intervals.map Prod.fst = s.heartbeatTimer.toList
  stops : s.stopped = !s.retries
  alone : s.reconnectTimer.isSome → s.ws = none ∧ s.retries = true
  kept : ∀ r ∈ s.replaced, r.live = false
  madeRunning : s.madeStopped = false

theorem Sound.lifecycle (h : Sound s) : Lifecycle s where
  handlers := by
    intro i socket hi hattached hdelivered
    apply h.carried.only i socket.view
    · rw [views, List.getElem?_map, hi]
      rfl
    · simp [SocketView.carries, BrowserSocket.view, hattached, hdelivered]
  oneReconnect := by
    rw [← List.length_map (f := Prod.fst), h.reconnects]
    cases s.reconnectTimer <;> simp
  oneHeartbeat := by
    rw [← List.length_map (f := Prod.fst), h.heartbeats]
    cases s.heartbeatTimer <;> simp
  kept := h.kept
  quiet := by
    intro hstopped
    have hnone : s.reconnectTimer = none := by
      by_contra hsome
      have hretries := (h.alone (Option.isSome_iff_ne_none.mpr hsome)).2
      rw [h.stops, hretries] at hstopped
      cases hstopped
    have htimeouts := h.reconnects
    rw [hnone] at htimeouts
    exact List.map_eq_nil_iff.mp htimeouts
  madeRunning := h.madeRunning

theorem start_sound : Sound (start O) where
  carried := by
    constructor
    · intro i v hi
      cases hi
    · intro i hi
      cases hi
  reconnects := rfl
  heartbeats := rfl
  stops := rfl
  alone := fun hsome => by cases hsome
  kept := fun _ hr => by cases hr
  madeRunning := rfl

section Frames

theorem Sound.of_views (h : Sound s) {sockets : List BrowserSocket} {desired : List String}
    {handles : List SubscriptionHandle} (hviews : sockets.map BrowserSocket.view = s.views) :
    Sound { s with sockets := sockets, desiredSubscriptions := desired, handles := handles } where
  carried := by
    rw [views, hviews]
    exact h.carried
  reconnects := h.reconnects
  heartbeats := h.heartbeats
  stops := h.stops
  alone := h.alone
  kept := h.kept
  madeRunning := h.madeRunning

theorem map_view_set {sockets : List BrowserSocket} {socket : BrowserSocket} :
    (sockets.set i socket).map BrowserSocket.view =
      (sockets.map BrowserSocket.view).set i socket.view :=
  List.map_set

theorem set_view_self {sockets : List BrowserSocket} {socket socket' : BrowserSocket}
    (h : sockets[i]? = some socket) (hview : socket'.view = socket.view) :
    (sockets.set i socket').map BrowserSocket.view = sockets.map BrowserSocket.view := by
  rw [map_view_set, hview, ← List.map_set]
  congr 1
  obtain ⟨hlt, rfl⟩ := List.getElem?_eq_some_iff.mp h
  exact List.set_getElem_self hlt

theorem current_spec {socket : BrowserSocket} (hws : s.ws = some i)
    (hcurrent : s.current = some socket) : s.sockets[i]? = some socket := by
  rw [current, hws] at hcurrent
  exact hcurrent

theorem sendFrame_spec (s : WebSocketClient) (frame : ClientFrame) :
    ∃ sockets, s.sendFrame frame = { s with sockets := sockets } ∧
      sockets.map BrowserSocket.view = s.views := by
  rw [sendFrame]
  split
  · next i socket hws hcurrent =>
      split
      · exact ⟨_, rfl, set_view_self (current_spec hws hcurrent) rfl⟩
      · exact ⟨s.sockets, rfl, rfl⟩
  · exact ⟨s.sockets, rfl, rfl⟩

theorem Sound.sendFrame (h : Sound s) (frame : ClientFrame) : Sound (s.sendFrame frame) := by
  obtain ⟨sockets, heq, hviews⟩ := sendFrame_spec s frame
  rw [heq]
  exact h.of_views hviews

theorem Sound.replay (h : Sound s) (ids : List String) :
    Sound (ids.foldl (fun s investigationId => s.sendFrame (.SUBSCRIBE investigationId)) s) := by
  induction ids generalizing s with
  | nil => exact h
  | cons id ids ih => exact ih (h.sendFrame _)

end Frames

section Timers

theorem filter_timer {timers : List (ℕ × ℕ)} {timer : ℕ} (h : timers.map Prod.fst = [timer]) :
    timers.filter (·.1 ≠ timer) = [] := by
  obtain ⟨entry, rfl, rfl⟩ := List.map_eq_singleton_iff.mp h
  simp

theorem stopHeartbeat_eq (h : s.intervals.map Prod.fst = s.heartbeatTimer.toList) :
    s.stopHeartbeat = { s with heartbeatTimer := none, intervals := [] } := by
  cases htimer : s.heartbeatTimer with
  | some timer =>
      rw [htimer] at h
      rw [stopHeartbeat, htimer]
      dsimp only
      rw [filter_timer h]
  | none =>
      rw [htimer] at h
      rw [stopHeartbeat, htimer]
      dsimp only
      rw [← htimer, ← List.map_eq_nil_iff.mp h]

theorem clearReconnect_eq (h : s.timeouts.map Prod.fst = s.reconnectTimer.toList) :
    s.clearReconnect = { s with timeouts := [] } := by
  cases htimer : s.reconnectTimer with
  | some timer =>
      rw [htimer] at h
      rw [clearReconnect, htimer]
      dsimp only
      rw [filter_timer h]
  | none =>
      rw [htimer] at h
      rw [clearReconnect, htimer]
      dsimp only
      rw [← htimer, ← List.map_eq_nil_iff.mp h]

theorem Sound.stopHeartbeat (h : Sound s) : Sound s.stopHeartbeat := by
  rw [stopHeartbeat_eq h.heartbeats]
  exact { h with heartbeats := rfl }

theorem Sound.startHeartbeat (h : Sound s) : Sound (s.startHeartbeat O) := by
  rw [WebSocketClient.startHeartbeat, stopHeartbeat_eq h.heartbeats]
  exact { h with heartbeats := rfl }

end Timers

section Steps

theorem map_view_setSocket {socket : BrowserSocket} :
    (s.setSocket i socket).views = s.views.set i socket.view :=
  map_view_set

theorem views_of_socket {socket : BrowserSocket} (h : s.sockets[i]? = some socket) :
    s.views[i]? = some socket.view := by
  rw [views, List.getElem?_map, h]
  rfl

theorem Sound.setSocket (h : Sound s) {socket socket' : BrowserSocket}
    (hi : s.sockets[i]? = some socket) (hcarries : socket'.view.carries = socket.view.carries) :
    Sound (s.setSocket i socket') where
  carried := by
    rw [map_view_setSocket]
    exact h.carried.set_same (views_of_socket hi) hcarries
  reconnects := h.reconnects
  heartbeats := h.heartbeats
  stops := h.stops
  alone := h.alone
  kept := h.kept
  madeRunning := h.madeRunning

theorem discard_carries (socket : BrowserSocket) : socket.discard.view.carries = false := rfl

theorem Carried.hasCurrent (h : Carried s.ws s.views) (hws : s.ws = some i) :
    ∃ socket, s.sockets[i]? = some socket ∧ s.current = some socket := by
  obtain ⟨v, hv, -⟩ := h.current i hws
  rw [views, List.getElem?_map] at hv
  obtain ⟨socket, hsocket, -⟩ := Option.map_eq_some_iff.mp hv
  refine ⟨socket, hsocket, ?_⟩
  rw [WebSocketClient.current, hws]
  exact hsocket

theorem replaceSocket_none (hws : s.ws = none) : s.replaceSocket = s := by
  rw [replaceSocket, hws]

theorem replaceSocket_some {socket : BrowserSocket} (hws : s.ws = some i)
    (hcurrent : s.current = some socket) :
    s.replaceSocket = { s.setSocket i socket.discard with
      ws := none, replaced := s.replaced ++ [socket.readyState] } := by
  rw [replaceSocket, hws, hcurrent]

theorem Sound.replaceSocket (h : Sound s) (hdead : s.current.any (·.readyState.live) = false) :
    Sound s.replaceSocket ∧ s.replaceSocket.ws = none := by
  cases hws : s.ws with
  | none =>
      rw [replaceSocket_none hws]
      exact ⟨h, hws⟩
  | some i =>
      obtain ⟨socket, hsocket, hcurrent⟩ := Carried.hasCurrent h.carried hws
      rw [replaceSocket_some hws hcurrent]
      refine ⟨?_, rfl⟩
      constructor
      · change Carried none (s.setSocket i socket.discard).views
        rw [map_view_setSocket]
        have hcarried := h.carried
        rw [hws] at hcarried
        exact hcarried.drop (discard_carries socket)
      · exact h.reconnects
      · exact h.heartbeats
      · exact h.stops
      · intro hsome
        exact ⟨rfl, (h.alone hsome).2⟩
      · intro r hr
        rcases List.mem_append.mp hr with hr | hr
        · exact h.kept r hr
        · obtain rfl := List.mem_singleton.mp hr
          rw [hcurrent] at hdead
          exact hdead
      · exact h.madeRunning

theorem Sound.doConnect (h : Sound s) (hdead : s.current.any (·.readyState.live) = false)
    (hretries : s.retries = true) (htimer : s.reconnectTimer = none) : Sound s.doConnect := by
  obtain ⟨hreplaced, hws⟩ := h.replaceSocket hdead
  have hkept : s.replaceSocket.retries = true ∧ s.replaceSocket.reconnectTimer = none := by
    rw [WebSocketClient.replaceSocket]
    split <;> exact ⟨hretries, htimer⟩
  constructor
  · change Carried (some s.replaceSocket.sockets.length)
      ((s.replaceSocket.sockets ++ [BrowserSocket.created]).map BrowserSocket.view)
    have hcarried := hreplaced.carried
    rw [hws] at hcarried
    rw [List.map_append, ← List.length_map (f := BrowserSocket.view)]
    exact hcarried.add rfl
  · exact hreplaced.reconnects
  · exact hreplaced.heartbeats
  · exact hreplaced.stops
  · intro hsome
    rw [show s.doConnect.reconnectTimer = none from hkept.2] at hsome
    cases hsome
  · exact hreplaced.kept
  · change (s.replaceSocket.madeStopped || s.replaceSocket.stopped) = false
    rw [hreplaced.madeRunning, hreplaced.stops, hkept.1]
    rfl

theorem Sound.cleared (h : Sound s) (htimer : s.reconnectTimer = none) :
    Sound { s with intentionalClose := false, terminalClose := none, stopped := false } where
  carried := h.carried
  reconnects := h.reconnects
  heartbeats := h.heartbeats
  stops := rfl
  alone := by
    intro hsome
    rw [show s.reconnectTimer = none from htimer] at hsome
    cases hsome
  kept := h.kept
  madeRunning := h.madeRunning

theorem Sound.connect (h : Sound s) (htimer : s.reconnectTimer = none) : Sound s.connect := by
  have hcleared := h.cleared htimer
  rw [WebSocketClient.connect]
  split
  · exact hcleared
  · next hdead => exact hcleared.doConnect (Bool.eq_false_iff.mpr hdead) rfl htimer

theorem hangUp_some {socket : BrowserSocket} (hws : s.ws = some i)
    (hcurrent : s.current = some socket) :
    s.hangUp = { s.setSocket i socket.discard with ws := none } := by
  rw [hangUp, hws, hcurrent]

theorem Sound.hangUp (h : Sound s) : Sound s.hangUp := by
  cases hws : s.ws with
  | none =>
      rw [WebSocketClient.hangUp, hws]
      exact h
  | some i =>
      obtain ⟨socket, hsocket, hcurrent⟩ := Carried.hasCurrent h.carried hws
      rw [hangUp_some hws hcurrent]
      constructor
      · change Carried none (s.setSocket i socket.discard).views
        rw [map_view_setSocket]
        have hcarried := h.carried
        rw [hws] at hcarried
        exact hcarried.drop (discard_carries socket)
      · exact h.reconnects
      · exact h.heartbeats
      · exact h.stops
      · intro hsome
        exact ⟨rfl, (h.alone hsome).2⟩
      · exact h.kept
      · exact h.madeRunning

theorem Sound.disconnect (h : Sound s) : Sound s.disconnect := by
  rw [WebSocketClient.disconnect, stopHeartbeat_eq, clearReconnect_eq]
  · apply Sound.hangUp
    constructor
    · exact h.carried
    · rfl
    · rfl
    · rfl
    · intro hsome
      cases hsome
    · exact h.kept
    · exact h.madeRunning
  · exact h.reconnects
  · exact h.heartbeats

theorem Sound.scheduleReconnect (h : Sound s) (hws : s.ws = none) (hretries : s.retries = true) :
    Sound s.scheduleReconnect := by
  rw [WebSocketClient.scheduleReconnect, clearReconnect_eq h.reconnects]
  exact { h with reconnects := rfl, alone := fun _ => ⟨hws, hretries⟩ }

theorem Sound.afterNotifying (h : Sound s) (hturn : s.retries = true → s.ws = none) :
    Sound s.afterNotifying := by
  have hdone : Sound { s with notifying := false } := { h with }
  rw [WebSocketClient.afterNotifying]
  split
  · next hretries => exact hdone.scheduleReconnect (hturn hretries) hretries
  · exact hdone

theorem sound_onclose {code : ℕ} {reason : String} (hws : s.ws = some i)
    (hcarried : Carried none s.views) (htimer : s.reconnectTimer = none)
    (hreconnects : s.timeouts.map Prod.fst = s.reconnectTimer.toList)
    (hheartbeats : s.intervals.map Prod.fst = s.heartbeatTimer.toList)
    (hstops : s.stopped = !s.retries) (hkept : ∀ r ∈ s.replaced, r.live = false)
    (hmade : s.madeStopped = false) : Sound (s.onclose i code reason) := by
  have hstop : { s with ws := none }.stopHeartbeat =
      { s with ws := none, heartbeatTimer := none, intervals := [] } :=
    stopHeartbeat_eq hheartbeats
  rw [WebSocketClient.onclose, if_neg (not_not.mpr hws), hstop]
  dsimp only
  split
  · constructor
    · exact hcarried
    · exact hreconnects
    · rfl
    · simp [retries]
    · intro hsome
      rw [show s.reconnectTimer = none from htimer] at hsome
      cases hsome
    · exact hkept
    · exact hmade
  · constructor
    · exact hcarried
    · exact hreconnects
    · rfl
    · exact hstops
    · intro hsome
      rw [show s.reconnectTimer = none from htimer] at hsome
      cases hsome
    · exact hkept
    · exact hmade

theorem Sound.onclose {code : ℕ} {reason : String} {socket : BrowserSocket} (h : Sound s)
    (hsocket : s.sockets[i]? = some socket) (hattached : socket.attached = true)
    (hdelivered : socket.closeDelivered = false) :
    Sound ((s.setSocket i { socket with readyState := .CLOSED, closeDelivered := true }).onclose
      i code reason) := by
  have hcarries : socket.view.carries = true := by
    simp [SocketView.carries, BrowserSocket.view, hattached, hdelivered]
  have hws : s.ws = some i := h.carried.only i _ (views_of_socket hsocket) hcarries
  have htimer : s.reconnectTimer = none := by
    by_contra hsome
    have hnone := (h.alone (Option.isSome_iff_ne_none.mpr hsome)).1
    rw [hws] at hnone
    cases hnone
  refine sound_onclose (s := s.setSocket i _) hws ?_ htimer h.reconnects h.heartbeats h.stops
    h.kept h.madeRunning
  rw [map_view_setSocket]
  have hcarried := h.carried
  rw [hws] at hcarried
  apply hcarried.drop
  simp [SocketView.carries, BrowserSocket.view]

theorem Sound.onReconnect {timer : ℕ} (h : Sound s) (htimer : timer ∈ s.timeouts.map Prod.fst) :
    Sound ({ s with timeouts := s.timeouts.filter (·.1 ≠ timer) }.onReconnect O) := by
  have hone := h.reconnects
  cases hreconnect : s.reconnectTimer with
  | none =>
      rw [hone, hreconnect] at htimer
      cases htimer
  | some other =>
      rw [hreconnect] at hone
      rw [hone] at htimer
      obtain rfl := List.mem_singleton.mp htimer
      obtain ⟨hws, hretries⟩ := h.alone (by rw [hreconnect]; rfl)
      have hfired : Sound { s with
          timeouts := s.timeouts.filter (·.1 ≠ timer)
          reconnectTimer := none
          reconnectDelay := min (s.reconnectDelay * 2) O.maxReconnectDelayMs } := by
        rw [filter_timer hone]
        refine { h with reconnects := rfl, alone := ?_ }
        intro hsome
        cases hsome
      rw [WebSocketClient.onReconnect]
      split
      · apply hfired.doConnect
        · rw [current, show s.ws = none from hws]
          rfl
        · exact hretries
        · rfl
      · exact hfired

end Steps

section Run

theorem Sound.onopen (h : Sound s) : Sound (s.onopen O) := by
  have hdelay : Sound { s with reconnectDelay := O.initialReconnectDelayMs } := { h with }
  exact (hdelay.startHeartbeat).replay _

theorem sound_call {c : ClientCall} (h : Sound s) (hturn : Unscheduled s (.call c))
    (hcall : s.call c = some s') : Sound s' := by
  cases c with
  | connect =>
      cases hcall
      exact h.connect hturn
  | disconnect =>
      cases hcall
      exact h.disconnect
  | subscribeToInvestigation investigationId =>
      cases hcall
      exact (h.of_views rfl).sendFrame _
  | unsubscribe k =>
      obtain ⟨handle, -, rfl⟩ := Option.map_eq_some_iff.mp hcall
      exact (h.of_views rfl).sendFrame _

theorem sound_browserStep {e : SocketEvent} (h : Sound s) (hstep : s.browserStep O e = some s') :
    Sound s' := by
  cases e with
  | call c => cases hstep
  | notified => cases hstep
  | opened i =>
      obtain ⟨socket, hsocket, hopen⟩ := Option.bind_eq_some_iff.mp hstep
      split at hopen
      · cases hopen
        have hset : Sound (s.setSocket i { socket with readyState := .OPEN }) :=
          h.setSocket hsocket rfl
        split
        · exact hset.onopen
        · exact hset
      · cases hopen
  | closing i =>
      obtain ⟨socket, hsocket, hclosing⟩ := Option.bind_eq_some_iff.mp hstep
      split at hclosing
      · cases hclosing
        exact h.setSocket hsocket rfl
      · cases hclosing
  | failed i =>
      obtain ⟨socket, hsocket, hfailed⟩ := Option.bind_eq_some_iff.mp hstep
      split at hfailed
      · cases hfailed
      · cases hfailed
        exact h.setSocket hsocket rfl
  | errored i =>
      obtain ⟨socket, -, herrored⟩ := Option.bind_eq_some_iff.mp hstep
      split at herrored <;> cases herrored
      exact h
  | closed i code reason =>
      obtain ⟨socket, hsocket, hclosed⟩ := Option.bind_eq_some_iff.mp hstep
      split at hclosed
      · cases hclosed
      · next hdelivered =>
          cases hclosed
          split
          · next hattached =>
              exact h.onclose hsocket hattached (Bool.eq_false_iff.mpr hdelivered)
          · next hdetached =>
              apply h.setSocket hsocket
              simp [SocketView.carries, BrowserSocket.view, hdetached]
  | reconnect timer =>
      simp only [browserStep] at hstep
      split at hstep
      · next htimer =>
          cases hstep
          exact h.onReconnect htimer
      · cases hstep
  | heartbeat timer =>
      simp only [browserStep] at hstep
      split at hstep <;> cases hstep
      exact h.sendFrame _

theorem sound_step {e : SocketEvent} (h : Sound s) (hturn : Unscheduled s e)
    (hstep : (machine O).step s e = some s') : Sound s' := by
  have hbrowser : (if s.notifying then none else s.browserStep O e) = some s' → Sound s' := by
    intro hbrowser
    split at hbrowser
    · cases hbrowser
    · exact sound_browserStep h hbrowser
  cases e with
  | call c => exact sound_call h hturn hstep
  | notified =>
      simp only [machine, step] at hstep
      split at hstep <;> cases hstep
      exact h.afterNotifying hturn
  | opened i => exact hbrowser hstep
  | closing i => exact hbrowser hstep
  | failed i => exact hbrowser hstep
  | errored i => exact hbrowser hstep
  | closed i code reason => exact hbrowser hstep
  | reconnect timer => exact hbrowser hstep
  | heartbeat timer => exact hbrowser hstep

end Run

instance (s : WebSocketClient) : ∀ e, Decidable (Unscheduled s e)
  | .call .connect => inferInstanceAs (Decidable (s.reconnectTimer = none))
  | .call .disconnect | .call (.subscribeToInvestigation _) | .call (.unsubscribe _) =>
      isTrue trivial
  | .notified => inferInstanceAs (Decidable (s.retries = true → s.ws = none))
  | .opened _ | .closing _ | .failed _ | .errored _ | .closed .. | .reconnect _ | .heartbeat _ =>
      isTrue trivial

def defaults : WebSocketClientOptions := ⟨30000, 30000, 1000⟩

def dropped : List SocketEvent :=
  [.call .connect, .opened 0, .closed 0 1006 "", .notified]

-- The user connects again before the reconnect fires, and it replaces the socket that is open.
def connectedEarly : List SocketEvent := dropped ++ [.call .connect, .opened 1, .reconnect 2]

theorem open_socket_replaced : ¬ ∀ (O : WebSocketClientOptions) (es : List SocketEvent)
    (s : WebSocketClient), (machine O).run (start O) es = some s → Lifecycle s := by
  intro h
  have hrun : ((machine defaults).run (start defaults) connectedEarly).any fun s =>
      decide (¬ ∀ r ∈ s.replaced, r.live = false) := by
    decide
  obtain ⟨s, hs, hnot⟩ := (Option.any_eq_true _ _).mp hrun
  exact of_decide_eq_true hnot (h defaults _ s hs).kept

theorem lifecycle_kept {es : List SocketEvent}
    (hturn : (machine O).Along Unscheduled (start O) es)
    (hrun : (machine O).run (start O) es = some s) : Lifecycle s :=
  ((machine O).invariant_along (I := Sound) sound_step start_sound hturn hrun).lifecycle

-- The reconnect makes the second socket, which the server refuses, and the user connects again.
def connectedAfter : List SocketEvent :=
  dropped ++ [.reconnect 2, .opened 1, .closed 1 4404 "access denied", .notified, .call .connect]

theorem connectedAfter_kept : ∃ s,
    (machine defaults).run (start defaults) connectedAfter = some s ∧ s.ws = some 2 ∧
      Lifecycle s := by
  have hrun : ((machine defaults).run (start defaults) connectedAfter).any fun s =>
      decide (s.ws = some 2) := by
    decide
  obtain ⟨s, hs, hws⟩ := (Option.any_eq_true _ _).mp hrun
  exact ⟨s, hs, of_decide_eq_true hws, lifecycle_kept (by decide) hs⟩

end WebSocketClient

end BTagent
