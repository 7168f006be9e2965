import BTagent.Frontend.WebSocketClient

namespace BTagent

def ClientFrame.apply (channels : List String) : ClientFrame → List String
  | .SUBSCRIBE id => if id ∈ channels then channels else channels ++ [id]
  | .UNSUBSCRIBE id => channels.filter (· ≠ id)
  | .PING => channels

def netEffect (frames : List ClientFrame) : List String := frames.foldl ClientFrame.apply []

section NetEffect
variable {frames : List ClientFrame} {id x : String}

theorem netEffect_append (frame : ClientFrame) :
    netEffect (frames ++ [frame]) = ClientFrame.apply (netEffect frames) frame := by
  rw [netEffect, List.foldl_append]
  rfl

theorem mem_netEffect_subscribe :
    x ∈ netEffect (frames ++ [.SUBSCRIBE id]) ↔ x ∈ netEffect frames ∨ x = id := by
  rw [netEffect_append, ClientFrame.apply]
  split
  · next hmem =>
      constructor
      · exact Or.inl
      · rintro (hx | rfl)
        · exact hx
        · exact hmem
  · rw [List.mem_append, List.mem_singleton]

theorem mem_netEffect_unsubscribe :
    x ∈ netEffect (frames ++ [.UNSUBSCRIBE id]) ↔ x ∈ netEffect frames ∧ x ≠ id := by
  rw [netEffect_append, ClientFrame.apply, List.mem_filter, decide_eq_true_iff]

theorem mem_netEffect_replay (ids : List String) :
    x ∈ netEffect (frames ++ ids.map .SUBSCRIBE) ↔ x ∈ netEffect frames ∨ x ∈ ids := by
  induction ids generalizing frames with
  | nil => simp
  | cons id ids ih =>
      have hsplit : frames ++ (id :: ids).map ClientFrame.SUBSCRIBE =
          frames ++ [.SUBSCRIBE id] ++ ids.map .SUBSCRIBE := by simp
      rw [hsplit, ih, mem_netEffect_subscribe, List.mem_cons, or_assoc]

end NetEffect

namespace WebSocketClient

variable {O : WebSocketClientOptions} {s s' t : WebSocketClient} {i : ℕ}

-- A channel is wanted while a handle for it was obtained, and not invoked, since `disconnect()`.
def Wanted (s : WebSocketClient) (id : String) : Prop :=
  ∃ handle ∈ s.handles, handle.investigationId = id ∧ handle.outstanding = true

def SubscribedExactly (s : WebSocketClient) : Prop :=
  ∀ i socket, s.ws = some i → s.sockets[i]? = some socket → socket.readyState = .OPEN →
    ∀ id, id ∈ netEffect socket.sent ↔ Wanted s id

-- A handle is invoked when no other one for its investigation is outstanding.
def LastHandle (s : WebSocketClient) : SocketEvent → Prop
  | .call (.unsubscribe h) => ∀ handle ∈ s.handles[h]?, ∀ k < s.handles.length, k ≠ h →
      ∀ other ∈ s.handles[k]?, other.investigationId = handle.investigationId →
        other.outstanding = false
  | _ => True

structure InSync (desired : List String) (socket : BrowserSocket) : Prop where
  attached : socket.attached = true
  silent : socket.readyState = .CONNECTING → socket.sent = []
  synced : socket.readyState = .OPEN → ∀ id, id ∈ netEffect socket.sent ↔ id ∈ desired

structure Synced (s : WebSocketClient) : Prop where
  only : ∀ i socket, s.sockets[i]? = some socket → socket.attached = true →
    socket.readyState = .CONNECTING → s.ws = some i
  current : ∀ i, s.ws = some i →
    ∃ socket, s.sockets[i]? = some socket ∧ InSync s.desiredSubscriptions socket
  wanted : ∀ id, id ∈ s.desiredSubscriptions ↔ Wanted s id

theorem Synced.exactly (h : Synced s) : SubscribedExactly s := by
  intro i socket hws hsocket hopen id
  obtain ⟨other, hother, hsync⟩ := h.current i hws
  rw [hsocket] at hother
  cases hother
  exact (hsync.synced hopen id).trans (h.wanted id)

theorem start_synced : Synced (start O) where
  only := by
    intro i socket hi
    cases hi
  current := by
    intro i hi
    cases hi
  wanted := by
    intro id
    constructor
    · intro hid
      cases hid
    · rintro ⟨handle, hhandle, -⟩
      cases hhandle

theorem Synced.of_same (h : Synced s) (hws : t.ws = s.ws) (hsockets : t.sockets = s.sockets)
    (hdesired : t.desiredSubscriptions = s.desiredSubscriptions)
    (hhandles : t.handles = s.handles) : Synced t where
  only := by
    rw [hws, hsockets]
    exact h.only
  current := by
    rw [hws, hsockets, hdesired]
    exact h.current
  wanted := by
    intro id
    rw [hdesired, Wanted, hhandles]
    exact h.wanted id

section Frames
variable {socket : BrowserSocket}

theorem sendFrame_open (hws : s.ws = some i) (hsocket : s.sockets[i]? = some socket)
    (hopen : socket.readyState = .OPEN) (frame : ClientFrame) :
    s.sendFrame frame = s.setSocket i { socket with sent := socket.sent ++ [frame] } := by
  have hcurrent : s.current = some socket := by
    rw [current, hws]
    exact hsocket
  rw [sendFrame, hws, hcurrent]
  exact if_pos hopen

theorem sendFrame_shut (hws : s.ws = some i) (hsocket : s.sockets[i]? = some socket)
    (hshut : socket.readyState ≠ .OPEN) (frame : ClientFrame) : s.sendFrame frame = s := by
  have hcurrent : s.current = some socket := by
    rw [current, hws]
    exact hsocket
  rw [sendFrame, hws, hcurrent]
  exact if_neg hshut

theorem sendFrame_none (hws : s.ws = none) (frame : ClientFrame) : s.sendFrame frame = s := by
  rw [sendFrame, hws]

theorem replay_open {ids : List String} (hws : s.ws = some i)
    (hsocket : s.sockets[i]? = some socket) (hopen : socket.readyState = .OPEN) :
    ids.foldl (fun s investigationId => s.sendFrame (.SUBSCRIBE investigationId)) s =
      s.setSocket i { socket with sent := socket.sent ++ ids.map .SUBSCRIBE } := by
  induction ids generalizing s socket with
  | nil =>
      obtain ⟨hlt, rfl⟩ := List.getElem?_eq_some_iff.mp hsocket
      have hself : s.sockets.set i s.sockets[i] = s.sockets := List.set_getElem_self hlt
      rw [List.foldl_nil, List.map_nil, List.append_nil]
      change s = { s with sockets := s.sockets.set i s.sockets[i] }
      rw [hself]
  | cons id ids ih =>
      have hlt : i < s.sockets.length := (List.getElem?_eq_some_iff.mp hsocket).1
      rw [List.foldl_cons, sendFrame_open hws hsocket hopen]
      have hset : (s.setSocket i { socket with sent := socket.sent ++ [.SUBSCRIBE id] }).sockets[i]? =
          some { socket with sent := socket.sent ++ [.SUBSCRIBE id] } :=
        List.getElem?_set_self hlt
      rw [ih (s := s.setSocket i _) hws hset hopen]
      simp [setSocket]

theorem Synced.send {frame : ClientFrame} (h : Synced s) (hws : t.ws = s.ws)
    (hsockets : t.sockets = s.sockets)
    (hframe : ∀ frames id, (∀ x, x ∈ netEffect frames ↔ x ∈ s.desiredSubscriptions) →
      (id ∈ netEffect (frames ++ [frame]) ↔ id ∈ t.desiredSubscriptions))
    (hwanted : ∀ id, id ∈ t.desiredSubscriptions ↔ Wanted t id) :
    Synced (t.sendFrame frame) := by
  have honly : ∀ i socket, t.sockets[i]? = some socket → socket.attached = true →
      socket.readyState = .CONNECTING → t.ws = some i := by
    rw [hws, hsockets]
    exact h.only
  rcases Option.eq_none_or_eq_some t.ws with hnone | ⟨i, hi⟩
  · rw [sendFrame_none hnone]
    refine ⟨honly, ?_, hwanted⟩
    intro i hi
    rw [hnone] at hi
    cases hi
  · obtain ⟨socket, hold, hsync⟩ := h.current i (hws.symm.trans hi)
    have hsocket : t.sockets[i]? = some socket := by rwa [hsockets]
    have hlt : i < t.sockets.length := (List.getElem?_eq_some_iff.mp hsocket).1
    by_cases hopen : socket.readyState = .OPEN
    · rw [sendFrame_open hi hsocket hopen]
      refine ⟨?_, ?_, hwanted⟩
      · intro j other hj hattached hconnecting
        rcases Slots.getElem?_set_cases hj with ⟨rfl, rfl⟩ | ⟨-, hother⟩
        · exact hi
        · exact honly j other hother hattached hconnecting
      · intro j hj
        obtain rfl : i = j := Option.some.inj (hi.symm.trans hj)
        refine ⟨_, List.getElem?_set_self hlt, hsync.attached, ?_, ?_⟩
        · intro hconnecting
          rw [show socket.readyState = _ from hconnecting] at hopen
          cases hopen
        · exact fun _ id => hframe _ id (hsync.synced hopen)
    · rw [sendFrame_shut hi hsocket hopen]
      refine ⟨honly, ?_, hwanted⟩
      intro j hj
      obtain rfl : i = j := Option.some.inj (hi.symm.trans hj)
      exact ⟨socket, hsocket, hsync.attached, hsync.silent, fun hop => absurd hop hopen⟩

end Frames

section Calls
variable {socket socket' : BrowserSocket}

theorem Synced.setSocket (h : Synced s) (hsocket : s.sockets[i]? = some socket)
    (hattached : socket'.attached = socket.attached) (hshut : socket'.readyState.live = false) :
    Synced (s.setSocket i socket') where
  only := by
    intro j other hj hother hconnecting
    rcases Slots.getElem?_set_cases hj with ⟨rfl, rfl⟩ | ⟨-, hold⟩
    · rw [hconnecting] at hshut
      cases hshut
    · exact h.only j other hold hother hconnecting
  current := by
    intro j hj
    obtain ⟨other, hother, hsync⟩ := h.current j hj
    rcases eq_or_ne i j with rfl | hne
    · rw [hsocket] at hother
      cases hother
      have hlt : i < s.sockets.length := (List.getElem?_eq_some_iff.mp hsocket).1
      refine ⟨socket', List.getElem?_set_self hlt, hattached.trans hsync.attached, ?_, ?_⟩
      · intro hconnecting
        rw [hconnecting] at hshut
        cases hshut
      · intro hopen
        rw [hopen] at hshut
        cases hshut
    · exact ⟨other, (List.getElem?_set_ne hne).trans hother, hsync⟩
  wanted := h.wanted

theorem synced_without (hws : t.ws = none)
    (honly : ∀ (j : ℕ) (other : BrowserSocket), t.sockets[j]? = some other →
      other.attached = true → other.readyState ≠ .CONNECTING)
    (hwanted : ∀ id, id ∈ t.desiredSubscriptions ↔ Wanted t id) : Synced t where
  only := by
    intro j other hj hattached hconnecting
    exact absurd hconnecting (honly j other hj hattached)
  current := by
    intro j hj
    rw [hws] at hj
    cases hj
  wanted := hwanted

theorem Synced.others (h : Synced s) (hws : s.ws = some i) (hdead : socket'.attached = false ∨
      socket'.readyState ≠ .CONNECTING) (j : ℕ) (other : BrowserSocket)
    (hj : (s.sockets.set i socket')[j]? = some other) (hattached : other.attached = true) :
    other.readyState ≠ .CONNECTING := by
  rcases Slots.getElem?_set_cases hj with ⟨rfl, rfl⟩ | ⟨hne, hold⟩
  · rcases hdead with hdetached | hstate
    · rw [hdetached] at hattached
      cases hattached
    · exact hstate
  · intro hconnecting
    have heq := h.only j other hold hattached hconnecting
    rw [hws] at heq
    exact hne (Option.some.inj heq).symm

theorem Synced.without (h : Synced s) (hws : s.ws = none) (j : ℕ) (other : BrowserSocket)
    (hj : s.sockets[j]? = some other) (hattached : other.attached = true) :
    other.readyState ≠ .CONNECTING := by
  intro hconnecting
  have heq := h.only j other hj hattached hconnecting
  rw [hws] at heq
  cases heq

theorem Synced.replaceSocket (h : Synced s) :
    Synced s.replaceSocket ∧ s.replaceSocket.ws = none := by
  rw [WebSocketClient.replaceSocket]
  split
  · next i socket hws hcurrent =>
      refine ⟨?_, rfl⟩
      apply synced_without rfl
      · exact h.others hws (Or.inl rfl)
      · exact h.wanted
  · next hnone =>
      cases hws : s.ws with
      | none => exact ⟨h, rfl⟩
      | some i =>
          obtain ⟨socket, hsocket, -⟩ := h.current i hws
          have hcurrent : s.current = some socket := by
            rw [WebSocketClient.current, hws]
            exact hsocket
          exact absurd hcurrent (hnone i socket hws)

theorem Synced.doConnect (h : Synced s) : Synced s.doConnect := by
  obtain ⟨hreplaced, hws⟩ := h.replaceSocket
  constructor
  · intro j other hj hattached hconnecting
    have hj : (s.replaceSocket.sockets ++ [BrowserSocket.created])[j]? = some other := hj
    rcases Nat.lt_trichotomy j s.replaceSocket.sockets.length with hlt | rfl | hgt
    · rw [List.getElem?_append_left hlt] at hj
      exact absurd hconnecting (hreplaced.without hws j other hj hattached)
    · rfl
    · rw [List.getElem?_eq_none (by rw [List.length_append]; exact hgt)] at hj
      cases hj
  · intro j hj
    cases hj
    refine ⟨.created, List.getElem?_concat_length, rfl, fun _ => rfl, ?_⟩
    intro hopen
    cases hopen
  · exact hreplaced.wanted

theorem Synced.connect (h : Synced s) : Synced s.connect := by
  have hcleared : Synced
      { s with intentionalClose := false, terminalClose := none, stopped := false } :=
    h.of_same rfl rfl rfl rfl
  rw [WebSocketClient.connect]
  split
  · exact hcleared
  · exact hcleared.doConnect

theorem Synced.hangUp (h : Synced s) (hws : t.ws = s.ws) (hsockets : t.sockets = s.sockets)
    (hwanted : ∀ id, id ∈ t.desiredSubscriptions ↔ Wanted t id) : Synced t.hangUp := by
  rw [WebSocketClient.hangUp]
  split
  · next i socket hi hcurrent =>
      apply synced_without rfl
      · change ∀ (j : ℕ) (other : BrowserSocket),
          (t.sockets.set i socket.discard)[j]? = some other → _
        rw [hsockets]
        exact h.others (hws.symm.trans hi) (Or.inl rfl)
      · exact hwanted
  · next hnone =>
      cases hi : t.ws with
      | none =>
          apply synced_without hi
          · rw [hsockets]
            exact h.without (hws.symm.trans hi)
          · exact hwanted
      | some i =>
          obtain ⟨socket, hsocket, -⟩ := h.current i (hws.symm.trans hi)
          have hcurrent : t.current = some socket := by
            rw [WebSocketClient.current, hi, Option.bind_some, hsockets]
            exact hsocket
          exact absurd hcurrent (hnone i socket hi)

theorem stopHeartbeat_same : s.stopHeartbeat.ws = s.ws ∧ s.stopHeartbeat.sockets = s.sockets ∧
    s.stopHeartbeat.desiredSubscriptions = s.desiredSubscriptions ∧
      s.stopHeartbeat.handles = s.handles := by
  rw [stopHeartbeat]
  split <;> exact ⟨rfl, rfl, rfl, rfl⟩

theorem clearReconnect_same : s.clearReconnect.ws = s.ws ∧ s.clearReconnect.sockets = s.sockets ∧
    s.clearReconnect.desiredSubscriptions = s.desiredSubscriptions ∧
      s.clearReconnect.handles = s.handles := by
  rw [clearReconnect]
  split <;> exact ⟨rfl, rfl, rfl, rfl⟩

theorem Synced.disconnect (h : Synced s) : Synced s.disconnect := by
  obtain ⟨hclearWs, hclearSockets, -, -⟩ := clearReconnect_same
    (s := { s with intentionalClose := true, stopped := true }.stopHeartbeat)
  obtain ⟨hstopWs, hstopSockets, -, -⟩ := stopHeartbeat_same
    (s := { s with intentionalClose := true, stopped := true })
  refine h.hangUp (hclearWs.trans hstopWs) (hclearSockets.trans hstopSockets) ?_
  intro id
  constructor
  · intro hid
    cases hid
  · rintro ⟨handle, hhandle, -, houtstanding⟩
    obtain ⟨old, -, rfl⟩ := List.mem_map.mp hhandle
    cases houtstanding

theorem Synced.subscribe (h : Synced s) (id : String) : Synced (s.subscribeToInvestigation id) := by
  have hdesired : ∀ x, x ∈ (if id ∈ s.desiredSubscriptions then s.desiredSubscriptions
      else s.desiredSubscriptions ++ [id]) ↔ x ∈ s.desiredSubscriptions ∨ x = id := by
    intro x
    split
    · next hmem =>
        constructor
        · exact Or.inl
        · rintro (hx | rfl)
          · exact hx
          · exact hmem
    · rw [List.mem_append, List.mem_singleton]
  refine h.send ?_ ?_ ?_ ?_
  · rfl
  · rfl
  · intro frames x hframes
    rw [mem_netEffect_subscribe, hframes]
    exact (hdesired x).symm
  · intro x
    refine (hdesired x).trans ?_
    rw [h.wanted]
    constructor
    · rintro (⟨handle, hhandle, hrest⟩ | rfl)
      · exact ⟨handle, List.mem_append_left _ hhandle, hrest⟩
      · exact ⟨⟨x, true⟩, List.mem_append_right _ List.mem_cons_self, rfl, rfl⟩
    · rintro ⟨handle, hhandle, hid, houtstanding⟩
      rcases List.mem_append.mp hhandle with hold | hnew
      · exact Or.inl ⟨handle, hold, hid, houtstanding⟩
      · obtain rfl := List.mem_singleton.mp hnew
        exact Or.inr hid.symm

theorem Synced.invoke {k : ℕ} {handle : SubscriptionHandle} (h : Synced s)
    (hk : s.handles[k]? = some handle) (hturn : LastHandle s (.call (.unsubscribe k))) :
    Synced (s.invoke k handle) := by
  refine h.send ?_ ?_ ?_ ?_
  · rfl
  · rfl
  · intro frames x hframes
    rw [mem_netEffect_unsubscribe, hframes]
    change _ ↔ x ∈ s.desiredSubscriptions.filter _
    rw [List.mem_filter, decide_eq_true_iff]
  · intro x
    change x ∈ s.desiredSubscriptions.filter _ ↔ ∃ other ∈ s.handles.set k _, _
    rw [List.mem_filter, decide_eq_true_iff, h.wanted]
    constructor
    · rintro ⟨⟨other, hother, hid, houtstanding⟩, hne⟩
      obtain ⟨j, hj⟩ := List.getElem?_of_mem hother
      have hjk : k ≠ j := by
        rintro rfl
        rw [hk] at hj
        cases hj
        exact hne hid.symm
      exact ⟨other, List.mem_of_getElem? ((List.getElem?_set_ne hjk).trans hj), hid, houtstanding⟩
    · rintro ⟨other, hother, hid, houtstanding⟩
      obtain ⟨j, hj⟩ := List.getElem?_of_mem hother
      rcases Slots.getElem?_set_cases hj with ⟨rfl, rfl⟩ | ⟨hne, hold⟩
      · cases houtstanding
      · refine ⟨⟨other, List.mem_of_getElem? hold, hid, houtstanding⟩, ?_⟩
        rintro rfl
        have hlt : j < s.handles.length := (List.getElem?_eq_some_iff.mp hold).1
        have hgone := hturn handle hk j hlt hne other hold hid
        rw [hgone] at houtstanding
        cases houtstanding

end Calls

section Browser
variable {socket : BrowserSocket}

theorem Synced.scheduleReconnect (h : Synced s) : Synced s.scheduleReconnect := by
  obtain ⟨hws, hsockets, hdesired, hhandles⟩ := clearReconnect_same (s := s)
  exact h.of_same hws hsockets hdesired hhandles

theorem Synced.afterNotifying (h : Synced s) : Synced s.afterNotifying := by
  have hdone : Synced { s with notifying := false } := h.of_same rfl rfl rfl rfl
  rw [WebSocketClient.afterNotifying]
  split
  · exact hdone.scheduleReconnect
  · exact hdone

theorem Synced.onReconnect (h : Synced s) : Synced (s.onReconnect O) := by
  have hfired : Synced { s with
      reconnectTimer := none
      reconnectDelay := min (s.reconnectDelay * 2) O.maxReconnectDelayMs } :=
    h.of_same rfl rfl rfl rfl
  rw [WebSocketClient.onReconnect]
  split
  · exact hfired.doConnect
  · exact hfired

theorem Synced.onclose {code : ℕ} {reason : String} (h : Synced s)
    (hsocket : s.sockets[i]? = some socket) :
    Synced ((s.setSocket i { socket with readyState := .CLOSED, closeDelivered := true }).onclose
      i code reason) := by
  rw [WebSocketClient.onclose]
  split
  · exact h.setSocket hsocket rfl rfl
  · next hws =>
      have hws : s.ws = some i := not_not.mp hws
      have hwithout : Synced { s.setSocket i
          { socket with readyState := .CLOSED, closeDelivered := true } with ws := none } := by
        apply synced_without rfl
        · exact h.others hws (Or.inr nofun)
        · exact h.wanted
      obtain ⟨hstopWs, hstopSockets, hstopDesired, hstopHandles⟩ := stopHeartbeat_same
        (s := { s.setSocket i { socket with readyState := .CLOSED, closeDelivered := true } with
          ws := none })
      dsimp only
      split <;> exact hwithout.of_same hstopWs hstopSockets hstopDesired hstopHandles

theorem Synced.replayed (h : Synced s) (hsocket : s.sockets[i]? = some socket)
    (hstate : socket.readyState = .CONNECTING) (hattached : socket.attached = true)
    (hws : t.ws = s.ws) (hsockets : t.sockets = s.sockets.set i { socket with readyState := .OPEN })
    (hdesired : t.desiredSubscriptions = s.desiredSubscriptions)
    (hhandles : t.handles = s.handles) :
    Synced (t.desiredSubscriptions.foldl
      (fun s investigationId => s.sendFrame (.SUBSCRIBE investigationId)) t) := by
  have hi := h.only i socket hsocket hattached hstate
  have hlt : i < s.sockets.length := (List.getElem?_eq_some_iff.mp hsocket).1
  obtain ⟨other, hother, hsync⟩ := h.current i hi
  rw [hsocket] at hother
  cases hother
  have hset : t.sockets[i]? = some { socket with readyState := .OPEN } := by
    rw [hsockets]
    exact List.getElem?_set_self hlt
  rw [replay_open (hws.trans hi) hset rfl]
  constructor
  · intro j other hj hotherAttached hconnecting
    rcases Slots.getElem?_set_cases hj with ⟨rfl, rfl⟩ | ⟨hne, hold⟩
    · cases hconnecting
    · rw [hsockets, List.getElem?_set_ne (Ne.symm hne)] at hold
      have heq := h.only j other hold hotherAttached hconnecting
      rw [hi] at heq
      exact absurd (Option.some.inj heq).symm hne
  · intro j hj
    obtain rfl : i = j := Option.some.inj ((hws.trans hi).symm.trans hj)
    refine ⟨_, List.getElem?_set_self (List.getElem?_eq_some_iff.mp hset).1, hattached, nofun, ?_⟩
    intro _ id
    rw [hsync.silent hstate, mem_netEffect_replay]
    change id ∈ netEffect [] ∨ id ∈ t.desiredSubscriptions ↔ id ∈ t.desiredSubscriptions
    simp [netEffect]
  · intro id
    change id ∈ t.desiredSubscriptions ↔ ∃ handle ∈ t.handles, _
    rw [hdesired, hhandles]
    exact h.wanted id

theorem Synced.opened (h : Synced s) (hsocket : s.sockets[i]? = some socket)
    (hstate : socket.readyState = .CONNECTING) (hattached : socket.attached = true) :
    Synced ((s.setSocket i { socket with readyState := .OPEN }).onopen O) := by
  obtain ⟨hstopWs, hstopSockets, hstopDesired, hstopHandles⟩ := stopHeartbeat_same
    (s := { s.setSocket i { socket with readyState := .OPEN } with
      reconnectDelay := O.initialReconnectDelayMs })
  rw [onopen]
  exact h.replayed hsocket hstate hattached hstopWs hstopSockets hstopDesired hstopHandles

theorem Synced.ping (h : Synced s) : Synced (s.sendFrame .PING) := by
  refine h.send ?_ ?_ ?_ ?_
  · rfl
  · rfl
  · intro frames x hframes
    rw [netEffect_append]
    exact hframes x
  · exact h.wanted

theorem synced_call {c : ClientCall} (h : Synced s) (hturn : LastHandle s (.call c))
    (hcall : s.call c = some s') : Synced s' := by
  cases c with
  | connect =>
      cases hcall
      exact h.connect
  | disconnect =>
      cases hcall
      exact h.disconnect
  | subscribeToInvestigation id =>
      cases hcall
      exact h.subscribe id
  | unsubscribe k =>
      obtain ⟨handle, hk, rfl⟩ := Option.map_eq_some_iff.mp hcall
      exact h.invoke hk hturn

theorem synced_browserStep {e : SocketEvent} (h : Synced s)
    (hstep : s.browserStep O e = some s') : Synced s' := by
  cases e with
  | call c => cases hstep
  | notified => cases hstep
  | opened i =>
      obtain ⟨socket, hsocket, hopen⟩ := Option.bind_eq_some_iff.mp hstep
      split at hopen
      · next hstate =>
          cases hopen
          split
          · next hattached => exact h.opened hsocket hstate hattached
          · next hdetached =>
              refine ⟨?_, ?_, h.wanted⟩
              · intro j other hj hattached hconnecting
                rcases Slots.getElem?_set_cases hj with ⟨rfl, rfl⟩ | ⟨-, hold⟩
                · cases hconnecting
                · exact h.only j other hold hattached hconnecting
              · intro j hj
                obtain ⟨other, hother, hsync⟩ := h.current j hj
                rcases eq_or_ne i j with rfl | hne
                · rw [hsocket] at hother
                  cases hother
                  exact absurd hsync.attached hdetached
                · exact ⟨other, (List.getElem?_set_ne hne).trans hother, hsync⟩
      · cases hopen
  | closing i =>
      obtain ⟨socket, hsocket, hclosing⟩ := Option.bind_eq_some_iff.mp hstep
      split at hclosing
      · cases hclosing
        exact h.setSocket hsocket rfl rfl
      · cases hclosing
  | failed i =>
      obtain ⟨socket, hsocket, hfailed⟩ := Option.bind_eq_some_iff.mp hstep
      split at hfailed
      · cases hfailed
      · cases hfailed
        exact h.setSocket hsocket rfl rfl
  | errored i =>
      obtain ⟨socket, -, herrored⟩ := Option.bind_eq_some_iff.mp hstep
      split at herrored <;> cases herrored
      exact h
  | closed i code reason =>
      obtain ⟨socket, hsocket, hclosed⟩ := Option.bind_eq_some_iff.mp hstep
      split at hclosed
      · cases hclosed
      · cases hclosed
        split
        · exact h.onclose hsocket
        · exact h.setSocket hsocket rfl rfl
  | reconnect timer =>
      simp only [browserStep] at hstep
      split at hstep
      · cases hstep
        have hfired : Synced { s with timeouts := s.timeouts.filter (·.1 ≠ timer) } :=
          h.of_same rfl rfl rfl rfl
        exact hfired.onReconnect
      · cases hstep
  | heartbeat timer =>
      simp only [browserStep] at hstep
      split at hstep <;> cases hstep
      exact h.ping

theorem synced_step {e : SocketEvent} (h : Synced s) (hturn : LastHandle s e)
    (hstep : (machine O).step s e = some s') : Synced s' := by
  have hbrowser : (if s.notifying then none else s.browserStep O e) = some s' → Synced s' := by
    intro hbrowser
    split at hbrowser
    · cases hbrowser
    · exact synced_browserStep h hbrowser
  cases e with
  | call c => exact synced_call h hturn hstep
  | notified =>
      simp only [machine, step] at hstep
      split at hstep <;> cases hstep
      exact h.afterNotifying
  | opened i => exact hbrowser hstep
  | closing i => exact hbrowser hstep
  | failed i => exact hbrowser hstep
  | errored i => exact hbrowser hstep
  | closed i code reason => exact hbrowser hstep
  | reconnect timer => exact hbrowser hstep
  | heartbeat timer => exact hbrowser hstep

end Browser

instance (s : WebSocketClient) : ∀ e, Decidable (LastHandle s e)
  | .call (.unsubscribe h) => inferInstanceAs (Decidable (∀ handle ∈ s.handles[h]?,
      ∀ k < s.handles.length, k ≠ h → ∀ other ∈ s.handles[k]?,
        other.investigationId = handle.investigationId → other.outstanding = false))
  | .call .connect | .call .disconnect | .call (.subscribeToInvestigation _) | .notified
  | .opened _ | .closing _ | .failed _ | .errored _ | .closed .. | .reconnect _ | .heartbeat _ =>
      isTrue trivial

namespace Workspace

def options : WebSocketClientOptions := ⟨30000, 30000, 1000⟩

-- Two views of one investigation, of which one is closed.
def viewClosed : List SocketEvent :=
  [.call (.subscribeToInvestigation "inv_1"), .call (.subscribeToInvestigation "inv_1"),
    .call .connect, .opened 0, .call (.unsubscribe 0)]

-- A view goes over to another investigation, and the socket drops and opens again.
def viewMoved : List SocketEvent :=
  [.call (.subscribeToInvestigation "inv_1"), .call .connect, .opened 0,
    .call (.subscribeToInvestigation "inv_2"), .call (.unsubscribe 0), .closed 0 1006 "", .notified,
    .reconnect 2, .opened 1]

end Workspace

open Workspace in
theorem other_view_unhooked : ¬ ∀ (O : WebSocketClientOptions) (es : List SocketEvent)
    (s : WebSocketClient), (machine O).run (start O) es = some s → SubscribedExactly s := by
  intro h
  have hrun : ((machine options).run (start options) viewClosed).any fun s =>
      decide (s.ws = some 0 ∧ ∃ socket ∈ s.sockets[0]?, socket.readyState = .OPEN ∧
        "inv_1" ∉ netEffect socket.sent ∧
          ∃ handle ∈ s.handles, handle.investigationId = "inv_1" ∧ handle.outstanding = true) := by
    decide
  obtain ⟨s, hs, hstate⟩ := (Option.any_eq_true _ _).mp hrun
  obtain ⟨hws, socket, hsocket, hopen, hnot, hwanted⟩ := of_decide_eq_true hstate
  exact hnot ((h options _ s hs 0 socket hws hsocket hopen "inv_1").mpr hwanted)

theorem subscribed_exactly {es : List SocketEvent}
    (hturn : (machine O).Along LastHandle (start O) es)
    (hrun : (machine O).run (start O) es = some s) : SubscribedExactly s :=
  ((machine O).invariant_along (I := Synced) synced_step start_synced hturn hrun).exactly

open Workspace in
theorem viewMoved_subscribed : ∃ s, (machine options).run (start options) viewMoved = some s ∧
    (∃ socket, s.sockets[1]? = some socket ∧ netEffect socket.sent = ["inv_2"]) ∧
      SubscribedExactly s := by
  have hrun : ((machine options).run (start options) viewMoved).any fun s =>
      decide (∃ socket ∈ s.sockets[1]?, netEffect socket.sent = ["inv_2"]) := by
    decide
  obtain ⟨s, hs, hstate⟩ := (Option.any_eq_true _ _).mp hrun
  exact ⟨s, hs, of_decide_eq_true hstate, subscribed_exactly (by decide) hs⟩

end WebSocketClient

end BTagent
