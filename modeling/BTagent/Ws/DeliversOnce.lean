import BTagent.Ws.Hub
import Mathlib.Data.List.Basic

namespace BTagent

namespace Publishing

def event? : Publishing → Option EventEnvelope
  | .investigationCopy e | .globalCopy e => some e
  | .sent => none

end Publishing

namespace WebSocketHub
open ConnectedClient

variable {restricted : EventEnvelope → Bool} {h h' : WebSocketHub} {c c' : ConnectedClient}
  {e : EventEnvelope} {i k : ℕ} {inv : String}

def investigationCopies (h : WebSocketHub) (e : EventEnvelope) : ℕ :=
  h.publishing.count (.investigationCopy e) +
    h.wire.count (investigationChannel e.investigationId, e)

def globalCopies (h : WebSocketHub) (e : EventEnvelope) : ℕ :=
  h.publishing.count (.investigationCopy e) + h.publishing.count (.globalCopy e) +
    h.wire.count (globalChannel, e)

def pending (h : WebSocketHub) (c : ConnectedClient) (e : EventEnvelope) : ℕ :=
  if e.investigationId ∈ c.subscriptions then h.investigationCopies e else h.globalCopies e

def inFlight (h : WebSocketHub) : List EventEnvelope :=
  h.publishing.filterMap Publishing.event? ++ h.wire.map Prod.snd

-- Every event published since `h₀` that carries the client's organisation was enqueued once for
-- each time it was published, unless a copy of it is still on the way.
def DeliveredOnce (k : ℕ) (h₀ h : WebSocketHub) : Prop :=
  ∀ c₀ c, h₀.clients[k]? = some c₀ → h.clients[k]? = some c → c.overflowed = false →
    ∀ e, e.orgId = c₀.orgId → h₀.published.count e < h.published.count e →
      e ∉ h₀.inFlight → e ∉ h.inFlight →
        c.enqueued.count (.event e) + h₀.published.count e =
          h.published.count e + c₀.enqueued.count (.event e)

def StaysConnected (k : ℕ) (_ : WebSocketHub) : HubEvent → Prop
  | .disconnect client => client ≠ k
  | _ => True

-- No event of the investigation has reached the client's channel but not the global one.
def Settled (h : WebSocketHub) (orgId : Option String) (inv : String) : Prop :=
  ∀ e ∈ h.inFlight, e.orgId = orgId → e.investigationId = inv →
    h.investigationCopies e = h.globalCopies e

def Steady (k : ℕ) (h : WebSocketHub) : HubEvent → Prop
  | .subscribe client inv => client = k → ∀ c ∈ h.clients[k]?, inv ∉ c.subscriptions →
      h.Settled c.orgId inv
  | .unsubscribe client inv => client = k → ∀ c ∈ h.clients[k]?, inv ∈ c.subscriptions →
      h.Settled c.orgId inv
  | .publish e => e.investigationId ≠ "global"
  | _ => True

def Linked (h : WebSocketHub) (k : ℕ) (c : ConnectedClient) : Prop :=
  h.clients[k]? = some c ∧
    ∀ inv, k ∈ h.investigationClients (investigationChannel inv) ↔ inv ∈ c.subscriptions

structure Wired (restricted : EventEnvelope → Bool) (h : WebSocketHub) : Prop where
  known : ∀ ch, ∀ i ∈ h.investigationClients ch, i < h.clients.length
  linked : ∀ k ∈ h.globalClients, ∃ c, Linked h k c
  routed : ∀ m ∈ h.wire, m.1 = investigationChannel m.2.investigationId ∨ m.1 = globalChannel
  passed : ∀ e ∈ h.inFlight, shouldDropForTlp restricted e = false

section Channels

theorem investigationChannel_inj {inv inv' : String} :
    investigationChannel inv = investigationChannel inv' ↔ inv = inv' := by
  simp only [investigationChannel]
  constructor
  · intro heq
    exact String.append_right_inj _ |>.mp heq
  · rintro rfl
    rfl

theorem investigationChannel_ne_global (hinv : inv ≠ "global") :
    investigationChannel inv ≠ globalChannel := by
  have hglobal : globalChannel = investigationChannel "global" := by decide
  rw [hglobal, ne_eq, investigationChannel_inj]
  exact hinv

end Channels

section Enqueue
variable {item : QueueItem} {critical : Bool}

@[simp] theorem enqueue_subscriptions : (c.enqueue item critical).subscriptions = c.subscriptions := by
  simp only [ConnectedClient.enqueue]
  split_ifs <;> rfl

@[simp] theorem enqueue_orgId : (c.enqueue item critical).orgId = c.orgId := by
  simp only [ConnectedClient.enqueue]
  split_ifs <;> rfl

theorem enqueue_fits (hc : (c.enqueue item critical).overflowed = false) :
    c.overflowed = false ∧ (c.enqueue item critical).enqueued = c.enqueued ++ [item] := by
  simp only [ConnectedClient.enqueue] at hc ⊢
  split_ifs at hc ⊢
  simp_all

theorem passesOrgFilter_same {strict : Bool} (horg : e.orgId = c.orgId) :
    c.passesOrgFilter e.orgId strict = true := by
  simp only [passesOrgFilter, horg]
  cases c.orgId <;> simp

end Enqueue

section Wired
variable {orgId : Option String}

theorem inFlight_mem_wire {ch : String} (hm : (ch, e) ∈ h.wire) : e ∈ h.inFlight :=
  List.mem_append_right _ (List.mem_map_of_mem hm)

theorem inFlight_mem_publishing {p : Publishing} (hp : p ∈ h.publishing)
    (he : p.event? = some e) : e ∈ h.inFlight :=
  List.mem_append_left _ (List.mem_filterMap.mpr ⟨p, hp, he⟩)

theorem Wired.setClients (hw : Wired restricted h) {clients : List ConnectedClient}
    (hlength : clients.length = h.clients.length)
    (hkeep : ∀ {k : ℕ} {c : ConnectedClient}, h.clients[k]? = some c →
      ∃ c', clients[k]? = some c' ∧ c'.subscriptions = c.subscriptions) :
    Wired restricted { h with clients := clients } := by
  refine ⟨?_, ?_, hw.routed, hw.passed⟩
  · intro ch i hi
    exact hlength ▸ hw.known ch i hi
  · intro k hk
    obtain ⟨c, hc⟩ := hw.linked k hk
    obtain ⟨c', hc', hsubs⟩ := hkeep hc.1
    exact ⟨c', hc', fun inv => hsubs ▸ hc.2 inv⟩

theorem modify_slot {f : ConnectedClient → ConnectedClient} {clients : List ConnectedClient}
    (hc : clients[k]? = some c) :
    (clients.modify i f)[k]? = some (if i = k then f c else c) := by
  rw [List.getElem?_modify, hc]
  split_ifs <;> rfl

theorem Wired.subscribe (hw : Wired restricted h) (hi : i < h.clients.length) :
    Wired restricted (h.subscribe i inv) := by
  refine ⟨?_, ?_, hw.routed, hw.passed⟩
  · intro ch j hj
    simp only [WebSocketHub.subscribe, List.length_modify] at hj ⊢
    by_cases hch : ch = investigationChannel inv
    · subst hch
      rw [Function.update_self, List.mem_insert_iff] at hj
      rcases hj with rfl | hj
      · exact hi
      · exact hw.known _ j hj
    · rw [Function.update_of_ne hch] at hj
      exact hw.known ch j hj
  · intro k hk
    obtain ⟨c, hc⟩ := hw.linked k hk
    refine ⟨_, modify_slot hc.1, ?_⟩
    intro inv'
    simp only [WebSocketHub.subscribe]
    by_cases hinv : inv' = inv
    · subst hinv
      rw [Function.update_self, List.mem_insert_iff, hc.2]
      by_cases hik : i = k
      · simp [hik, List.mem_insert_iff]
      · simp [hik, Ne.symm hik]
    · rw [Function.update_of_ne (fun heq => hinv (investigationChannel_inj.mp heq)), hc.2]
      by_cases hik : i = k
      · simp [hik, List.mem_insert_iff, hinv]
      · simp [hik]

theorem Wired.unsubscribe (hw : Wired restricted h) : Wired restricted (h.unsubscribe i inv) := by
  refine ⟨?_, ?_, hw.routed, hw.passed⟩
  · intro ch j hj
    simp only [WebSocketHub.unsubscribe, discard, List.length_modify] at hj ⊢
    split at hj
    · exact hw.known ch j (List.mem_filter.mp hj).1
    · exact hw.known ch j hj
  · intro k hk
    obtain ⟨c, hc⟩ := hw.linked k hk
    refine ⟨_, modify_slot hc.1, ?_⟩
    intro inv'
    simp only [WebSocketHub.unsubscribe, discard, List.mem_singleton]
    by_cases hinv : inv' = inv
    · subst hinv
      rw [if_pos rfl, List.mem_filter, hc.2]
      by_cases hik : i = k
      · simp [hik]
      · simp [hik, Ne.symm hik]
    · rw [if_neg (fun heq => hinv (investigationChannel_inj.mp heq)), hc.2]
      by_cases hik : i = k
      · simp [hik, hinv]
      · simp [hik]

theorem Wired.addClient (hw : Wired restricted h) :
    Wired restricted { h with clients := h.clients ++ [⟨orgId, [], [], [], false⟩] } := by
  refine ⟨?_, ?_, hw.routed, hw.passed⟩
  · intro ch j hj
    have hlt := hw.known ch j hj
    simp only [List.length_append, List.length_singleton]
    omega
  · intro k hk
    obtain ⟨c, hc⟩ := hw.linked k hk
    have hlt : k < h.clients.length := (List.getElem?_eq_some_iff.mp hc.1).1
    refine ⟨c, ?_, hc.2⟩
    rw [List.getElem?_append_left hlt]
    exact hc.1

theorem Wired.connect (hw : Wired restricted h) {investigationId : Option String} :
    Wired restricted (h.connect orgId investigationId) := by
  have hadded : Wired restricted { h with clients := h.clients ++ [⟨orgId, [], [], [], false⟩] } :=
    hw.addClient
  cases investigationId with
  | some inv => exact hadded.subscribe (by simp)
  | none =>
      refine ⟨hadded.known, ?_, hadded.routed, hadded.passed⟩
      intro k hk
      rcases List.mem_insert_iff.mp hk with rfl | hk
      · refine ⟨⟨orgId, [], [], [], false⟩, by simp [WebSocketHub.connect], ?_⟩
        intro inv
        simp only [WebSocketHub.connect, List.not_mem_nil, iff_false]
        intro hmem
        exact absurd (hw.known _ _ hmem) (Nat.lt_irrefl _)
      · exact hadded.linked k hk

theorem Wired.disconnect (hw : Wired restricted h) : Wired restricted (h.disconnect i) := by
  simp only [WebSocketHub.disconnect]
  split
  · exact hw
  · refine ⟨?_, ?_, hw.routed, hw.passed⟩
    · intro ch j hj
      simp only [discard] at hj
      split at hj
      · exact hw.known ch j (List.mem_filter.mp hj).1
      · exact hw.known ch j hj
    · intro k hk
      obtain ⟨hk, hne⟩ := List.mem_filter.mp hk
      have hne : k ≠ i := of_decide_eq_true hne
      obtain ⟨c, hc⟩ := hw.linked k hk
      refine ⟨c, hc.1, ?_⟩
      intro inv
      rw [← hc.2]
      simp only [discard]
      split_ifs
      · simp [hne]
      · rfl

theorem Wired.publish (hw : Wired restricted h) : Wired restricted (h.publish restricted e) := by
  simp only [WebSocketHub.publish]
  split
  · exact hw
  · rename_i hpass
    refine ⟨hw.known, hw.linked, hw.routed, ?_⟩
    intro e' he'
    simp only [inFlight, List.filterMap_append, List.mem_append] at he'
    rcases he' with (hold | hnew) | hwire
    · exact hw.passed e' (List.mem_append_left _ hold)
    · obtain rfl : e' = e := by simpa [Publishing.event?] using hnew
      simpa using hpass
    · exact hw.passed e' (List.mem_append_right _ hwire)

theorem Wired.sendCopy (hw : Wired restricted h) {p p' : Publishing} {ch : String}
    (hp : h.publishing[i]? = some p) (he : p.event? = some e)
    (hp' : ∀ e', p'.event? = some e' → e' = e)
    (hch : ch = investigationChannel e.investigationId ∨ ch = globalChannel) :
    Wired restricted { h with wire := h.wire ++ [(ch, e)], publishing := h.publishing.set i p' } := by
  have hpass : shouldDropForTlp restricted e = false :=
    hw.passed e (inFlight_mem_publishing (List.mem_of_getElem? hp) he)
  refine ⟨hw.known, hw.linked, ?_, ?_⟩
  · intro m hm
    rcases List.mem_append.mp hm with hm | hm
    · exact hw.routed m hm
    · obtain rfl := List.mem_singleton.mp hm
      exact hch
  · intro e' he'
    rcases List.mem_append.mp he' with hpub | hwire
    · obtain ⟨q, hq, heq⟩ := List.mem_filterMap.mp hpub
      rcases List.mem_or_eq_of_mem_set hq with hq | rfl
      · exact hw.passed e' (inFlight_mem_publishing hq heq)
      · rw [hp' e' heq]
        exact hpass
    · obtain ⟨m, hm, rfl⟩ := List.mem_map.mp hwire
      rcases List.mem_append.mp hm with hm | hm
      · exact hw.passed m.2 (List.mem_append_right _ (List.mem_map_of_mem hm))
      · obtain rfl := List.mem_singleton.mp hm
        exact hpass

theorem redisPublish_cases (hstep : h.redisPublish i = some h') :
    (∃ e, h.publishing[i]? = some (.investigationCopy e) ∧
      h' = { h with
        wire := h.wire ++ [(investigationChannel e.investigationId, e)]
        publishing := h.publishing.set i (.globalCopy e) }) ∨
    (∃ e, h.publishing[i]? = some (.globalCopy e) ∧
      h' = { h with
        wire := h.wire ++ [(globalChannel, e)]
        publishing := h.publishing.set i .sent }) := by
  simp only [redisPublish] at hstep
  split at hstep
  · rename_i e hp
    cases hstep
    exact Or.inl ⟨e, hp, rfl⟩
  · rename_i e hp
    cases hstep
    exact Or.inr ⟨e, hp, rfl⟩
  · cases hstep

theorem Wired.redisPublish (hw : Wired restricted h) (hstep : h.redisPublish i = some h') :
    Wired restricted h' := by
  rcases redisPublish_cases hstep with ⟨e, hp, rfl⟩ | ⟨e, hp, rfl⟩
  · apply hw.sendCopy hp rfl _ (Or.inl rfl)
    rintro e' ⟨⟩
    rfl
  · apply hw.sendCopy hp rfl _ (Or.inr rfl)
    rintro e' ⟨⟩

theorem deliver_cases (hstep : h.deliver restricted = some h') :
    ∃ ch e wire, h.wire = (ch, e) :: wire ∧ h' = { h.dispatch restricted ch e with wire := wire } := by
  simp only [deliver] at hstep
  split at hstep
  · cases hstep
  · rename_i ch e wire hwire
    cases hstep
    exact ⟨ch, e, wire, hwire, rfl⟩

theorem Wired.dispatch (hw : Wired restricted h) {ch : String} :
    Wired restricted (h.dispatch restricted ch e) := by
  simp only [WebSocketHub.dispatch]
  split
  · exact hw
  · apply hw.setClients (by simp)
    intro k c hc
    rw [List.getElem?_mapIdx, hc]
    refine ⟨_, rfl, ?_⟩
    show (if h.isTarget ch e k c then c.enqueue (.event e) (isCritical e) else c).subscriptions =
      c.subscriptions
    split_ifs
    · exact enqueue_subscriptions
    · rfl

theorem Wired.deliver (hw : Wired restricted h) (hstep : h.deliver restricted = some h') :
    Wired restricted h' := by
  obtain ⟨ch, e, wire, hwire, rfl⟩ := deliver_cases hstep
  have hd : Wired restricted (h.dispatch restricted ch e) := hw.dispatch
  have hsame : (h.dispatch restricted ch e).wire = h.wire ∧
      (h.dispatch restricted ch e).publishing = h.publishing := by
    simp only [WebSocketHub.dispatch]
    split <;> exact ⟨rfl, rfl⟩
  refine ⟨hd.known, hd.linked, ?_, ?_⟩
  · intro m hm
    exact hw.routed m (hwire ▸ List.mem_cons_of_mem _ hm)
  · intro e' he'
    rcases List.mem_append.mp he' with hpub | htail
    · exact hd.passed e' (List.mem_append_left _ hpub)
    · obtain ⟨m, hm, rfl⟩ := List.mem_map.mp htail
      exact hw.passed m.2 (List.mem_append_right _
        (List.mem_map_of_mem (hwire ▸ List.mem_cons_of_mem _ hm)))

theorem wired_step {ev : HubEvent} (hw : Wired restricted h)
    (hstep : (hub restricted).step h ev = some h') : Wired restricted h' := by
  cases ev with
  | connect orgId investigationId =>
      cases hstep
      exact hw.connect
  | disconnect client =>
      cases hstep
      exact hw.disconnect
  | subscribe client inv =>
      simp only [hub] at hstep
      split at hstep <;> cases hstep
      exact hw.subscribe ‹_›
  | unsubscribe client inv =>
      simp only [hub] at hstep
      split at hstep <;> cases hstep
      exact hw.unsubscribe
  | publish e =>
      cases hstep
      exact hw.publish
  | redisPublish call => exact hw.redisPublish hstep
  | deliver => exact hw.deliver hstep
  | send client =>
      cases hstep
      apply hw.setClients (by simp)
      intro k c hc
      refine ⟨_, modify_slot hc, ?_⟩
      split_ifs <;> rfl

theorem started_wired : Wired restricted started := by
  constructor
  · intro ch i hi
    cases hi
  all_goals
    intro x hx
    cases hx

end Wired

-- What the client was sent, with what is still on its way to it, makes up what was published.
structure Tracked (k : ℕ) (e : EventEnvelope) (pub enq : ℕ) (h : WebSocketHub)
    (c : ConnectedClient) : Prop where
  client : h.clients[k]? = some c
  stream : k ∈ h.globalClients
  org : e.orgId = c.orgId
  balanced : c.overflowed = false →
    c.enqueued.count (.event e) + h.pending c e + pub = h.published.count e + enq

section Tracked
variable {pub enq : ℕ}

theorem Tracked.same (ht : Tracked k e pub enq h c) (hclient : h'.clients[k]? = some c')
    (hstream : k ∈ h'.globalClients) (horg : c'.orgId = c.orgId)
    (hsubs : c'.subscriptions = c.subscriptions) (henq : c'.enqueued = c.enqueued)
    (hover : c'.overflowed = c.overflowed)
    (hcopies : h'.investigationCopies e = h.investigationCopies e ∧
      h'.globalCopies e = h.globalCopies e)
    (hpub : h'.published = h.published) : Tracked k e pub enq h' c' := by
  refine ⟨hclient, hstream, ht.org.trans horg.symm, ?_⟩
  intro hfits
  have hbalanced := ht.balanced (hover ▸ hfits)
  simp only [pending, hsubs, henq, hcopies.1, hcopies.2, hpub] at hbalanced ⊢
  exact hbalanced

theorem copies_congr (hpublishing : h'.publishing = h.publishing) (hwire : h'.wire = h.wire) :
    h'.investigationCopies e = h.investigationCopies e ∧ h'.globalCopies e = h.globalCopies e := by
  simp [investigationCopies, globalCopies, hpublishing, hwire]

theorem Tracked.resubscribe (ht : Tracked k e pub enq h c) {item : QueueItem}
    {subscriptions : List String} (hitem : item ≠ .event e)
    (hclient : h'.clients[k]? =
      some ({ c with subscriptions := subscriptions }.enqueue item true))
    (hstream : k ∈ h'.globalClients)
    (hcopies : h'.investigationCopies e = h.investigationCopies e ∧
      h'.globalCopies e = h.globalCopies e)
    (hpub : h'.published = h.published)
    (hsettled : (e.investigationId ∈ subscriptions ↔ e.investigationId ∈ c.subscriptions) ∨
      h.investigationCopies e = h.globalCopies e) :
    Tracked k e pub enq h' ({ c with subscriptions := subscriptions }.enqueue item true) := by
  refine ⟨hclient, hstream, by rw [ht.org, enqueue_orgId], ?_⟩
  intro hfits
  obtain ⟨hover, henq⟩ := enqueue_fits hfits
  have hbalanced := ht.balanced hover
  have hpending : h'.pending ({ c with subscriptions := subscriptions }.enqueue item true) e =
      h.pending c e := by
    simp only [pending, enqueue_subscriptions, hcopies.1, hcopies.2]
    rcases hsettled with hsame | hsettled
    · simp only [hsame]
    · simp only [hsettled, ite_self]
  have hcount : (c.enqueued ++ [item]).count (.event e) = c.enqueued.count (.event e) := by
    simp [List.count_append, hitem]
  rw [hpending, henq, hcount, hpub]
  exact hbalanced

theorem copies_of_not_inFlight (hmem : e ∉ h.inFlight) :
    h.investigationCopies e = 0 ∧ h.globalCopies e = 0 := by
  have hinv : Publishing.investigationCopy e ∉ h.publishing := fun hp =>
    hmem (inFlight_mem_publishing hp rfl)
  have hglobal : Publishing.globalCopy e ∉ h.publishing := fun hp =>
    hmem (inFlight_mem_publishing hp rfl)
  have hwire : ∀ ch, (ch, e) ∉ h.wire := fun ch hm => hmem (inFlight_mem_wire hm)
  simp [investigationCopies, globalCopies, List.count_eq_zero.mpr hinv,
    List.count_eq_zero.mpr hglobal, List.count_eq_zero.mpr (hwire _)]

theorem settled_copies {orgId : Option String} (hs : h.Settled orgId e.investigationId)
    (horg : e.orgId = orgId) : h.investigationCopies e = h.globalCopies e := by
  by_cases hmem : e ∈ h.inFlight
  · exact hs e hmem horg rfl
  · rw [(copies_of_not_inFlight hmem).1, (copies_of_not_inFlight hmem).2]

theorem pending_eq_zero (hmem : e ∉ h.inFlight) : h.pending c e = 0 := by
  simp [pending, copies_of_not_inFlight hmem]

theorem redisPublish_copies (hinv : e.investigationId ≠ "global")
    (hstep : h.redisPublish i = some h') :
    h'.investigationCopies e = h.investigationCopies e ∧ h'.globalCopies e = h.globalCopies e := by
  have hne := investigationChannel_ne_global hinv
  rcases redisPublish_cases hstep with ⟨e', hp, rfl⟩ | ⟨e', hp, rfl⟩
  · have hcount := fun x => Slots.count_set (b := .globalCopy e') hp x
    have hi := hcount (.investigationCopy e)
    have hg := hcount (.globalCopy e)
    by_cases he : e' = e
    · subst he
      simp only [investigationCopies, globalCopies, List.count_append, List.count_singleton,
        if_true, reduceCtorEq, if_false, beq_self_eq_true] at hi hg ⊢
      simp [hne]
      omega
    · simp [investigationCopies, globalCopies, he] at hi hg ⊢
      omega
  · have hcount := fun x => Slots.count_set (b := .sent) hp x
    have hi := hcount (.investigationCopy e)
    have hg := hcount (.globalCopy e)
    by_cases he : e' = e
    · subst he
      simp only [investigationCopies, globalCopies, List.count_append, List.count_singleton,
        if_true, reduceCtorEq, if_false, beq_self_eq_true] at hi hg ⊢
      simp [Ne.symm hne]
      omega
    · simp [investigationCopies, globalCopies, he] at hi hg ⊢
      omega

theorem deliver_copies {ch : String} {e' : EventEnvelope} {wire : List (String × EventEnvelope)}
    (hwire : h.wire = (ch, e') :: wire) (hpublishing : h'.publishing = h.publishing)
    (hwire' : h'.wire = wire) :
    h.investigationCopies e = h'.investigationCopies e +
        (if (ch, e') = (investigationChannel e.investigationId, e) then 1 else 0) ∧
      h.globalCopies e = h'.globalCopies e + (if (ch, e') = (globalChannel, e) then 1 else 0) := by
  simp only [investigationCopies, globalCopies, hwire, hpublishing, hwire', List.count_cons,
    beq_iff_eq]
  omega

theorem isTarget_investigation (hw : Wired restricted h) (hinv : e.investigationId ≠ "global")
    (ht : Tracked k e pub enq h c) :
    h.isTarget (investigationChannel e.investigationId) e k c = true ↔
      e.investigationId ∈ c.subscriptions := by
  obtain ⟨d, hd, hchannels⟩ := hw.linked k ht.stream
  obtain rfl : c = d := Option.some.inj (ht.client.symm.trans hd)
  rw [isTarget, if_neg (investigationChannel_ne_global hinv), ← hchannels]
  simp [passesOrgFilter_same ht.org]

theorem isTarget_global (ht : Tracked k e pub enq h c) :
    h.isTarget globalChannel e k c = true ↔ e.investigationId ∉ c.subscriptions := by
  rw [isTarget, if_pos rfl]
  simp [passesOrgFilter_same ht.org, ht.stream]

theorem tracked_deliver (hw : Wired restricted h) (hinv : e.investigationId ≠ "global")
    (ht : Tracked k e pub enq h c) (hstep : h.deliver restricted = some h') :
    ∃ c', Tracked k e pub enq h' c' := by
  obtain ⟨ch, e', wire, hwire, rfl⟩ := deliver_cases hstep
  have hhead : (ch, e') ∈ h.wire := hwire ▸ List.mem_cons_self
  have hdispatch : h.dispatch restricted ch e' = { h with
      clients := h.clients.mapIdx fun i c =>
        if h.isTarget ch e' i c then c.enqueue (.event e') (isCritical e') else c } := by
    simp [dispatch, hw.passed e' (inFlight_mem_wire hhead)]
  rw [hdispatch]
  obtain ⟨hci, hcg⟩ := @deliver_copies h { h with wire := wire } e ch e' wire hwire rfl rfl
  have hne := investigationChannel_ne_global hinv
  have hclient : (h.clients.mapIdx fun i c =>
      if h.isTarget ch e' i c then c.enqueue (.event e') (isCritical e') else c)[k]? =
        some (if h.isTarget ch e' k c then c.enqueue (.event e') (isCritical e') else c) := by
    rw [List.getElem?_mapIdx, ht.client]
    rfl
  have hcopies : ∀ clients, { h with clients := clients, wire := wire }.investigationCopies e =
      { h with wire := wire }.investigationCopies e ∧
      { h with clients := clients, wire := wire }.globalCopies e =
      { h with wire := wire }.globalCopies e := fun clients => copies_congr rfl rfl
  -- the copy goes to the client exactly where it counted among the pending ones
  have hcounted : { h with wire := wire }.pending c e +
      (if h.isTarget ch e' k c ∧ e' = e then 1 else 0) = h.pending c e := by
    simp only [pending]
    by_cases he : e' = e
    · subst he
      rcases hw.routed _ hhead with hch | hch
      · obtain rfl : ch = investigationChannel e'.investigationId := hch
        simp only [isTarget_investigation hw hinv ht]
        by_cases hsub : e'.investigationId ∈ c.subscriptions <;> simp [hsub, hne] at hci hcg ⊢ <;>
          omega
      · obtain rfl : ch = globalChannel := hch
        simp only [isTarget_global ht]
        by_cases hsub : e'.investigationId ∈ c.subscriptions <;>
          simp [hsub, Ne.symm hne] at hci hcg ⊢ <;> omega
    · simp [he] at hci hcg ⊢
      simp [hci, hcg]
  refine ⟨_, hclient, ht.stream, ?_, ?_⟩
  · split_ifs
    · rw [enqueue_orgId, ht.org]
    · exact ht.org
  · by_cases htarget : h.isTarget ch e' k c = true
    · rw [if_pos htarget]
      intro hfits
      obtain ⟨hover, henq⟩ := enqueue_fits hfits
      have hbalanced := ht.balanced hover
      have hcount : (c.enqueued ++ [QueueItem.event e']).count (.event e) =
          c.enqueued.count (.event e) + (if e' = e then 1 else 0) := by
        simp [List.count_append, List.count_singleton]
      simp only [pending, enqueue_subscriptions, henq, hcopies, hcount, htarget, true_and] at *
      omega
    · rw [if_neg htarget]
      intro hover
      have hbalanced := ht.balanced hover
      simp only [pending, hcopies, htarget, Bool.false_eq_true, false_and, if_false] at *
      omega

theorem publish_copies {e' : EventEnvelope} (hpublishing : h'.publishing =
    h.publishing ++ [.investigationCopy e']) (hwire : h'.wire = h.wire) :
    h'.investigationCopies e = h.investigationCopies e + (if e' = e then 1 else 0) ∧
      h'.globalCopies e = h.globalCopies e + (if e' = e then 1 else 0) := by
  simp only [investigationCopies, globalCopies, hpublishing, hwire, List.count_append,
    List.count_singleton, beq_iff_eq, Publishing.investigationCopy.injEq, reduceCtorEq, if_false]
  omega

theorem tracked_step {ev : HubEvent} (hw : Wired restricted h) (hinv : e.investigationId ≠ "global")
    (ht : Tracked k e pub enq h c) (hstays : StaysConnected k h ev) (hsteady : Steady k h ev)
    (hstep : (hub restricted).step h ev = some h') : ∃ c', Tracked k e pub enq h' c' := by
  have hlt : k < h.clients.length := (List.getElem?_eq_some_iff.mp ht.client).1
  cases ev with
  | connect orgId investigationId =>
      cases hstep
      have hold : (h.clients ++ [(⟨orgId, [], [], [], false⟩ : ConnectedClient)])[k]? = some c := by
        rw [List.getElem?_append_left hlt]
        exact ht.client
      refine ⟨c, ht.same ?_ ?_ rfl rfl rfl rfl ?_ ?_⟩
      · cases investigationId with
        | none => exact hold
        | some inv =>
            refine (modify_slot hold).trans ?_
            rw [if_neg (by omega)]
      · cases investigationId with
        | none => exact List.mem_insert_of_mem ht.stream
        | some inv => exact ht.stream
      · cases investigationId <;> exact copies_congr rfl rfl
      · cases investigationId <;> rfl
  | disconnect client =>
      cases hstep
      have hne : client ≠ k := hstays
      simp only [WebSocketHub.disconnect]
      split
      · exact ⟨c, ht⟩
      · refine ⟨c, ht.same ht.client ?_ rfl rfl rfl rfl (copies_congr rfl rfl) rfl⟩
        simp [ht.stream, Ne.symm hne]
  | subscribe client inv =>
      simp only [hub] at hstep
      split at hstep <;> cases hstep
      have hclient := modify_slot (i := client) (f := fun c =>
        { c with subscriptions := c.subscriptions.insert inv }.enqueue (.subscribed inv) true) ht.client
      by_cases hik : client = k
      · rw [if_pos hik] at hclient
        refine ⟨_, ht.resubscribe (by simp) hclient ht.stream (copies_congr rfl rfl) rfl ?_⟩
        by_cases hsub : inv ∈ c.subscriptions
        · rw [List.insert_of_mem hsub]
          exact Or.inl Iff.rfl
        · have hsettled := hsteady hik c ht.client hsub
          by_cases heq : e.investigationId = inv
          · subst heq
            exact Or.inr (settled_copies hsettled ht.org)
          · left
            rw [List.mem_insert_iff]
            simp [heq]
      · rw [if_neg hik] at hclient
        exact ⟨c, ht.same hclient ht.stream rfl rfl rfl rfl (copies_congr rfl rfl) rfl⟩
  | unsubscribe client inv =>
      simp only [hub] at hstep
      split at hstep <;> cases hstep
      have hclient := modify_slot (i := client) (f := fun c =>
        { c with subscriptions := c.subscriptions.filter (· ≠ inv) }.enqueue (.unsubscribed inv) true)
        ht.client
      by_cases hik : client = k
      · rw [if_pos hik] at hclient
        refine ⟨_, ht.resubscribe (by simp) hclient ht.stream (copies_congr rfl rfl) rfl ?_⟩
        by_cases heq : e.investigationId = inv
        · by_cases hsub : inv ∈ c.subscriptions
          · have hsettled := hsteady hik c ht.client hsub
            subst heq
            exact Or.inr (settled_copies hsettled ht.org)
          · left
            simp [heq, hsub]
        · left
          simp [heq]
      · rw [if_neg hik] at hclient
        exact ⟨c, ht.same hclient ht.stream rfl rfl rfl rfl (copies_congr rfl rfl) rfl⟩
  | publish e' =>
      cases hstep
      simp only [WebSocketHub.publish]
      split
      · exact ⟨c, ht⟩
      · refine ⟨c, ht.client, ht.stream, ht.org, ?_⟩
        intro hover
        have hbalanced := ht.balanced hover
        obtain ⟨hci, hcg⟩ := @publish_copies h { h with
          publishing := h.publishing ++ [.investigationCopy e']
          published := h.published ++ [e'] } e e' rfl rfl
        have hpublished : (h.published ++ [e']).count e =
            h.published.count e + (if e' = e then 1 else 0) := by
          simp [List.count_append, List.count_singleton]
        simp only [pending, hci, hcg, hpublished] at hbalanced ⊢
        split_ifs at hbalanced ⊢ <;> omega
  | redisPublish call =>
      have hcopies := redisPublish_copies hinv hstep
      refine ⟨c, ht.same ?_ ?_ rfl rfl rfl rfl hcopies ?_⟩
      all_goals
        rcases redisPublish_cases hstep with ⟨e', _, rfl⟩ | ⟨e', _, rfl⟩
      · exact ht.client
      · exact ht.client
      · exact ht.stream
      · exact ht.stream
      · rfl
      · rfl
  | deliver => exact tracked_deliver hw hinv ht hstep
  | send client =>
      cases hstep
      have hclient := modify_slot (i := client) (f := fun c : ConnectedClient =>
        { c with queue := c.queue.tail }) ht.client
      refine ⟨_, ht.same hclient ht.stream ?_ ?_ ?_ ?_ (copies_congr rfl rfl) rfl⟩
      all_goals
        split_ifs <;> rfl

theorem published_step {ev : HubEvent} (hinv : e.investigationId = "global")
    (hsteady : Steady k h ev) (hstep : (hub restricted).step h ev = some h') :
    h'.published.count e = h.published.count e := by
  cases ev with
  | connect orgId investigationId =>
      cases hstep
      cases investigationId <;> rfl
  | disconnect client =>
      cases hstep
      simp only [WebSocketHub.disconnect]
      split <;> rfl
  | subscribe client inv =>
      simp only [hub] at hstep
      split at hstep <;> cases hstep
      rfl
  | unsubscribe client inv =>
      simp only [hub] at hstep
      split at hstep <;> cases hstep
      rfl
  | publish e' =>
      cases hstep
      have hne : e' ≠ e := by
        rintro rfl
        exact hsteady hinv
      simp only [WebSocketHub.publish]
      split
      · rfl
      · simp [List.count_append, hne]
  | redisPublish call =>
      rcases redisPublish_cases hstep with ⟨e', _, rfl⟩ | ⟨e', _, rfl⟩ <;> rfl
  | deliver =>
      obtain ⟨ch, e', wire, _, rfl⟩ := deliver_cases hstep
      simp only [WebSocketHub.dispatch]
      split <;> rfl
  | send client =>
      cases hstep
      rfl

end Tracked

instance (k : ℕ) (h : WebSocketHub) : ∀ ev, Decidable (StaysConnected k h ev)
  | .disconnect client => inferInstanceAs (Decidable (client ≠ k))
  | .connect _ _ | .subscribe _ _ | .unsubscribe _ _ | .publish _ | .redisPublish _ | .deliver
  | .send _ => isTrue trivial

instance (h : WebSocketHub) (orgId : Option String) (inv : String) : Decidable (h.Settled orgId inv) :=
  inferInstanceAs (Decidable (∀ e ∈ h.inFlight, _ → _ → _))

instance (k : ℕ) (h : WebSocketHub) : ∀ ev, Decidable (Steady k h ev)
  | .subscribe client inv => inferInstanceAs (Decidable (client = k → ∀ c ∈ h.clients[k]?,
      inv ∉ c.subscriptions → h.Settled c.orgId inv))
  | .unsubscribe client inv => inferInstanceAs (Decidable (client = k → ∀ c ∈ h.clients[k]?,
      inv ∈ c.subscriptions → h.Settled c.orgId inv))
  | .publish e => inferInstanceAs (Decidable (e.investigationId ≠ "global"))
  | .connect _ _ | .disconnect _ | .redisPublish _ | .deliver | .send _ => isTrue trivial

def thinking : EventEnvelope := ⟨.THINKING, "evt-1", "inv-1", some "org-1", "correlating logons"⟩

def analystStream : WebSocketHub := started.connect (some "org-1") none

-- The client subscribes after the investigation's copy went by and before the global one does.
def subscribedBetween : List HubEvent :=
  [.publish thinking, .redisPublish 0, .deliver, .subscribe 0 "inv-1", .redisPublish 0, .deliver]

theorem event_lost_between_copies : ¬ ∀ restricted before after h₀ h k,
    (hub restricted).run started before = some h₀ → k ∈ h₀.globalClients →
      (hub restricted).Along (StaysConnected k) h₀ after →
        (hub restricted).run h₀ after = some h → DeliveredOnce k h₀ h := by
  intro hclaim
  have hrun : ((hub fun _ => false).run analystStream subscribedBetween).any fun h =>
      decide (h.clients.map (fun c => (c.enqueued, c.overflowed)) =
        [([QueueItem.subscribed "inv-1"], false)] ∧ h.published = [thinking] ∧ h.inFlight = []) := by
    decide
  obtain ⟨h, hh, hstate⟩ := (Option.any_eq_true _ _).mp hrun
  obtain ⟨hclients, hpublished, hinFlight⟩ := of_decide_eq_true hstate
  obtain ⟨c, tail, hc, hitems, _⟩ := List.map_eq_cons_iff.mp hclients
  have honce := hclaim (fun _ => false) [.connect (some "org-1") none] subscribedBetween analystStream
    h 0 rfl (by decide) (by decide) hh
  have hcount := honce _ c rfl (by rw [hc]; rfl) (by rw [(Prod.mk.inj hitems).2]) thinking
    (by decide) (by rw [hpublished]; decide) (by decide)
    (by rw [hinFlight]; exact List.not_mem_nil)
  rw [(Prod.mk.inj hitems).1, hpublished] at hcount
  revert hcount
  decide

theorem events_delivered_once {before after : List HubEvent} {h₀ h : WebSocketHub} {k : ℕ}
    (hbefore : (hub restricted).run started before = some h₀) (hk : k ∈ h₀.globalClients)
    (hstays : (hub restricted).Along (StaysConnected k) h₀ after)
    (hsteady : (hub restricted).Along (Steady k) h₀ after)
    (hafter : (hub restricted).run h₀ after = some h) : DeliveredOnce k h₀ h := by
  have hw₀ : Wired restricted h₀ := (hub restricted).invariant_of_step wired_step started_wired hbefore
  have hguard := (hub restricted).along_and.mpr ⟨hstays, hsteady⟩
  intro c₀ c hc₀ hc hover e horg hnew hold hdone
  have hinv : e.investigationId ≠ "global" := by
    intro hglobal
    have hsame : h.published.count e = h₀.published.count e :=
      (hub restricted).invariant_along (I := fun s => s.published.count e = h₀.published.count e)
        (fun hs hg hstep => (published_step hglobal hg hstep).trans hs) rfl hsteady hafter
    omega
  have hinit : Tracked k e (h₀.published.count e) (c₀.enqueued.count (.event e)) h₀ c₀ := by
    refine ⟨hc₀, hk, horg, ?_⟩
    intro _
    rw [pending_eq_zero hold]
    omega
  obtain ⟨hw, c', ht⟩ : Wired restricted h ∧ ∃ c', Tracked k e (h₀.published.count e)
      (c₀.enqueued.count (.event e)) h c' := by
    refine (hub restricted).invariant_along (I := fun s => Wired restricted s ∧
      ∃ c', Tracked k e (h₀.published.count e) (c₀.enqueued.count (.event e)) s c') ?_
      ⟨hw₀, c₀, hinit⟩ hguard hafter
    rintro s ev s' ⟨hw, c', ht⟩ ⟨hst, hsd⟩ hstep
    exact ⟨wired_step hw hstep, tracked_step hw hinv ht hst hsd hstep⟩
  obtain rfl : c = c' := Option.some.inj (hc.symm.trans ht.client)
  have hbalanced := ht.balanced hover
  rw [pending_eq_zero hdone] at hbalanced
  omega

-- The client subscribes before anything is published and leaves once all of it has arrived.
def watchedInvestigation : List HubEvent :=
  [.subscribe 0 "inv-1", .publish thinking, .redisPublish 0, .deliver, .redisPublish 0, .deliver,
    .unsubscribe 0 "inv-1"]

theorem watchedInvestigation_delivered : ∃ h,
    (hub fun _ => false).run analystStream watchedInvestigation = some h ∧
      h.clients.map (fun c => c.enqueued.length) = [3] ∧ DeliveredOnce 0 analystStream h := by
  have hrun : ((hub fun _ => false).run analystStream watchedInvestigation).any fun h =>
      decide (h.clients.map (fun c => c.enqueued.length) = [3]) := by decide
  obtain ⟨h, hh, hitems⟩ := (Option.any_eq_true _ _).mp hrun
  have hconnected : (hub fun _ => false).run started [.connect (some "org-1") none] =
      some analystStream := rfl
  exact ⟨h, hh, of_decide_eq_true hitems, events_delivered_once hconnected (by decide)
    (by decide) (by decide) hh⟩

end WebSocketHub

end BTagent
