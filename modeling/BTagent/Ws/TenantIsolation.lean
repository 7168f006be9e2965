import BTagent.Ws.DeliversOnce

namespace BTagent

namespace WebSocketHub
open ConnectedClient

variable {restricted : EventEnvelope → Bool} {h h' : WebSocketHub} {c c' : ConnectedClient}
  {e : EventEnvelope} {i k : ℕ} {inv : String} {ev : HubEvent} {published : List EventEnvelope}
  {item : QueueItem} {critical : Bool} {ch : String}

-- An event without an organisation is for those who subscribed to its investigation.
structure Admissible (restricted : EventEnvelope → Bool) (published : List EventEnvelope)
    (c : ConnectedClient) (e : EventEnvelope) : Prop where
  published : e ∈ published
  released : shouldDropForTlp restricted e = false
  ours : ∀ orgId, c.orgId = some orgId →
    e.orgId = some orgId ∨ (e.orgId = none ∧ .subscribed e.investigationId ∈ c.enqueued)

structure Served (restricted : EventEnvelope → Bool) (published : List EventEnvelope)
    (c : ConnectedClient) : Prop where
  admissible : ∀ e, .event e ∈ c.enqueued → Admissible restricted published c e
  queued : ∀ item ∈ c.queue, item ∈ c.enqueued

structure Isolated (restricted : EventEnvelope → Bool) (h : WebSocketHub) : Prop where
  served : ∀ c ∈ h.clients, Served restricted h.published c
  subscribed : ∀ ch i c, i ∈ h.investigationClients ch → h.clients[i]? = some c →
    ∃ inv, ch = investigationChannel inv ∧ .subscribed inv ∈ c.enqueued
  announced : ∀ e ∈ h.inFlight, e ∈ h.published

section Client

theorem enqueued_enqueue (c : ConnectedClient) (item : QueueItem) (critical : Bool) :
    (c.enqueue item critical).enqueued = c.enqueued ∨
      (c.enqueue item critical).enqueued = c.enqueued ++ [item] := by
  simp only [ConnectedClient.enqueue]
  split_ifs
  · exact Or.inr rfl
  · exact Or.inr rfl
  · exact Or.inl rfl

theorem enqueued_mono {other : QueueItem} (hmem : other ∈ c.enqueued) :
    other ∈ (c.enqueue item critical).enqueued := by
  rcases enqueued_enqueue c item critical with heq | heq
  · rwa [heq]
  · rw [heq]
    exact List.mem_append_left _ hmem

theorem enqueued_acknowledged : item ∈ (c.enqueue item true).enqueued := by
  simp only [ConnectedClient.enqueue]
  split_ifs <;> exact List.mem_append_right _ (List.mem_singleton_self _)

theorem queued_enqueue (hqueued : ∀ other ∈ c.queue, other ∈ c.enqueued) :
    ∀ other ∈ (c.enqueue item critical).queue, other ∈ (c.enqueue item critical).enqueued := by
  simp only [ConnectedClient.enqueue]
  split_ifs
  · intro other hother
    rcases List.mem_append.mp hother with hold | hnew
    · exact List.mem_append_left _ (hqueued other hold)
    · exact List.mem_append_right _ hnew
  · dsimp only
    intro other hother
    have hkept := List.mem_of_mem_drop hother
    rcases List.mem_append.mp hkept with hold | hnew
    · exact List.mem_append_left _ (hqueued other (List.mem_filter.mp hold).1)
    · exact List.mem_append_right _ hnew
  · exact hqueued

theorem Admissible.mono {published' : List EventEnvelope} (ha : Admissible restricted published c e)
    (hpublished : ∀ e ∈ published, e ∈ published') (horg : c'.orgId = c.orgId)
    (henqueued : ∀ item ∈ c.enqueued, item ∈ c'.enqueued) :
    Admissible restricted published' c' e := by
  refine ⟨hpublished e ha.published, ha.released, ?_⟩
  intro orgId hours
  rcases ha.ours orgId (horg ▸ hours) with hsame | ⟨hnone, hack⟩
  · exact Or.inl hsame
  · exact Or.inr ⟨hnone, henqueued _ hack⟩

theorem Served.enqueue (hc : Served restricted published c)
    (hitem : ∀ e, item = .event e → Admissible restricted published c e) :
    Served restricted published (c.enqueue item critical) := by
  refine ⟨?_, queued_enqueue hc.queued⟩
  intro e he
  have hbefore : Admissible restricted published c e := by
    rcases enqueued_enqueue c item critical with heq | heq
    · rw [heq] at he
      exact hc.admissible e he
    · rw [heq] at he
      rcases List.mem_append.mp he with hold | hnew
      · exact hc.admissible e hold
      · exact hitem e (List.mem_singleton.mp hnew).symm
  exact hbefore.mono (fun _ he => he) enqueue_orgId fun _ hmem => enqueued_mono hmem

-- Subscriptions are no part of what the client is served.
theorem Served.same (hc : Served restricted published c) (horg : c'.orgId = c.orgId)
    (hqueue : ∀ item ∈ c'.queue, item ∈ c.queue) (henqueued : c'.enqueued = c.enqueued) :
    Served restricted published c' := by
  refine ⟨?_, ?_⟩
  · intro e he
    rw [henqueued] at he
    refine (hc.admissible e he).mono (fun _ he => he) horg ?_
    rw [henqueued]
    exact fun _ hmem => hmem
  · intro item hitem
    rw [henqueued]
    exact hc.queued item (hqueue item hitem)

end Client

section Steps

theorem mem_modify {clients : List ConnectedClient} {f : ConnectedClient → ConnectedClient}
    {P : ConnectedClient → Prop} (hall : ∀ c ∈ clients, P c) (hf : ∀ c ∈ clients, P (f c)) :
    ∀ c ∈ clients.modify i f, P c := by
  intro c hc
  obtain ⟨k, hk⟩ := List.mem_iff_getElem?.mp hc
  rw [List.getElem?_modify] at hk
  obtain ⟨d, hd, rfl⟩ := Option.map_eq_some_iff.mp hk
  have hmem := List.mem_of_getElem? hd
  split_ifs
  · exact hf d hmem
  · exact hall d hmem

-- A step that changes one client, and takes clients off the investigations' lists at most.
theorem Isolated.modify (hi : Isolated restricted h) (f : ConnectedClient → ConnectedClient)
    (investigationClients : String → List ℕ)
    (hf : ∀ c ∈ h.clients, Served restricted h.published (f c))
    (hkeep : ∀ c, ∀ item ∈ c.enqueued, item ∈ (f c).enqueued)
    (hsub : ∀ ch, ∀ i ∈ investigationClients ch, i ∈ h.investigationClients ch) :
    Isolated restricted { h with
      investigationClients := investigationClients, clients := h.clients.modify k f } := by
  refine ⟨mem_modify hi.served hf, ?_, hi.announced⟩
  intro ch i c hmem hc
  rw [List.getElem?_modify] at hc
  obtain ⟨d, hd, rfl⟩ := Option.map_eq_some_iff.mp hc
  obtain ⟨inv, hch, hack⟩ := hi.subscribed ch i d (hsub ch i hmem) hd
  refine ⟨inv, hch, ?_⟩
  split_ifs
  · exact hkeep d _ hack
  · exact hack

theorem Isolated.subscribe (hi : Isolated restricted h) :
    Isolated restricted (h.subscribe i inv) := by
  refine ⟨?_, ?_, hi.announced⟩
  · apply mem_modify hi.served
    intro c hc
    have hsame : Served restricted h.published
        { c with subscriptions := c.subscriptions.insert inv } :=
      (hi.served c hc).same rfl (fun _ hitem => hitem) rfl
    exact hsame.enqueue fun e heq => by cases heq
  · intro ch j c hmem hc
    simp only [WebSocketHub.subscribe] at hmem hc
    rw [List.getElem?_modify] at hc
    obtain ⟨d, hd, rfl⟩ := Option.map_eq_some_iff.mp hc
    have hold : j ∈ h.investigationClients ch → ∃ inv', ch = investigationChannel inv' ∧
        .subscribed inv' ∈ (if i = j then ConnectedClient.enqueue
          { d with subscriptions := d.subscriptions.insert inv } (.subscribed inv) true
            else d).enqueued := by
      intro hj
      obtain ⟨inv', hch, hack⟩ := hi.subscribed ch j d hj hd
      refine ⟨inv', hch, ?_⟩
      split_ifs
      · exact enqueued_mono hack
      · exact hack
    rcases eq_or_ne ch (investigationChannel inv) with rfl | hne
    · rw [Function.update_self, List.mem_insert_iff] at hmem
      rcases hmem with rfl | hmem
      · refine ⟨inv, rfl, ?_⟩
        rw [if_pos rfl]
        exact enqueued_acknowledged
      · exact hold hmem
    · rw [Function.update_of_ne hne] at hmem
      exact hold hmem

theorem mem_discard {channels : List String} (hmem : k ∈ h.discard i channels ch) :
    k ∈ h.investigationClients ch := by
  rw [discard] at hmem
  split at hmem
  · exact (List.mem_filter.mp hmem).1
  · exact hmem

theorem Isolated.connect (hw : Wired restricted h) (hi : Isolated restricted h)
    {orgId investigationId : Option String} :
    Isolated restricted (h.connect orgId investigationId) := by
  have hadded : Isolated restricted
      { h with clients := h.clients ++ [⟨orgId, [], [], [], false⟩] } := by
    refine ⟨?_, ?_, hi.announced⟩
    · intro c hc
      rcases List.mem_append.mp hc with hold | hnew
      · exact hi.served c hold
      · rw [List.mem_singleton.mp hnew]
        exact ⟨fun _ he => absurd he List.not_mem_nil, fun _ hitem => absurd hitem List.not_mem_nil⟩
    · intro ch j c hmem hc
      rw [List.getElem?_append_left (hw.known ch j hmem)] at hc
      exact hi.subscribed ch j c hmem hc
  cases investigationId with
  | some inv => exact hadded.subscribe
  | none => exact ⟨hadded.served, hadded.subscribed, hadded.announced⟩

theorem Isolated.publish (hi : Isolated restricted h) :
    Isolated restricted (h.publish restricted e) := by
  simp only [WebSocketHub.publish]
  split
  · exact hi
  · refine ⟨?_, hi.subscribed, ?_⟩
    · intro c hc
      refine ⟨fun e' he' => ?_, (hi.served c hc).queued⟩
      exact ((hi.served c hc).admissible e' he').mono (fun _ hmem => List.mem_append_left _ hmem) rfl
        fun _ hmem => hmem
    · intro e' he'
      simp only [inFlight, List.filterMap_append, List.mem_append] at he'
      rcases he' with (hold | hnew) | hwire
      · exact List.mem_append_left _ (hi.announced e' (List.mem_append_left _ hold))
      · obtain rfl : e' = e := by simpa [Publishing.event?] using hnew
        exact List.mem_append_right _ (List.mem_singleton_self _)
      · exact List.mem_append_left _ (hi.announced e' (List.mem_append_right _ hwire))

theorem Isolated.sendCopy (hi : Isolated restricted h) {p p' : Publishing}
    (hp : h.publishing[i]? = some p) (he : p.event? = some e)
    (hp' : ∀ e', p'.event? = some e' → e' = e) :
    Isolated restricted
      { h with wire := h.wire ++ [(ch, e)], publishing := h.publishing.set i p' } := by
  have hown : e ∈ h.published :=
    hi.announced e (inFlight_mem_publishing (List.mem_of_getElem? hp) he)
  refine ⟨hi.served, hi.subscribed, ?_⟩
  intro e' he'
  rcases List.mem_append.mp he' with hpub | hwire
  · obtain ⟨q, hq, heq⟩ := List.mem_filterMap.mp hpub
    rcases List.mem_or_eq_of_mem_set hq with hq | rfl
    · exact hi.announced e' (inFlight_mem_publishing hq heq)
    · rw [hp' e' heq]
      exact hown
  · rw [List.map_append, List.mem_append] at hwire
    rcases hwire with hwire | hwire
    · exact hi.announced e' (List.mem_append_right _ hwire)
    · rw [List.mem_singleton.mp hwire]
      exact hown

theorem Isolated.redisPublish (hi : Isolated restricted h)
    (hstep : h.redisPublish i = some h') : Isolated restricted h' := by
  rcases redisPublish_cases hstep with ⟨e, hp, rfl⟩ | ⟨e, hp, rfl⟩
  · apply hi.sendCopy hp rfl
    rintro e' ⟨⟩
    rfl
  · apply hi.sendCopy hp rfl
    rintro e' ⟨⟩

-- The event that comes in on a channel is one for every client it is put into the queue of.
theorem Isolated.target (hw : Wired restricted h) (hi : Isolated restricted h)
    (hwire : (ch, e) ∈ h.wire) (hc : h.clients[k]? = some c)
    (htarget : h.isTarget ch e k c = true) : Admissible restricted h.published c e := by
  have hflight : e ∈ h.inFlight := inFlight_mem_wire hwire
  refine ⟨hi.announced e hflight, hw.passed e hflight, ?_⟩
  intro orgId horg
  simp only [isTarget] at htarget
  split at htarget
  · obtain ⟨-, -, hpass⟩ := of_decide_eq_true htarget
    left
    simp only [passesOrgFilter, horg] at hpass
    split at hpass <;> simp_all
  · next hglobal =>
      obtain ⟨hmem, hpass⟩ := of_decide_eq_true htarget
      rcases horgs : e.orgId with _ | eventOrgId
      · right
        refine ⟨rfl, ?_⟩
        have hch : ch = investigationChannel e.investigationId :=
          (hw.routed _ hwire).resolve_right hglobal
        obtain ⟨inv, hch', hack⟩ := hi.subscribed ch k c hmem hc
        rw [hch, investigationChannel_inj] at hch'
        rwa [hch']
      · left
        simp only [passesOrgFilter, horgs, horg] at hpass
        rw [of_decide_eq_true hpass]

theorem Isolated.deliver (hw : Wired restricted h) (hi : Isolated restricted h)
    (hstep : h.deliver restricted = some h') : Isolated restricted h' := by
  obtain ⟨ch, e, wire, hwire, rfl⟩ := deliver_cases hstep
  have hhead : (ch, e) ∈ h.wire := hwire ▸ List.mem_cons_self
  have htail : ∀ m ∈ wire, m ∈ h.wire := fun m hm => hwire ▸ List.mem_cons_of_mem _ hm
  have hannounced : ∀ e' ∈ h.publishing.filterMap Publishing.event? ++ wire.map Prod.snd,
      e' ∈ h.published := by
    intro e' he'
    rcases List.mem_append.mp he' with hpub | hwire
    · exact hi.announced e' (List.mem_append_left _ hpub)
    · obtain ⟨m, hm, rfl⟩ := List.mem_map.mp hwire
      exact hi.announced m.2 (List.mem_append_right _ (List.mem_map_of_mem (htail m hm)))
  rw [WebSocketHub.dispatch]
  split
  · exact ⟨hi.served, hi.subscribed, hannounced⟩
  · refine ⟨?_, ?_, hannounced⟩
    · intro c hc
      obtain ⟨k, hk⟩ := List.mem_iff_getElem?.mp hc
      rw [List.getElem?_mapIdx] at hk
      obtain ⟨d, hd, rfl⟩ := Option.map_eq_some_iff.mp hk
      have hserved := hi.served d (List.mem_of_getElem? hd)
      split_ifs with htarget
      · refine hserved.enqueue ?_
        rintro e' ⟨⟩
        exact hi.target hw hhead hd htarget
      · exact hserved
    · intro ch' k c hmem hc
      rw [List.getElem?_mapIdx] at hc
      obtain ⟨d, hd, rfl⟩ := Option.map_eq_some_iff.mp hc
      obtain ⟨inv, hch, hack⟩ := hi.subscribed ch' k d hmem hd
      refine ⟨inv, hch, ?_⟩
      split_ifs
      · exact enqueued_mono hack
      · exact hack

theorem isolated_step (hw : Wired restricted h) (hi : Isolated restricted h)
    (hstep : (hub restricted).step h ev = some h') : Isolated restricted h' := by
  cases ev with
  | connect orgId investigationId =>
      cases hstep
      exact hi.connect hw
  | disconnect client =>
      cases hstep
      simp only [WebSocketHub.disconnect]
      split
      · exact hi
      · exact ⟨hi.served, fun ch j c hmem hc => hi.subscribed ch j c (mem_discard hmem) hc,
          hi.announced⟩
  | subscribe client inv =>
      simp only [hub] at hstep
      split at hstep <;> cases hstep
      exact hi.subscribe
  | unsubscribe client inv =>
      simp only [hub] at hstep
      split at hstep <;> cases hstep
      refine hi.modify (fun c => { c with subscriptions := c.subscriptions.filter (· ≠ inv) }.enqueue
        (.unsubscribed inv) true) (h.discard client [investigationChannel inv]) ?_
          (fun c _ hitem => enqueued_mono
            (c := { c with subscriptions := c.subscriptions.filter (· ≠ inv) }) hitem)
          fun ch j hmem => mem_discard hmem
      intro c hc
      have hsame : Served restricted h.published
          { c with subscriptions := c.subscriptions.filter (· ≠ inv) } :=
        (hi.served c hc).same rfl (fun _ hitem => hitem) rfl
      exact hsame.enqueue fun e heq => by cases heq
  | publish e =>
      cases hstep
      exact hi.publish
  | redisPublish call => exact hi.redisPublish hstep
  | deliver => exact hi.deliver hw hstep
  | send client =>
      cases hstep
      refine hi.modify (fun c => { c with queue := c.queue.tail }) h.investigationClients ?_
        (fun _ _ hitem => hitem) fun _ _ hmem => hmem
      intro c hc
      exact (hi.served c hc).same rfl (fun _ hitem => List.mem_of_mem_tail hitem) rfl

theorem started_isolated : Isolated restricted started := by
  refine ⟨?_, ?_, ?_⟩
  · intro c hc
    cases hc
  · intro ch i c hmem
    cases hmem
  · intro e he
    cases he

end Steps

end WebSocketHub

end BTagent
