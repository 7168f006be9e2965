import BTagent.Context.Cascade

namespace BTagent

namespace Cascade

def tagged (messages : List Dict) : List Message := messages.mapIdx fun i d => ⟨some i, d⟩

def origins (messages : List Message) : List ℕ := messages.filterMap Message.origin

-- The dict of an input message, or a copy whose content was replaced.
def CopyOf (d : Dict) (m : Message) : Prop :=
  m.fields = d ∨
    (Message.isTool ⟨none, d⟩ = true ∧ ∃ text, m.fields = d.set "content" (.str text))

structure Sound (P : Python) (modelFamily : String) (input : List Dict)
    (result : List Message) : Prop where
  notLarger : ∀ before ∈ estimateMessageTokens P modelFamily (tagged input),
    ∀ after ∈ estimateMessageTokens P modelFamily result, after ≤ before
  once : (origins result).Nodup
  ordered : (origins result).Pairwise (· ≤ ·)
  copied : ∀ m ∈ result, ∀ i ∈ m.origin, ∃ d, input[i]? = some d ∧ CopyOf d m
  leading : ∀ d ∈ input.head?, d.get? "role" = some (.str "system") → 0 ∈ origins result
  tail : ∀ i < input.length, input.length - min 3 input.length ≤ i → i ∈ origins result

variable (P : Python)

def externalized (m : Message) : Message :=
  if large EXTERNALIZE_THRESHOLD m then
    let payload := stringify m.content
    let hash := sha256 payload.toByteArray
    m.withContent (referenceText payload.utf8ByteSize ("artifact:" ++ (hash.take 16).toString) hash)
  else m

def rewritten (m : Message) : Message := compressMessage P (externalized m)

section Account
variable (ratio : ℕ)

def cost (m : Message) : ℕ := (messageTokens P ratio m).getD 0

def spent (messages : List Message) : ℕ := (messages.map (cost P ratio)).sum

-- What the first two layers add to the messages that get longer, and take from the others.
def growth (messages : List Message) : ℕ :=
  (messages.map fun m => cost P ratio (rewritten P m) - cost P ratio m).sum

def saving (messages : List Message) : ℕ :=
  (messages.map fun m => cost P ratio m - cost P ratio (rewritten P m)).sum

def Pays (new : List Message) (kept dropped : List Message) : Prop :=
  spent P ratio new + growth P ratio kept ≤ saving P ratio kept + spent P ratio dropped

instance (new kept dropped : List Message) : Decidable (Pays P ratio new kept dropped) :=
  inferInstanceAs (Decidable (_ ≤ _))

def PrunePays (messages : List Message) : Prop :=
  let n := messages.length
  if n ≤ 5 then Pays P ratio [] messages []
  else Pays P ratio [Message.system (markerText (n - 5))]
    (messages.take 2 ++ lastMessages messages) ((messages.drop 2).take (n - 5))

instance (messages : List Message) : Decidable (PrunePays P ratio messages) := by
  unfold PrunePays
  infer_instance

def SummaryPays (summary : String) (messages : List Message) : Prop :=
  Pays P ratio [summaryMessage summary] (leadingSystem messages ++ lastMessages messages)
    ((messages.take (messages.length - 3)).drop (leadingSystem messages).length)

instance (summary : String) (messages : List Message) :
    Decidable (SummaryPays P ratio summary messages) := inferInstanceAs (Decidable (Pays ..))

end Account

section Conditions
variable (maxTokens : ℤ) (modelFamily : String)

def Fits (messages : List Message) : Prop :=
  ∃ est ∈ estimateMessageTokens P modelFamily messages, (est : ℤ) ≤ maxTokens

-- Some layer meets the budget; or what the last one leaves out pays for what was added, and it is
-- no summary of at most three messages with a leading system message.
def Settles (summarizer : Option Summarizer) (messages : List Message) : Prop :=
  Fits P maxTokens modelFamily messages ∨
  Fits P maxTokens modelFamily (messages.map externalized) ∨
  Fits P maxTokens modelFamily (messages.map (rewritten P)) ∨
  Fits P maxTokens modelFamily (layer2Prune (messages.map (rewritten P))) ∨
  match summarizer with
  | none => PrunePays P (resolveRatio P modelFamily) messages
  | some f => (leadingSystem messages = [] ∨ 3 < messages.length) ∧
      ∀ summary ∈ f (summaryPrefix (layer2Prune (messages.map (rewritten P)))),
        SummaryPays P (resolveRatio P modelFamily) summary messages

end Conditions

section Copies
variable {P}

def Copies (f : Message → Message) : Prop :=
  ∀ m, (f m).origin = m.origin ∧ CopyOf m.fields (f m)

theorem copies_id : Copies id := fun _ => ⟨rfl, .inl rfl⟩

theorem copies_externalized : Copies externalized := by
  intro m
  rw [externalized]
  split
  · rename_i hlarge
    rw [large, Bool.and_eq_true] at hlarge
    exact ⟨rfl, .inr ⟨hlarge.1, _, rfl⟩⟩
  · exact ⟨rfl, .inl rfl⟩

theorem copies_compress : Copies (compressMessage P) := by
  intro m
  rw [compressMessage]
  split
  · rename_i hlarge
    rw [large, Bool.and_eq_true] at hlarge
    exact ⟨rfl, .inr ⟨hlarge.1, _, rfl⟩⟩
  · exact ⟨rfl, .inl rfl⟩

theorem Copies.comp {f g : Message → Message} (hf : Copies f) (hg : Copies g) :
    Copies (g ∘ f) := by
  intro m
  obtain ⟨hforigin, hfcopy⟩ := hf m
  obtain ⟨hgorigin, hgcopy⟩ := hg (f m)
  refine ⟨hgorigin.trans hforigin, ?_⟩
  rcases hfcopy with hsame | ⟨htool, text, htext⟩
  · rw [CopyOf, Function.comp_apply, ← hsame]
    exact hgcopy
  · rcases hgcopy with hsame | ⟨-, text', htext'⟩
    · exact .inr ⟨htool, text, hsame.trans htext⟩
    · refine .inr ⟨htool, text', ?_⟩
      rw [Function.comp_apply, htext', htext, OrderedDict.set_set]

theorem copies_rewritten : Copies (rewritten P) := copies_externalized.comp copies_compress

theorem Copies.isSystem {f : Message → Message} (hf : Copies f) (m : Message) :
    (f m).isSystem = m.isSystem := by
  rcases (hf m).2 with hsame | ⟨-, text, htext⟩
  · rw [Message.isSystem, hsame]
    rfl
  · rw [Message.isSystem, htext, OrderedDict.get?_set_ne _ _ (by decide)]
    rfl

theorem Copies.leadingSystem {f : Message → Message} (hf : Copies f) (ms : List Message) :
    leadingSystem (ms.map f) = (leadingSystem ms).map f := by
  cases ms with
  | nil => rfl
  | cons m ms =>
      rw [List.map_cons, Cascade.leadingSystem, Cascade.leadingSystem, hf.isSystem]
      split <;> rfl

theorem layer0_eq {ms out : List Message} {artifacts : List ArtifactRef}
    (h : layer0Externalize ms = some (out, artifacts)) : out = ms.map externalized := by
  induction ms generalizing out artifacts with
  | nil =>
      cases h
      rfl
  | cons m ms ih =>
      rw [layer0Externalize] at h
      split at h
      · rename_i hlarge
        simp only [Option.bind_eq_bind, Option.bind_eq_some_iff] at h
        obtain ⟨artifact, hartifact, ⟨rest, others⟩, hrest, hout⟩ := h
        cases hout
        rw [List.map_cons, ih hrest, externalized, if_pos hlarge]
        simp only [makeArtifactRef] at hartifact
        split at hartifact
        · cases hartifact
          rfl
        · cases hartifact
      · rename_i hsmall
        simp only [Option.bind_eq_bind, Option.bind_eq_some_iff] at h
        obtain ⟨⟨rest, others⟩, hrest, hout⟩ := h
        cases hout
        rw [List.map_cons, ih hrest, externalized, if_neg hsmall]

end Copies

section Origins
variable {ms : List Message} {xs : List ℕ}

theorem origins_append (ms ms' : List Message) :
    origins (ms ++ ms') = origins ms ++ origins ms' := List.filterMap_append

theorem origins_eq (h : ms.map Message.origin = xs.map some) : origins ms = xs := by
  induction xs generalizing ms with
  | nil =>
      rw [List.map_nil, List.map_eq_nil_iff] at h
      rw [h]
      rfl
  | cons x xs ih =>
      cases ms with
      | nil => cases h
      | cons m ms =>
          simp only [List.map_cons, List.cons.injEq] at h
          rw [origins, List.filterMap_cons_some h.1]
          exact congrArg _ (ih h.2)

theorem tagged_length (input : List Dict) : (tagged input).length = input.length :=
  List.length_mapIdx

theorem origin_tagged (input : List Dict) :
    (tagged input).map Message.origin = (List.range input.length).map some := by
  apply List.ext_getElem
  · simp [tagged]
  · intro i _ _
    simp [tagged]

variable {f : Message → Message} {input : List Dict}

theorem origin_map (hf : Copies f) (input : List Dict) :
    ((tagged input).map f).map Message.origin = (List.range input.length).map some := by
  rw [← origin_tagged, List.map_map]
  apply List.map_congr_left
  intro m _
  exact (hf m).1

theorem origins_map (hf : Copies f) (input : List Dict) :
    origins ((tagged input).map f) = List.range input.length := origins_eq (origin_map hf input)

theorem origins_take (hf : Copies f) (input : List Dict) (k : ℕ) :
    origins (((tagged input).map f).take k) = List.range (min k input.length) := by
  apply origins_eq
  rw [List.map_take, origin_map hf, ← List.map_take, List.take_range]

theorem origins_drop (hf : Copies f) (input : List Dict) (k : ℕ) :
    origins (((tagged input).map f).drop k) = List.range' k (input.length - k) := by
  apply origins_eq
  rw [List.map_drop, origin_map hf, ← List.map_drop, List.range_eq_range', List.drop_range']
  simp

theorem copied_map (hf : Copies f) {m : Message} (hm : m ∈ (tagged input).map f) :
    ∀ i ∈ m.origin, ∃ d, input[i]? = some d ∧ CopyOf d m := by
  intro i hi
  obtain ⟨a, ha, rfl⟩ := List.mem_map.mp hm
  obtain ⟨horigin, hcopy⟩ := hf a
  rw [horigin] at hi
  obtain ⟨j, hj, rfl⟩ := List.mem_mapIdx.mp ha
  obtain rfl := Option.some.inj hi
  exact ⟨_, List.getElem?_eq_getElem hj, hcopy⟩

end Origins

section Estimate
variable {P} {ratio : ℕ} {ms : List Message}

theorem spent_of_mapM {costs : List ℕ} (h : ms.mapM (messageTokens P ratio) = some costs) :
    spent P ratio ms = costs.sum := by
  induction ms generalizing costs with
  | nil =>
      rw [List.mapM_nil] at h
      cases h
      rfl
  | cons m ms ih =>
      simp only [List.mapM_cons, Option.bind_eq_bind, Option.bind_eq_some_iff] at h
      obtain ⟨tokens, htokens, rest, hrest, hcosts⟩ := h
      cases hcosts
      rw [spent, List.map_cons, List.sum_cons, cost, htokens, List.sum_cons, ← ih hrest]
      rfl

theorem estimate_eq {modelFamily : String} {est : ℕ}
    (h : est ∈ estimateMessageTokens P modelFamily ms) :
    est = spent P (resolveRatio P modelFamily) ms := by
  obtain ⟨costs, hcosts, rfl⟩ := Option.map_eq_some_iff.mp h
  exact (spent_of_mapM hcosts).symm

theorem spent_append (ms ms' : List Message) :
    spent P ratio (ms ++ ms') = spent P ratio ms + spent P ratio ms' := by
  rw [spent, List.map_append, List.sum_append]
  rfl

theorem spent_rewritten (ms : List Message) :
    spent P ratio (ms.map (rewritten P)) + saving P ratio ms =
      spent P ratio ms + growth P ratio ms := by
  induction ms with
  | nil => rfl
  | cons m ms ih =>
      simp only [spent, saving, growth, List.map_cons, List.sum_cons] at ih ⊢
      omega

theorem pays_iff {new kept dropped : List Message}
    (hspent : spent P ratio ms = spent P ratio kept + spent P ratio dropped) :
    spent P ratio (kept.map (rewritten P)) + spent P ratio new ≤ spent P ratio ms ↔
      Pays P ratio new kept dropped := by
  have hbalance : spent P ratio (kept.map (rewritten P)) + saving P ratio kept =
      spent P ratio kept + growth P ratio kept := spent_rewritten kept
  rw [Pays]
  omega

theorem layer2Prune_short (h : ms.length ≤ 5) : layer2Prune ms = ms := if_pos h

theorem layer2Prune_long (h : ¬ ms.length ≤ 5) :
    layer2Prune ms = ms.take 2 ++ [Message.system (markerText (ms.length - 5))] ++
      lastMessages ms := if_neg h

theorem lastMessages_map (f : Message → Message) (ms : List Message) :
    lastMessages (ms.map f) = (lastMessages ms).map f := by
  rw [lastMessages, lastMessages, List.length_map, List.map_drop]

theorem prunePays_iff (ms : List Message) :
    spent P ratio (layer2Prune (ms.map (rewritten P))) ≤ spent P ratio ms ↔
      PrunePays P ratio ms := by
  simp only [PrunePays]
  split
  · rename_i hshort
    have hspent : spent P ratio ms = spent P ratio ms + spent P ratio [] := rfl
    rw [layer2Prune_short (by rwa [List.length_map]), ← pays_iff hspent]
    exact Iff.rfl
  · rename_i hlong
    have htail : lastMessages ms = (ms.drop 2).drop (ms.length - 5) := by
      rw [lastMessages, List.drop_drop, PRUNE_KEEP_LAST]
      congr 1
      omega
    have hsplit : ms = ms.take 2 ++ ((ms.drop 2).take (ms.length - 5) ++ lastMessages ms) := by
      rw [htail, List.take_append_drop, List.take_append_drop]
    have hspent : spent P ratio ms = spent P ratio (ms.take 2 ++ lastMessages ms) +
        spent P ratio ((ms.drop 2).take (ms.length - 5)) := by
      conv_lhs => rw [hsplit]
      simp only [spent_append]
      omega
    rw [← pays_iff hspent, layer2Prune_long (by rwa [List.length_map]), List.length_map,
      lastMessages_map, ← List.map_take, List.map_append]
    simp only [spent_append]
    constructor <;> intro h <;> omega

theorem leadingSystem_prune (ms : List Message) :
    leadingSystem (layer2Prune ms) = leadingSystem ms := by
  rcases em (ms.length ≤ 5) with hshort | hlong
  · rw [layer2Prune_short hshort]
  · rw [layer2Prune_long hlong]
    match ms with
    | [] => exact absurd (Nat.zero_le 5) hlong
    | [_] => rfl
    | _ :: _ :: _ => rfl

theorem lastMessages_length (h : ¬ ms.length ≤ 5) : (lastMessages ms).length = 3 := by
  rw [lastMessages, List.length_drop, PRUNE_KEEP_LAST]
  omega

theorem lastMessages_prune (ms : List Message) :
    lastMessages (layer2Prune ms) = lastMessages ms := by
  rcases em (ms.length ≤ 5) with hshort | hlong
  · rw [layer2Prune_short hshort]
  · have hlast := lastMessages_length hlong
    have htake : (ms.take 2).length = 2 := by
      rw [List.length_take]
      omega
    rw [layer2Prune_long hlong, lastMessages, List.length_append, List.length_append, htake, hlast]
    apply List.drop_left'
    rw [List.length_append, htake]
    rfl

theorem summaryPays_iff (hlong : leadingSystem ms = [] ∨ 3 < ms.length) (summary : String) :
    spent P ratio (layer3Inject (layer2Prune (ms.map (rewritten P))) summary) ≤
      spent P ratio ms ↔ SummaryPays P ratio summary ms := by
  have hsplit : leadingSystem ms ++ (ms.take (ms.length - 3)).drop (leadingSystem ms).length =
      ms.take (ms.length - 3) := by
    cases ms with
    | nil => rfl
    | cons m rest =>
        rw [leadingSystem] at hlong ⊢
        split
        · rename_i hsystem
          rw [if_pos hsystem] at hlong
          have hlen := hlong.resolve_left (by simp)
          obtain ⟨k, hk⟩ := Nat.exists_eq_add_of_lt hlen
          rw [hk, show 3 + k + 1 - 3 = k + 1 by omega, List.take_succ_cons]
          rfl
        · rfl
  have hspent : spent P ratio ms = spent P ratio (leadingSystem ms ++ lastMessages ms) +
      spent P ratio ((ms.take (ms.length - 3)).drop (leadingSystem ms).length) := by
    have hall : spent P ratio ms =
        spent P ratio (ms.take (ms.length - 3)) + spent P ratio (lastMessages ms) := by
      rw [← spent_append, lastMessages, PRUNE_KEEP_LAST, List.take_append_drop]
    rw [hall, ← hsplit, spent_append, spent_append, hsplit]
    omega
  rw [SummaryPays, ← pays_iff hspent, layer3Inject, leadingSystem_prune, lastMessages_prune,
    copies_rewritten.leadingSystem, lastMessages_map, List.map_append]
  simp only [spent_append]
  constructor <;> intro h <;> omega

end Estimate

section Structure
variable {P} {input : List Dict} {f : Message → Message} {result : List Message}

-- What is claimed of the places of a list, apart from its cost.
structure InPlace (input : List Dict) (result : List Message) : Prop where
  increasing : (origins result).Pairwise (· < ·)
  copied : ∀ m ∈ result, ∀ i ∈ m.origin, ∃ d, input[i]? = some d ∧ CopyOf d m
  leading : ∀ d ∈ input.head?, d.get? "role" = some (.str "system") → 0 ∈ origins result
  tail : ∀ i < input.length, input.length - min 3 input.length ≤ i → i ∈ origins result

theorem InPlace.sound (h : InPlace input result) {modelFamily : String}
    (hcost : ∀ before ∈ estimateMessageTokens P modelFamily (tagged input),
      ∀ after ∈ estimateMessageTokens P modelFamily result, after ≤ before) :
    Sound P modelFamily input result where
  notLarger := hcost
  once := h.increasing.imp fun hlt => Nat.ne_of_lt hlt
  ordered := h.increasing.imp Nat.le_of_lt
  copied := h.copied
  leading := h.leading
  tail := h.tail

theorem leading_pos {d : Dict} (h : d ∈ input.head?) : 0 < input.length := by
  cases input with
  | nil => cases h
  | cons => exact Nat.succ_pos _

theorem inPlace_map (hf : Copies f) (input : List Dict) :
    InPlace input ((tagged input).map f) where
  increasing := by
    rw [origins_map hf]
    exact List.pairwise_lt_range
  copied _ hm := copied_map hf hm
  leading d hd _ := by
    rw [origins_map hf, List.mem_range]
    exact leading_pos hd
  tail i hi _ := by
    rw [origins_map hf, List.mem_range]
    exact hi

theorem lastMessages_base (f : Message → Message) (input : List Dict) :
    lastMessages ((tagged input).map f) = ((tagged input).map f).drop (input.length - 3) := by
  rw [lastMessages, List.length_map, tagged_length]
  rfl

theorem inPlace_prune (hf : Copies f) (input : List Dict) :
    InPlace input (layer2Prune ((tagged input).map f)) := by
  have hlen : ((tagged input).map f).length = input.length := by
    rw [List.length_map, tagged_length]
  rcases em (input.length ≤ 5) with hshort | hlong
  · rw [layer2Prune_short (by rwa [hlen])]
    exact inPlace_map hf input
  · have horigins : origins (layer2Prune ((tagged input).map f)) =
        List.range 2 ++ List.range' (input.length - 3) 3 := by
      rw [layer2Prune_long (by rwa [hlen]), origins_append, origins_append, origins_take hf,
        lastMessages_base, origins_drop hf]
      rw [show min 2 input.length = 2 by omega,
        show input.length - (input.length - 3) = 3 by omega]
      exact congrArg (· ++ _) (List.append_nil _)
    constructor
    · rw [horigins, List.pairwise_append]
      refine ⟨List.pairwise_lt_range, List.pairwise_lt_range', ?_⟩
      intro a ha b hb
      rw [List.mem_range] at ha
      rw [List.mem_range'_1] at hb
      omega
    · intro m hm i hi
      rw [layer2Prune_long (by rwa [hlen])] at hm
      rcases List.mem_append.mp hm with hm | hm
      · rcases List.mem_append.mp hm with hm | hm
        · exact copied_map hf (List.mem_of_mem_take hm) i hi
        · rw [List.mem_singleton.mp hm] at hi
          cases hi
      · exact copied_map hf (List.mem_of_mem_drop hm) i hi
    · intro d _ _
      rw [horigins]
      exact List.mem_append_left _ (List.mem_range.mpr Nat.two_pos)
    · intro i hi hlast
      rw [horigins, List.mem_append, List.mem_range'_1]
      omega

theorem origins_inject (hf : Copies f) (input : List Dict) (summary : String) :
    origins (layer3Inject (layer2Prune ((tagged input).map f)) summary) =
      List.range (leadingSystem (tagged input)).length ++
        List.range' (input.length - 3) (input.length - (input.length - 3)) := by
  rw [layer3Inject, leadingSystem_prune, lastMessages_prune, lastMessages_base, origins_append,
    origins_append, origins_drop hf, hf.leadingSystem]
  refine congrArg (· ++ _) ((List.append_nil _).trans ?_)
  cases input with
  | nil => rfl
  | cons d rest =>
      rw [tagged, List.mapIdx_cons, leadingSystem]
      split
      · have horigin := (hf ⟨some 0, d⟩).1
        rw [List.map_singleton, origins, List.filterMap_cons_some horigin]
        rfl
      · rfl

theorem leadingSystem_length (ms : List Message) : (leadingSystem ms).length ≤ 1 := by
  cases ms with
  | nil => exact Nat.zero_le 1
  | cons m ms =>
      rw [leadingSystem]
      split
      · exact le_rfl
      · exact Nat.zero_le 1

theorem leadingSystem_of_role {d : Dict} (hd : d ∈ input.head?)
    (hrole : d.get? "role" = some (.str "system")) :
    (leadingSystem (tagged input)).length = 1 := by
  cases input with
  | nil => cases hd
  | cons =>
      cases hd
      rw [tagged, List.mapIdx_cons, leadingSystem, Message.isSystem, hrole, if_pos (by decide)]
      rfl

theorem inPlace_inject (hf : Copies f) (input : List Dict) (summary : String)
    (hlong : leadingSystem (tagged input) = [] ∨ 3 < (tagged input).length) :
    InPlace input (layer3Inject (layer2Prune ((tagged input).map f)) summary) := by
  have hone := leadingSystem_length (tagged input)
  rw [tagged_length] at hlong
  constructor
  · rw [origins_inject hf, List.pairwise_append]
    refine ⟨List.pairwise_lt_range, List.pairwise_lt_range', ?_⟩
    intro a ha b hb
    rw [List.mem_range] at ha
    rw [List.mem_range'_1] at hb
    rcases hlong with hnone | hlong
    · rw [hnone] at ha
      cases ha
    · omega
  · intro m hm i hi
    rw [layer3Inject, leadingSystem_prune, lastMessages_prune, lastMessages_base] at hm
    rcases List.mem_append.mp hm with hm | hm
    · rcases List.mem_append.mp hm with hm | hm
      · apply copied_map hf _ i hi
        rw [hf.leadingSystem] at hm
        obtain ⟨a, ha, rfl⟩ := List.mem_map.mp hm
        apply List.mem_map_of_mem
        cases hinput : tagged input with
        | nil =>
            rw [hinput] at ha
            cases ha
        | cons first rest =>
            rw [hinput, leadingSystem] at ha
            split at ha
            · exact List.mem_singleton.mp ha ▸ List.mem_cons_self
            · cases ha
      · rw [List.mem_singleton.mp hm] at hi
        cases hi
    · exact copied_map hf (List.mem_of_mem_drop hm) i hi
  · intro d hd hrole
    rw [origins_inject hf, leadingSystem_of_role hd hrole]
    exact List.mem_append_left _ (List.mem_range.mpr Nat.one_pos)
  · intro i hi hlast
    rw [origins_inject hf, List.mem_append, List.mem_range'_1]
    omega

theorem inject_repeats (hf : Copies f) (summary : String)
    (hshort : ¬ (leadingSystem (tagged input) = [] ∨ 3 < (tagged input).length)) :
    ¬ (origins (layer3Inject (layer2Prune ((tagged input).map f)) summary)).Nodup := by
  rw [tagged_length, not_or] at hshort
  have hpos := List.length_pos_of_ne_nil hshort.1
  have hsome : 0 < input.length := by
    rw [← tagged_length]
    cases hinput : tagged input with
    | nil =>
        rw [hinput] at hpos
        cases hpos
    | cons => exact Nat.succ_pos _
  rw [origins_inject hf]
  intro hnodup
  apply (List.nodup_append.mp hnodup).2.2 0 (List.mem_range.mpr hpos) 0 _ rfl
  rw [List.mem_range'_1]
  omega

end Structure

section Outcome
variable {P} {maxTokens : ℤ} {modelFamily : String} {summarizer : Option Summarizer}
  {messages : List Message} {r : CascadeResult}

theorem fits_iff {est : ℕ} (h : estimateMessageTokens P modelFamily messages = some est) :
    Fits P maxTokens modelFamily messages ↔ (est : ℤ) ≤ maxTokens := by
  rw [Fits, h]
  constructor
  · rintro ⟨_, ⟨⟩, hle⟩
    exact hle
  · intro hle
    exact ⟨est, rfl, hle⟩

-- Where a run ends: at a list within the budget, with the pruned list, or with a summary.
inductive Outcome (P : Python) (maxTokens : ℤ) (modelFamily : String)
    (summarizer : Option Summarizer) (messages result : List Message) : Prop where
  | fits (l : List Message)
      (hl : l = messages ∨ l = messages.map externalized ∨ l = messages.map (rewritten P) ∨
        l = layer2Prune (messages.map (rewritten P)))
      (hfits : Fits P maxTokens modelFamily l)
      (hfirst : l = messages ∨ ¬ Fits P maxTokens modelFamily messages) (hresult : result = l)
  | exhausted (h₀ : ¬ Fits P maxTokens modelFamily messages)
      (h₁ : ¬ Fits P maxTokens modelFamily (messages.map externalized))
      (h₂ : ¬ Fits P maxTokens modelFamily (messages.map (rewritten P)))
      (h₃ : ¬ Fits P maxTokens modelFamily (layer2Prune (messages.map (rewritten P))))
      (hend : (summarizer = none ∧ result = layer2Prune (messages.map (rewritten P))) ∨
        ∃ f summary, summarizer = some f ∧
          f (summaryPrefix (layer2Prune (messages.map (rewritten P)))) = some summary ∧
          result = layer3Inject (layer2Prune (messages.map (rewritten P))) summary)
      (hest : ∃ est, estimateMessageTokens P modelFamily result = some est)

theorem applyCascade_outcome
    (h : applyCascade P maxTokens modelFamily summarizer messages = some r) :
    Outcome P maxTokens modelFamily summarizer messages r.messages := by
  rw [applyCascade] at h
  obtain ⟨est₀, hest₀, h⟩ := Option.bind_eq_some_iff.mp h
  split at h
  · rename_i hfits
    cases h
    exact .fits messages (.inl rfl) ((fits_iff hest₀).mpr hfits) (.inl rfl) rfl
  rename_i hover₀
  rw [← fits_iff hest₀] at hover₀
  obtain ⟨⟨current, artifacts⟩, hlayer0, h⟩ := Option.bind_eq_some_iff.mp h
  obtain rfl := layer0_eq hlayer0
  obtain ⟨est₁, hest₁, h⟩ := Option.bind_eq_some_iff.mp h
  split at h
  · rename_i hfits
    cases h
    exact .fits _ (.inr (.inl rfl)) ((fits_iff hest₁).mpr hfits) (.inr hover₀) rfl
  rename_i hover₁
  rw [← fits_iff hest₁] at hover₁
  have hlayer1 : layer1Compress P (messages.map externalized) = messages.map (rewritten P) :=
    List.map_map
  rw [hlayer1] at h
  obtain ⟨est₂, hest₂, h⟩ := Option.bind_eq_some_iff.mp h
  split at h
  · rename_i hfits
    cases h
    exact .fits _ (.inr (.inr (.inl rfl))) ((fits_iff hest₂).mpr hfits) (.inr hover₀) rfl
  rename_i hover₂
  rw [← fits_iff hest₂] at hover₂
  obtain ⟨est₃, hest₃, h⟩ := Option.bind_eq_some_iff.mp h
  split at h
  · rename_i hfits
    cases h
    exact .fits _ (.inr (.inr (.inr rfl))) ((fits_iff hest₃).mpr hfits) (.inr hover₀) rfl
  rename_i hover₃
  rw [← fits_iff hest₃] at hover₃
  cases summarizer with
  | none =>
      cases h
      exact .exhausted hover₀ hover₁ hover₂ hover₃ (.inl ⟨rfl, rfl⟩) ⟨est₃, hest₃⟩
  | some f =>
      obtain ⟨final, hfinal, h⟩ := Option.bind_eq_some_iff.mp h
      obtain ⟨summary, hsummary, rfl⟩ := Option.map_eq_some_iff.mp hfinal
      obtain ⟨est₄, hest₄, h⟩ := Option.bind_eq_some_iff.mp h
      cases h
      exact .exhausted hover₀ hover₁ hover₂ hover₃ (.inr ⟨f, summary, rfl, hsummary, rfl⟩)
        ⟨est₄, hest₄⟩

theorem fits_le {l : List Message} (hl : Fits P maxTokens modelFamily l)
    (hover : ¬ Fits P maxTokens modelFamily messages) :
    ∀ before ∈ estimateMessageTokens P modelFamily messages,
      ∀ after ∈ estimateMessageTokens P modelFamily l, after ≤ before := by
  intro before hbefore after hafter
  rw [fits_iff hbefore, not_le] at hover
  rw [fits_iff hafter] at hl
  omega

end Outcome

section Main
variable {P} {maxTokens : ℤ} {modelFamily : String} {summarizer : Option Summarizer}
  {input : List Dict} {r : CascadeResult}

theorem cost_iff {result : List Message} {est before : ℕ}
    (hest : estimateMessageTokens P modelFamily result = some est)
    (hbefore : estimateMessageTokens P modelFamily (tagged input) = some before) :
    (∀ before ∈ estimateMessageTokens P modelFamily (tagged input),
      ∀ after ∈ estimateMessageTokens P modelFamily result, after ≤ before) ↔
      spent P (resolveRatio P modelFamily) result ≤
        spent P (resolveRatio P modelFamily) (tagged input) := by
  rw [← estimate_eq hest, ← estimate_eq hbefore, hest, hbefore]
  constructor
  · intro h
    exact h before rfl est rfl
  · rintro h _ ⟨⟩ _ ⟨⟩
    exact h

theorem applyCascade_estimate
    (h : applyCascade P maxTokens modelFamily summarizer (tagged input) = some r) :
    ∃ before, estimateMessageTokens P modelFamily (tagged input) = some before := by
  rw [applyCascade] at h
  obtain ⟨before, hbefore, -⟩ := Option.bind_eq_some_iff.mp h
  exact ⟨before, hbefore⟩

theorem cascade_sound_iff
    (h : applyCascade P maxTokens modelFamily summarizer (tagged input) = some r) :
    Sound P modelFamily input r.messages ↔
      Settles P maxTokens modelFamily summarizer (tagged input) := by
  obtain ⟨before, hbefore⟩ := applyCascade_estimate h
  cases applyCascade_outcome h with
  | fits l hl hfits hfirst hresult =>
      have hplace : InPlace input l := by
        rcases hl with rfl | rfl | rfl | rfl
        · have hid := inPlace_map copies_id input
          rwa [List.map_id] at hid
        · exact inPlace_map copies_externalized input
        · exact inPlace_map copies_rewritten input
        · exact inPlace_prune copies_rewritten input
      have hsettles : Settles P maxTokens modelFamily summarizer (tagged input) := by
        rcases hl with rfl | rfl | rfl | rfl
        · exact .inl hfits
        · exact .inr (.inl hfits)
        · exact .inr (.inr (.inl hfits))
        · exact .inr (.inr (.inr (.inl hfits)))
      rw [hresult]
      refine iff_of_true (hplace.sound ?_) hsettles
      rcases hfirst with rfl | hover
      · intro before hbefore after hafter
        rw [Option.mem_unique hbefore hafter]
      · exact fits_le hfits hover
  | exhausted h₀ h₁ h₂ h₃ hend hest =>
      obtain ⟨est, hest⟩ := hest
      have hcost := cost_iff hest hbefore
      unfold Settles
      rw [or_iff_right h₀, or_iff_right h₁, or_iff_right h₂, or_iff_right h₃]
      rcases hend with ⟨rfl, hresult⟩ | ⟨f, summary, rfl, hsummary, hresult⟩
      · rw [hresult] at hcost ⊢
        simp only
        rw [← prunePays_iff, ← hcost]
        exact ⟨fun hsound => hsound.notLarger, (inPlace_prune copies_rewritten input).sound⟩
      · rw [hresult] at hcost ⊢
        simp only [hsummary, Option.mem_some_iff, forall_eq']
        constructor
        · intro hsound
          have hlong : leadingSystem (tagged input) = [] ∨ 3 < (tagged input).length := by
            by_contra hshort
            exact inject_repeats copies_rewritten summary hshort hsound.once
          exact ⟨hlong, (summaryPays_iff hlong summary).mp (hcost.mp hsound.notLarger)⟩
        · rintro ⟨hlong, hpays⟩
          apply (inPlace_inject copies_rewritten input summary hlong).sound
          exact hcost.mpr ((summaryPays_iff hlong summary).mpr hpays)

end Main

def python : Python := ⟨CharTable.ascii, fun _ => false, id⟩

def message (role content : String) : Dict :=
  (OrderedDict.empty.set "role" (.str role)).set "content" (.str content)

def longTalk : List Dict :=
  message "system" "Investigate." ::
    List.replicate 12 (message "user" "Look at this host.")

theorem longTalk_sound : ∃ r,
    applyCascade python 90 "claude" none (tagged longTalk) = some r ∧
      r.layersApplied = [.COMPRESS, .PRUNE] ∧ Sound python "claude" longTalk r.messages := by
  have hrun : (applyCascade python 90 "claude" none (tagged longTalk)).any
      fun r => decide (r.layersApplied = [.COMPRESS, .PRUNE]) := by decide +kernel
  obtain ⟨r, hr, hlayers⟩ := (Option.any_eq_true _ _).mp hrun
  refine ⟨r, hr, of_decide_eq_true hlayers, (cascade_sound_iff hr).mpr ?_⟩
  have hfits : (estimateMessageTokens python "claude"
      (layer2Prune ((tagged longTalk).map (rewritten python)))).any
        fun est : ℕ => decide ((est : ℤ) ≤ 90) := by decide +kernel
  obtain ⟨est, hest, hle⟩ := (Option.any_eq_true _ _).mp hfits
  exact .inr (.inr (.inr (.inl ⟨est, hest, of_decide_eq_true hle⟩)))

def shortTalk : List Dict := [message "system" "Investigate.", message "user" "Look at this host."]

theorem shortTalk_repeats : ∃ r,
    applyCascade python 0 "claude" (some fun _ => some "A host is looked at.")
      (tagged shortTalk) = some r ∧
      origins r.messages = [0, 0, 1] ∧ ¬ Sound python "claude" shortTalk r.messages := by
  have hrun : (applyCascade python 0 "claude" (some fun _ => some "A host is looked at.")
      (tagged shortTalk)).any fun r => decide (origins r.messages = [0, 0, 1]) := by
    decide +kernel
  obtain ⟨r, hr, horigins⟩ := (Option.any_eq_true _ _).mp hrun
  refine ⟨r, hr, of_decide_eq_true horigins, ?_⟩
  intro hsound
  have honce := hsound.once
  rw [of_decide_eq_true horigins] at honce
  exact absurd honce (by decide)

end Cascade

end BTagent
