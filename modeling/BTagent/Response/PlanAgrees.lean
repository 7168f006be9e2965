import BTagent.Response.BulkMitigation
import BTagent.Response.ContainmentExecute

namespace BTagent

namespace BulkMitigation
open Safelist SafelistPolicy ContainmentExecute

section Target
variable (T : CharTable)

-- What follows the host of a URL.
def beyondHost (v : String) : List Char :=
  let s := (splitScheme T v.toList).2
  s.drop (hostPart s).length

-- Two values name one URL, host, hash or address. Of a URL only the scheme and the host are read
-- in any case; a kind that nothing blocks is compared as it stands.
def SameValue : IOCType → String → String → Prop
  | .ip, a, b => T.lower a = T.lower b ∨
      ∃ ip, IpAddress.parse a.toList = some ip ∧ IpAddress.parse b.toList = some ip
  | .domain, a, b => rstrip '.' (T.lower a) = rstrip '.' (T.lower b)
  | .url, a, b => T.lower a = T.lower b ∧ beyondHost T a = beyondHost T b
  | .hashMd5, a, b | .hashSha1, a, b | .hashSha256, a, b | .email, a, b => T.lower a = T.lower b
  | _, a, b => a = b

def SameTarget (e ioc : IOCRef) : Prop :=
  T.strip e.value ≠ "" ∧ e.type = ioc.type ∧ SameValue T e.type (T.strip e.value) (T.strip ioc.value)

-- The case of letters tells two values apart: beyond the host of a URL, and in what nothing blocks.
def SameLetters (kind : IOCType) (a b : String) : Prop :=
  (kind = .url → beyondHost T a = beyondHost T b) ∧ (kind ∈ UNSUPPORTED → a = b)

def CaseMatters (kind : IOCType) : Prop := kind = .url ∨ kind ∈ UNSUPPORTED

def Twins (e ioc : IOCRef) : Prop :=
  T.strip e.value ≠ "" ∧ T.strip ioc.value ≠ "" ∧ key T e = key T ioc

-- No two URLs of the batch, and no two values of a kind that nothing blocks, differ only in the
-- case of letters that tell them apart.
def NoCaseTwins (iocs : List IOCRef) : Prop :=
  iocs.Pairwise fun e ioc => Twins T e ioc →
    SameLetters T e.type (T.strip e.value) (T.strip ioc.value)

end Target

variable {T : CharTable} {extra : List String} {policy : SafelistPolicy} {e ioc : IOCRef}
  {s s' : Progress} {d : MitigationDecision}

section Target

theorem SameTarget.sameLetters (h : SameTarget T e ioc) :
    SameLetters T e.type (T.strip e.value) (T.strip ioc.value) := by
  obtain ⟨_, _, hvalue⟩ := h
  constructor
  · intro hurl
    rw [hurl] at hvalue
    exact hvalue.2
  · intro hmem
    cases he : e.type <;> rw [he] at hmem hvalue
    case filePath | registryKey | cve | userAgent | mutex | processName | other => exact hvalue
    all_goals simp [UNSUPPORTED] at hmem

theorem SameTarget.key_eq (h : SameTarget T e ioc) (hcase : CaseMatters e.type) :
    key T e = key T ioc := by
  obtain ⟨_, htype, hvalue⟩ := h
  have hlower : T.lower (T.strip e.value) = T.lower (T.strip ioc.value) := by
    rcases hcase with hurl | hmem
    · rw [hurl] at hvalue
      exact hvalue.1
    · exact congrArg T.lower ((SameTarget.sameLetters ⟨‹_›, htype, hvalue⟩).2 hmem)
  rw [key, key, htype, hlower]

theorem sameTarget_of_twins (htwins : Twins T e ioc)
    (hletters : SameLetters T e.type (T.strip e.value) (T.strip ioc.value)) :
    SameTarget T e ioc := by
  obtain ⟨hne, _, hkey⟩ := htwins
  obtain ⟨htype, hlower⟩ := Prod.mk.inj hkey
  refine ⟨hne, htype, ?_⟩
  cases he : e.type <;> rw [he] at hletters
  case ip => exact Or.inl hlower
  case domain => exact congrArg (rstrip '.') hlower
  case url => exact ⟨hlower, hletters.1 rfl⟩
  case hashMd5 | hashSha1 | hashSha256 | email => exact hlower
  all_goals exact hletters.2 (by simp [UNSUPPORTED])

theorem sameLetters_of_not (hcase : ¬ CaseMatters e.type) (a b : String) :
    SameLetters T e.type a b :=
  ⟨fun h => absurd (Or.inl h) hcase, fun h => absurd (Or.inr h) hcase⟩

end Target

section Plan

-- What comes of an IOC that stands after the IOCs `earlier`.
def verdict (T : CharTable) (extra : List String) (policy : SafelistPolicy) (earlier : List IOCRef)
    (ioc : IOCRef) : MitigationDecision :=
  if T.strip ioc.value = "" then .skipInvalid
  else if ∃ e ∈ earlier, T.strip e.value ≠ "" ∧ key T e = key T ioc then .skipDuplicate
  else if allowlisted T ioc extra policy then .skipAllowlisted
  else if ioc.type ∈ UNSUPPORTED then .skipUnsupported
  else if ((ROUTES T ioc.type).filter fun route => route.validator (T.strip ioc.value)).isSome then
    .block
  else .skipInvalid

-- One more action, with its decision counted.
structure Adds (T : CharTable) (s : Progress) (ioc : IOCRef) (d : MitigationDecision)
    (s' : Progress) : Prop where
  seq : s'.seq = s.seq
  seen : s'.seen = s.seen
  action : ∃ a, s'.actions = s.actions ++ [a] ∧ a.iocType = ioc.type ∧
    a.iocValue = T.strip ioc.value ∧ a.decision = d
  count : s'.blockCount + s'.skipCount = s.blockCount + s.skipCount + 1
  blocks : s'.blockCount = s.blockCount + if d = .block then 1 else 0

theorem adds_skip (hd : d ≠ .block) (reason : String) : Adds T s ioc d (s.skip T ioc d reason) where
  seq := rfl
  seen := rfl
  action := ⟨_, rfl, rfl, rfl, rfl⟩
  count := rfl
  blocks := by simp [Progress.skip, hd]

theorem adds_block (route : Route) : Adds T s ioc .block (s.block T ioc route) where
  seq := rfl
  seen := rfl
  action := ⟨_, rfl, rfl, rfl, rfl⟩
  count := by
    simp only [Progress.block]
    omega
  blocks := rfl

theorem adds_screen : Adds T s ioc (if allowlisted T ioc extra policy then .skipAllowlisted
    else if ioc.type ∈ UNSUPPORTED then .skipUnsupported
    else if ((ROUTES T ioc.type).filter fun route => route.validator (T.strip ioc.value)).isSome then
      .block
    else .skipInvalid) (screen T extra policy s ioc) := by
  simp only [screen]
  split
  · exact adds_skip (by decide) _
  · split
    · exact adds_skip (by decide) _
    · cases (ROUTES T ioc.type).filter fun route => route.validator (T.strip ioc.value) with
      | none => exact adds_skip (by decide) _
      | some route => exact adds_block route

-- The loop's state after the IOCs `done`.
structure After (T : CharTable) (extra : List String) (policy : SafelistPolicy)
    (done : List IOCRef) (s : Progress) : Prop where
  seq : s.seq = done.length
  seen : ∀ k, k ∈ s.seen ↔ ∃ e ∈ done, T.strip e.value ≠ "" ∧ key T e = k
  length : s.actions.length = done.length
  planned : ∀ i a, s.actions[i]? = some a → ∃ ioc, done[i]? = some ioc ∧ a.iocType = ioc.type ∧
    a.iocValue = T.strip ioc.value ∧ a.decision = verdict T extra policy (done.take i) ioc
  count : s.blockCount + s.skipCount = done.length
  blocks : s.blockCount = s.actions.countP fun a => a.decision = .block

theorem After.append {done : List IOCRef} (h : After T extra policy done s)
    (hseq : s'.seq = s.seq + 1)
    (hseen : ∀ k, k ∈ s'.seen ↔ k ∈ s.seen ∨ (T.strip ioc.value ≠ "" ∧ key T ioc = k))
    (hadds : Adds T { s with seq := s'.seq, seen := s'.seen } ioc
      (verdict T extra policy done ioc) s') :
    After T extra policy (done ++ [ioc]) s' := by
  obtain ⟨a, hactions, htype, hvalue, hdecision⟩ := hadds.action
  constructor
  · rw [hseq, h.seq, List.length_append, List.length_singleton]
  · intro k
    rw [hseen k, h.seen k]
    simp [or_and_right, exists_or]
  · simp [hactions, h.length]
  · intro i b hb
    simp only [hactions] at hb
    by_cases hi : i < s.actions.length
    · rw [List.getElem?_append_left hi] at hb
      obtain ⟨e, he, hrest⟩ := h.planned i b hb
      rw [h.length] at hi
      refine ⟨e, ?_, ?_⟩
      · rwa [List.getElem?_append_left hi]
      · rwa [List.take_append_of_le_length (le_of_lt hi)]
    · have hlen : i = s.actions.length := by
        have hbound := (List.getElem?_eq_some_iff.mp hb).1
        simp only [List.length_append, List.length_singleton] at hbound
        omega
      subst hlen
      obtain rfl : a = b := by simpa using hb
      refine ⟨ioc, ?_, htype, hvalue, ?_⟩
      · simp [h.length]
      · rwa [h.length, List.take_left]
  · rw [hadds.count, List.length_append, List.length_singleton, ← h.count]
  · have hblocks : s'.blockCount =
        s.blockCount + if verdict T extra policy done ioc = .block then 1 else 0 := hadds.blocks
    rw [hblocks, hactions, List.countP_append, ← h.blocks, List.countP_singleton, hdecision]
    simp

theorem after_step {done : List IOCRef} (h : After T extra policy done s) :
    After T extra policy (done ++ [ioc]) (step T extra policy s ioc) := by
  have hdup : key T ioc ∈ s.seen ↔ ∃ e ∈ done, T.strip e.value ≠ "" ∧ key T e = key T ioc :=
    h.seen _
  simp only [step]
  split
  · next hempty =>
      apply h.append rfl
      · simp [hempty, Progress.skip]
      · rw [verdict, if_pos hempty]
        exact adds_skip (by decide) _
  · next hne =>
      split
      · next hseen =>
          apply h.append rfl
          · intro k
            refine ⟨Or.inl, ?_⟩
            rintro (hk | ⟨_, rfl⟩)
            · exact hk
            · exact hseen
          · rw [verdict, if_neg hne, if_pos (hdup.mp hseen)]
            exact adds_skip (by decide) _
      · next hnew =>
          have hadds : Adds T { s with seq := s.seq + 1, seen := key T ioc :: s.seen } ioc _
            (screen T extra policy { s with seq := s.seq + 1, seen := key T ioc :: s.seen } ioc) :=
            adds_screen
          apply h.append hadds.seq
          · intro k
            rw [hadds.seen]
            simp [hne, or_comm, eq_comm]
          · rw [verdict, if_neg hne, if_neg (fun hd => hnew (hdup.mpr hd)), hadds.seq, hadds.seen]
            exact hadds

theorem after_foldl (iocs : List IOCRef) :
    After T extra policy iocs (iocs.foldl (step T extra policy) {}) := by
  induction iocs using List.reverseRecOn with
  | nil =>
      constructor
      · rfl
      · simp
      · rfl
      · simp
      · rfl
      · rfl
  | append_singleton iocs ioc ih =>
      rw [List.foldl_append]
      exact after_step ih

end Plan

section Agreement

theorem strip_plain {v : String} (h : ∀ c ∈ v.toList, c.toNat < 128 ∧
    (c == ' ' || (9 ≤ c.toNat && c.toNat ≤ 13) || (28 ≤ c.toNat && c.toNat ≤ 31)) = false) :
    T.strip v = v := by
  have hspace : ∀ c ∈ v.toList, T.isSpace c = false := by
    intro c hc
    rw [T.space_ascii c (h c hc).1]
    exact (h c hc).2
  have hleft : v.toList.dropWhile T.isSpace = v.toList := by
    rw [List.dropWhile_eq_self_iff]
    intro hpos
    simp [hspace _ (List.getElem_mem hpos)]
  have hright : v.toList.rdropWhile T.isSpace = v.toList := by
    rw [List.rdropWhile_eq_self_iff]
    intro hne
    simp [hspace _ (List.getLast_mem hne)]
  rw [CharTable.strip, hleft, hright, String.ofList_toList]

theorem kind_text (kind : IOCType) : T.lower (T.strip kind.value) = kind.value := by
  have hplain : ∀ kind : IOCType, ∀ c ∈ kind.value.toList, c.toNat < 128 ∧
      (c == ' ' || (9 ≤ c.toNat && c.toNat ≤ 13) || (28 ≤ c.toNat && c.toNat ≤ 31)) = false := by
    intro kind
    cases kind <;> decide
  rw [strip_plain (hplain kind), T.lower_ascii _ fun c hc => (hplain kind c hc).1]
  cases kind <;> decide +kernel

theorem iocSafelisted_eq {v : String} (hv : T.strip v = T.strip ioc.value) :
    iocSafelisted T policy ioc.type.value v = allowlisted T ioc [] policy := by
  have hip : policy.ipSafelisted T v = policy.ipSafelisted T ioc.value := by
    rw [← ipSafelisted_strip, hv, ipSafelisted_strip]
  have hdomain : policy.domainSafelisted T v = policy.domainSafelisted T ioc.value := by
    rw [← domainSafelisted_strip, hv, domainSafelisted_strip]
  have hurl : policy.urlSafelisted T v = policy.urlSafelisted T ioc.value := by
    rw [← urlSafelisted_strip, hv, urlSafelisted_strip]
  simp only [iocSafelisted, kind_text, allowlisted, hip, hdomain, hurl]
  cases ioc.type <;> simp [IOCType.value]

-- What `buildPlan` has to do with the execution service under one policy.
structure PlanAgrees (T : CharTable) (iocs : List IOCRef) (ips suffixes principals : List String) :
    Prop where
  inOrder : List.Forall₂ (fun ioc a => a.iocType = ioc.type ∧ a.iocValue = T.strip ioc.value) iocs
    (buildPlan T iocs [] ips suffixes).actions
  counted : (buildPlan T iocs [] ips suffixes).blockCount +
    (buildPlan T iocs [] ips suffixes).skipCount = iocs.length
  blocks : (buildPlan T iocs [] ips suffixes).blockCount =
    (buildPlan T iocs [] ips suffixes).actions.countP fun a => a.decision = .block
  blockAllowed : ∀ a ∈ (buildPlan T iocs [] ips suffixes).actions, a.decision = .block →
    ∀ v, T.strip v = T.strip a.iocValue →
      iocSafelisted T ((BASELINE_SAFELIST T).merge T ips suffixes principals) a.iocType.value v =
        false
  allowlistedRefused : ∀ a ∈ (buildPlan T iocs [] ips suffixes).actions,
    a.decision = .skipAllowlisted → ∀ v, T.strip v = T.strip a.iocValue →
      iocSafelisted T ((BASELINE_SAFELIST T).merge T ips suffixes principals) a.iocType.value v =
        true
  duplicates : ∀ (i : ℕ) (a : MitigationAction) (ioc : IOCRef),
    (buildPlan T iocs [] ips suffixes).actions[i]? = some a → iocs[i]? = some ioc → a.decision = .skipDuplicate →
      ∃ k < i, ∃ e, iocs[k]? = some e ∧ SameTarget T e ioc

theorem verdict_duplicate {earlier : List IOCRef} :
    verdict T extra policy earlier ioc = .skipDuplicate ↔ ∃ e ∈ earlier, Twins T e ioc := by
  simp only [verdict, Twins]
  split_ifs <;> simp_all

theorem verdict_screened {earlier : List IOCRef} :
    (verdict T extra policy earlier ioc = .block → allowlisted T ioc extra policy = false) ∧
      (verdict T extra policy earlier ioc = .skipAllowlisted →
        allowlisted T ioc extra policy = true) := by
  simp only [verdict]
  split_ifs <;> simp_all

variable {iocs : List IOCRef} {ips suffixes principals : List String}

theorem after_buildPlan : After T [] (planPolicy T ips suffixes) iocs
    (iocs.foldl (step T [] (planPolicy T ips suffixes)) {}) := after_foldl iocs

theorem twin_before {i : ℕ} (h : ∃ e ∈ iocs.take i, Twins T e ioc) :
    ∃ k < i, ∃ e, iocs[k]? = some e ∧ Twins T e ioc := by
  obtain ⟨e, hmem, htwins⟩ := h
  obtain ⟨k, hk⟩ := List.mem_iff_getElem?.mp hmem
  rw [List.getElem?_take] at hk
  split at hk
  · exact ⟨k, ‹_›, e, hk, htwins⟩
  · cases hk

theorem twin_before_of {i k : ℕ} (hk : k < i) (he : iocs[k]? = some e) : e ∈ iocs.take i := by
  refine List.mem_iff_getElem?.mpr ⟨k, ?_⟩
  rwa [List.getElem?_take, if_pos hk]

theorem planned_action {i : ℕ} {a : MitigationAction}
    (ha : (buildPlan T iocs [] ips suffixes).actions[i]? = some a) :
    ∃ ioc, iocs[i]? = some ioc ∧ a.iocType = ioc.type ∧ a.iocValue = T.strip ioc.value ∧
      a.decision = verdict T [] (planPolicy T ips suffixes) (iocs.take i) ioc :=
  after_buildPlan.planned i a ha

theorem planned_duplicate {i : ℕ} {a : MitigationAction}
    (ha : (buildPlan T iocs [] ips suffixes).actions[i]? = some a) (hioc : iocs[i]? = some ioc) :
    a.decision = .skipDuplicate ↔ ∃ e ∈ iocs.take i, Twins T e ioc := by
  obtain ⟨ioc', hioc', _, _, hdecision⟩ := planned_action ha
  obtain rfl : ioc = ioc' := Option.some.inj (hioc.symm.trans hioc')
  rw [hdecision, verdict_duplicate]

theorem action_at {i : ℕ} (hioc : iocs[i]? = some ioc) :
    ∃ a, (buildPlan T iocs [] ips suffixes).actions[i]? = some a := by
  have hlen : (buildPlan T iocs [] ips suffixes).actions.length = iocs.length :=
    after_buildPlan.length
  have hi : i < iocs.length := (List.getElem?_eq_some_iff.mp hioc).1
  rw [← hlen] at hi
  exact ⟨_, List.getElem?_eq_getElem hi⟩

theorem plan_decisions (T : CharTable) (iocs : List IOCRef) (ips suffixes : List String) :
    (buildPlan T iocs [] ips suffixes).actions.map (·.decision) =
      iocs.mapIdx fun i ioc => verdict T [] (planPolicy T ips suffixes) (iocs.take i) ioc := by
  apply List.ext_getElem?
  intro i
  rw [List.getElem?_map, List.getElem?_mapIdx]
  cases hioc : iocs[i]? with
  | none =>
      have hlen : (buildPlan T iocs [] ips suffixes).actions.length = iocs.length :=
        after_buildPlan.length
      rw [List.getElem?_eq_none_iff, ← hlen, ← List.getElem?_eq_none_iff] at hioc
      rw [hioc]
      rfl
  | some ioc =>
      have hat : ∃ a, (buildPlan T iocs [] ips suffixes).actions[i]? = some a := action_at hioc
      obtain ⟨a, ha⟩ := hat
      obtain ⟨ioc', hioc', _, _, hdecision⟩ := planned_action ha
      obtain rfl : ioc = ioc' := Option.some.inj (hioc.symm.trans hioc')
      rw [ha, Option.map_some, Option.map_some, hdecision]

theorem screened_alike {a : MitigationAction} {v : String}
    (ha : a ∈ (buildPlan T iocs [] ips suffixes).actions) (hv : T.strip v = T.strip a.iocValue) :
    ∃ earlier ioc, a.decision = verdict T [] (planPolicy T ips suffixes) earlier ioc ∧
      iocSafelisted T ((BASELINE_SAFELIST T).merge T ips suffixes principals) a.iocType.value v =
        allowlisted T ioc [] (planPolicy T ips suffixes) := by
  obtain ⟨i, hi⟩ := List.mem_iff_getElem?.mp ha
  obtain ⟨ioc, _, htype, hvalue, hdecision⟩ := planned_action hi
  refine ⟨iocs.take i, ioc, hdecision, ?_⟩
  rw [htype]
  exact iocSafelisted_eq (by rw [hv, hvalue, T.strip_strip])

theorem sameLetters_of_earlier (hdup : ∀ (i : ℕ) (ioc : IOCRef), iocs[i]? = some ioc →
      (∃ k < i, ∃ e, iocs[k]? = some e ∧ Twins T e ioc) →
      ∃ k < i, ∃ e, iocs[k]? = some e ∧ SameTarget T e ioc)
    {i k : ℕ} (hk : k < i) (he : iocs[k]? = some e) (hioc : iocs[i]? = some ioc)
    (htwins : Twins T e ioc) : SameLetters T e.type (T.strip e.value) (T.strip ioc.value) := by
  induction i using Nat.strong_induction_on generalizing k e ioc with
  | _ i ih =>
      by_cases hcase : CaseMatters e.type
      · obtain ⟨l, hl, f, hf, hsame⟩ := hdup i ioc hioc ⟨k, hk, e, he, htwins⟩
        have htype : f.type = e.type := hsame.2.1.trans (Prod.mk.inj htwins.2.2).1.symm
        have hkey : key T f = key T e :=
          (hsame.key_eq (htype ▸ hcase)).trans htwins.2.2.symm
        have hf_ioc : SameLetters T e.type (T.strip f.value) (T.strip ioc.value) :=
          htype ▸ hsame.sameLetters
        -- `f` stands before `ioc`, as `e` does, so the two are compared at an earlier place
        have he_f : SameLetters T e.type (T.strip e.value) (T.strip f.value) := by
          rcases Nat.lt_trichotomy k l with hlt | rfl | hgt
          · exact ih l hl hlt he hf ⟨htwins.1, hsame.1, hkey.symm⟩
          · obtain rfl : e = f := Option.some.inj (he.symm.trans hf)
            exact ⟨fun _ => rfl, fun _ => rfl⟩
          · have hback : SameLetters T f.type (T.strip f.value) (T.strip e.value) :=
              ih k hk hgt hf he ⟨hsame.1, htwins.1, hkey⟩
            rw [htype] at hback
            exact ⟨fun h => (hback.1 h).symm, fun h => (hback.2 h).symm⟩
        exact ⟨fun h => (he_f.1 h).trans (hf_ioc.1 h), fun h => (he_f.2 h).trans (hf_ioc.2 h)⟩
      · exact sameLetters_of_not hcase _ _

theorem noCaseTwins_iff : NoCaseTwins T iocs ↔
    ∀ (i k : ℕ) (e ioc : IOCRef), k < i → iocs[k]? = some e → iocs[i]? = some ioc → Twins T e ioc →
      SameLetters T e.type (T.strip e.value) (T.strip ioc.value) := by
  rw [NoCaseTwins, List.pairwise_iff_getElem]
  constructor
  · intro h i k e ioc hk he hioc
    obtain ⟨hkl, rfl⟩ := List.getElem?_eq_some_iff.mp he
    obtain ⟨hil, rfl⟩ := List.getElem?_eq_some_iff.mp hioc
    exact h k i hkl hil hk
  · intro h k i hkl hil hk
    exact h i k _ _ hk (List.getElem?_eq_getElem hkl) (List.getElem?_eq_getElem hil)

theorem PlanAgrees.noCaseTwins (h : PlanAgrees T iocs ips suffixes principals) :
    NoCaseTwins T iocs := by
  rw [noCaseTwins_iff]
  intro i k e ioc hk he hioc htwins
  refine sameLetters_of_earlier (fun i ioc hioc htwin => ?_) hk he hioc htwins
  have hat : ∃ a, (buildPlan T iocs [] ips suffixes).actions[i]? = some a := action_at hioc
  obtain ⟨a, ha⟩ := hat
  apply h.duplicates i a ioc ha hioc
  obtain ⟨k, hk, e, he, htwins⟩ := htwin
  exact (planned_duplicate ha hioc).mpr ⟨e, twin_before_of hk he, htwins⟩

theorem plan_agrees_iff (T : CharTable) (iocs : List IOCRef)
    (ips suffixes principals : List String) :
    PlanAgrees T iocs ips suffixes principals ↔ NoCaseTwins T iocs := by
  constructor
  · exact PlanAgrees.noCaseTwins
  · intro h
    rw [noCaseTwins_iff] at h
    constructor
    · rw [List.forall₂_iff_get]
      refine ⟨after_buildPlan.length.symm, fun i hi ha => ?_⟩
      obtain ⟨ioc, hioc, htype, hvalue, _⟩ := planned_action (List.getElem?_eq_getElem ha)
      obtain ⟨_, rfl⟩ := List.getElem?_eq_some_iff.mp hioc
      exact ⟨htype, hvalue⟩
    · exact after_buildPlan.count
    · exact after_buildPlan.blocks
    · intro a ha hblock v hv
      obtain ⟨earlier, ioc, hdecision, heq⟩ := screened_alike ha hv
      rw [heq]
      exact verdict_screened.1 (hdecision.symm.trans hblock)
    · intro a ha hskip v hv
      obtain ⟨earlier, ioc, hdecision, heq⟩ := screened_alike ha hv
      rw [heq]
      exact verdict_screened.2 (hdecision.symm.trans hskip)
    · intro i a ioc ha hioc hskip
      obtain ⟨k, hk, e, he, htwins⟩ :=
        twin_before ((planned_duplicate ha hioc).mp hskip)
      exact ⟨k, hk, e, he, sameTarget_of_twins htwins (h i k e ioc hk he hioc htwins)⟩

def dropper : IOCRef := ⟨.url, "http://files.example/Dropper"⟩

def lowerDropper : IOCRef := ⟨.url, "http://files.example/dropper"⟩

theorem dropper_twins : Twins .ascii dropper lowerDropper := by
  have hupper : CharTable.ascii.lower (CharTable.ascii.strip "http://files.example/Dropper") =
      "http://files.example/dropper" := by decide +kernel
  have hlower : CharTable.ascii.lower (CharTable.ascii.strip "http://files.example/dropper") =
      "http://files.example/dropper" := by decide +kernel
  refine ⟨by decide +kernel, by decide +kernel, ?_⟩
  rw [key, key, dropper, lowerDropper, hupper, hlower]

theorem dropper_blocked : verdict .ascii [] (planPolicy .ascii [] []) [] dropper = .block := by
  decide +kernel

-- Two files of one server; the second is never proposed for a block.
theorem plan_merges_urls :
    (buildPlan .ascii [dropper, lowerDropper] [] [] []).actions.map (·.decision) =
        [.block, .skipDuplicate] ∧
      ¬ PlanAgrees .ascii [dropper, lowerDropper] [] [] [] := by
  constructor
  · have hsecond : verdict .ascii [] (planPolicy .ascii [] []) [dropper] lowerDropper =
        .skipDuplicate := verdict_duplicate.mpr ⟨dropper, List.mem_singleton_self _, dropper_twins⟩
    rw [plan_decisions]
    simp [dropper_blocked, hsecond]
  · intro h
    have hrest := (noCaseTwins_iff.mp h.noCaseTwins 1 0 dropper lowerDropper (by decide) rfl rfl dropper_twins).1 rfl
    revert hrest
    decide +kernel

end Agreement

end BulkMitigation

end BTagent
