import BTagent.Cti.ReportText

namespace BTagent

namespace CtiToDetection
open Stix

variable {T : CharTable} {tools : RuleTools} {t u : DetectableType} {value : String}
  {i j : ExtractedIndicator} {items : List DetectableIndicator} {s : Responding} {bundle : CtiBundle}
  {activeTlp : TLP}

-- The proposal's rule is one for a value of the type.
def ProposedAs (p : SigmaProposal) (t : DetectableType) (value : String) : Prop :=
  p.rule.title = "CTI-Derived Detection: " ++ (t.label ++ (" IOC — " ++ shown 60 value)) ∧
    p.rule.detection = buildDetectionBlock t value

-- The value is proposed, or recorded as a duplicate of an earlier one.
def Proposed (response : CTIToDetectionResponse) (t : DetectableType) (value : String) : Prop :=
  (∃ p ∈ response.proposals, ProposedAs p t value) ∨
    ∃ x ∈ response.skipped, x.reason = .duplicate t value

theorem label_inj (h : t.label = u.label) : t = u := by
  cases t with
  | ioc t => cases t <;> cases u with
    | ioc u => cases u <;> first | rfl | exact absurd h (by decide)
    | cmdline => exact absurd h (by decide)
  | cmdline => cases u with
    | ioc u => cases u <;> exact absurd h (by decide)
    | cmdline => rfl

theorem detected_value : (buildDetectionBlock t value).selections.getLast?.map (fun x => x.2.2) = some value := by
  cases t with
  | ioc t => cases t <;> rfl
  | cmdline => rfl

theorem proposedAs_iff {ids : List String} :
    ProposedAs (proposeSigmaRule T tools i ids) t value ↔ i.iocType = t ∧ i.value = value := by
  constructor
  · rintro ⟨htitle, hblock⟩
    have hvalue : i.value = value := by
      have hselected := congrArg (fun b : DetectionBlock => b.selections.getLast?.map fun x => x.2.2) hblock
      exact Option.some.inj (detected_value.symm.trans (hselected.trans detected_value))
    refine ⟨label_inj ?_, hvalue⟩
    have htitle' : "CTI-Derived Detection: " ++ (i.iocType.label ++ (" IOC — " ++ shown 60 i.value)) =
        "CTI-Derived Detection: " ++ (t.label ++ (" IOC — " ++ shown 60 value)) := htitle
    rw [hvalue] at htitle'
    exact String.append_left_inj _ |>.mp (String.append_right_inj _ |>.mp htitle')
  · rintro ⟨rfl, rfl⟩
    exact ⟨rfl, rfl⟩

theorem dedupKey_inj : dedupKey i = dedupKey j ↔ i.iocType = j.iocType ∧ i.value = j.value := by
  have hcolon : ∀ t : DetectableType, ':' ∉ t.name.toList := by
    intro t
    cases t with
    | ioc t => cases t <;> decide
    | cmdline => decide
  have hname : ∀ t u : DetectableType, t.name = u.name → t = u := by
    intro t u h
    cases t with
    | ioc t => cases u with
      | ioc u => exact congrArg _ (name_inj h)
      | cmdline => cases t <;> exact absurd h (by decide)
    | cmdline => cases u with
      | ioc u => cases u <;> exact absurd h (by decide)
      | cmdline => rfl
  constructor
  · intro h
    have hlist := congrArg String.toList h
    simp only [dedupKey, String.toList_append] at hlist
    obtain ⟨htype, hvalue⟩ :=
      Regex.append_cons_inj (hcolon i.iocType) (hcolon j.iocType) (by simpa using hlist)
    exact ⟨hname _ _ (String.ext htype), String.ext hvalue⟩
  · rintro ⟨htype, hvalue⟩
    rw [dedupKey, dedupKey, htype, hvalue]

variable (T tools) in
-- What the response holds after the indicators `done`.
structure Responded (done : List DetectableIndicator) (s : Responding) : Prop where
  seen : ∀ k ∈ s.seenValues, ∃ i, .extracted i ∈ done ∧ dedupKey i = k ∧
    proposeSigmaRule T tools i (resolveTechniqueIds T tools i) ∈ s.proposals
  covered : ∀ i, .extracted i ∈ done → dedupKey i ∈ s.seenValues
  proposals : ∀ p ∈ s.proposals, ∃ i, .extracted i ∈ done ∧
    p = proposeSigmaRule T tools i (resolveTechniqueIds T tools i)
  duplicates : ∀ x ∈ s.skipped, ∀ t value, x.reason = .duplicate t value →
    ∃ i, .extracted i ∈ done ∧ i.iocType = t ∧ i.value = value

theorem Responded.step {done : List DetectableIndicator} (h : Responded T tools done s)
    (item : DetectableIndicator) : Responded T tools (done ++ [item]) (respondTo T tools s item) := by
  have hgrow : ∀ {i}, DetectableIndicator.extracted i ∈ done → .extracted i ∈ done ++ [item] :=
    fun hi => List.mem_append_left _ hi
  have hseen : ∀ k ∈ s.seenValues, ∃ i, .extracted i ∈ done ++ [item] ∧ dedupKey i = k ∧
      proposeSigmaRule T tools i (resolveTechniqueIds T tools i) ∈ s.proposals :=
    fun k hk => (h.seen k hk).imp fun i hi => ⟨hgrow hi.1, hi.2⟩
  have hproposals : ∀ p ∈ s.proposals, ∃ i, .extracted i ∈ done ++ [item] ∧
      p = proposeSigmaRule T tools i (resolveTechniqueIds T tools i) :=
    fun p hp => (h.proposals p hp).imp fun i hi => ⟨hgrow hi.1, hi.2⟩
  have hduplicates : ∀ x ∈ s.skipped, ∀ t value, x.reason = .duplicate t value →
      ∃ i, .extracted i ∈ done ++ [item] ∧ i.iocType = t ∧ i.value = value :=
    fun x hx t value hreason => (h.duplicates x hx t value hreason).imp fun i hi => ⟨hgrow hi.1, hi.2⟩
  cases item with
  | unsupported stixId pattern =>
      refine ⟨hseen, fun i hi => ?_, hproposals, fun x hx t value hreason => ?_⟩
      · rcases List.mem_append.mp hi with hi | hi
        · exact h.covered i hi
        · cases List.mem_singleton.mp hi
      · rcases List.mem_append.mp hx with hx | hx
        · exact hduplicates x hx t value hreason
        · obtain rfl := List.mem_singleton.mp hx
          cases hreason
  | extracted i =>
      have hnew : DetectableIndicator.extracted i ∈ done ++ [.extracted i] :=
        List.mem_append_right _ (List.mem_singleton_self _)
      rw [respondTo]
      split_ifs with hduplicate
      · refine ⟨hseen, fun j hj => ?_, hproposals, fun x hx t value hreason => ?_⟩
        · rcases List.mem_append.mp hj with hj | hj
          · exact h.covered j hj
          · cases List.mem_singleton.mp hj
            exact hduplicate
        · rcases List.mem_append.mp hx with hx | hx
          · exact hduplicates x hx t value hreason
          · obtain rfl := List.mem_singleton.mp hx
            cases hreason
            exact ⟨i, hnew, rfl, rfl⟩
      · refine ⟨fun k hk => ?_, fun j hj => ?_, fun p hp => ?_, hduplicates⟩
        · rcases List.mem_append.mp hk with hk | hk
          · obtain ⟨i, hi, hkey, hpropose⟩ := hseen k hk
            exact ⟨i, hi, hkey, List.mem_append_left _ hpropose⟩
          · obtain rfl := List.mem_singleton.mp hk
            exact ⟨i, hnew, rfl, List.mem_append_right _ (List.mem_singleton_self _)⟩
        · rcases List.mem_append.mp hj with hj | hj
          · exact List.mem_append_left _ (h.covered j hj)
          · cases List.mem_singleton.mp hj
            exact List.mem_append_right _ (List.mem_singleton_self _)
        · rcases List.mem_append.mp hp with hp | hp
          · exact hproposals p hp
          · obtain rfl := List.mem_singleton.mp hp
            exact ⟨i, hnew, rfl⟩

theorem responded_run (T : CharTable) (tools : RuleTools) (items : List DetectableIndicator) :
    Responded T tools items (items.foldl (respondTo T tools) ⟨[], [], []⟩) := by
  induction items using List.reverseRecOn with
  | nil =>
      exact ⟨fun k hk => absurd hk List.not_mem_nil, fun i hi => absurd hi List.not_mem_nil,
        fun p hp => absurd hp List.not_mem_nil, fun x hx => absurd hx List.not_mem_nil⟩
  | append_singleton items item ih =>
      rw [List.foldl_append]
      exact ih.step item

theorem proposed_iff : Proposed (respond T tools bundle) t value ↔
    ∃ i, .extracted i ∈ extractDetectableIndicators T bundle ∧ i.iocType = t ∧ i.value = value := by
  have h := responded_run T tools (extractDetectableIndicators T bundle)
  constructor
  · rintro (⟨p, hp, hproposed⟩ | ⟨x, hx, hreason⟩)
    · obtain ⟨i, hi, rfl⟩ := h.proposals p hp
      exact ⟨i, hi, proposedAs_iff.mp hproposed⟩
    · rcases List.mem_append.mp hx with hx | hx
      · exact h.duplicates x hx t value hreason
      · obtain ⟨obj, -, rfl⟩ := List.mem_map.mp hx
        cases hreason
  · rintro ⟨i, hi, rfl, rfl⟩
    obtain ⟨j, -, hkey, hpropose⟩ := h.seen _ (h.covered i hi)
    obtain ⟨htype, hvalue⟩ := dedupKey_inj.mp hkey
    exact Or.inl ⟨_, hpropose, proposedAs_iff.mpr ⟨htype, hvalue⟩⟩

end CtiToDetection

namespace CtiReport
open Stix CtiToDetection Regex

variable {T : CharTable} {tools : RuleTools} {t u : IocType} {v w inner text : List Char}
  {rows : List PatternRow} {label : String}

section Parse

-- A row of the table that the exchange has too.
def PatternRow.shared (row : PatternRow) : Option (String × IocType) :=
  match row.type with
  | .ioc t => some (row.path, t)
  | .cmdline => none

variable (T) in
def parseRow (inner : List Char) (row : PatternRow) : Option (PatternRow × String) :=
  if row.path.toList <:+: inner then
    (afterEquals inner).map fun rest => (row, String.ofList (literal T rest))
  else none

variable (T) in
def parseEntry (inner : List Char) (kv : String × IocType) : Option (IocType × List Char) :=
  if kv.1.toList <:+: inner then (afterEquals inner).map fun rest => (kv.2, literal T rest) else none

def typed (r : PatternRow × String) : DetectableType × String := (r.1.type, r.2)

def typedEntry (r : IocType × List Char) : DetectableType × String := (.ioc r.1, String.ofList r.2)

theorem parseRows (hrows : ∀ row ∈ rows, row.type = .cmdline → ¬ row.path.toList <:+: inner) :
    (rows.findSome? (parseRow T inner)).map typed =
      ((rows.filterMap PatternRow.shared).findSome? (parseEntry T inner)).map typedEntry := by
  induction rows with
  | nil => rfl
  | cons row rows ih =>
      obtain ⟨hrow, hlater⟩ := List.forall_mem_cons.mp hrows
      obtain ⟨path, type, category, product⟩ := row
      rw [List.findSome?_cons]
      cases type with
      | cmdline =>
          have hnone : parseRow T inner ⟨path, .cmdline, category, product⟩ = none := if_neg (hrow rfl)
          rw [hnone]
          exact ih hlater
      | ioc t =>
          have hshared : (⟨path, .ioc t, category, product⟩ :: rows).filterMap PatternRow.shared =
              (path, t) :: rows.filterMap PatternRow.shared := rfl
          rw [hshared, List.findSome?_cons]
          by_cases hpath : path.toList <:+: inner
          · cases hrest : afterEquals inner with
            | none => simp only [parseRow, parseEntry, hpath, if_true, hrest, Option.map_none, ih hlater]
            | some rest => simp only [parseRow, parseEntry, hpath, if_true, hrest, Option.map_some]; rfl
          · simp only [parseRow, parseEntry, hpath, if_false, ih hlater]

theorem commandLine_absent (h : ':' ∉ v) :
    ¬ "process:command_line".toList <:+: unwrap T (buildStixPattern (some .email) v) := by
  have hchars : ∀ c ∈ "process:command_line".toList, (33 ≤ c.toNat ∧ c.toNat < 127) ∧
      isBracket c = false ∧ c ≠ ' ' ∧ c ≠ '=' := by decide
  rw [ unwrap_infix T (fun c hc => (hchars c hc).1) fun c hc => (hchars c hc).2.1]
  have hbuild : buildStixPattern (some .email) v =
      "[email-addr:value".toList ++ ' ' :: ([] ++ '=' :: (' ' :: (quote :: (safeValue v ++ [quote, ']'])))) := by
    simp [buildStixPattern, IocType.path]
  rw [hbuild, Quoted.infix_append_cons fun h => (hchars _ h).2.2.1 rfl,
    Quoted.infix_append_cons fun h => (hchars _ h).2.2.2 rfl]
  rintro (hin | hin | hin)
  · exact absurd hin (by decide +kernel)
  · exact absurd hin (by decide +kernel)
  · have hcolon := hin.subset (show ':' ∈ "process:command_line".toList by decide)
    simp only [List.mem_cons, List.mem_append, List.not_mem_nil, or_false] at hcolon
    rcases hcolon with hc | hc | hc | hc | hc
    · exact absurd hc (by decide)
    · exact absurd hc (by decide)
    · rw [safeValue_eq] at hc
      rcases Quoted.mem_escape hc with hslash | hc
      · exact absurd hslash (by decide)
      · exact h hc
    · exact absurd hc (by decide)
    · exact absurd hc (by decide)

theorem path_found : t.path.toList <:+: unwrap T (buildStixPattern (some t) v) := by
  have hown : t.path.toList <:+: buildStixPattern (some t) v :=
    ⟨['['], _, by simp [buildStixPattern]; rfl⟩
  exact (path_infix_unwrap T (path_mem t)).mpr hown

theorem afterEquals_found : ∃ rest, afterEquals (unwrap T (buildStixPattern (some t) v)) = some rest := by
  apply Option.ne_none_iff_exists'.mp
  rw [Ne, afterEquals_eq_none, equals_mem_unwrap, not_not]
  simp [buildStixPattern]

-- The two parsers read the pattern of an indicator of a report as the same.
theorem parse_agrees (h : t = .email → ':' ∉ v) :
    (parseDetectable T (String.ofList (buildStixPattern (some t) v))).map typed =
      (parseStixPattern T (buildStixPattern (some t) v)).map typedEntry := by
  have hrun : parseDetectable T (String.ofList (buildStixPattern (some t) v)) =
      PATTERN_MAP.findSome? (parseRow T (unwrap T (buildStixPattern (some t) v))) := by
    rw [parseDetectable, String.toList_ofList]
    rfl
  have hrun' : parseStixPattern T (buildStixPattern (some t) v) =
      (PATTERN_MAP.filterMap PatternRow.shared).findSome?
        (parseEntry T (unwrap T (buildStixPattern (some t) v))) := rfl
  rw [hrun, hrun']
  by_cases hcommand : "process:command_line".toList <:+: unwrap T (buildStixPattern (some t) v)
  · -- The path of the type itself comes before that of command lines.
    have htype : t ≠ .email := by
      rintro rfl
      exact commandLine_absent (h rfl) hcommand
    have hown : ∃ row ∈ PATTERN_MAP.take 7, row.path = t.path := by
      cases t with
      | email => exact absurd rfl htype
      | _ => decide
    obtain ⟨row, hrow, hpath⟩ := hown
    obtain ⟨rest, hrest⟩ := afterEquals_found (T := T) (t := t) (v := v)
    have hcommands : ∀ row ∈ PATTERN_MAP.take 7, row.type ≠ .cmdline := by decide
    have hfirst : ((PATTERN_MAP.take 7).findSome?
        (parseRow T (unwrap T (buildStixPattern (some t) v)))).map typed =
          (((PATTERN_MAP.take 7).filterMap PatternRow.shared).findSome?
            (parseEntry T (unwrap T (buildStixPattern (some t) v)))).map typedEntry :=
      parseRows fun row hrow hcmd => absurd hcmd (hcommands row hrow)
    cases hfound : (PATTERN_MAP.take 7).findSome?
        (parseRow T (unwrap T (buildStixPattern (some t) v))) with
    | none =>
        have hnone := List.findSome?_eq_none_iff.mp hfound row hrow
        rw [parseRow, hpath, if_pos path_found, hrest] at hnone
        cases hnone
    | some found =>
        rw [hfound, Option.map_some] at hfirst
        obtain ⟨entry, hentry, htyped⟩ := Option.map_eq_some_iff.mp hfirst.symm
        have hsplit : PATTERN_MAP = PATTERN_MAP.take 7 ++ PATTERN_MAP.drop 7 := rfl
        rw [hsplit, List.filterMap_append, List.findSome?_append, List.findSome?_append, hfound, hentry,
          Option.some_or, Option.some_or, Option.map_some, Option.map_some, htyped]
  · refine parseRows fun row hrow hcmd => ?_
    have honly : ∀ row ∈ PATTERN_MAP, row.type = .cmdline → row.path = "process:command_line" := by
      decide
    rw [honly row hrow hcmd]
    exact hcommand

end Parse

section Legible

theorem bare_plain (hbare : ∀ c ∈ v, bare t c = true) (hslash : '\\' ∉ v) :
    ∀ c ∈ v, special c = false := by
  intro c hc
  have hquote : c ≠ quote := by
    rintro rfl
    exact absurd (hbare quote hc) (by cases t <;> decide)
  have hne : c ≠ '\\' := fun h => hslash (h ▸ hc)
  simp [special, hquote, hne]

theorem bare_not_quote (hbare : ∀ c ∈ v, bare t c = true) : ∀ c ∈ v, isQuoteMark c = false := by
  intro c hc
  have h := hbare c hc
  simp only [bare, Bool.and_eq_true, bne_iff_ne] at h
  simp [isQuoteMark, h.1.1, h.1.2]

theorem bare_tight (hbare : ∀ c ∈ v, bare t c = true) : Quoted.Tight isQuoteMark v :=
  ⟨fun c hc => bare_not_quote hbare c (List.mem_of_mem_head? hc),
    fun c hc => bare_not_quote hbare c (List.mem_of_mem_getLast? hc)⟩

theorem bare_colon (hbare : ∀ c ∈ v, bare t c = true) (htype : t ≠ .url) : ':' ∉ v ∧ '\\' ∉ v := by
  have hcolon : bare t ':' = false := by
    cases t <;> first | decide | exact absurd rfl htype
  have hslash : bare t '\\' = false := by
    cases t <;> first | decide | exact absurd rfl htype
  constructor
  · intro h
    rw [hbare _ h] at hcolon
    cases hcolon
  · intro h
    rw [hbare _ h] at hslash
    cases hslash

theorem legible_of_no_colon (hplain : ∀ c ∈ v, special c = false) (htight : Quoted.Tight isQuoteMark v)
    (hcolon : ':' ∉ v) : Legible t v := by
  refine ⟨hplain, htight, fun kv hkv hin => hcolon (hin.subset ?_)⟩
  have hpaths : ∀ kv ∈ STIX_PATTERN_TO_IOC_TYPE, ':' ∈ kv.1.toList := by decide
  exact hpaths kv ((List.takeWhile_sublist _).subset hkv)

theorem parse_value (hbare : ∀ c ∈ v, bare t c = true)
    (h : parseStixPattern T (buildStixPattern (some t) v) = some (u, w)) :
    w = Quoted.escape '\\' special v := by
  rw [build_eq_render, parse_render T (exportLayout_blank T) (path_mem t)] at h
  obtain ⟨_, -, hpair⟩ := Option.map_eq_some_iff.mp h
  rw [← (Prod.mk.inj hpair).2, safeValue_eq, Quoted.stripBy_of_tight]
  constructor
  · intro c hc
    rcases Quoted.head?_escape hc with rfl | hc
    · decide
    · exact bare_not_quote hbare c (List.mem_of_mem_head? hc)
  · intro c hc
    rw [Quoted.getLast?_escape] at hc
    exact bare_not_quote hbare c (List.mem_of_mem_getLast? hc)

variable (T) in
-- Every indicator is read back, from its own pattern or from that of another.
def ReadBack (found : Found) : Prop :=
  ∀ ioc ∈ found, ∃ ioc' ∈ found,
    parseStixPattern T (buildStixPattern (some ioc'.1) ioc'.2) = some (ioc.1, ioc.2)

-- The shortest value with a backslash is read back from no pattern.
theorem no_slash {found : Found} (hbare : ∀ ioc ∈ found, ∀ c ∈ ioc.2, bare ioc.1 c = true)
    (hback : ReadBack T found) {n : ℕ} : ∀ ioc ∈ found, ioc.2.length = n → '\\' ∉ ioc.2 := by
  induction n using Nat.strong_induction_on with
  | _ n ih =>
      intro ioc hioc hlength hslash
      obtain ⟨ioc', hioc', hparse⟩ := hback ioc hioc
      have hvalue := parse_value (hbare ioc' hioc') hparse
      by_cases hslash' : '\\' ∈ ioc'.2
      · have hlt : ioc'.2.length < ioc.2.length := by
          rw [hvalue]
          exact Quoted.length_lt_escape hslash' (by decide)
        exact ih _ (hlength ▸ hlt) ioc' hioc' rfl hslash'
      · rw [hvalue, Quoted.escape_plain (bare_plain (hbare ioc' hioc') hslash')] at hslash
        exact hslash' hslash

theorem readBack_iff {found : Found} (hbare : ∀ ioc ∈ found, ∀ c ∈ ioc.2, bare ioc.1 c = true) :
    ReadBack T found ↔ ∀ ioc ∈ found, Legible ioc.1 ioc.2 := by
  constructor
  · intro hback ioc hioc
    obtain ⟨⟨t', v'⟩, hioc', hparse⟩ := hback ioc hioc
    have hplain : ∀ c ∈ v', special c = false :=
      bare_plain (hbare _ hioc') (no_slash hbare hback (t', v') hioc' rfl)
    have hvalue := parse_value (hbare _ hioc') hparse
    rw [Quoted.escape_plain hplain] at hvalue
    obtain ⟨t, v⟩ := ioc
    obtain rfl : v = v' := hvalue
    by_cases htype : t = t'
    · subst htype
      exact (parse_build_iff T).mp hparse
    · have hcolon : ':' ∉ v := by
        by_cases hurl : t = .url
        · exact (bare_colon (hbare _ hioc') fun h => htype (hurl.trans h.symm)).1
        · exact (bare_colon (hbare _ hioc) hurl).1
      have hlegible : Legible t' v := legible_of_no_colon hplain (bare_tight (hbare _ hioc')) hcolon
      have hown := (parse_build_iff T).mpr hlegible
      rw [hown] at hparse
      exact absurd (Prod.mk.inj (Option.some.inj hparse)).1.symm htype
  · intro hlegible ioc hioc
    exact ⟨ioc, hioc, (parse_build_iff T).mpr (hlegible ioc hioc)⟩

def MISREAD_PATHS : List String := ["ipv4-addr:value", "ipv6-addr:value", "domain-name:value"]

theorem legible_iff (hbare : ∀ c ∈ v, bare t c = true) : Legible t v ↔
    (t = .url → '\\' ∉ v ∧ ∀ path ∈ MISREAD_PATHS, ¬ path.toList <:+: v) := by
  by_cases htype : t = .url
  · subst htype
    have hearlier : (earlier .url).map Prod.fst = MISREAD_PATHS := by decide
    rw [← hearlier, List.forall_mem_map]
    constructor
    · rintro ⟨hplain, -, hpaths⟩ -
      exact ⟨fun h => absurd (hplain _ h) (by decide), hpaths⟩
    · intro h
      obtain ⟨hslash, hpaths⟩ := h rfl
      exact ⟨bare_plain hbare hslash, bare_tight hbare, hpaths⟩
  · obtain ⟨hcolon, hslash⟩ := bare_colon hbare htype
    exact iff_of_true (legible_of_no_colon (bare_plain hbare hslash) (bare_tight hbare) hcolon)
      fun h => absurd h htype

end Legible

section Report

theorem extracted_report {found : Found} {id : String} {a : DetectableType} {value : String} :
    (∃ i, .extracted i ∈ extractDetectableIndicators T
        ⟨id, found.map (reportIndicator T tools text label)⟩ ∧ i.iocType = a ∧ i.value = value) ↔
      ∃ ioc ∈ found, (parseDetectable T (String.ofList (buildStixPattern (some ioc.1) ioc.2))).map typed =
        some (a, value) := by
  have hall : (found.map (reportIndicator T tools text label)).filter (·.type = "indicator") =
      found.map (reportIndicator T tools text label) := by
    refine List.filter_eq_self.mpr fun obj hobj => ?_
    obtain ⟨ioc, -, rfl⟩ := List.mem_map.mp hobj
    exact decide_eq_true rfl
  rw [extractDetectableIndicators, hall, List.map_map]
  constructor
  · rintro ⟨i, hi, rfl, rfl⟩
    obtain ⟨ioc, hioc, hdetect⟩ := List.mem_map.mp hi
    refine ⟨ioc, hioc, ?_⟩
    rw [Function.comp_apply, detectableIndicator] at hdetect
    split at hdetect
    · cases hdetect
    · next row value hparse =>
        have hparse' : parseDetectable T (String.ofList (buildStixPattern (some ioc.1) ioc.2)) =
            some (row, value) := hparse
        obtain rfl := DetectableIndicator.extracted.inj hdetect
        rw [hparse']
        rfl
  · rintro ⟨ioc, hioc, hparse⟩
    obtain ⟨⟨row, value'⟩, hrow, htyped⟩ := Option.map_eq_some_iff.mp hparse
    obtain ⟨rfl, rfl⟩ := Prod.mk.inj htyped
    have hdetect : (detectableIndicator T ∘ reportIndicator T tools text label) ioc =
        .extracted {
          stixId := (reportIndicator T tools text label ioc).id
          iocType := row.type
          value := value'
          logsourceCategory := row.category
          logsourceProduct := row.product
          confidence := indicatorConfidence (reportIndicator T tools text label ioc)
          name := (reportIndicator T tools text label ioc).name
          description := (reportIndicator T tools text label ioc).description
          killChainPhases := [] } := by
      have hrow' : parseDetectable T (reportIndicator T tools text label ioc).pattern = some (row, value') :=
        hrow
      rw [Function.comp_apply, detectableIndicator, hrow']
      rfl
    exact ⟨_, List.mem_map.mpr ⟨ioc, hioc, hdetect⟩, rfl, rfl⟩

theorem report_proposed {id : String} :
    (∀ ioc ∈ extractIocs T text, Proposed (respond T tools
        ⟨id, (extractIocs T text).map (reportIndicator T tools text label)⟩) (.ioc ioc.1)
          (String.ofList ioc.2)) ↔ ∀ ioc ∈ extractIocs T text, Legible ioc.1 ioc.2 := by
  have hbare : ∀ ioc ∈ extractIocs T text, ∀ c ∈ ioc.2, bare ioc.1 c = true :=
    fun ioc hioc => found_bare hioc
  rw [← readBack_iff (T := T) hbare, ReadBack]
  refine forall₂_congr fun ioc hioc => ?_
  rw [proposed_iff, extracted_report]
  refine exists_congr fun ioc' => and_congr_right fun hioc' => ?_
  have hcolon : ioc'.1 = .email → ':' ∉ ioc'.2 :=
    fun htype => (bare_colon (hbare ioc' hioc') (by rw [htype]; decide)).1
  rw [parse_agrees hcolon, Option.map_eq_some_iff]
  constructor
  · rintro ⟨⟨t, v⟩, hparse, htyped⟩
    obtain ⟨htype, hvalue⟩ : DetectableType.ioc t = .ioc ioc.1 ∧ String.ofList v = String.ofList ioc.2 :=
      Prod.mk.inj htyped
    rw [hparse, DetectableType.ioc.inj htype, String.ofList_injective hvalue]
  · intro hparse
    exact ⟨_, hparse, rfl⟩

theorem untagged {kvs : List (Option String × EgressPayload)}
    (h : ∀ key ∈ EgressPayload.TLP_FIELD_NAMES, some key ∉ kvs.map Prod.fst) :
    EgressPayload.redTagged kvs = false := by
  have hfields : EgressPayload.tlpFields kvs = [] :=
    List.filterMap_eq_nil_iff.mpr fun key hkey => OrderedDict.find_eq_none.mpr (h key hkey)
  rw [EgressPayload.redTagged, hfields]
  rfl

theorem bundle_not_red (bundle : CtiBundle) (hobjects : ∀ obj ∈ bundle.objects,
    EgressPayload.scan 2 obj.payload = false) :
    EgressPayload.scanPayloadForRed (bundlePayload bundle) = false := by
  have hitems : EgressPayload.scanItems 2 (bundle.objects.map CtiObject.payload) = false := by
    rw [EgressPayload.scanItems_eq_any, List.any_eq_false]
    intro p hp
    obtain ⟨obj, hobj, rfl⟩ := List.mem_map.mp hp
    rw [hobjects obj hobj]
    exact Bool.false_ne_true
  have hkeys : EgressPayload.redTagged [(some "type", .text "bundle"), (some "id", .text bundle.id),
      (some "objects", .seq (bundle.objects.map CtiObject.payload))] = false :=
    untagged (by simp only [List.map_cons, List.map_nil]; decide)
  simp only [EgressPayload.scanPayloadForRed, bundlePayload, EgressPayload.scan,
    EgressPayload.scanValues, hkeys, hitems, Bool.or_false]
  decide

theorem payload_not_red {obj : CtiObject} {a b c : String} (hrefs : obj.objectMarkingRefs = [])
    (hrest : obj.rest = [(some "spec_version", .text a), (some "pattern_type", .text b),
      (some "valid_from", .text c)]) : EgressPayload.scan 2 obj.payload = false := by
  rw [CtiObject.payload, hrefs, hrest, EgressPayload.scan, untagged, EgressPayload.scanValues_eq_any]
  · simp only [List.map_cons, List.map_nil, List.cons_append, List.nil_append,
      List.any_cons, List.any_nil, EgressPayload.scan, EgressPayload.scanItems, Bool.or_false]
    decide
  · simp only [List.map_cons, List.map_nil, List.cons_append, List.nil_append]
    decide

theorem process_report {found : Found} {id : String} {tlp : TLP} (htlp : tlp ≠ .red) :
    processStixBundle T tools ⟨id, found.map (reportIndicator T tools text label)⟩ tlp =
      .ok (respond T tools ⟨id, found.map (reportIndicator T tools text label)⟩) := by
  have hscan : EgressPayload.scanPayloadForRed
      (bundlePayload ⟨id, found.map (reportIndicator T tools text label)⟩) = false := by
    apply bundle_not_red
    intro obj hobj
    obtain ⟨ioc, -, rfl⟩ := List.mem_map.mp hobj
    exact payload_not_red rfl rfl
  have hmarking : bundleHasRedMarking ⟨id, found.map (reportIndicator T tools text label)⟩ = false := by
    rw [bundleHasRedMarking, List.any_eq_false]
    intro obj hobj
    obtain ⟨ioc, -, rfl⟩ := List.mem_map.mp hobj
    rw [decide_eq_true_eq]
    have hrefs : markingRefsToTlp [] ≠ some .red := by decide
    exact hrefs
  have hgate : (TlpEgress.assertTlpAllowsEgress
      (bundlePayload ⟨id, found.map (reportIndicator T tools text label)⟩) "stix_export" (.tlp tlp)
        none).result = .ok () := by
    have hkind : "stix_export" ∈ TlpEgress.VALID_EGRESS_KINDS := by decide
    have hctx : EgressPayload.resolveClassification (.tlp tlp) ≠ .red := htlp
    rw [TlpEgress.assertTlpAllowsEgress, if_neg (not_not.mpr hkind), if_neg hctx, hscan]
    rfl
  rw [processStixBundle, hgate, hmarking]
  rfl

end Report

section Domain

variable (T) in
def Outside (text : List Char) (i : ℕ) (w : List Char) (r : Regex) : Prop :=
  ∀ x ∈ occurrences T.isWord r text, i + w.length ≤ x.1 ∨ x.1 + x.2.length ≤ i

variable (T) in
-- The domain occurs outside all URLs and e-mail addresses and is not the name of a file.
def FreeDomain (text w : List Char) : Prop :=
  ∃ i, (i, w) ∈ occurrences T.isWord domainPattern text ∧ isFileName T w = false ∧
    Outside T text i w (urlPattern T) ∧ Outside T text i w emailPattern

end Domain

variable (T tools) in
structure NothingLost (reportText : List Char) (reportName : String) : Prop where
  proposed : ∀ bundle tlp, stixBundleFromReportText T tools reportText reportName = .ok bundle →
    tlp ≠ .red → ∃ response, processStixBundle T tools bundle tlp = .ok response ∧
      ∀ ioc ∈ extractIocs T (refang T reportText),
        Proposed response (.ioc ioc.1) (String.ofList ioc.2)
  extracted : ∀ w, FreeDomain T (refang T reportText) w →
    ∃ v, (.domain, v) ∈ extractIocs T (refang T reportText) ∧ lowered T v = lowered T w

variable (T) in
-- No URL that counts has a backslash or a path that is looked for before its own, and each free
-- domain occurs once, in some case, where it is no part of a URL or an e-mail address.
structure Legibly (reportText : List Char) : Prop where
  urls : trim T reportText ≠ [] → ∀ v,
    IsFirst (lowered T) (matchValues T (urlPattern T) (refang T reportText)) v →
      '\\' ∉ v ∧ ∀ path ∈ MISREAD_PATHS, ¬ path.toList <:+: v
  domains : ∀ w, FreeDomain T (refang T reportText) w →
    ∃ v ∈ matchValues T domainPattern (refang T reportText), isFileName T v = false ∧
      ¬ Shadowed T (refang T reportText) v ∧ lowered T v = lowered T w

theorem legible_all_iff : (∀ ioc ∈ extractIocs T text, Legible ioc.1 ioc.2) ↔
    ∀ v, IsFirst (lowered T) (matchValues T (urlPattern T) text) v →
      '\\' ∉ v ∧ ∀ path ∈ MISREAD_PATHS, ¬ path.toList <:+: v := by
  simp only [← mem_extract_url]
  constructor
  · exact fun h v hv => (legible_iff (found_bare hv)).mp (h (.url, v) hv) rfl
  · rintro h ⟨t, v⟩ hv
    refine (legible_iff (found_bare hv)).mpr ?_
    rintro rfl
    exact h v hv

section Example

def plainTools : RuleTools := ⟨id, none, fun _ => "", id⟩

-- The standalone `evil.com` is a part of the URL's host.
def shadowedReport : List Char := "Seen http://notevil.com/x and evil.com".toList

theorem shadowed_domain_lost : ¬ NothingLost .ascii plainTools shadowedReport "" := by
  intro h
  have hfree : FreeDomain .ascii (refang .ascii shadowedReport) "evil.com".toList := by
    refine ⟨30, by decide +kernel, by decide +kernel, ?_, ?_⟩
    · have hall : ∀ x ∈ occurrences CharTable.ascii.isWord (urlPattern .ascii) (refang .ascii shadowedReport),
          30 + "evil.com".toList.length ≤ x.1 ∨ x.1 + x.2.length ≤ 30 := by decide +kernel
      exact hall
    · have hall : ∀ x ∈ occurrences CharTable.ascii.isWord emailPattern (refang .ascii shadowedReport),
          30 + "evil.com".toList.length ≤ x.1 ∨ x.1 + x.2.length ≤ 30 := by decide +kernel
      exact hall
  obtain ⟨v, hv, -⟩ := h.extracted _ hfree
  have hfound : (extractIocs .ascii (refang .ascii shadowedReport)).map Prod.fst = [.url] := by
    decide +kernel
  have htype : IocType.domain ∈ (extractIocs .ascii (refang .ascii shadowedReport)).map Prod.fst :=
    List.mem_map_of_mem hv
  rw [hfound] at htype
  exact absurd htype (by decide)

end Example

theorem nothingLost_iff (T : CharTable) (tools : RuleTools) (reportText : List Char) (reportName : String) :
    NothingLost T tools reportText reportName ↔ Legibly T reportText := by
  have hdomains : (∀ w, FreeDomain T (refang T reportText) w →
      ∃ v, (.domain, v) ∈ extractIocs T (refang T reportText) ∧ lowered T v = lowered T w) ↔
      ∀ w, FreeDomain T (refang T reportText) w →
        ∃ v ∈ matchValues T domainPattern (refang T reportText), isFileName T v = false ∧
          ¬ Shadowed T (refang T reportText) v ∧ lowered T v = lowered T w :=
    forall₂_congr fun w _ => domain_found
  by_cases hblank : trim T reportText = []
  · constructor
    · exact fun h => ⟨fun hne => absurd hblank hne, hdomains.mp h.extracted⟩
    · refine fun h => ⟨fun bundle tlp hbundle => ?_, hdomains.mpr h.domains⟩
      rw [stixBundleFromReportText, if_pos hblank] at hbundle
      cases hbundle
  · by_cases hfound : extractIocs T (refang T reportText) = []
    · have hlegible : ∀ ioc ∈ extractIocs T (refang T reportText), Legible ioc.1 ioc.2 := by
        rw [hfound]
        simp
      have hurls := legible_all_iff.mp hlegible
      constructor
      · exact fun h => ⟨fun _ => hurls, hdomains.mp h.extracted⟩
      · refine fun h => ⟨fun bundle tlp hbundle => ?_, hdomains.mpr h.domains⟩
        rw [stixBundleFromReportText, if_neg hblank] at hbundle
        simp only [hfound, if_true] at hbundle
        cases hbundle
    · have hlabel : ∃ id label, stixBundleFromReportText T tools reportText reportName =
          .ok ⟨id, (extractIocs T (refang T reportText)).map
            (reportIndicator T tools (refang T reportText) label)⟩ := by
        rw [stixBundleFromReportText, if_neg hblank]
        simp only [hfound, if_false]
        exact ⟨_, _, rfl⟩
      obtain ⟨id, label, hok⟩ := hlabel
      constructor
      · refine fun h => ⟨fun _ => legible_all_iff.mp ?_, hdomains.mp h.extracted⟩
        obtain ⟨response, hresponse, hproposed⟩ := h.proposed _ .green hok (by decide)
        rw [process_report (by decide)] at hresponse
        obtain rfl := Except.ok.inj hresponse
        exact report_proposed.mp hproposed
      · refine fun h => ⟨fun bundle tlp hbundle htlp => ?_, hdomains.mpr h.domains⟩
        obtain rfl := Except.ok.inj (hok.symm.trans hbundle)
        exact ⟨_, process_report htlp, report_proposed.mpr (legible_all_iff.mpr (h.urls hblank))⟩

end CtiReport

end BTagent
