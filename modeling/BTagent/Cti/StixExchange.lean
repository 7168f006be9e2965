import BTagent.Cti.StixPattern
import BTagent.Lib.Monads
import BTagent.Security.TlpEgress
import Mathlib.Algebra.Order.Field.Rat

namespace BTagent

namespace TLP

-- `TLP(text)`
def ofValue (text : String) : Option TLP := all.find? fun t => t.value = text

theorem ofText_of_ofValue {text : String} {t : TLP} (h : ofValue text = some t) :
    ofText text = some t := by
  have htext : t.value = text := by simpa using List.find?_some h
  subst htext
  cases t <;> decide

end TLP

namespace Stix

def TLP_V1_MARKINGS : List (String × TLP) :=
  [("marking-definition--613f2e26-407d-48c7-9eca-b8e91df99dc9", .white),
    ("marking-definition--34098fce-860f-48ae-8e50-ebd3cc5e41da", .green),
    ("marking-definition--f88d31f6-486f-44da-b317-01333bde0b82", .amber),
    ("marking-definition--5e57c739-391a-4eb3-b6be-7d15ca92d5ed", .red)]

def TLP_V2_MARKINGS : List (String × TLP) :=
  [("marking-definition--94868c89-83c2-464b-929b-a1a8aa3c8487", .white),
    ("marking-definition--bab4a63c-aed9-4cf5-a766-dfca5abac2bb", .green),
    ("marking-definition--55d920b0-5e8b-4f79-9ee9-91f868d9b421", .amber),
    ("marking-definition--939a9414-2ddd-4d32-a0cd-375ea402b003", .amberStrict),
    ("marking-definition--e828b379-4e03-4974-9ac4-e53a884c97c1", .red)]

def MARKING_REF_TO_TLP : List (String × TLP) := TLP_V1_MARKINGS ++ TLP_V2_MARKINGS

def EXPORT_MARKING_VERSION : String := "2.0"

def RESTRICTIVENESS : List TLP := [.red, .amberStrict, .amber, .green, .white]

def markingRefsToTlp (refs : List String) : Option TLP :=
  let found := refs.filterMap fun ref => OrderedDict.find ref MARKING_REF_TO_TLP
  RESTRICTIVENESS.find? fun level => level ∈ found

inductive ExportError where
  | egress (e : EgressError)
  | valueError (level : String)

def tlpToMarkingRef (level version : String) : Except ExportError (Option String) :=
  match TLP.ofValue level with
  | none => .error (.valueError level)
  | some t =>
      let table := if version = "1.0" then TLP_V1_MARKINGS else TLP_V2_MARKINGS
      .ok ((table.find? fun kv => kv.2 = t).map Prod.fst)

-- An IOC dict; a key may be there with the value `None`. `enrichment` is a truthy value or none,
-- and `rest` the entries that only the egress gate reads.
structure Ioc where
  type : Option String
  value : Option String
  confidence : Option ℚ
  firstSeen : Option (Option String)
  context : Option (Option String)
  tlpLevel : Option String
  enrichment : Option EgressPayload
  rest : List (Option String × EgressPayload)

namespace Ioc

def payload (ioc : Ioc) : EgressPayload :=
  let text (key : String) (v : Option String) : List (Option String × EgressPayload) :=
    (v.map fun s => (some key, .text s)).toList
  .dict (text "type" ioc.type ++ text "value" ioc.value ++ text "tlp_level" ioc.tlpLevel ++
    (ioc.enrichment.map fun e => (some "enrichment", e)).toList ++ ioc.rest)

-- The level that the IOC's own `tlp_level` names; `clear` and `amber+strict` are TLP 2.0 names.
def ownLevel (ioc : Ioc) : Option TLP :=
  ioc.tlpLevel.bind fun s =>
    match TLP.ofText s with
    | some t => some t
    | none =>
        if s.toList.map Char.toLower = "clear".toList then some .white
        else if s.toList.map Char.toLower = "amber+strict".toList then some .amberStrict
        else none

end Ioc

structure StixObject where
  type : String
  id : String
  created : Option String
  modified : String
  name : String
  description : Option String
  pattern : String
  patternType : String
  validFrom : Option String
  confidence : Option ℤ
  labels : List String
  objectMarkingRefs : List String
  enrichment : Option EgressPayload

structure StixBundle where
  id : String
  objects : List StixObject

-- `_deterministic_id` and the digest of the indicators' ids.
structure Ids where
  deterministicId : String → String → String
  digest : List String → String

variable (ids : Ids) (now : String)

-- An indicator without its marking; a confidence below 0 becomes 0, so that `int` may round down.
def indicator (ref : Option String) (ioc : Ioc) : StixObject where
  type := "indicator"
  id := ids.deterministicId "indicator" (ioc.type.getD "unknown" ++ ":" ++ ioc.value.getD "")
  created := ioc.firstSeen.getD (some now)
  modified := now
  name := "BTagent IOC: " ++ ioc.type.getD "unknown" ++ " - " ++ ioc.value.getD ""
  description := ioc.context.getD (some ("IOC of type " ++ ioc.type.getD "unknown"))
  pattern := String.ofList
    (buildStixPattern (IocType.ofName (ioc.type.getD "unknown")) (ioc.value.getD "").toList)
  patternType := "stix"
  validFrom := ioc.firstSeen.getD (some now)
  confidence := some (min 100 (max 0 (ioc.confidence.getD (1 / 2) * 100).floor))
  labels := [ioc.type.getD "unknown"]
  objectMarkingRefs := ref.toList
  enrichment := ioc.enrichment

def iocToStixIndicator (level : String) (ioc : Ioc) : Except ExportError StixObject :=
  (tlpToMarkingRef level EXPORT_MARKING_VERSION).map fun ref => indicator ids now ref ioc

def stixBundleFromIocs (iocs : List Ioc) (level : String) : Except ExportError StixBundle :=
  match (TlpEgress.assertTlpAllowsEgress (.seq (iocs.map Ioc.payload)) "stix_export" (.text level)
      none).result with
  | .error e => .error (.egress e)
  | .ok () => do
      let indicators ← iocs.mapM (iocToStixIndicator ids now level)
      return { id := ids.deterministicId "bundle" (ids.digest (indicators.map StixObject.id))
               objects := indicators }

structure ImportedIoc where
  type : String
  value : String
  confidence : ℚ
  context : Option String
  source : String
  tlpLevel : String
  investigationId : String
  enrichment : Option EgressPayload

variable (T : CharTable)

def importObject (investigationId source defaultTlp : String) (obj : StixObject) :
    Option ImportedIoc :=
  if obj.type ≠ "indicator" then none
  else (parseStixPattern T obj.pattern.toList).map fun parsed =>
    { type := parsed.1.name
      value := String.ofList parsed.2
      confidence := obj.confidence.getD 50 / 100
      context := obj.description
      source := source
      tlpLevel := match markingRefsToTlp obj.objectMarkingRefs with
        | some t => t.value
        | none => defaultTlp
      investigationId := investigationId
      enrichment := obj.enrichment }

def stixToIocs (bundle : StixBundle) (investigationId source defaultTlp : String) :
    List ImportedIoc :=
  bundle.objects.filterMap (importObject T investigationId source defaultTlp)

section Export
variable {ids now} {iocs : List Ioc} {level : String} {bundle : StixBundle} {t : TLP}

theorem tlpToMarkingRef_ok (h : TLP.ofValue level = some t) :
    ∃ ref, tlpToMarkingRef level EXPORT_MARKING_VERSION = .ok (some ref) ∧
      markingRefsToTlp [ref] = some t := by
  unfold tlpToMarkingRef
  rw [h]
  cases t <;> exact ⟨_, rfl, by decide⟩

theorem mapM_ok {ref : Option String}
    (href : tlpToMarkingRef level EXPORT_MARKING_VERSION = .ok ref) :
    iocs.mapM (iocToStixIndicator ids now level) = .ok (iocs.map (indicator ids now ref)) := by
  induction iocs with
  | nil => rfl
  | cons ioc iocs ih =>
      rw [List.mapM_cons, ih]
      simp only [iocToStixIndicator, href]
      rfl

theorem export_gate (h : stixBundleFromIocs ids now iocs level = .ok bundle) :
    (TlpEgress.assertTlpAllowsEgress (.seq (iocs.map Ioc.payload)) "stix_export" (.text level)
      none).result = .ok () ∧
      iocs.mapM (iocToStixIndicator ids now level) = .ok bundle.objects := by
  unfold stixBundleFromIocs at h
  split at h
  · cases h
  · next hgate =>
      obtain ⟨objects, hobjects, hbundle⟩ := Except.bind_ok_iff.mp h
      cases hbundle
      exact ⟨hgate, hobjects⟩

theorem export_objects (h : stixBundleFromIocs ids now iocs level = .ok bundle)
    (hlevel : TLP.ofValue level = some t) :
    ∃ ref, bundle.objects = iocs.map (indicator ids now (some ref)) ∧
      markingRefsToTlp [ref] = some t := by
  obtain ⟨ref, href, hread⟩ := tlpToMarkingRef_ok hlevel
  have hobjects := (export_gate h).2
  rw [mapM_ok href] at hobjects
  exact ⟨ref, (Except.ok.inj hobjects).symm, hread⟩

theorem export_unknown_level (h : stixBundleFromIocs ids now iocs level = .ok bundle)
    (hlevel : TLP.ofValue level = none) : iocs = [] := by
  have hobjects := (export_gate h).2
  cases iocs with
  | nil => rfl
  | cons ioc iocs =>
      rw [List.mapM_cons] at hobjects
      obtain ⟨obj, hobj, -⟩ := Except.bind_ok_iff.mp hobjects
      simp only [iocToStixIndicator, tlpToMarkingRef, hlevel] at hobj
      cases hobj

theorem export_of_gate (hlevel : TLP.ofValue level = some t)
    (hgate : ¬ (TlpEgress.assertTlpAllowsEgress (.seq (iocs.map Ioc.payload)) "stix_export"
      (.text level) none).Raises) :
    ∃ bundle, stixBundleFromIocs ids now iocs level = .ok bundle := by
  obtain ⟨ref, href, -⟩ := tlpToMarkingRef_ok hlevel
  unfold stixBundleFromIocs
  rw [not_not.mp hgate]
  simp only [mapM_ok href]
  exact ⟨_, rfl⟩

end Export

def NeverDowngraded (iocs : List Ioc) (level : String) : Prop :=
  ∀ bundle, stixBundleFromIocs ids now iocs level = .ok bundle →
    ∀ (i : ℕ) (ioc : Ioc) (obj : StixObject), iocs[i]? = some ioc → bundle.objects[i]? = some obj →
      ∀ own ∈ ioc.ownLevel, ∃ marked, markingRefsToTlp obj.objectMarkingRefs = some marked ∧
        own.order ≤ marked.order

theorem gate_below_red {iocs : List Ioc} {level : String} {t : TLP}
    (hlevel : TLP.ofValue level = some t) :
    (TlpEgress.assertTlpAllowsEgress (.seq (iocs.map Ioc.payload)) "stix_export" (.text level)
      none).Raises ↔
      t = .red ∨ EgressPayload.HasRed (.seq (iocs.map Ioc.payload)) ∨
        EgressPayload.TooDeep (.seq (iocs.map Ioc.payload)) := by
  have hresolve : EgressPayload.resolveClassification (.text level) = t := by
    simp only [EgressPayload.resolveClassification, EgressPayload.coerceTlp,
      TLP.ofText_of_ofValue hlevel, Option.getD_some]
  have hkind : "stix_export" ∈ TlpEgress.VALID_EGRESS_KINDS := by decide
  rw [TlpEgress.raises_iff, hresolve, EgressPayload.scanPayloadForRed_iff]
  simp [hkind]

def plainIds : Ids where
  deterministicId p v := p ++ v
  digest _ := ""

def amberIoc : Ioc where
  type := some "domain"
  value := some "c2.example"
  confidence := none
  firstSeen := none
  context := none
  tlpLevel := some "amber"
  enrichment := none
  rest := []

section RoundTrip

-- An IOC of one of the types that have an object path.
structure MappedIoc extends Ioc where
  mapped : IocType
  text : String
  type_eq : toIoc.type = some mapped.name
  value_eq : toIoc.value = some text

def earlier (t : IocType) : List (String × IocType) :=
  STIX_PATTERN_TO_IOC_TYPE.takeWhile fun kv => kv.1 ≠ t.path

def Legible (t : IocType) (value : List Char) : Prop :=
  (∀ c ∈ value, special c = false) ∧ Quoted.Tight isQuoteMark value ∧
    ∀ kv ∈ earlier t, ¬ kv.1.toList <:+: value

variable {t : IocType} {value : List Char} {kv : String × IocType}

def exportLayout : Layout where
  lead := []
  start := []
  beforeOp := [' ']
  afterOp := [' ']
  finish := []
  trail := []

theorem exportLayout_blank : ∀ c ∈ exportLayout.spaces, T.isSpace c = true := by
  intro c hc
  have hspace : c = ' ' := by simpa [exportLayout, Layout.spaces] using hc
  rw [hspace, T.space_ascii ' ' (by decide)]
  decide

theorem build_eq_render :
    buildStixPattern (some t) value =
      exportLayout.render t.path.toList ['='] (safeValue value) := by
  simp [buildStixPattern, exportLayout, Layout.render, Layout.inner]

theorem path_mem (t : IocType) : (t.path, t) ∈ STIX_PATTERN_TO_IOC_TYPE := by
  cases t <;> decide

theorem table_split (t : IocType) :
    ∃ later, STIX_PATTERN_TO_IOC_TYPE = earlier t ++ (t.path, t) :: later := by
  cases t <;> exact ⟨_, rfl⟩

theorem earlier_type (h : kv ∈ earlier t) : kv.2 ≠ t := by
  have hall : ∀ kv ∈ earlier t, kv.2 ≠ t := by cases t <;> decide
  exact hall kv h

theorem earlier_path (h : kv ∈ earlier t) : ¬ kv.1.toList <:+: t.path.toList := by
  have hall : ∀ kv ∈ earlier t, ¬ kv.1.toList <:+: t.path.toList := by
    cases t <;> decide
  exact hall kv h

theorem firstType_eq_some {s : List Char} (hown : t.path.toList <:+: s) :
    firstType s = some t ↔ ∀ kv ∈ earlier t, ¬ kv.1.toList <:+: s := by
  obtain ⟨later, hsplit⟩ := table_split t
  unfold firstType
  rw [hsplit, List.find?_append, List.find?_cons_of_pos (by simpa using hown)]
  constructor
  · intro hfirst kv hkv hin
    cases hfind : (earlier t).find? fun kv => kv.1.toList <:+: s with
    | none => exact absurd hin (by simpa using List.find?_eq_none.mp hfind kv hkv)
    | some found =>
        rw [hfind] at hfirst
        exact earlier_type (List.mem_of_find?_eq_some hfind) (Option.some.inj hfirst)
  · intro hnone
    have hfind : ((earlier t).find? fun kv => kv.1.toList <:+: s) = none := by
      rw [List.find?_eq_none]
      intro kv hkv
      simpa using hnone kv hkv
    rw [hfind]
    rfl

theorem infix_quoted (hkv : kv ∈ STIX_PATTERN_TO_IOC_TYPE) (hquote : quote ∉ value) :
    kv.1.toList <:+: quote :: (value ++ [quote]) → kv.1.toList <:+: value := by
  have hcount : ∀ kv ∈ STIX_PATTERN_TO_IOC_TYPE, quote ∉ kv.1.toList ∨
      kv.1.toList.count quote = 2 ∧ kv.1.toList.head? = some 'f' := by decide
  have hne : ∀ kv ∈ STIX_PATTERN_TO_IOC_TYPE, kv.1.toList ≠ [] := by decide
  intro hin
  rcases hcount kv hkv with hfree | ⟨htwo, hhead⟩
  · have hopen : kv.1.toList <:+: [] ++ quote :: (value ++ [quote]) := hin
    rcases (Quoted.infix_append_cons hfree).mp hopen with h | h
    · exact absurd (List.infix_nil.mp h) (hne kv hkv)
    · rcases (Quoted.infix_append_cons hfree).mp h with h | h
      · exact h
      · exact absurd (List.infix_nil.mp h) (hne kv hkv)
  · obtain ⟨x, y, hxy⟩ := hin
    have hsum := congrArg (List.count quote) hxy
    have hvalue : value.count quote = 0 := List.count_eq_zero.mpr hquote
    simp only [List.count_append, List.count_cons_self, List.count_nil, htwo, hvalue] at hsum
    have hx : x.count quote = 0 := by omega
    cases x with
    | nil =>
        obtain ⟨w, hw⟩ := List.head?_eq_some_iff.mp hhead
        rw [hw] at hxy
        exact absurd (List.cons.inj hxy).1 (by decide)
    | cons c x =>
        have hc : c = quote := (List.cons.inj hxy).1
        rw [hc, List.count_cons_self] at hx
        omega

theorem infix_pattern (hkv : kv ∈ earlier t) (hplain : ∀ c ∈ value, special c = false) :
    kv.1.toList <:+: buildStixPattern (some t) value ↔ kv.1.toList <:+: value := by
  have hmem : kv ∈ STIX_PATTERN_TO_IOC_TYPE := (List.takeWhile_sublist _).subset hkv
  have hfree : ∀ kv ∈ STIX_PATTERN_TO_IOC_TYPE, ∀ c ∈ ['[', ' ', '=', ']'], c ∉ kv.1.toList := by
    decide
  have hne : ∀ kv ∈ STIX_PATTERN_TO_IOC_TYPE, kv.1.toList ≠ [] := by decide
  have hquote : quote ∉ value := fun h => absurd (hplain quote h) (by decide)
  have hbuild : buildStixPattern (some t) value =
      [] ++ '[' :: (t.path.toList ++ ' ' :: ([] ++ '=' :: ([] ++ ' ' ::
        (quote :: (value ++ [quote]) ++ ']' :: [])))) := by
    rw [buildStixPattern, safeValue_eq, Quoted.escape_plain hplain]
    simp
  have hnil : ¬ kv.1.toList <:+: [] := fun h => hne kv hmem (List.infix_nil.mp h)
  have hside : ∀ c ∈ ['[', ' ', '=', ']'], ∀ a b, kv.1.toList <:+: a ++ c :: b ↔
      kv.1.toList <:+: a ∨ kv.1.toList <:+: b :=
    fun c hc a b => Quoted.infix_append_cons (hfree kv hmem c hc)
  rw [hbuild, hside '[' (by decide), hside ' ' (by decide), hside '=' (by decide),
    hside ' ' (by decide), hside ']' (by decide)]
  constructor
  · rintro (h | h | h | h | h | h)
    · exact absurd h hnil
    · exact absurd h (earlier_path hkv)
    · exact absurd h hnil
    · exact absurd h hnil
    · exact infix_quoted hmem hquote h
    · exact absurd h hnil
  · intro h
    have hin : kv.1.toList <:+: quote :: (value ++ [quote]) :=
      h.trans ⟨[quote], [quote], by simp⟩
    tauto

theorem parse_build_iff :
    parseStixPattern T (buildStixPattern (some t) value) = some (t, value) ↔ Legible t value := by
  have hown : t.path.toList <:+: buildStixPattern (some t) value :=
    ⟨['['], _, by simp [buildStixPattern]; rfl⟩
  have hparse : parseStixPattern T (buildStixPattern (some t) value) =
      (firstType (buildStixPattern (some t) value)).map fun u =>
        (u, Quoted.stripBy isQuoteMark (safeValue value)) := by
    rw [build_eq_render]
    have hrender : parseStixPattern T
        (exportLayout.render (t.path, t).1.toList ['='] (safeValue value)) =
        (firstType (exportLayout.render (t.path, t).1.toList ['='] (safeValue value))).map fun u =>
          (u, Quoted.stripBy isQuoteMark (safeValue value)) :=
      parse_render T (exportLayout_blank T) (path_mem t)
    exact hrender
  rw [hparse]
  constructor
  · intro h
    obtain ⟨u, hfirst, hpair⟩ := Option.map_eq_some_iff.mp h
    obtain ⟨rfl, hvalue⟩ := Prod.mk.inj hpair
    rw [safeValue_eq] at hvalue
    obtain ⟨hplain, htight⟩ := (Quoted.stripBy_escape_iff (by decide)).mp hvalue
    refine ⟨hplain, htight, ?_⟩
    intro kv hkv hin
    exact (firstType_eq_some hown).mp hfirst kv hkv ((infix_pattern hkv hplain).mpr hin)
  · rintro ⟨hplain, htight, hpaths⟩
    have hfirst : firstType (buildStixPattern (some t) value) = some t := by
      rw [firstType_eq_some hown]
      intro kv hkv hin
      exact hpaths kv hkv ((infix_pattern hkv hplain).mp hin)
    rw [hfirst, safeValue_eq, Quoted.escape_plain hplain, Quoted.stripBy_of_tight htight]
    rfl

theorem name_inj {u : IocType} (h : u.name = t.name) : u = t := by
  have hofName := IocType.ofName_name u
  rw [h, IocType.ofName_name] at hofName
  exact (Option.some.inj hofName).symm

theorem parse_build_isSome :
    ∃ parsed, parseStixPattern T (buildStixPattern (some t) value) = some parsed := by
  have hin : (t.path, t).1.toList <:+: buildStixPattern (some t) value :=
    ⟨['['], _, by simp [buildStixPattern]; rfl⟩
  have hequals : '=' ∈ buildStixPattern (some t) value := by simp [buildStixPattern]
  apply Option.ne_none_iff_exists'.mp
  rw [Ne, ← unrecognised_iff T]
  rintro (hnone | hmissing)
  · exact hnone _ (path_mem t) hin
  · exact hmissing hequals

variable (investigationId source defaultTlp : String)

theorem import_indicator (ref : Option String) (ioc : MappedIoc) :
    ∃ imported,
      importObject T investigationId source defaultTlp (indicator ids now ref ioc.toIoc) =
        some imported ∧
      ((imported.type, imported.value) = (ioc.mapped.name, ioc.text) ↔
        Legible ioc.mapped ioc.text.toList) := by
  have hpattern : (indicator ids now ref ioc.toIoc).pattern.toList =
      buildStixPattern (some ioc.mapped) ioc.text.toList := by
    simp [indicator, ioc.type_eq, ioc.value_eq, IocType.ofName_name]
  have hparsed : ∃ parsed, parseStixPattern T
      (buildStixPattern (some ioc.mapped) ioc.text.toList) = some parsed := parse_build_isSome T
  obtain ⟨⟨u, w⟩, hparse⟩ := hparsed
  unfold importObject
  rw [if_neg (by simp [indicator]), hpattern, hparse]
  refine ⟨_, rfl, ?_⟩
  rw [← parse_build_iff T, hparse]
  simp only [Prod.mk.injEq, Option.some.injEq]
  constructor
  · rintro ⟨hname, hvalue⟩
    exact ⟨name_inj hname, by rw [← hvalue, String.toList_ofList]⟩
  · rintro ⟨rfl, rfl⟩
    exact ⟨rfl, String.ofList_toList⟩

theorem exchange_round_trip_iff (iocs : List MappedIoc) (level : String) (bundle : StixBundle)
    (hexport : stixBundleFromIocs ids now (iocs.map MappedIoc.toIoc) level = .ok bundle) :
    (stixToIocs T bundle investigationId source defaultTlp).map (fun i => (i.type, i.value)) =
        iocs.map (fun i => (i.mapped.name, i.text)) ↔
      ∀ ioc ∈ iocs, Legible ioc.mapped ioc.text.toList := by
  cases hlevel : TLP.ofValue level with
  | none =>
      have hnil : iocs = [] := List.map_eq_nil_iff.mp (export_unknown_level hexport hlevel)
      subst hnil
      have hobjects : [] = bundle.objects := Except.ok.inj (export_gate hexport).2
      simp [stixToIocs, ← hobjects]
  | some t =>
      obtain ⟨ref, hobjects, -⟩ := export_objects hexport hlevel
      unfold stixToIocs
      rw [hobjects]
      clear hexport hobjects
      induction iocs with
      | nil => simp
      | cons ioc iocs ih =>
          obtain ⟨imported, himport, hkey⟩ :=
            import_indicator ids now T investigationId source defaultTlp (some ref) ioc
          rw [List.map_cons, List.map_cons, List.filterMap_cons_some himport, List.map_cons,
            List.map_cons, List.cons_eq_cons, hkey, ih, List.forall_mem_cons]

def exportedUrl : MappedIoc where
  type := some "url"
  value := some "http://c2.example/?q=it's"
  confidence := none
  firstSeen := none
  context := none
  tlpLevel := some "green"
  enrichment := none
  rest := []
  mapped := .url
  text := "http://c2.example/?q=it's"
  type_eq := rfl
  value_eq := rfl

def exportedAddress : MappedIoc where
  type := some "ip"
  value := some "203.0.113.7"
  confidence := none
  firstSeen := none
  context := none
  tlpLevel := some "green"
  enrichment := none
  rest := []
  mapped := .ip
  text := "203.0.113.7"
  type_eq := rfl
  value_eq := rfl

theorem exchange_round_trip_address :
    ∃ bundle, stixBundleFromIocs plainIds "" [exportedAddress.toIoc] "green" = .ok bundle ∧
      (stixToIocs .ascii bundle "" "stix_import" "green").map (fun i => (i.type, i.value)) =
        [("ip", "203.0.113.7")] := by
  have hgate : (TlpEgress.assertTlpAllowsEgress
      (.seq ([exportedAddress.toIoc].map Ioc.payload)) "stix_export" (.text "green")
      none).result = .ok () := by decide
  have hlevel : TLP.ofValue "green" = some .green := by decide
  have hexport : ∃ bundle,
      stixBundleFromIocs plainIds "" ([exportedAddress].map MappedIoc.toIoc) "green" = .ok bundle :=
    export_of_gate hlevel (not_not.mpr hgate)
  obtain ⟨bundle, hbundle⟩ := hexport
  refine ⟨bundle, hbundle, ?_⟩
  apply (exchange_round_trip_iff plainIds "" .ascii "" "stix_import" "green" [exportedAddress] "green" bundle
    hbundle).mpr
  intro ioc hioc
  rw [List.mem_singleton.mp hioc]
  refine ⟨by decide, by decide, ?_⟩
  decide

theorem url_keeps_backslash :
    ∃ bundle, stixBundleFromIocs plainIds "" [exportedUrl.toIoc] "green" = .ok bundle ∧
      (stixToIocs .ascii bundle "" "stix_import" "green").map (fun i => (i.type, i.value)) =
        [("url", "http://c2.example/?q=it\\'s")] := by
  have hrun : (stixBundleFromIocs plainIds "" [exportedUrl.toIoc] "green").toOption.any fun bundle =>
      decide ((stixToIocs .ascii bundle "" "stix_import" "green").map (fun i => (i.type, i.value)) =
        [("url", "http://c2.example/?q=it\\'s")]) := by
    decide
  obtain ⟨bundle, hbundle, hdec⟩ := (Option.any_eq_true _ _).mp hrun
  refine ⟨bundle, ?_, of_decide_eq_true hdec⟩
  cases hexport : stixBundleFromIocs plainIds "" [exportedUrl.toIoc] "green" with
  | error e => rw [hexport] at hbundle; cases hbundle
  | ok found =>
      rw [hexport] at hbundle
      exact congrArg Except.ok (Option.some.inj hbundle)

end RoundTrip

end Stix

end BTagent
