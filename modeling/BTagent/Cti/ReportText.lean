import BTagent.Cti.CtiToDetection
import BTagent.Lib.Firsts
import BTagent.Lib.Regex
import BTagent.Lib.Rewriting

namespace BTagent

inductive ReportError where
  | empty
  | noIocs
  deriving DecidableEq

namespace CtiReport
open Stix CtiToDetection Regex

variable (T : CharTable)

-- A text of a pattern under `IGNORECASE`.
def anyCase (s : String) : Regex :=
  .sets (s.toList.map fun c => if c.isAlpha then T.sameLetter c else (· == c))

def exactly (s : String) : Regex := .sets (s.toList.map fun c => (· == c))

-- `_REFANG_RULES`
def REFANG_RULES : List (String × String) :=
  [("hxxps://", "https://"), ("hxxp://", "http://"), ("[.]", "."), ("(.)", "."), ("[dot]", "."),
    ("(dot)", "."), ("[at]", "@"), ("(at)", "@"), ("[:]", ":"), ("[://]", "://")]

def refang (text : List Char) : List Char :=
  REFANG_RULES.foldl (fun text rule => Regex.sub T.isWord (anyCase T rule.1) (fun _ => rule.2.toList) text)
    text

def isHexDigit (c : Char) : Bool := c.isDigit || ('a' ≤ c && c ≤ 'f') || ('A' ≤ c && c ≤ 'F')

def isUrlChar (c : Char) : Bool := !T.isSpace c && c ∉ ['"', '\x27', '<', '>', ')', ']']

def isMailboxChar (c : Char) : Bool := c.isAlphanum || c ∈ ['.', '_', '%', '+', '-']

def isMailHostChar (c : Char) : Bool := c.isAlphanum || c ∈ ['.', '-']

def isLabelChar (c : Char) : Bool := c.isAlphanum || c == '-'

def bounded (r : Regex) : Regex := .seq .boundary (.seq r .boundary)

-- `[a-zA-Z]{2,}`
def topLevel : Regex := .seq (.set Char.isAlpha) (.plus (.set Char.isAlpha))

def hashPattern (n : ℕ) : Regex := bounded (.sets (List.replicate n isHexDigit))

def urlPattern : Regex :=
  .seq .boundary (.seq (anyCase T "http") (.seq (.opt (.set (T.sameLetter 's')))
    (.seq (exactly "://") (.plus (.set (isUrlChar T))))))

def emailPattern : Regex :=
  bounded (.seq (.plus (.set isMailboxChar)) (.seq (.char '@') (.seq (.plus (.set isMailHostChar))
    (.seq (.char '.') topLevel))))

-- `\d{1,3}`
def octet : Regex := .seq (.set T.isDigit) (.upTo 2 (.set T.isDigit))

def ipPattern : Regex :=
  let dotted : Regex := .seq (octet T) (.char '.')
  bounded (.seq dotted (.seq dotted (.seq dotted (octet T))))

def domainLabel : Regex :=
  .seq (.set Char.isAlphanum) (.opt (.seq (.upTo 61 (.set isLabelChar)) (.set Char.isAlphanum)))

def domainPattern : Regex := bounded (.seq (.plus (.seq domainLabel (.char '.'))) topLevel)

-- `_REPORT_IOC_PATTERNS`
def REPORT_IOC_PATTERNS : List (IocType × Regex) :=
  [(.hashSha256, hashPattern 64), (.hashSha1, hashPattern 40), (.hashMd5, hashPattern 32),
    (.url, urlPattern T), (.email, emailPattern), (.ip, ipPattern T), (.domain, domainPattern)]

-- `_NON_ROUTABLE_IP`
def NON_ROUTABLE_IP : Regex :=
  .alt (exactly "10.") (.alt (exactly "127.") (.alt (exactly "169.254.") (.alt (exactly "192.168.")
    (.alt (.seq (exactly "172.") (.seq (.alt (.seq (.char '1') (.set fun c => '6' ≤ c && c ≤ '9'))
      (.alt (.seq (.char '2') (.set T.isDigit)) (.seq (.char '3') (.set fun c => c == '0' || c == '1'))))
      (.char '.'))) (.alt (exactly "0.") (exactly "255."))))))

def isNonRoutable (value : List Char) : Bool :=
  !(splits T.isWord (NON_ROUTABLE_IP T) none value).isEmpty

-- `_NOT_TLDS`
def NOT_TLDS : List String :=
  ["exe", "dll", "bat", "ps1", "php", "asp", "aspx", "js", "vbs", "zip", "rar", "doc", "docx", "xls",
    "xlsx", "pdf", "txt", "log", "tmp", "dat", "bin", "sh", "py", "yml", "yaml", "json", "xml", "html",
    "htm", "local", "internal", "lan"]

def lowered (value : List Char) : String := T.lower (String.ofList value)

-- The domain is taken for the name of a file.
def isFileName (value : List Char) : Bool := lowered T (value.rtakeWhile (· != '.')) ∈ NOT_TLDS

def trimmed (w : List Char) : List Char := w.rdropWhile fun c => c ∈ ['.', ',', ';']

abbrev Found := List (IocType × List Char)

def iocKey (t : IocType) (value : List Char) : String := t.name ++ ":" ++ lowered T value

-- The domain is a part of a URL or of an e-mail address that was found.
def isPartOf (found : Found) (value : List Char) : Bool :=
  found.any fun f => (f.1 = .url ∨ f.1 = .email) ∧ value <:+: f.2

def excluded (found : Found) (t : IocType) (value : List Char) : Bool :=
  match t with
  | .ip => isNonRoutable T value
  | .domain => isFileName T value || isPartOf found value
  | _ => false

def collect (t : IocType) (found : Found) (w : List Char) : Found :=
  let value := trimmed w
  if excluded T found t value then found
  else if iocKey T t value ∈ found.map fun f => iocKey T f.1 f.2 then found
  else found ++ [(t, value)]

def collectAll (text : List Char) (found : Found) (p : IocType × Regex) : Found :=
  (finditer T.isWord p.2 text).foldl (collect T p.1) found

-- The extraction from a refanged text; `seen` and `url_values` are read off what was found.
def extractIocs (text : List Char) : Found := (REPORT_IOC_PATTERNS T).foldl (collectAll T text) []

def findText (value text : List Char) : Option ℕ :=
  (List.range (text.length + 1)).find? fun i => value <+: text.drop i

def words (s : List Char) : List (List Char) := (s.splitOnP T.isSpace).filter (· ≠ [])

def contextWindow (text value : List Char) : List Char :=
  match findText value text with
  | none => []
  | some i => [' '].intercalate
      (words T ((text.take (min text.length (i + value.length + 160))).drop (i - 160)))

variable (tools : RuleTools)

def reportIndicator (text : List Char) (label : String) (ioc : IocType × List Char) : CtiObject where
  type := "indicator"
  id := "indicator--" ++ tools.uuid5 ("btagent-report:" ++ iocKey T ioc.1 ioc.2)
  name := ioc.1.name ++ " extracted from " ++ label
  description := String.ofList (contextWindow T text ioc.2)
  pattern := String.ofList (buildStixPattern (some ioc.1) ioc.2)
  killChainPhases := []
  confidence := none
  objectMarkingRefs := []
  rest := [(some "spec_version", .text "2.1"), (some "pattern_type", .text "stix"),
    (some "valid_from", .text "1970-01-01T00:00:00Z")]

def stixBundleFromReportText (reportText : List Char) (reportName : String) :
    Except ReportError CtiBundle :=
  if trim T reportText = [] then .error .empty
  else
    let text := refang T reportText
    let found := extractIocs T text
    if found = [] then .error .noIocs
    else
      let label := if T.strip reportName = "" then "unstructured CTI report" else T.strip reportName
      .ok ⟨"bundle--" ++ tools.uuid5 ("btagent-report:" ++ sha256 (String.ofList text).toByteArray),
        found.map (reportIndicator T tools text label)⟩

end CtiReport

namespace CtiReport
open Stix CtiToDetection Regex

variable {T : CharTable} {t u : IocType} {v w : List Char} {text : List Char} {found : Found}
  {ws : List (List Char)} {ps : List (IocType × Regex)}

theorem iocKey_inj : iocKey T t v = iocKey T u w ↔ t = u ∧ lowered T v = lowered T w := by
  have hcolon : ∀ t : IocType, ':' ∉ t.name.toList := by
    intro t
    cases t <;> decide
  constructor
  · intro h
    have hlist := congrArg String.toList h
    simp only [iocKey, String.toList_append] at hlist
    obtain ⟨hname, hvalue⟩ := append_cons_inj (hcolon t) (hcolon u) (by simpa using hlist)
    exact ⟨name_inj (String.ext hname), String.ext hvalue⟩
  · rintro ⟨rfl, h⟩
    rw [iocKey, iocKey, h]

-- What a type adds to `found`, given the values of its matches.
theorem excluded_added {new : List (List Char)} :
    excluded T (found ++ new.map (t, ·)) t v = excluded T found t v := by
  cases t with
  | domain =>
      have hpart : isPartOf (found ++ new.map (IocType.domain, ·)) v = isPartOf found v := by
        simp [isPartOf]
      rw [excluded, hpart, excluded]
  | _ => rfl

variable (T) in
def admitted (found : Found) (t : IocType) (ws : List (List Char)) : List (List Char) :=
  (ws.map trimmed).filter fun v => !excluded T found t v

theorem admitted_concat : admitted T found t (ws ++ [w]) =
    if excluded T found t (trimmed w) then admitted T found t ws
    else admitted T found t ws ++ [trimmed w] := by
  rw [admitted, List.map_append, List.filter_append, List.map_singleton, List.filter_singleton]
  cases excluded T found t (trimmed w) <;> simp [admitted]

theorem iocKey_found {new : List (List Char)} (hfresh : ∀ v, (t, v) ∉ found) :
    iocKey T t v ∈ (found ++ new.map (t, ·)).map (fun f => iocKey T f.1 f.2) ↔
      ∃ y ∈ new, lowered T y = lowered T v := by
  simp only [List.map_append, List.mem_append, List.mem_map, iocKey_inj]
  constructor
  · rintro (⟨f, hf, rfl, -⟩ | ⟨_, ⟨y, hy, rfl⟩, -, hkey⟩)
    · exact absurd hf (hfresh f.2)
    · exact ⟨y, hy, hkey⟩
  · rintro ⟨y, hy, hkey⟩
    exact Or.inr ⟨(t, y), ⟨y, hy, rfl⟩, rfl, hkey⟩

theorem collect_run (hfresh : ∀ v, (t, v) ∉ found) (ws : List (List Char)) :
    ∃ new : List (List Char), ws.foldl (collect T t) found = found ++ new.map (t, ·) ∧
      ∀ v, v ∈ new ↔ IsFirst (lowered T) (admitted T found t ws) v := by
  induction ws using List.reverseRecOn with
  | nil =>
      refine ⟨[], (List.append_nil found).symm, fun v => ?_⟩
      exact iff_of_false List.not_mem_nil IsFirst.nil_iff
  | append_singleton ws w ih =>
      obtain ⟨new, hrun, hnew⟩ := ih
      have hkey : iocKey T t (trimmed w) ∈
          (found ++ new.map (t, ·)).map (fun f => iocKey T f.1 f.2) ↔
          ∃ z ∈ admitted T found t ws, lowered T z = lowered T (trimmed w) :=
        ((iocKey_found hfresh).trans (exists_congr fun z => and_congr_left' (hnew z))).trans
          IsFirst.exists_iff
      rw [List.foldl_append, hrun, List.foldl_cons, List.foldl_nil, collect, admitted_concat]
      rw [excluded_added]
      split_ifs with hexcluded hseen
      · exact ⟨new, rfl, hnew⟩
      · refine ⟨new, rfl, fun v => ?_⟩
        rw [hnew, IsFirst.concat_iff]
        refine (or_iff_left ?_).symm
        rintro ⟨rfl, hall⟩
        obtain ⟨z, hz, hlower⟩ := hkey.mp hseen
        exact hall z hz hlower
      · refine ⟨new ++ [trimmed w], by rw [List.map_append, List.append_assoc]; rfl, fun v => ?_⟩
        rw [List.mem_append, hnew, IsFirst.concat_iff, List.mem_singleton]
        refine or_congr_right ⟨?_, And.left⟩
        rintro rfl
        exact ⟨rfl, fun z hz hlower => hseen (hkey.mpr ⟨z, hz, hlower⟩)⟩

theorem mem_collect_ne (htype : t ≠ u) : (t, v) ∈ collect T u found w ↔ (t, v) ∈ found := by
  rw [collect]
  split_ifs
  · rfl
  · rfl
  · rw [List.mem_append, List.mem_singleton]
    exact or_iff_left fun h => htype (Prod.mk.inj h).1

theorem mem_collectAll_ne {r : Regex} (htype : t ≠ u) :
    (t, v) ∈ collectAll T text found (u, r) ↔ (t, v) ∈ found := by
  rw [collectAll]
  induction finditer T.isWord r text generalizing found with
  | nil => rfl
  | cons w ws ih => rw [List.foldl_cons, ih, mem_collect_ne htype]

theorem mem_run_ne (htype : t ∉ ps.map Prod.fst) :
    (t, v) ∈ ps.foldl (collectAll T text) found ↔ (t, v) ∈ found := by
  induction ps generalizing found with
  | nil => rfl
  | cons p ps ih =>
      rw [List.map_cons, List.mem_cons, not_or] at htype
      rw [List.foldl_cons, ih htype.2, mem_collectAll_ne htype.1]

-- What was found before the type was its turn decides what is found of the type.
theorem mem_extract {r : Regex} (pre : List (IocType × Regex)) {post : List (IocType × Regex)}
    (hsplit : REPORT_IOC_PATTERNS T = pre ++ (t, r) :: post) :
    (t, v) ∈ extractIocs T text ↔
      IsFirst (lowered T) (admitted T (pre.foldl (collectAll T text) []) t
        (finditer T.isWord r text)) v := by
  have hnodup : ((REPORT_IOC_PATTERNS T).map Prod.fst).Nodup := by
    have htypes : (REPORT_IOC_PATTERNS T).map Prod.fst =
        [.hashSha256, .hashSha1, .hashMd5, .url, .email, .ip, .domain] := rfl
    rw [htypes]
    decide
  rw [hsplit, List.map_append, List.map_cons, List.nodup_append, List.nodup_cons] at hnodup
  obtain ⟨-, ⟨hpost, -⟩, hpre⟩ := hnodup
  have hpre' : t ∉ pre.map Prod.fst := fun h => hpre t h t List.mem_cons_self rfl
  have hfresh : ∀ v, (t, v) ∉ pre.foldl (collectAll T text) [] := by
    intro v h
    cases (mem_run_ne hpre').mp h
  obtain ⟨new, hrun, hnew⟩ := collect_run hfresh (finditer T.isWord r text)
  rw [extractIocs, hsplit, List.foldl_append, List.foldl_cons, mem_run_ne hpost, collectAll, hrun,
    List.mem_append, or_iff_right (hfresh v), ← hnew, List.mem_map]
  constructor
  · rintro ⟨y, hy, hpair⟩
    exact (Prod.mk.inj hpair).2 ▸ hy
  · exact fun hv => ⟨v, hv, rfl⟩

variable (T) in
-- The values of the matches of a pattern.
def matchValues (r : Regex) (text : List Char) : List (List Char) :=
  (finditer T.isWord r text).map trimmed

theorem mem_extract_url : (.url, v) ∈ extractIocs T text ↔
    IsFirst (lowered T) (matchValues T (urlPattern T) text) v := by
  rw [mem_extract ((REPORT_IOC_PATTERNS T).take 3) rfl, admitted, matchValues]
  simp only [excluded, Bool.not_false, List.filter_true]

theorem mem_extract_email : (.email, v) ∈ extractIocs T text ↔
    IsFirst (lowered T) (matchValues T emailPattern text) v := by
  rw [mem_extract ((REPORT_IOC_PATTERNS T).take 4) rfl, admitted, matchValues]
  simp only [excluded, Bool.not_false, List.filter_true]

variable (T) in
-- A URL or an e-mail address that was found has the domain as a part.
def Shadowed (text value : List Char) : Prop :=
  ∃ whole, (IsFirst (lowered T) (matchValues T (urlPattern T) text) whole ∨
    IsFirst (lowered T) (matchValues T emailPattern text) whole) ∧ value <:+: whole

theorem isPartOf_iff : isPartOf (((REPORT_IOC_PATTERNS T).take 6).foldl (collectAll T text) []) v = true ↔
    Shadowed T text v := by
  have hdomain : ∀ t w, t ≠ IocType.domain →
      ((t, w) ∈ ((REPORT_IOC_PATTERNS T).take 6).foldl (collectAll T text) [] ↔
        (t, w) ∈ extractIocs T text) := by
    intro t w htype
    have hsplit : REPORT_IOC_PATTERNS T = (REPORT_IOC_PATTERNS T).take 6 ++ [(.domain, domainPattern)] :=
      rfl
    rw [extractIocs, hsplit, List.foldl_append, List.foldl_cons, List.foldl_nil,
      mem_collectAll_ne htype]
    rfl
  simp only [isPartOf, List.any_eq_true, decide_eq_true_eq, Shadowed, ← mem_extract_url,
    ← mem_extract_email]
  constructor
  · rintro ⟨⟨t, w⟩, hmem, rfl | rfl, hpart⟩
    · exact ⟨w, Or.inl ((hdomain _ _ (by decide)).mp hmem), hpart⟩
    · exact ⟨w, Or.inr ((hdomain _ _ (by decide)).mp hmem), hpart⟩
  · rintro ⟨w, hmem | hmem, hpart⟩
    · exact ⟨(.url, w), (hdomain _ _ (by decide)).mpr hmem, Or.inl rfl, hpart⟩
    · exact ⟨(.email, w), (hdomain _ _ (by decide)).mpr hmem, Or.inr rfl, hpart⟩

theorem domain_found {k : String} : (∃ v, (.domain, v) ∈ extractIocs T text ∧ lowered T v = k) ↔
    ∃ v ∈ matchValues T domainPattern text, isFileName T v = false ∧ ¬ Shadowed T text v ∧
      lowered T v = k := by
  simp only [mem_extract ((REPORT_IOC_PATTERNS T).take 6) rfl, IsFirst.exists_iff, admitted,
    List.mem_filter, ← isPartOf_iff]
  simp only [excluded, Bool.not_eq_true', Bool.or_eq_false_iff, matchValues, and_assoc,
    Bool.not_eq_true]

-- No value has a quotation mark, and only that of a URL has a colon or a backslash.
def bare (t : IocType) (c : Char) : Bool :=
  c != quote && c != '"' && (t == .url || (c != ':' && c != '\\'))

theorem bare_of_class {q : Char → Bool} (hq : ∀ c ∈ [quote, '"', ':', '\\'], q c = false) :
    ∀ c, q c = true → bare t c = true := by
  intro c hc
  have hne : ∀ d ∈ [quote, '"', ':', '\\'], c ≠ d := by
    rintro d hd rfl
    rw [hq c hd] at hc
    cases hc
  simp only [List.forall_mem_cons] at hne
  simp [bare, hne.1, hne.2.1, hne.2.2.1, hne.2.2.2.1]

theorem bare_url {q : Char → Bool} (hq : q quote = false ∧ q '"' = false) :
    ∀ c, q c = true → bare .url c = true := by
  intro c hc
  have hquote : c ≠ quote := by
    rintro rfl
    rw [hq.1] at hc
    cases hc
  have hdouble : c ≠ '"' := by
    rintro rfl
    rw [hq.2] at hc
    cases hc
  simp [bare, hquote, hdouble]

theorem within_url : Within (bare .url) (urlPattern T) := by
  have hletter : ∀ d ∈ "https".toList, T.sameLetter d quote = false ∧ T.sameLetter d '"' = false := by
    have hascii : ∀ d ∈ "https".toList, d.toNat < 128 ∧ (d.toLower == quote.toLower) = false ∧
        (d.toLower == '"'.toLower) = false := by decide
    intro d hd
    obtain ⟨hd, hquote, hdouble⟩ := hascii d hd
    rw [T.letter_ascii d quote hd (by decide), T.letter_ascii d '"' hd (by decide)]
    exact ⟨hquote, hdouble⟩
  refine ⟨trivial, within_sets ?_, bare_url (hletter 's' (by decide)), within_sets ?_, ?_, ?_⟩
  · intro q hq
    obtain ⟨d, hd, rfl⟩ := List.mem_map.mp hq
    have hd' : ∀ d ∈ "http".toList, d ∈ "https".toList ∧ d.isAlpha = true := by decide
    rw [if_pos (hd' d hd).2]
    exact bare_url (hletter d (hd' d hd).1)
  · intro q hq
    obtain ⟨d, hd, rfl⟩ := List.mem_map.mp hq
    have hd' : ∀ d ∈ "://".toList, (quote == d) = false ∧ ('"' == d) = false := by decide
    exact bare_url (hd' d hd)
  · exact bare_url (by simp [isUrlChar, quote])
  · exact bare_url (by simp [isUrlChar, quote])

theorem within_ip : Within (bare .ip) (ipPattern T) := by
  have hdigit : ∀ c, T.isDigit c = true → bare .ip c = true := by
    apply bare_of_class
    intro c hc
    have hascii : ∀ c ∈ [quote, '"', ':', '\\'], c.toNat < 128 ∧ c.isDigit = false := by decide
    rw [T.digit_ascii c (hascii c hc).1]
    exact (hascii c hc).2
  have hdot : ∀ c, (c == '.') = true → bare .ip c = true := bare_of_class (by decide)
  have hdotted : Within (bare .ip) (.seq (octet T) (.char '.')) := ⟨⟨hdigit, hdigit⟩, hdot⟩
  exact ⟨trivial, ⟨hdotted, hdotted, hdotted, hdigit, hdigit⟩, trivial⟩

theorem within_hash (n : ℕ) : Within (bare t) (hashPattern n) := by
  refine ⟨trivial, within_sets ?_, trivial⟩
  intro q hq
  rw [List.eq_of_mem_replicate hq]
  exact bare_of_class (by decide)

theorem within_topLevel : Within (bare t) topLevel := by
  have halpha : ∀ c, c.isAlpha = true → bare t c = true := bare_of_class (by decide)
  exact ⟨halpha, halpha, halpha⟩

theorem within_email : Within (bare .email) emailPattern := by
  have hmailbox : ∀ c, isMailboxChar c = true → bare .email c = true := bare_of_class (by decide)
  have hhost : ∀ c, isMailHostChar c = true → bare .email c = true := bare_of_class (by decide)
  have hat : ∀ c, (c == '@') = true → bare .email c = true := bare_of_class (by decide)
  have hdot : ∀ c, (c == '.') = true → bare .email c = true := bare_of_class (by decide)
  exact ⟨trivial, ⟨⟨hmailbox, hmailbox⟩, hat, ⟨hhost, hhost⟩, hdot, within_topLevel⟩, trivial⟩

theorem within_domain : Within (bare .domain) domainPattern := by
  have halnum : ∀ c, c.isAlphanum = true → bare .domain c = true := bare_of_class (by decide)
  have hlabel : ∀ c, isLabelChar c = true → bare .domain c = true := bare_of_class (by decide)
  have hdot : ∀ c, (c == '.') = true → bare .domain c = true := bare_of_class (by decide)
  have hpart : Within (bare .domain) (.seq domainLabel (.char '.')) := ⟨⟨halnum, hlabel, halnum⟩, hdot⟩
  exact ⟨trivial, ⟨⟨hpart, hpart⟩, within_topLevel⟩, trivial⟩

theorem exists_pattern (T : CharTable) (t : IocType) : ∃ r, (t, r) ∈ REPORT_IOC_PATTERNS T ∧ Within (bare t) r := by
  cases t with
  | ip => exact ⟨ipPattern T, by simp [REPORT_IOC_PATTERNS], within_ip⟩
  | domain => exact ⟨_, by simp [REPORT_IOC_PATTERNS], within_domain⟩
  | url => exact ⟨urlPattern T, by simp [REPORT_IOC_PATTERNS], within_url⟩
  | hashMd5 => exact ⟨_, by simp [REPORT_IOC_PATTERNS], within_hash 32⟩
  | hashSha1 => exact ⟨_, by simp [REPORT_IOC_PATTERNS], within_hash 40⟩
  | hashSha256 => exact ⟨_, by simp [REPORT_IOC_PATTERNS], within_hash 64⟩
  | email => exact ⟨_, by simp [REPORT_IOC_PATTERNS], within_email⟩

theorem found_bare (h : (t, v) ∈ extractIocs T text) : ∀ c ∈ v, bare t c = true := by
  obtain ⟨r, hr, hwithin⟩ := exists_pattern T t
  obtain ⟨pre, post, hsplit⟩ := List.append_of_mem hr
  have hv := ((mem_extract pre hsplit).mp h).mem
  obtain ⟨w, hw, rfl⟩ := List.mem_map.mp (List.mem_filter.mp hv).1
  obtain ⟨_, _, _, -, hmatch⟩ := of_mem_finditer hw
  intro c hc
  exact hwithin.forall hmatch c ((List.rdropWhile_prefix _ _).subset hc)

end CtiReport

end BTagent
