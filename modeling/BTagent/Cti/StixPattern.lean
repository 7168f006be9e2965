import BTagent.Data.CharTable
import BTagent.Lib.Quoted
import Mathlib.Data.List.Find

namespace BTagent

namespace Stix
open Quoted

-- The IOC types that have an object path of their own.
inductive IocType where
  | ip
  | domain
  | url
  | hashMd5
  | hashSha1
  | hashSha256
  | email
  deriving DecidableEq, Repr

namespace IocType

def name : IocType → String
  | ip => "ip"
  | domain => "domain"
  | url => "url"
  | hashMd5 => "hash_md5"
  | hashSha1 => "hash_sha1"
  | hashSha256 => "hash_sha256"
  | email => "email"

def all : List IocType := [ip, domain, url, hashMd5, hashSha1, hashSha256, email]

def ofName (s : String) : Option IocType := all.find? fun t => t.name = s

def path : IocType → String
  | ip => "ipv4-addr:value"
  | domain => "domain-name:value"
  | url => "url:value"
  | hashMd5 => "file:hashes.'MD5'"
  | hashSha1 => "file:hashes.'SHA-1'"
  | hashSha256 => "file:hashes.'SHA-256'"
  | email => "email-addr:value"

theorem ofName_name (t : IocType) : ofName t.name = some t := by
  cases t <;> decide

end IocType

def STIX_PATTERN_TO_IOC_TYPE : List (String × IocType) :=
  [("ipv4-addr:value", .ip), ("ipv6-addr:value", .ip), ("domain-name:value", .domain),
    ("url:value", .url), ("file:hashes.'MD5'", .hashMd5), ("file:hashes.'SHA-1'", .hashSha1),
    ("file:hashes.'SHA-256'", .hashSha256), ("email-addr:value", .email)]

def quote : Char := '\x27'

-- `str.replace` of one character
def replace (c : Char) (by_ : List Char) (s : List Char) : List Char :=
  s.flatMap fun d => if d = c then by_ else [d]

def safeValue (value : List Char) : List Char :=
  replace quote ['\\', quote] (replace '\\' ['\\', '\\'] value)

-- `_build_stix_pattern`; `none` stands for every other type.
def buildStixPattern (t : Option IocType) (value : List Char) : List Char :=
  let path := match t with
    | some t => t.path
    | none => "x-btagent-ioc:value"
  '[' :: (path.toList ++ (" = ".toList ++ (quote :: (safeValue value ++ [quote, ']']))))

def isBracket (c : Char) : Bool := c == '[' || c == ']'

def isQuoteMark (c : Char) : Bool := c == quote || c == '\x22'

def special (c : Char) : Bool := c == '\\' || c == quote

def afterEquals (s : List Char) : Option (List Char) :=
  match s.dropWhile (· != '=') with
  | [] => none
  | _ :: rest => some rest

variable (T : CharTable)

def trim (s : List Char) : List Char := stripBy T.isSpace s

def unwrap (pattern : List Char) : List Char := stripBy isBracket (trim T pattern)

def literal (rest : List Char) : List Char := stripBy isQuoteMark (trim T rest)

def parseStixPattern (pattern : List Char) : Option (IocType × List Char) :=
  let inner := unwrap T pattern
  STIX_PATTERN_TO_IOC_TYPE.findSome? fun kv =>
    if kv.1.toList <:+: inner then (afterEquals inner).map fun rest => (kv.2, literal T rest)
    else none

-- The type of the first path of the table that occurs in a text.
def firstType (s : List Char) : Option IocType :=
  (STIX_PATTERN_TO_IOC_TYPE.find? fun kv => kv.1.toList <:+: s).map Prod.snd

-- The white space of `[path = 'literal']`.
structure Layout where
  lead : List Char
  start : List Char
  beforeOp : List Char
  afterOp : List Char
  finish : List Char
  trail : List Char

namespace Layout

def spaces (l : Layout) : List Char :=
  l.lead ++ l.start ++ l.beforeOp ++ l.afterOp ++ l.finish ++ l.trail

def inner (l : Layout) (path op body : List Char) : List Char :=
  l.start ++ (path ++ (l.beforeOp ++ (op ++ (l.afterOp ++ (quote :: (body ++ (quote :: l.finish)))))))

def render (l : Layout) (path op body : List Char) : List Char :=
  l.lead ++ (('[' :: (l.inner path op body ++ [']'])) ++ l.trail)

end Layout

def EQUALITY : List (List Char) := [['='], ['=', '=']]

-- One observation with one equality of an object path of the type with a string literal that
-- stands for the value.
def SingleEquality (pattern : List Char) (t : IocType) (value : List Char) : Prop :=
  ∃ l : Layout, (∀ c ∈ l.spaces, T.isSpace c = true) ∧
    ∃ kv ∈ STIX_PATTERN_TO_IOC_TYPE, kv.2 = t ∧
      ∃ op ∈ EQUALITY, pattern = l.render kv.1.toList op (safeValue value)

def Sound (pattern : List Char) : Prop :=
  ∀ t value, parseStixPattern T pattern = some (t, value) → SingleEquality T pattern t value

-- What the importer reads right: one `=`, a literal with no escape and no outer quotation mark,
-- and no path of another type before the own one in the table.
def PlainEquality (pattern : List Char) : Prop :=
  ∃ l : Layout, (∀ c ∈ l.spaces, T.isSpace c = true) ∧
    ∃ kv ∈ STIX_PATTERN_TO_IOC_TYPE, ∃ value : List Char,
      pattern = l.render kv.1.toList ['='] value ∧ (∀ c ∈ value, special c = false) ∧
        Tight isQuoteMark value ∧ firstType pattern = some kv.2

def Unrecognised (pattern : List Char) : Prop :=
  (∀ kv ∈ STIX_PATTERN_TO_IOC_TYPE, ¬ kv.1.toList <:+: pattern) ∨ '=' ∉ pattern

section Text
variable {c : Char} {s value body path op : List Char}

theorem safeValue_eq (value : List Char) : safeValue value = escape '\\' special value := by
  induction value with
  | nil => rfl
  | cons c value ih =>
      have hcons : safeValue (c :: value) =
          replace quote ['\\', quote] (if c = '\\' then ['\\', '\\'] else [c]) ++ safeValue value := by
        simp [safeValue, replace]
      rw [hcons, ih, escape_cons]
      congr 1
      by_cases hslash : c = '\\'
      · subst hslash
        decide
      · by_cases hquote : c = quote
        · subst hquote
          decide
        · simp [replace, special, hslash, hquote]

theorem not_space {d : Char} (hd : 33 ≤ d.toNat ∧ d.toNat < 127) (h : T.isSpace c = true) :
    c ≠ d := by
  rintro rfl
  rw [T.isSpace_of_graphic hd] at h
  cases h

theorem space_not_bracket (h : T.isSpace c = true) : isBracket c = false := by
  have hopen : c ≠ '[' := not_space T (by decide) h
  have hclose : c ≠ ']' := not_space T (by decide) h
  simp [isBracket, hopen, hclose]

theorem path_chars {kv : String × IocType} (hkv : kv ∈ STIX_PATTERN_TO_IOC_TYPE) :
    ∀ c ∈ kv.1.toList, (33 ≤ c.toNat ∧ c.toNat < 127) ∧ isBracket c = false ∧ c ≠ '=' := by
  have hall : ∀ kv ∈ STIX_PATTERN_TO_IOC_TYPE, ∀ c ∈ kv.1.toList,
      (33 ≤ c.toNat ∧ c.toNat < 127) ∧ isBracket c = false ∧ c ≠ '=' := by
    decide
  exact hall kv hkv

theorem unwrap_infix {w : List Char} (hgraphic : ∀ c ∈ w, 33 ≤ c.toNat ∧ c.toNat < 127)
    (hbracket : ∀ c ∈ w, isBracket c = false) : w <:+: unwrap T s ↔ w <:+: s := by
  rw [unwrap, infix_stripBy hbracket, trim, infix_stripBy]
  exact fun c hc => T.isSpace_of_graphic (hgraphic c hc)

theorem path_infix_unwrap {kv : String × IocType} (hkv : kv ∈ STIX_PATTERN_TO_IOC_TYPE) :
    kv.1.toList <:+: unwrap T s ↔ kv.1.toList <:+: s :=
  unwrap_infix T (fun c hc => (path_chars hkv c hc).1) fun c hc => (path_chars hkv c hc).2.1

theorem firstType_unwrap : firstType (unwrap T s) = firstType s := by
  unfold firstType
  congr 1
  apply List.find?_congr
  intro kv hkv
  rw [decide_eq_decide]
  exact path_infix_unwrap T hkv

theorem equals_mem_unwrap : '=' ∈ unwrap T s ↔ '=' ∈ s := by
  rw [← List.singleton_infix_iff, unwrap_infix T (by decide) (by decide), List.singleton_infix_iff]

theorem afterEquals_append {a b : List Char} (ha : '=' ∉ a) :
    afterEquals (a ++ '=' :: b) = some b := by
  unfold afterEquals
  rw [dropWhile_surround]
  · intro c hc
    simp only [bne_iff_ne]
    rintro rfl
    exact ha hc
  · rintro c ⟨⟩
    decide

theorem afterEquals_eq_none : afterEquals s = none ↔ '=' ∉ s := by
  unfold afterEquals
  cases hd : s.dropWhile (· != '=') with
  | nil =>
      have hall := List.dropWhile_eq_nil_iff.mp hd
      simp only [true_iff]
      intro hmem
      simpa using hall '=' hmem
  | cons c rest =>
      have hc : (c != '=') = false := head?_dropWhile (p := (· != '=')) (s := s) c (by rw [hd]; rfl)
      have hsub := (List.dropWhile_sublist (· != '=') (l := s)).subset
      rw [hd] at hsub
      have hmem := hsub List.mem_cons_self
      have heq : c = '=' := by simpa using hc
      simp only [reduceCtorEq, false_iff, not_not]
      exact heq ▸ hmem

theorem parse_eq (pattern : List Char) :
    parseStixPattern T pattern = (firstType pattern).bind fun t =>
      (afterEquals (unwrap T pattern)).map fun rest => (t, literal T rest) := by
  rw [← firstType_unwrap T]
  unfold parseStixPattern firstType
  cases hrest : afterEquals (unwrap T pattern) with
  | none => simp [hrest]
  | some rest =>
      simp only [hrest, Option.map_some]
      induction STIX_PATTERN_TO_IOC_TYPE with
      | nil => rfl
      | cons kv table ih =>
          rw [List.findSome?_cons, List.find?_cons]
          by_cases hin : kv.1.toList <:+: unwrap T pattern
          · simp [hin]
          · simp only [hin, if_false, decide_false]
            exact ih

theorem unrecognised_iff (pattern : List Char) :
    Unrecognised pattern ↔ parseStixPattern T pattern = none := by
  have hfirst : firstType pattern = none ↔
      ∀ kv ∈ STIX_PATTERN_TO_IOC_TYPE, ¬ kv.1.toList <:+: pattern := by
    simp only [firstType, Option.map_eq_none_iff, List.find?_eq_none, decide_eq_true_eq]
  have hequals : afterEquals (unwrap T pattern) = none ↔ '=' ∉ pattern := by
    rw [afterEquals_eq_none, equals_mem_unwrap]
  rw [parse_eq, Unrecognised, ← hfirst, ← hequals]
  cases firstType pattern with
  | none => simp
  | some t => simp

end Text

section Layout
variable {l : Layout} {kv : String × IocType} {op body value : List Char}

theorem Layout.space_of_mem (hl : ∀ c ∈ l.spaces, T.isSpace c = true) {w : List Char}
    (hw : w ∈ [l.lead, l.start, l.beforeOp, l.afterOp, l.finish, l.trail]) :
    ∀ c ∈ w, T.isSpace c = true := by
  intro c hc
  apply hl
  simp only [spaces, List.mem_append]
  simp only [List.mem_cons, List.not_mem_nil, or_false] at hw
  rcases hw with rfl | rfl | rfl | rfl | rfl | rfl <;> tauto

theorem tight_inner (hl : ∀ c ∈ l.spaces, T.isSpace c = true)
    (hkv : kv ∈ STIX_PATTERN_TO_IOC_TYPE) (hop : op ∈ EQUALITY) :
    Tight isBracket (l.inner kv.1.toList op body) := by
  have hspace : ∀ w ∈ [l.lead, l.start, l.beforeOp, l.afterOp, l.finish, l.trail], ∀ c ∈ w,
      isBracket c = false :=
    fun w hw c hc => space_not_bracket T (Layout.space_of_mem T hl hw c hc)
  have hops : ∀ op ∈ EQUALITY, ∀ c ∈ op, isBracket c = false := by decide
  constructor
  · apply head?_append_of_forall (hspace _ (by simp))
    apply head?_append_of_forall fun c hc => (path_chars hkv c hc).2.1
    apply head?_append_of_forall (hspace _ (by simp))
    apply head?_append_of_forall (hops op hop)
    apply head?_append_of_forall (hspace _ (by simp))
    rintro c ⟨⟩
    decide
  · have hsplit : l.inner kv.1.toList op body =
        (l.start ++ (kv.1.toList ++ (l.beforeOp ++ (op ++ (l.afterOp ++ (quote :: (body ++ [quote]))))))) ++
          l.finish := by
      simp [Layout.inner]
    rw [hsplit]
    apply getLast?_append_of_forall (hspace _ (by simp))
    intro c hc
    have hquote : c = quote := by
      rw [← List.append_assoc, ← List.append_assoc, ← List.append_assoc, ← List.append_assoc,
        ← List.cons_append, ← List.append_assoc, List.getLast?_concat] at hc
      exact (Option.some.inj hc).symm
    rw [hquote]
    decide

theorem unwrap_render (hl : ∀ c ∈ l.spaces, T.isSpace c = true)
    (hkv : kv ∈ STIX_PATTERN_TO_IOC_TYPE) (hop : op ∈ EQUALITY) :
    unwrap T (l.render kv.1.toList op body) = l.inner kv.1.toList op body := by
  have htrim : trim T (l.render kv.1.toList op body) =
      '[' :: (l.inner kv.1.toList op body ++ [']']) := by
    apply stripBy_surround (Layout.space_of_mem T hl (by simp)) (Layout.space_of_mem T hl (by simp))
    exact tight_enclosed (T.isSpace_of_graphic (by decide)) (T.isSpace_of_graphic (by decide))
  rw [unwrap, htrim]
  have hsplit : '[' :: (l.inner kv.1.toList op body ++ [']']) =
      ['['] ++ (l.inner kv.1.toList op body ++ [']']) := rfl
  rw [hsplit]
  exact stripBy_surround (by decide) (by decide) (tight_inner T hl hkv hop)

theorem afterEquals_inner (hl : ∀ c ∈ l.spaces, T.isSpace c = true)
    (hkv : kv ∈ STIX_PATTERN_TO_IOC_TYPE) {rest : List Char} :
    afterEquals (l.inner kv.1.toList ('=' :: rest) body) =
      some (rest ++ (l.afterOp ++ (quote :: (body ++ (quote :: l.finish))))) := by
  have hequals : ∀ c, T.isSpace c = true → c ≠ '=' := fun c hc => not_space T (by decide) hc
  have hmem : '=' ∉ l.start ++ (kv.1.toList ++ l.beforeOp) := by
    simp only [List.mem_append, not_or]
    refine ⟨fun h => ?_, fun h => ?_, fun h => ?_⟩
    · exact hequals _ (Layout.space_of_mem T hl (by simp) _ h) rfl
    · exact (path_chars hkv _ h).2.2 rfl
    · exact hequals _ (Layout.space_of_mem T hl (by simp) _ h) rfl
  have hsplit : l.inner kv.1.toList ('=' :: rest) body =
      (l.start ++ (kv.1.toList ++ l.beforeOp)) ++
        '=' :: (rest ++ (l.afterOp ++ (quote :: (body ++ (quote :: l.finish))))) := by
    simp [Layout.inner]
  rw [hsplit]
  exact afterEquals_append hmem

theorem literal_eq (hl : ∀ c ∈ l.spaces, T.isSpace c = true) :
    literal T (l.afterOp ++ (quote :: (body ++ (quote :: l.finish)))) = stripBy isQuoteMark body := by
  have hquote : T.isSpace quote = false := T.isSpace_of_graphic (by decide)
  have hsplit : l.afterOp ++ (quote :: (body ++ (quote :: l.finish))) =
      l.afterOp ++ ((quote :: (body ++ [quote])) ++ l.finish) := by simp
  have htrim : trim T (l.afterOp ++ (quote :: (body ++ (quote :: l.finish)))) =
      quote :: (body ++ [quote]) := by
    rw [hsplit]
    apply stripBy_surround (Layout.space_of_mem T hl (by simp)) (Layout.space_of_mem T hl (by simp))
    exact tight_enclosed hquote hquote
  rw [literal, htrim]
  exact stripBy_enclosed (by decide)

theorem literal_second_sign (hl : ∀ c ∈ l.spaces, T.isSpace c = true) :
    literal T ('=' :: (l.afterOp ++ (quote :: (escape '\\' special value ++ (quote :: l.finish))))) ≠
      value := by
  have hquote : T.isSpace quote = false := T.isSpace_of_graphic (by decide)
  have hsign : T.isSpace '=' = false := T.isSpace_of_graphic (by decide)
  have hsplit : '=' :: (l.afterOp ++ (quote :: (escape '\\' special value ++ (quote :: l.finish)))) =
      [] ++ (('=' :: ((l.afterOp ++ (quote :: escape '\\' special value)) ++ [quote])) ++ l.finish) := by
    simp
  intro heq
  have htrim : trim T ('=' :: (l.afterOp ++
      (quote :: (escape '\\' special value ++ (quote :: l.finish))))) =
      '=' :: ((l.afterOp ++ (quote :: escape '\\' special value)) ++ [quote]) := by
    rw [hsplit]
    apply stripBy_surround (by simp) (Layout.space_of_mem T hl (by simp))
    exact tight_enclosed hsign hquote
  rw [literal, htrim] at heq
  have hvalue : Tight isQuoteMark value := heq ▸ tight_stripBy _ _
  cases hlast : value.getLast? with
  | none =>
      rw [List.getLast?_eq_none_iff.mp hlast] at heq
      exact stripBy_ne_nil List.mem_cons_self (by decide) heq
  | some d =>
      have hescape : (escape '\\' special value).getLast? = some d := getLast?_escape.trans hlast
      obtain ⟨init, hinit⟩ := List.getLast?_eq_some_iff.mp hescape
      have htight : Tight isQuoteMark ('=' :: (l.afterOp ++ (quote :: escape '\\' special value))) := by
        have hcons : quote :: (init ++ [d]) = (quote :: init) ++ [d] := rfl
        rw [hinit, hcons, ← List.append_assoc]
        exact tight_enclosed (by decide) (hvalue.2 d hlast)
      have hstrip : stripBy isQuoteMark
          ([] ++ (('=' :: (l.afterOp ++ (quote :: escape '\\' special value))) ++ [quote])) =
          '=' :: (l.afterOp ++ (quote :: escape '\\' special value)) :=
        stripBy_surround (by simp) (by decide) htight
      rw [List.nil_append, List.cons_append, heq] at hstrip
      have hlen := congrArg List.length hstrip
      have hle : value.length ≤ (escape '\\' special value).length := length_le_escape
      simp only [List.length_cons, List.length_append] at hlen
      omega

theorem parse_render (hl : ∀ c ∈ l.spaces, T.isSpace c = true)
    (hkv : kv ∈ STIX_PATTERN_TO_IOC_TYPE) :
    parseStixPattern T (l.render kv.1.toList ['='] body) =
      (firstType (l.render kv.1.toList ['='] body)).map fun t => (t, stripBy isQuoteMark body) := by
  rw [parse_eq, unwrap_render T hl hkv (by decide), afterEquals_inner T hl hkv]
  simp only [List.nil_append, literal_eq T hl, Option.map_some]
  exact (Option.map_eq_bind).symm

theorem parse_render_second_sign (hl : ∀ c ∈ l.spaces, T.isSpace c = true)
    (hkv : kv ∈ STIX_PATTERN_TO_IOC_TYPE) (t : IocType) :
    parseStixPattern T (l.render kv.1.toList ['=', '='] (safeValue value)) ≠ some (t, value) := by
  rw [parse_eq, unwrap_render T hl hkv (by decide), afterEquals_inner T hl hkv, safeValue_eq]
  intro h
  obtain ⟨t', -, h⟩ := Option.bind_eq_some_iff.mp h
  have hliteral := congrArg Prod.snd (Option.some.inj h)
  exact literal_second_sign T hl hliteral

theorem sound_of_plain {pattern : List Char} (h : PlainEquality T pattern) : Sound T pattern := by
  obtain ⟨l, hl, kv, hkv, value, rfl, hplain, htight, hfirst⟩ := h
  intro t v hparse
  rw [parse_render T hl hkv, hfirst, stripBy_of_tight htight] at hparse
  cases hparse
  refine ⟨l, hl, kv, hkv, rfl, ['='], by decide, ?_⟩
  rw [safeValue_eq, escape_plain hplain]

theorem plain_of_sound {pattern : List Char} {t : IocType} {v : List Char}
    (hparse : parseStixPattern T pattern = some (t, v)) (hsound : Sound T pattern) :
    PlainEquality T pattern := by
  obtain ⟨l, hl, kv, hkv, rfl, op, hop, rfl⟩ := hsound t v hparse
  simp only [EQUALITY, List.mem_cons, List.not_mem_nil, or_false] at hop
  rcases hop with rfl | rfl
  · rw [parse_render T hl hkv, safeValue_eq] at hparse
    obtain ⟨t, hfirst, hpair⟩ := Option.map_eq_some_iff.mp hparse
    obtain ⟨rfl, hvalue⟩ := Prod.mk.inj hpair
    obtain ⟨hplain, htight⟩ := (stripBy_escape_iff (by decide)).mp hvalue
    rw [← safeValue_eq] at hfirst
    refine ⟨l, hl, kv, hkv, v, ?_, hplain, htight, hfirst⟩
    rw [safeValue_eq, escape_plain hplain]
  · exact absurd hparse (parse_render_second_sign T hl hkv kv.2)

theorem import_sound_iff (pattern : List Char) :
    Sound T pattern ↔ Unrecognised pattern ∨ PlainEquality T pattern := by
  rw [unrecognised_iff T]
  constructor
  · intro hsound
    cases hparse : parseStixPattern T pattern with
    | none => exact Or.inl rfl
    | some tv => exact Or.inr (plain_of_sound T hparse hsound)
  · rintro (hnone | hplain)
    · intro t v hparse
      rw [hnone] at hparse
      cases hparse
    · exact sound_of_plain T hplain

-- A negated comparison is read as an equality.
theorem inequality_imported :
    parseStixPattern .ascii "[ipv4-addr:value != '10.0.0.1']".toList =
        some (.ip, "10.0.0.1".toList) ∧
      ¬ Sound .ascii "[ipv4-addr:value != '10.0.0.1']".toList := by
  have hparse : parseStixPattern .ascii "[ipv4-addr:value != '10.0.0.1']".toList =
      some (.ip, "10.0.0.1".toList) := by
    decide
  refine ⟨hparse, ?_⟩
  intro hsound
  obtain ⟨l, hl, kv, hkv, -, op, hop, heq⟩ := hsound _ _ hparse
  have hmem : '!' ∈ l.render kv.1.toList op (safeValue "10.0.0.1".toList) := by
    rw [← heq]
    decide
  have hspace : ∀ w ∈ [l.lead, l.start, l.beforeOp, l.afterOp, l.finish, l.trail], '!' ∉ w :=
    fun w hw h => absurd (Layout.space_of_mem .ascii hl hw _ h) (by decide)
  have hpath : ∀ kv ∈ STIX_PATTERN_TO_IOC_TYPE, '!' ∉ kv.1.toList := by decide
  have hops : ∀ op ∈ EQUALITY, '!' ∉ op := by decide
  have hvalue : '!' ∉ safeValue "10.0.0.1".toList := by decide
  have hne : '!' ≠ '[' ∧ '!' ≠ ']' ∧ '!' ≠ quote := by decide
  simp only [Layout.render, Layout.inner, List.mem_append, List.mem_cons, List.not_mem_nil,
    or_false, hne.1, hne.2.1, hne.2.2, false_or] at hmem
  simp only [List.mem_cons, List.not_mem_nil, or_false, forall_eq_or_imp, forall_eq] at hspace
  have hown := hpath kv hkv
  have hown' := hops op hop
  tauto

end Layout

end Stix

end BTagent
