import BTagent.Engine.QueryIR
import BTagent.Lib.Literals

namespace BTagent

namespace QueryTranslate

open Literals (Fragment)

inductive QueryLanguage where
  | splunk
  | kql
  | esql
  | cql
  deriving DecidableEq

section Pieces

def fixed (s : String) : Fragment := .fixed s.toList

-- `{_q(v)}` in a text
def quotedPart : Scalar → Fragment
  | .str s => .quoted s.toList
  | .int n => fixed (toString n)
  | .float r => fixed r

-- `{v}` in a text
def plainPart : Scalar → Fragment
  | .str s => .raw s.toList
  | .int n => fixed (toString n)
  | .float r => fixed r

def joinParts (sep : String) (parts : List (List Fragment)) : List Fragment :=
  [fixed sep].intercalate parts

-- `_join`
def joinConds (conds : List (List Fragment)) (logic : LogicOp) (sepAnd sepOr : String) :
    List Fragment :=
  joinParts (if logic = .AND then sepAnd else sepOr) conds

-- A part that is left out where the number is missing or zero.
def optionalPart (n : Option ℕ) (f : ℕ → String) : List (List Fragment) :=
  match n with
  | none => []
  | some 0 => []
  | some n => [[fixed (f n)]]

end Pieces

section Conditions

def kqlIn (f : String) (vals : List Scalar) : List Fragment :=
  fixed (f ++ " in (") :: joinParts ", " (vals.map fun x => [quotedPart x]) ++ [fixed ")"]

-- `_kql_cond`; only under IN can the value be a list.
def kqlCond (c : QueryCondition) : List Fragment :=
  match c.value with
  | .many xs => kqlIn c.field (xs.map .str)
  | .one v =>
      match c.op with
      | .EQ => [fixed (c.field ++ " == "), quotedPart v]
      | .NE => [fixed (c.field ++ " != "), quotedPart v]
      | .CONTAINS => [fixed (c.field ++ " contains "), quotedPart v]
      | .STARTSWITH => [fixed (c.field ++ " startswith "), quotedPart v]
      | .ENDSWITH => [fixed (c.field ++ " endswith "), quotedPart v]
      | .GT => [fixed (c.field ++ " > "), plainPart v]
      | .LT => [fixed (c.field ++ " < "), plainPart v]
      | .GTE => [fixed (c.field ++ " >= "), plainPart v]
      | .LTE => [fixed (c.field ++ " <= "), plainPart v]
      | .IN => kqlIn c.field [v]
      | .REGEX => [fixed (c.field ++ " matches regex "), quotedPart v]

def esqlIn (f : String) (vals : List Scalar) : List Fragment :=
  fixed (f ++ " IN (") :: joinParts ", " (vals.map fun x => [quotedPart x]) ++ [fixed ")"]

-- `_esql_cond`
def esqlCond (c : QueryCondition) : List Fragment :=
  match c.value with
  | .many xs => esqlIn c.field (xs.map .str)
  | .one v =>
      match c.op with
      | .EQ => [fixed (c.field ++ " == "), quotedPart v]
      | .NE => [fixed (c.field ++ " != "), quotedPart v]
      | .CONTAINS => [fixed (c.field ++ " LIKE \x22*"), plainPart v, fixed "*\x22"]
      | .STARTSWITH => [fixed (c.field ++ " LIKE \x22"), plainPart v, fixed "*\x22"]
      | .ENDSWITH => [fixed (c.field ++ " LIKE \x22*"), plainPart v, fixed "\x22"]
      | .GT => [fixed (c.field ++ " > "), plainPart v]
      | .LT => [fixed (c.field ++ " < "), plainPart v]
      | .GTE => [fixed (c.field ++ " >= "), plainPart v]
      | .LTE => [fixed (c.field ++ " <= "), plainPart v]
      | .IN => esqlIn c.field [v]
      | .REGEX => [fixed (c.field ++ " RLIKE "), quotedPart v]

def cqlIn (f : String) (vals : List Scalar) : List Fragment :=
  fixed "(" :: joinParts " OR " (vals.map fun x => [fixed (f ++ "="), plainPart x]) ++ [fixed ")"]

-- `_cql_cond`
def cqlCond (c : QueryCondition) : List Fragment :=
  match c.value with
  | .many xs => cqlIn c.field (xs.map .str)
  | .one v =>
      match c.op with
      | .EQ => [fixed (c.field ++ "="), plainPart v]
      | .NE => [fixed (c.field ++ "!="), plainPart v]
      | .CONTAINS => [fixed (c.field ++ "=/.*"), plainPart v, fixed ".*/"]
      | .STARTSWITH => [fixed (c.field ++ "=/"), plainPart v, fixed ".*/"]
      | .ENDSWITH => [fixed (c.field ++ "=/.*"), plainPart v, fixed "/"]
      | .GT => [fixed (c.field ++ ">"), plainPart v]
      | .LT => [fixed (c.field ++ "<"), plainPart v]
      | .GTE => [fixed (c.field ++ ">="), plainPart v]
      | .LTE => [fixed (c.field ++ "<="), plainPart v]
      | .IN => cqlIn c.field [v]
      | .REGEX => [fixed (c.field ++ "=/"), plainPart v, fixed "/"]

end Conditions

section Queries
variable (ir : QueryIR)

-- `_render_kql`
def kqlQuery : List Fragment :=
  joinParts "\n" ([[fixed ir.dataSource]] ++
    optionalPart ir.timeWindowHours
      (fun hours => "| where TimeGenerated > ago(" ++ toString hours ++ "h)") ++
    (if ir.conditions.isEmpty then []
      else [fixed "| where " :: joinConds (ir.conditions.map kqlCond) ir.logic " and " " or "]) ++
    optionalPart ir.limit fun limit => "| take " ++ toString limit)

-- `_render_esql`; the time filter goes in front of the conditions.
def esqlQuery : List Fragment :=
  joinParts " " ([[fixed ("FROM " ++ ir.dataSource)]] ++
    optionalPart ir.timeWindowHours
      (fun hours => "| WHERE @timestamp >= NOW() - " ++ toString hours ++ " hours") ++
    (if ir.conditions.isEmpty then []
      else [fixed "| WHERE " :: joinConds (ir.conditions.map esqlCond) ir.logic " AND " " OR "]) ++
    optionalPart ir.limit fun limit => "| LIMIT " ++ toString limit)

-- `_render_cql`
def cqlQuery : List Fragment :=
  joinParts " " ([[fixed ("#event_simpleName=" ++ ir.dataSource)]] ++
    (if ir.conditions.isEmpty then []
      else [joinConds (ir.conditions.map cqlCond) ir.logic " " " OR "])) ++
    (optionalPart ir.limit fun limit => " | head(" ++ toString limit ++ ")").flatten

def renderKql : String := String.ofList (Literals.text (kqlQuery ir))

def renderEsql : String := String.ofList (Literals.text (esqlQuery ir))

def renderCql : String := String.ofList (Literals.text (cqlQuery ir))

-- `_RENDERERS`
def renderQuery : QueryLanguage → QueryIR → String
  | .splunk => renderSplunk
  | .kql => renderKql
  | .esql => renderEsql
  | .cql => renderCql

end Queries

section Splunk

def splunkTestParts (t : FieldTest) : List Fragment :=
  match t.relation with
  | .eq => [fixed (t.field ++ "="), quotedPart t.value]
  | .contains => [fixed (t.field ++ "=\x22*"), plainPart t.value, fixed "*\x22"]
  | .startswith => [fixed (t.field ++ "=\x22"), plainPart t.value, fixed "*\x22"]
  | .endswith => [fixed (t.field ++ "=\x22*"), plainPart t.value, fixed "\x22"]
  | .gt => [fixed (t.field ++ ">"), plainPart t.value]
  | .lt => [fixed (t.field ++ "<"), plainPart t.value]
  | .gte => [fixed (t.field ++ ">="), plainPart t.value]
  | .lte => [fixed (t.field ++ "<="), plainPart t.value]
  | .regex => [fixed ("| regex " ++ t.field ++ "=\x22"), plainPart t.value, fixed "\x22"]

def splunkTermParts : SplunkTerm → List Fragment
  | .test t => splunkTestParts t
  | .unequal field value => [fixed (field ++ "!="), quotedPart value]
  | .anyOf field values =>
      fixed "(" :: joinParts " OR " (values.map fun x => [fixed (field ++ "="), quotedPart x]) ++
        [fixed ")"]

-- The parts that `renderSplunk` puts together.
def splunkQuery (ir : QueryIR) : List Fragment :=
  let s := splunkSearch ir
  joinParts " " ([[fixed ("index=" ++ s.index)]] ++
    (if s.terms.isEmpty then [] else [joinConds (s.terms.map splunkTermParts) s.logic " " " OR "])) ++
    (optionalPart s.earliest fun hours => " earliest=-" ++ toString hours ++ "h").flatten ++
    (s.filters.flatMap fun r => fixed " " :: splunkTermParts r) ++
    (optionalPart s.head fun limit => " | head " ++ toString limit).flatten

variable {v : Scalar} {s : String} {parts : List Fragment} {partss : List (List Fragment)}

theorem text_append {ps qs : List Fragment} :
    Literals.text (ps ++ qs) = Literals.text ps ++ Literals.text qs := List.flatMap_append

theorem text_fixed : Literals.text (fixed s :: parts) = s.toList ++ Literals.text parts := rfl

theorem text_nil : Literals.text [] = [] := rfl

theorem text_quotedPart : Literals.text (quotedPart v :: parts) =
    (quoted v).toList ++ Literals.text parts := by
  cases v with
  | str s =>
      have hescape : Quoted.escape '\\' Literals.isSpecial s.toList = s.toList.flatMap escapeQuoted := by
        apply List.flatMap_congr
        intro c _
        unfold escapeQuoted Literals.isSpecial
        split_ifs <;> simp_all
      have hquote : "\x22".toList = ['\x22'] := by decide
      rw [Literals.text_cons, quotedPart, Literals.Fragment.text, quoted, hescape]
      simp [hquote]
  | int n => rfl
  | float r => rfl

theorem text_plainPart : Literals.text (plainPart v :: parts) =
    v.text.toList ++ Literals.text parts := by
  cases v <;> rfl

theorem text_joinParts : Literals.text (joinParts s partss) =
    s.toList.intercalate (partss.map Literals.text) := by
  induction partss with
  | nil => rfl
  | cons ps partss ih =>
      cases partss with
      | nil => simp [joinParts]
      | cons qs partss =>
          simp only [joinParts, List.map_cons, List.intercalate_cons_cons, text_append] at ih ⊢
          rw [ih, text_fixed, text_nil, List.append_nil]

theorem splunkTest_text {t : FieldTest} : Literals.text (splunkTestParts t) = t.splunkText.toList := by
  rcases t with ⟨field, relation, value⟩
  cases relation <;> simp [splunkTestParts, FieldTest.splunkText, text_fixed, text_quotedPart,
    text_plainPart, text_nil]

theorem splunkTerm_text {t : SplunkTerm} : Literals.text (splunkTermParts t) = t.text.toList := by
  cases t with
  | test t => exact splunkTest_text
  | unequal field value =>
      simp [splunkTermParts, SplunkTerm.text, text_fixed, text_quotedPart, text_nil]
  | anyOf field values =>
      simp only [splunkTermParts, SplunkTerm.text, List.cons_append, text_fixed, text_append,
        text_joinParts, text_quotedPart, List.map_map, Function.comp_def, String.toList_append,
        String.toList_intercalate, text_nil]
      simp

theorem optionalPart_text {n : Option ℕ} {f : ℕ → String} :
    Literals.text (optionalPart n f).flatten = (orEmpty n f).toList := by
  unfold optionalPart orEmpty
  split <;> simp [text_fixed, text_nil]

theorem renderSplunk_text (ir : QueryIR) :
    (renderSplunk ir).toList = Literals.text (splunkQuery ir) := by
  have hfilters : ∀ ts : List SplunkTerm,
      Literals.text (ts.flatMap fun r => fixed " " :: splunkTermParts r) =
        (String.join (ts.map fun r => " " ++ r.text)).toList := by
    intro ts
    induction ts with
    | nil => rfl
    | cons t ts ih =>
        rw [List.flatMap_cons, text_append, ih, text_fixed, splunkTerm_text]
        simp [String.join_cons]
  have hterms : Literals.text ∘ splunkTermParts = String.toList ∘ SplunkTerm.text :=
    funext fun t => splunkTerm_text
  simp only [renderSplunk, SplunkSearch.text, splunkQuery, text_append, hfilters, optionalPart_text,
    text_joinParts, String.toList_append, String.toList_intercalate]
  congr 3
  cases h : (splunkSearch ir).terms with
  | nil => simp [text_fixed, text_nil]
  | cons t ts =>
      simp only [List.isEmpty_cons, Bool.false_eq_true, if_false, reduceCtorEq, joinConds, join]
      simp [text_joinParts, text_fixed, text_nil, splunkTerm_text, hterms, String.toList_intercalate]

end Splunk

end QueryTranslate

end BTagent
