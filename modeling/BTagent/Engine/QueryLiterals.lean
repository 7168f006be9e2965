import BTagent.Engine.QueryText

namespace BTagent

namespace QueryTranslate

open Literals (Fragment Reading)

section Values

def fillScalar (v : String) : Scalar → Scalar
  | .str _ => .str v
  | .int n => .int n
  | .float r => .float r

def fillValue (v : String) : QueryValue → QueryValue
  | .one s => .one (fillScalar v s)
  | .many xs => .many (xs.map fun _ => v)

theorem listed_fill (c : QueryCondition) (v : String) (xs : List String)
    (h : fillValue v c.value = .many xs) : c.op = .IN := by
  cases hvalue : c.value with
  | one s =>
      rw [hvalue] at h
      cases h
  | many ys => exact c.listed ys hvalue

def fillCondition (v : String) (c : QueryCondition) : QueryCondition where
  field := c.field
  op := c.op
  value := fillValue v c.value
  canonical := c.canonical
  listed := listed_fill c v

def fillQuery (v : String) (ir : QueryIR) : QueryIR :=
  { ir with conditions := ir.conditions.map (fillCondition v) }

-- The two are the same but for the string values of their conditions.
def SameButValues (ir ir' : QueryIR) : Prop := fillQuery "" ir = fillQuery "" ir'

def stringsOf : QueryValue → List (List Char)
  | .one (.str s) => [s.toList]
  | .one _ => []
  | .many xs => xs.map String.toList

-- Splunk puts the regexes behind the other conditions.
def inOrder (l : QueryLanguage) (conds : List QueryCondition) : List QueryCondition :=
  match l with
  | .splunk => (conds.filter fun c => c.op ≠ .REGEX) ++ conds.filter fun c => c.op = .REGEX
  | .kql | .esql | .cql => conds

def stringValues (l : QueryLanguage) (ir : QueryIR) : List (List Char) :=
  (inOrder l ir.conditions).flatMap fun c => stringsOf c.value

end Values

section Languages

def delimitersOf : QueryLanguage → List Char
  | .splunk => ['\x22']
  | .kql => ['\x22', '\'']
  | .esql => ['\x22']
  | .cql => ['\x22', '/']

def reservedOf : QueryLanguage → List String
  | .splunk => ["AND", "OR", "NOT", "IN", "regex", "head"]
  | .kql => ["and", "or", "not", "in", "contains", "startswith", "endswith", "matches", "regex",
      "where", "take"]
  | .esql => ["AND", "OR", "NOT", "IN", "LIKE", "RLIKE", "FROM", "WHERE", "LIMIT"]
  | .cql => ["AND", "OR", "NOT", "IN", "head"]

theorem quote_mem_delimiters (l : QueryLanguage) : '\x22' ∈ delimitersOf l := by
  cases l <;> decide

theorem slash_not_mem_delimiters (l : QueryLanguage) : '\\' ∉ delimitersOf l := by
  cases l <;> decide

theorem paren_not_mem_delimiters (l : QueryLanguage) : '(' ∉ delimitersOf l := by
  cases l <;> decide

-- `lines` says of each language whether its literals may hold a line end.
def syntaxOf (lines : QueryLanguage → Bool) (l : QueryLanguage) : Literals.Syntax where
  delimiters := delimitersOf l
  spansLines := lines l
  reserved := (reservedOf l).map String.toList
  quote_mem := quote_mem_delimiters l
  slash_not_mem := slash_not_mem_delimiters l
  paren_not_mem := paren_not_mem_delimiters l

-- Other string values neither change the tokens nor leave the literals they are in.
def NoInjection (lines : QueryLanguage → Bool) (l : QueryLanguage) (ir : QueryIR) : Prop :=
  ∀ ir', SameButValues ir ir' →
    Literals.tokenStructure (syntaxOf lines l) (renderQuery l ir').toList =
      Literals.tokenStructure (syntaxOf lines l) (renderQuery l ir).toList ∧
    List.SublistForall₂ Literals.Holds (stringValues l ir')
      (Literals.marks (syntaxOf lines l) (renderQuery l ir').toList)

def queryParts : QueryLanguage → QueryIR → List Fragment
  | .splunk => splunkQuery
  | .kql => kqlQuery
  | .esql => esqlQuery
  | .cql => cqlQuery

theorem renderQuery_text (l : QueryLanguage) (ir : QueryIR) :
    (renderQuery l ir).toList = Literals.text (queryParts l ir) := by
  cases l with
  | splunk => exact renderSplunk_text ir
  | kql => exact String.toList_ofList
  | esql => exact String.toList_ofList
  | cql => exact String.toList_ofList

end Languages

section Filled
variable {v s : String} {c : QueryCondition} {x : Scalar} {ps : List Fragment}
  {partss : List (List Fragment)}

def fillParts (v : String) (ps : List Fragment) : List Fragment := ps.map (Fragment.fill v.toList)

theorem fillParts_append {qs : List Fragment} :
    fillParts v (ps ++ qs) = fillParts v ps ++ fillParts v qs := List.map_append

theorem fillParts_nil : fillParts v [] = [] := rfl

theorem fillParts_fixed : fillParts v (fixed s :: ps) = fixed s :: fillParts v ps := rfl

theorem fillParts_quoted :
    fillParts v (quotedPart x :: ps) = quotedPart (fillScalar v x) :: fillParts v ps := by
  cases x <;> rfl

theorem fillParts_plain :
    fillParts v (plainPart x :: ps) = plainPart (fillScalar v x) :: fillParts v ps := by
  cases x <;> rfl

theorem fillParts_joinParts :
    fillParts v (joinParts s partss) = joinParts s (partss.map (fillParts v)) := by
  induction partss with
  | nil => rfl
  | cons ps partss ih =>
      cases partss with
      | nil => simp [joinParts]
      | cons qs partss =>
          simp only [joinParts, List.map_cons, List.intercalate_cons_cons, fillParts_append] at ih ⊢
          rw [ih]
          rfl

theorem fillParts_optional {n : Option ℕ} {f : ℕ → String} :
    (optionalPart n f).map (fillParts v) = optionalPart n f := by
  unfold optionalPart
  split <;> rfl

theorem fillParts_optional_flatten {n : Option ℕ} {f : ℕ → String} :
    fillParts v (optionalPart n f).flatten = (optionalPart n f).flatten := by
  unfold optionalPart
  split <;> rfl

theorem fillScalar_strings {xs : List String} :
    (xs.map Scalar.str).map (fillScalar v) = (xs.map fun _ => v).map Scalar.str := by
  rw [List.map_map, List.map_map]
  rfl

theorem fill_kqlIn {f : String} {vals : List Scalar} :
    fillParts v (kqlIn f vals) = kqlIn f (vals.map (fillScalar v)) := by
  simp only [kqlIn, List.cons_append, fillParts_fixed, fillParts_append, fillParts_joinParts,
    List.map_map, Function.comp_def, fillParts_quoted, fillParts_nil]

theorem fill_kqlCond : fillParts v (kqlCond c) = kqlCond (fillCondition v c) := by
  rcases c with ⟨field, op, value, hcanonical, hlisted⟩
  cases value with
  | one x =>
      cases op <;> simp only [kqlCond, fillCondition, fillValue, fillParts_fixed, fillParts_quoted,
        fillParts_plain, fillParts_nil, fill_kqlIn, List.map_cons, List.map_nil]
  | many xs => simp only [kqlCond, fillCondition, fillValue, fill_kqlIn, fillScalar_strings]

theorem fill_esqlIn {f : String} {vals : List Scalar} :
    fillParts v (esqlIn f vals) = esqlIn f (vals.map (fillScalar v)) := by
  simp only [esqlIn, List.cons_append, fillParts_fixed, fillParts_append, fillParts_joinParts,
    List.map_map, Function.comp_def, fillParts_quoted, fillParts_nil]

theorem fill_esqlCond : fillParts v (esqlCond c) = esqlCond (fillCondition v c) := by
  rcases c with ⟨field, op, value, hcanonical, hlisted⟩
  cases value with
  | one x =>
      cases op <;> simp only [esqlCond, fillCondition, fillValue, fillParts_fixed, fillParts_quoted,
        fillParts_plain, fillParts_nil, fill_esqlIn, List.map_cons, List.map_nil]
  | many xs => simp only [esqlCond, fillCondition, fillValue, fill_esqlIn, fillScalar_strings]

theorem fill_cqlIn {f : String} {vals : List Scalar} :
    fillParts v (cqlIn f vals) = cqlIn f (vals.map (fillScalar v)) := by
  simp only [cqlIn, List.cons_append, fillParts_fixed, fillParts_append, fillParts_joinParts,
    List.map_map, Function.comp_def, fillParts_plain, fillParts_nil]

theorem fill_cqlCond : fillParts v (cqlCond c) = cqlCond (fillCondition v c) := by
  rcases c with ⟨field, op, value, hcanonical, hlisted⟩
  cases value with
  | one x =>
      cases op <;> simp only [cqlCond, fillCondition, fillValue, fillParts_fixed, fillParts_plain,
        fillParts_nil, fill_cqlIn, List.map_cons, List.map_nil]
  | many xs => simp only [cqlCond, fillCondition, fillValue, fill_cqlIn, fillScalar_strings]

theorem fill_splunkCond : fillParts v (splunkTermParts (splunkCond c)) =
    splunkTermParts (splunkCond (fillCondition v c)) := by
  have hany : ∀ (f : String) (vals : List Scalar), fillParts v (splunkTermParts (.anyOf f vals)) =
      splunkTermParts (.anyOf f (vals.map (fillScalar v))) := by
    intro f vals
    simp only [splunkTermParts, List.cons_append, fillParts_fixed, fillParts_append,
      fillParts_joinParts, List.map_map, Function.comp_def, fillParts_quoted, fillParts_nil]
  rcases c with ⟨field, op, value, hcanonical, hlisted⟩
  cases value with
  | one x =>
      cases op <;> simp only [splunkCond, hany, fillCondition, fillValue, QueryValue.values,
        List.map_cons, List.map_nil] <;>
        simp only [splunkTermParts, splunkTestParts, Operator.relation, fillParts_fixed,
          fillParts_quoted, fillParts_plain, fillParts_nil]
  | many xs =>
      obtain rfl : op = .IN := hlisted xs rfl
      simp only [splunkCond, hany, fillCondition, fillValue, QueryValue.values, fillScalar_strings]

theorem fill_joinConds {cond : QueryCondition → List Fragment} {conds : List QueryCondition}
    {logic : LogicOp} {sepAnd sepOr : String}
    (hcond : ∀ c, fillParts v (cond c) = cond (fillCondition v c)) :
    fillParts v (joinConds (conds.map cond) logic sepAnd sepOr) =
      joinConds ((conds.map (fillCondition v)).map cond) logic sepAnd sepOr := by
  rw [joinConds, joinConds, fillParts_joinParts, List.map_map, List.map_map]
  congr 1
  exact List.map_congr_left fun c _ => hcond c

theorem fill_filter (p : Operator → Bool) {conds : List QueryCondition} :
    (conds.map (fillCondition v)).filter (fun c => p c.op) =
      (conds.filter fun c => p c.op).map (fillCondition v) := by
  rw [List.filter_map]
  rfl

theorem isEmpty_fill {conds : List QueryCondition} :
    (conds.map (fillCondition v)).isEmpty = conds.isEmpty := by
  cases conds <;> rfl

theorem fill_splunkQuery (ir : QueryIR) :
    fillParts v (splunkQuery ir) = splunkQuery (fillQuery v ir) := by
  have hterms : (fillQuery v ir).conditions.filter (fun c => c.op ≠ .REGEX) =
      (ir.conditions.filter fun c => c.op ≠ .REGEX).map (fillCondition v) :=
    fill_filter fun op => decide (op ≠ .REGEX)
  have hfilters : (fillQuery v ir).conditions.filter (fun c => c.op = .REGEX) =
      (ir.conditions.filter fun c => c.op = .REGEX).map (fillCondition v) :=
    fill_filter fun op => decide (op = .REGEX)
  have hflat : ∀ conds : List QueryCondition,
      fillParts v ((conds.map splunkCond).flatMap fun r => fixed " " :: splunkTermParts r) =
        ((conds.map (fillCondition v)).map splunkCond).flatMap fun r =>
          fixed " " :: splunkTermParts r := by
    intro conds
    induction conds with
    | nil => rfl
    | cons c conds ih =>
        simp only [List.map_cons, List.flatMap_cons, fillParts_append, ih, fillParts_fixed,
          fill_splunkCond, List.cons_append]
  have hsource : (fillQuery v ir).dataSource = ir.dataSource := rfl
  have hlogic : (fillQuery v ir).logic = ir.logic := rfl
  have hhours : (fillQuery v ir).timeWindowHours = ir.timeWindowHours := rfl
  have hlimit : (fillQuery v ir).limit = ir.limit := rfl
  simp only [splunkQuery, splunkSearch, fillParts_append, fillParts_joinParts, List.map_append,
    fillParts_optional_flatten, hterms, hfilters, hflat, List.isEmpty_map, hsource, hlogic, hhours,
    hlimit]
  congr 5
  split
  · rfl
  · rw [List.map_singleton, List.map_map, List.map_map]
    exact congrArg (fun parts => [parts]) (fill_joinConds fun c => fill_splunkCond)

theorem fillParts_queryParts (l : QueryLanguage) (ir : QueryIR) :
    fillParts v (queryParts l ir) = queryParts l (fillQuery v ir) := by
  cases l with
  | splunk => exact fill_splunkQuery ir
  | kql =>
      simp only [queryParts, kqlQuery, fillQuery, fillParts_joinParts, List.map_append,
        fillParts_optional, isEmpty_fill]
      congr 4
      split
      · rfl
      · have hcond : ∀ c, fillParts v (kqlCond c) = kqlCond (fillCondition v c) :=
          fun c => fill_kqlCond
        rw [List.map_singleton, fillParts_fixed, fill_joinConds hcond]
  | esql =>
      simp only [queryParts, esqlQuery, fillQuery, fillParts_joinParts, List.map_append,
        fillParts_optional, isEmpty_fill]
      congr 4
      split
      · rfl
      · have hcond : ∀ c, fillParts v (esqlCond c) = esqlCond (fillCondition v c) :=
          fun c => fill_esqlCond
        rw [List.map_singleton, fillParts_fixed, fill_joinConds hcond]
  | cql =>
      simp only [queryParts, cqlQuery, fillQuery, fillParts_append, fillParts_joinParts,
        List.map_append, fillParts_optional_flatten, isEmpty_fill]
      congr 4
      split
      · rfl
      · have hcond : ∀ c, fillParts v (cqlCond c) = cqlCond (fillCondition v c) :=
          fun c => fill_cqlCond
        rw [List.map_singleton, fill_joinConds hcond]

end Filled

section Refilled
variable {v w : String} {x : QueryValue} {c : QueryCondition} {ir : QueryIR}

theorem fillValue_fillValue : fillValue w (fillValue v x) = fillValue w x := by
  cases x with
  | one s => cases s <;> rfl
  | many xs => simp [fillValue]

theorem fillCondition_fillCondition :
    fillCondition w (fillCondition v c) = fillCondition w c := by
  simp only [fillCondition, fillValue_fillValue]

theorem sameButValues_fill : SameButValues ir (fillQuery v ir) := by
  simp only [SameButValues, fillQuery, List.map_map]
  congr 1
  exact List.map_congr_left fun c _ => fillCondition_fillCondition.symm

end Refilled

section HeldValues
variable {s : String} {c : QueryCondition} {x : Scalar} {ps : List Fragment}
  {partss : List (List Fragment)}

theorem values_append {qs : List Fragment} :
    Literals.values (ps ++ qs) = Literals.values ps ++ Literals.values qs := List.filterMap_append

theorem values_nil : Literals.values [] = [] := rfl

theorem values_fixed : Literals.values (fixed s :: ps) = Literals.values ps := rfl

theorem values_quoted :
    Literals.values (quotedPart x :: ps) = stringsOf (.one x) ++ Literals.values ps := by
  cases x <;> rfl

theorem values_plain :
    Literals.values (plainPart x :: ps) = stringsOf (.one x) ++ Literals.values ps := by
  cases x <;> rfl

theorem values_joinParts :
    Literals.values (joinParts s partss) = partss.flatMap Literals.values := by
  induction partss with
  | nil => rfl
  | cons ps partss ih =>
      cases partss with
      | nil => simp [joinParts]
      | cons qs partss =>
          simp only [joinParts, List.intercalate_cons_cons, values_append] at ih ⊢
          rw [ih, values_fixed, values_nil, List.append_nil]
          rfl

theorem values_optional {n : Option ℕ} {f : ℕ → String} :
    (optionalPart n f).flatMap Literals.values = [] := by
  unfold optionalPart
  split <;> rfl

theorem values_optional_flatten {n : Option ℕ} {f : ℕ → String} :
    Literals.values (optionalPart n f).flatten = [] := by
  unfold optionalPart
  split <;> rfl

theorem flatMap_strings {xs : List String} :
    (xs.map Scalar.str).flatMap (fun x => stringsOf (.one x)) = stringsOf (.many xs) := by
  rw [stringsOf]
  rw [List.flatMap_map, List.map_eq_flatMap]
  rfl

theorem values_kqlCond : Literals.values (kqlCond c) = stringsOf c.value := by
  have hin : ∀ f vals, Literals.values (kqlIn f vals) = vals.flatMap fun x => stringsOf (.one x) := by
    intro f vals
    simp only [kqlIn, List.cons_append, values_fixed, values_append, values_joinParts,
      List.flatMap_map, values_quoted, values_nil, List.append_nil]
  rcases c with ⟨field, op, value, hcanonical, hlisted⟩
  cases value with
  | one x =>
      cases op <;> simp only [kqlCond, values_fixed, values_quoted, values_plain, values_nil, hin,
        List.flatMap_singleton, List.append_nil]
  | many xs => simp only [kqlCond, hin, flatMap_strings]

theorem values_esqlCond : Literals.values (esqlCond c) = stringsOf c.value := by
  have hin : ∀ f vals, Literals.values (esqlIn f vals) = vals.flatMap fun x => stringsOf (.one x) := by
    intro f vals
    simp only [esqlIn, List.cons_append, values_fixed, values_append, values_joinParts,
      List.flatMap_map, values_quoted, values_nil, List.append_nil]
  rcases c with ⟨field, op, value, hcanonical, hlisted⟩
  cases value with
  | one x =>
      cases op <;> simp only [esqlCond, values_fixed, values_quoted, values_plain, values_nil, hin,
        List.flatMap_singleton, List.append_nil]
  | many xs => simp only [esqlCond, hin, flatMap_strings]

theorem values_cqlCond : Literals.values (cqlCond c) = stringsOf c.value := by
  have hin : ∀ f vals, Literals.values (cqlIn f vals) = vals.flatMap fun x => stringsOf (.one x) := by
    intro f vals
    simp only [cqlIn, List.cons_append, values_fixed, values_append, values_joinParts,
      List.flatMap_map, values_plain, values_nil, List.append_nil]
  rcases c with ⟨field, op, value, hcanonical, hlisted⟩
  cases value with
  | one x =>
      cases op <;> simp only [cqlCond, values_fixed, values_plain, values_nil, hin,
        List.flatMap_singleton, List.append_nil]
  | many xs => simp only [cqlCond, hin, flatMap_strings]

theorem values_splunkCond :
    Literals.values (splunkTermParts (splunkCond c)) = stringsOf c.value := by
  have hin : ∀ f vals, Literals.values (splunkTermParts (.anyOf f vals)) =
      vals.flatMap fun x => stringsOf (.one x) := by
    intro f vals
    simp only [splunkTermParts, List.cons_append, values_fixed, values_append, values_joinParts,
      List.flatMap_map, values_quoted, values_nil, List.append_nil]
  rcases c with ⟨field, op, value, hcanonical, hlisted⟩
  cases value with
  | one x =>
      cases op <;> simp only [splunkCond, hin, QueryValue.values, List.flatMap_singleton] <;>
        simp only [splunkTermParts, splunkTestParts, Operator.relation, values_fixed,
          values_quoted, values_plain, values_nil, List.append_nil]
  | many xs =>
      obtain rfl : op = .IN := hlisted xs rfl
      simp only [splunkCond, hin, QueryValue.values, flatMap_strings]

theorem values_joinConds {cond : QueryCondition → List Fragment} {conds : List QueryCondition}
    {logic : LogicOp} {sepAnd sepOr : String}
    (hcond : ∀ c, Literals.values (cond c) = stringsOf c.value) :
    Literals.values (joinConds (conds.map cond) logic sepAnd sepOr) =
      conds.flatMap fun c => stringsOf c.value := by
  rw [joinConds, values_joinParts, List.flatMap_map]
  exact List.flatMap_congr fun c _ => hcond c

theorem values_filters {cond : QueryCondition → List Fragment} {conds : List QueryCondition}
    (pre : List Fragment) {logic : LogicOp} {sepAnd sepOr : String}
    (hpre : Literals.values pre = []) (hcond : ∀ c, Literals.values (cond c) = stringsOf c.value) :
    (if conds.isEmpty then [] else [pre ++ joinConds (conds.map cond) logic sepAnd sepOr]).flatMap
      Literals.values = conds.flatMap fun c => stringsOf c.value := by
  cases conds with
  | nil => rfl
  | cons c conds =>
      rw [List.isEmpty_cons, if_neg Bool.false_ne_true, List.flatMap_singleton, values_append, hpre,
        values_joinConds hcond, List.nil_append]

theorem values_splunkQuery (ir : QueryIR) :
    Literals.values (splunkQuery ir) = stringValues .splunk ir := by
  have hfilters : ∀ conds : List QueryCondition,
      Literals.values ((conds.map splunkCond).flatMap fun r => fixed " " :: splunkTermParts r) =
        conds.flatMap fun c => stringsOf c.value := by
    intro conds
    induction conds with
    | nil => rfl
    | cons c conds ih =>
        simp only [List.map_cons, List.flatMap_cons, values_append, ih, values_fixed,
          values_splunkCond, List.cons_append]
  have hterms : ∀ conds : List QueryCondition, Literals.values (joinParts " "
      ([[fixed ("index=" ++ ir.dataSource)]] ++ if (conds.map splunkCond).isEmpty then [] else
        [joinConds ((conds.map splunkCond).map splunkTermParts) ir.logic " " " OR "])) =
      conds.flatMap fun c => stringsOf c.value := by
    intro conds
    rw [values_joinParts, List.flatMap_append, List.isEmpty_map, List.map_map]
    exact values_filters [] rfl fun c => values_splunkCond
  simp only [splunkQuery, splunkSearch, values_append, values_optional_flatten, hfilters,
    List.append_nil, stringValues, inOrder, List.flatMap_append]
  exact congrArg (· ++ _) (hterms _)

theorem values_queryParts (l : QueryLanguage) (ir : QueryIR) :
    Literals.values (queryParts l ir) = stringValues l ir := by
  cases l with
  | splunk => exact values_splunkQuery ir
  | kql =>
      simp only [queryParts, kqlQuery, values_joinParts, List.flatMap_append, values_optional,
        List.append_nil, List.flatMap_singleton, values_fixed, values_nil, List.nil_append]
      exact values_filters [_] rfl fun c => values_kqlCond
  | esql =>
      simp only [queryParts, esqlQuery, values_joinParts, List.flatMap_append, values_optional,
        List.append_nil, List.flatMap_singleton, values_fixed, values_nil, List.nil_append]
      exact values_filters [_] rfl fun c => values_esqlCond
  | cql =>
      simp only [queryParts, cqlQuery, values_append, values_joinParts, List.flatMap_append,
        values_optional_flatten, List.append_nil, List.flatMap_singleton, values_fixed, values_nil,
        List.nil_append]
      exact values_filters [] rfl fun c => values_cqlCond

end HeldValues

-- The values of a query cannot change it exactly where each is escaped and stands where a quote opens
-- a literal that may hold any text.
theorem no_injection_iff (lines : QueryLanguage → Bool) (l : QueryLanguage) (ir : QueryIR) :
    NoInjection lines l ir ↔
      Literals.Sealed (.outside : Reading (syntaxOf lines l)) (queryParts l ir) := by
  constructor
  · intro h
    apply Literals.sealed_of_filled
    intro v
    have hsame : SameButValues ir (fillQuery (String.ofList v) ir) := sameButValues_fill
    have hstructure := (h _ hsame).1
    rw [renderQuery_text, renderQuery_text, ← fillParts_queryParts, fillParts,
      String.toList_ofList] at hstructure
    exact hstructure
  · intro h ir' hsame
    have halike : List.Forall₂ Fragment.Alike (queryParts l ir) (queryParts l ir') := by
      apply Literals.alike_of_fill_eq
      have hparts := congrArg (queryParts l) hsame
      rw [← fillParts_queryParts, ← fillParts_queryParts] at hparts
      exact hparts
    have hstable := h.stable halike
    rw [renderQuery_text, renderQuery_text, ← values_queryParts]
    exact hstable

section Operators
variable {lines : QueryLanguage → Bool} {l : QueryLanguage} {ir : QueryIR} {c : QueryCondition}
  {P : Fragment → Prop} {part : Fragment} {ps : List Fragment} {partss : List (List Fragment)} {s : String}

-- The operators whose values go through `_q`.
def escapes : QueryLanguage → Operator → Bool
  | .splunk, op => op ∈ [.EQ, .NE, .IN]
  | .kql, op => op ∉ [.GT, .LT, .GTE, .LTE]
  | .esql, op => op ∈ [.EQ, .NE, .IN, .REGEX]
  | .cql, _ => false

def condParts : QueryLanguage → QueryCondition → List Fragment
  | .splunk, c => splunkTermParts (splunkCond c)
  | .kql, c => kqlCond c
  | .esql, c => esqlCond c
  | .cql, c => cqlCond c

theorem mem_joinParts (hps : ps ∈ partss) (h : part ∈ ps) : part ∈ joinParts s partss := by
  induction partss with
  | nil => cases hps
  | cons qs partss ih =>
      cases partss with
      | nil =>
          rw [List.mem_singleton.mp hps] at h
          simpa [joinParts] using h
      | cons qs' partss =>
          rw [joinParts, List.intercalate_cons_cons]
          rcases List.mem_cons.mp hps with rfl | hps
          · simp [h]
          · exact List.mem_append_right _ (ih hps)

theorem mem_conds {cond : QueryCondition → List Fragment} {conds : List QueryCondition}
    (pre : List Fragment) {logic : LogicOp} {sepAnd sepOr : String} (hc : c ∈ conds)
    (h : part ∈ cond c) :
    ∃ ps ∈ (if conds.isEmpty then [] else [pre ++ joinConds (conds.map cond) logic sepAnd sepOr]),
      part ∈ ps := by
  cases conds with
  | nil => cases hc
  | cons d conds =>
      refine ⟨_, List.mem_singleton_self _, List.mem_append_right _ ?_⟩
      exact mem_joinParts (List.mem_map_of_mem hc) h

theorem mem_queryParts (hc : c ∈ ir.conditions) (h : part ∈ condParts l c) :
    part ∈ queryParts l ir := by
  cases l with
  | splunk =>
      by_cases hop : c.op = .REGEX
      · have hregex : c ∈ ir.conditions.filter fun c => c.op = .REGEX := by simp [hc, hop]
        refine List.mem_append_left _ (List.mem_append_right _ ?_)
        rw [List.mem_flatMap]
        exact ⟨splunkCond c, List.mem_map_of_mem hregex, List.mem_cons_of_mem _ h⟩
      · have hterm : c ∈ ir.conditions.filter fun c => c.op ≠ .REGEX := by simp [hc, hop]
        obtain ⟨ps, hps, hpart⟩ := mem_conds [] hterm h
        refine List.mem_append_left _ (List.mem_append_left _ (List.mem_append_left _ ?_))
        refine mem_joinParts ?_ hpart
        simp only [splunkSearch, List.isEmpty_map, List.map_map]
        exact List.mem_append_right _ hps
  | kql =>
      obtain ⟨ps, hps, hpart⟩ := mem_conds [fixed "| where "] hc h
      refine mem_joinParts ?_ hpart
      simp only [List.mem_append]
      exact Or.inl (Or.inr hps)
  | esql =>
      obtain ⟨ps, hps, hpart⟩ := mem_conds [fixed "| WHERE "] hc h
      refine mem_joinParts ?_ hpart
      simp only [List.mem_append]
      exact Or.inl (Or.inr hps)
  | cql =>
      obtain ⟨ps, hps, hpart⟩ := mem_conds [] hc h
      refine List.mem_append_left _ (mem_joinParts ?_ hpart)
      exact List.mem_append_right _ hps

theorem string_part (hstring : stringsOf c.value ≠ []) :
    (escapes l c.op = true ∧ ∃ w, Fragment.quoted w ∈ condParts l c) ∨
      ∃ w, Fragment.raw w ∈ condParts l c := by
  rcases c with ⟨field, op, value, hcanonical, hlisted⟩
  cases value with
  | one x =>
      cases x with
      | str s =>
          cases l <;> cases op <;>
            simp [escapes, condParts, splunkCond, splunkTermParts, splunkTestParts,
              Operator.relation, QueryValue.values, kqlCond, kqlIn, esqlCond, esqlIn, cqlCond, cqlIn,
              joinParts, quotedPart, plainPart, fixed]
      | int n => exact absurd rfl hstring
      | float r => exact absurd rfl hstring
  | many xs =>
      obtain rfl : op = .IN := hlisted xs rfl
      cases xs with
      | nil => exact absurd rfl hstring
      | cons x xs =>
          have hmem : ∀ {sep : String} {f : Scalar → List Fragment} {first last part : Fragment},
              part ∈ f (.str x) →
                part ∈ first :: joinParts sep (((x :: xs).map Scalar.str).map f) ++ [last] := by
            intro sep f first last part h
            exact List.mem_append_left _ (List.mem_cons_of_mem _
              (mem_joinParts List.mem_cons_self h))
          cases l with
          | splunk => exact Or.inl ⟨rfl, x.toList, hmem (by simp [quotedPart])⟩
          | kql => exact Or.inl ⟨rfl, x.toList, hmem (by simp [quotedPart])⟩
          | esql => exact Or.inl ⟨rfl, x.toList, hmem (by simp [quotedPart])⟩
          | cql => exact Or.inr ⟨x.toList, hmem (by simp [plainPart])⟩

-- No other operator keeps a string value from changing the query.
theorem escapes_of_sealed
    (h : Literals.Sealed (.outside : Reading (syntaxOf lines l)) (queryParts l ir))
    (hc : c ∈ ir.conditions) (hstring : stringsOf c.value ≠ []) :
    escapes l c.op = true ∧ lines l = true := by
  rcases string_part hstring with ⟨hescapes, w, hw⟩ | ⟨w, hw⟩
  · exact ⟨hescapes, h.spansLines (mem_queryParts hc hw)⟩
  · exact absurd (mem_queryParts hc hw) h.raw_not_mem

end Operators

section Examples

def hostContains (name : String) : QueryCondition where
  field := "host"
  op := .CONTAINS
  value := .one (.str name)
  canonical := by decide
  listed xs hxs := by cases hxs

def hostQuery (name : String) : QueryIR where
  title := "Hosts"
  dataSource := "auth"
  conditions := [hostContains name]
  logic := .AND
  timeWindowHours := none
  limit := none

-- A host name with a quote ends the literal and goes on in the query.
theorem value_leaves_literal : ¬ NoInjection (fun _ => true) .splunk (hostQuery "web") := by
  intro h
  have hstructure := (h (hostQuery "web\x22 | delete \x22") rfl).1
  rw [renderQuery_text, renderQuery_text] at hstructure
  exact absurd hstructure (by decide)

end Examples

end QueryTranslate

end BTagent
