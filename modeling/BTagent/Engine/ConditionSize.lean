import BTagent.Data.PySize
import BTagent.Engine.Conditions

namespace BTagent

namespace Conditions

variable {F : Type}

mutual

def leaves : Expr F → ℕ
  | .constant _ | .name _ => 1
  | .list elts | .tuple elts => max 1 (leavesAll elts)
  | .subscript value slice => leaves value + leaves slice
  | .attr value _ => leaves value
  | .compare left _ comparators => leaves left + leavesAll comparators
  | .boolOp _ values => max 1 (leavesAll values)
  | .unaryOp _ operand => leaves operand
  | .binOp left _ right => leaves left + leaves right
  | .call func args keywords => leaves func + leavesAll args + leavesAll keywords
  | .other _ children => max 1 (leavesAll children)

def leavesAll : List (Expr F) → ℕ
  | [] => 0
  | e :: es => leaves e + leavesAll es

end

def literalSize (c : Constant F) : ℕ := ((Constant.toKey c).map PyValue.bulk).getD 0

variable (context : Context F)

-- What a path of keys and fields reads from the context.
def access : Expr F → Option (PyValue F)
  | .name id => context.lookup id
  | .subscript value (.constant key) =>
      (access value).bind fun container => (lookUp container key).toOption
  | .attr value attr =>
      (access value).bind fun target =>
        match target with
        | .dict kvs => kvs.lookup attr
        | _ => none
  | _ => none

def readOr (e : Expr F) (otherwise : ℕ) : ℕ := ((access context e).map PyValue.bulk).getD otherwise

mutual

-- The largest size of a literal of an expression, a collection included, or of a value that it
-- reads from the context.
def largest : Expr F → ℕ
  | .constant c => literalSize c
  | .name id => readOr context (.name id) 0
  | .list elts | .tuple elts => max elts.length (largestAll elts)
  | .subscript value slice =>
      readOr context (.subscript value slice) (max (largest value) (largest slice))
  | .attr value attr => readOr context (.attr value attr) (largest value)
  | .compare left _ comparators => max (largest left) (largestAll comparators)
  | .boolOp _ values => largestAll values
  | .unaryOp _ operand => largest operand
  | .binOp left _ right => max (largest left) (largest right)
  | .call _ args _ => largestAll args
  | .other _ _ => 0

def largestAll : List (Expr F) → ℕ
  | [] => 0
  | e :: es => max (largest e) (largestAll es)

end

theorem leaves_pos : ∀ e : Expr F, 1 ≤ leaves e
  | .constant _ | .name _ => Nat.le_refl 1
  | .list _ | .tuple _ | .boolOp _ _ | .other _ _ => Nat.le_max_left _ _
  | .attr value _ => leaves_pos value
  | .unaryOp _ operand => leaves_pos operand
  | .subscript value _ => (leaves_pos value).trans (Nat.le_add_right _ _)
  | .compare left _ _ => (leaves_pos left).trans (Nat.le_add_right _ _)
  | .binOp left _ _ => (leaves_pos left).trans (Nat.le_add_right _ _)
  | .call func _ _ =>
      (leaves_pos func).trans ((Nat.le_add_right _ _).trans (Nat.le_add_right _ _))

theorem leaves_le_leavesAll {e : Expr F} {es : List (Expr F)} (h : e ∈ es) :
    leaves e ≤ leavesAll es := by
  induction es with
  | nil => cases h
  | cons x xs ih =>
      rcases List.mem_cons.mp h with rfl | h
      · exact Nat.le_add_right _ _
      · exact (ih h).trans (Nat.le_add_left _ _)

theorem largest_le_of_mem {context : Context F} {e : Expr F} {es : List (Expr F)} {limit : ℕ}
    (hes : largestAll context es ≤ limit) (h : e ∈ es) : largest context e ≤ limit := by
  induction es with
  | nil => cases h
  | cons x xs ih =>
      obtain ⟨hx, hxs⟩ := max_le_iff.mp hes
      rcases List.mem_cons.mp h with rfl | h
      · exact hx
      · exact ih hxs h

section Bounded
variable {I : Interpreter F} {context : Context F} {self : Visitor F} {limit : ℕ}
  {v : PyValue F}

def Bounded (context : Context F) (limit : ℕ) (self : Visitor F) : Prop :=
  ∀ e v, largest context e ≤ limit → self e = .ok v → v.bulk ≤ leaves e * limit

theorem catching_ok {α : Type} {caught : List PyError} {become : PyError → Raised F}
    {result : Except PyError α} {a : α} (h : catching caught become result = .ok a) :
    result = .ok a := by
  cases result with
  | ok b =>
      cases h
      rfl
  | error exc => cases h

theorem hold_ok {w : PyValue F} (h : hold I w = .ok v) : w = v := by
  unfold hold at h
  split at h <;> cases h
  rfl

theorem limit_le_leaves (e : Expr F) : limit ≤ leaves e * limit :=
  Nat.le_mul_of_pos_left limit (leaves_pos e)

theorem Bounded.values (hself : Bounded context limit self) {es : List (Expr F)}
    {vs : List (PyValue F)} (hes : largestAll context es ≤ limit) (h : es.mapM self = .ok vs) :
    vs.length = es.length ∧ PyValue.bulkAll vs ≤ leavesAll es * limit := by
  have hall := Except.mapM_ok_iff.mp h
  refine ⟨hall.length_eq.symm, ?_⟩
  clear h
  induction hall with
  | nil => exact Nat.zero_le _
  | @cons e v es vs hv _ ih =>
      obtain ⟨he, hes⟩ := max_le_iff.mp hes
      rw [leavesAll, Nat.add_mul]
      apply max_le
      · exact (hself e v he hv).trans (Nat.le_add_right _ _)
      · exact (ih hes).trans (Nat.le_add_left _ _)

theorem bulk_bool_le (b : Bool) : (.bool b : PyValue F).bulk ≤ 1 := by
  cases b with
  | false => exact Nat.zero_le _
  | true => exact Nat.le_refl _

theorem bulk_boolFrom {stop : Bool} {values : List (Expr F)} {first : PyValue F} {bound : ℕ}
    (hfirst : first.bulk ≤ bound)
    (hvalues : ∀ e ∈ values, ∀ w, self e = .ok w → w.bulk ≤ bound)
    (h : boolFrom I self stop first values = .ok v) : v.bulk ≤ bound := by
  induction values generalizing first with
  | nil =>
      cases h
      exact hfirst
  | cons e es ih =>
      obtain ⟨w, hw, h⟩ := Except.bind_ok_iff.mp h
      obtain ⟨he, hes⟩ := List.forall_mem_cons.mp hvalues
      split at h
      · cases h
        exact he v hw
      · exact ih (he w hw) hes h

theorem bulk_lookUp {container : PyValue F} {key : Constant F}
    (h : lookUp container key = .ok v) : v.bulk ≤ container.bulk := by
  unfold lookUp at h
  split at h
  · exact PyValue.bulk_getItem h
  · split at h <;> cases h

theorem bulk_readField {target : PyValue F} {attr : String}
    (h : readField I target attr = .ok v) : v.bulk ≤ max 1 target.bulk := by
  unfold readField at h
  split at h
  · split at h
    · next hlookup =>
        cases h
        have hfield := PyValue.bulk_lookup hlookup
        simp only [PyValue.bulk]
        omega
    · cases h
  · exact PyValue.bulk_getAttr (catching_ok h)

theorem bulk_operate {op : BinOp} {opFn : Arith} {a b : PyValue F} (hop : BIN_OPS op = some opFn)
    (h : operate I op opFn a b = .ok v) : v.bulk ≤ a.bulk + b.bulk := by
  unfold operate at h
  split at h
  · cases h
  · next hmult =>
      split at h
      · cases h
      · next hmod =>
          simp only [not_and, not_or, Bool.not_eq_true] at hmult hmod
          apply PyValue.bulk_arith _ _ (catching_ok h)
          · rintro rfl
            apply hmult
            cases op <;> first | rfl | cases hop
          · rintro rfl
            apply hmod
            cases op <;> first | rfl | cases hop

theorem bulk_callable {name : String} {fn : List (PyValue F) → Except PyError (PyValue F)}
    {values : List (PyValue F)} (hfn : ALLOWED_CALLABLES I name = some fn)
    (h : fn values = .ok v) : v.bulk ≤ PyValue.bulkAll values := by
  unfold ALLOWED_CALLABLES at hfn
  split at hfn
  · cases hfn
    exact PyValue.bulk_callLen h
  · split at hfn
    · cases hfn
      exact PyValue.bulk_select h
    · split at hfn <;> cases hfn
      exact PyValue.bulk_select h

def Reads (context : Context F) (self : Visitor F) : Prop :=
  ∀ e w v, access context e = some w → self e = .ok v → v = w

theorem Reads.node (hself : Reads context self) : Reads context (visitNode I context self) := by
  intro e w v hw h
  cases e with
  | name id =>
      simp only [access] at hw
      simp only [visitNode, visitName, hw] at h
      cases h
      rfl
  | subscript value slice =>
      cases slice with
      | constant key =>
          obtain ⟨container, hcontainer, hread⟩ := Option.bind_eq_some_iff.mp hw
          obtain ⟨container', hvisit, h⟩ := Except.bind_ok_iff.mp h
          cases hself value container container' hcontainer hvisit
          have hlookup := catching_ok h
          rw [hlookup] at hread
          cases hread
          rfl
      | _ => cases hw
  | attr value attr =>
      obtain ⟨target, htarget, hread⟩ := Option.bind_eq_some_iff.mp hw
      simp only [visitNode, visitAttribute] at h
      split at h
      · cases h
      · obtain ⟨target', hvisit, h⟩ := Except.bind_ok_iff.mp h
        cases hself value target target' htarget hvisit
        split at hread
        · simp only [readField, hread] at h
          cases h
          rfl
        · cases hread
  | _ => cases hw

theorem readOr_cases {e : Expr F} {otherwise : ℕ}
    (hread : ∀ w, access context e = some w → v = w) (h : readOr context e otherwise ≤ limit) :
    v.bulk ≤ limit ∨ (access context e = none ∧ otherwise ≤ limit) := by
  unfold readOr at h
  cases haccess : access context e with
  | none =>
      rw [haccess] at h
      exact Or.inr ⟨rfl, h⟩
  | some w =>
      rw [haccess] at h
      cases hread w haccess
      exact Or.inl h

theorem Bounded.node (hlimit : 1 ≤ limit) (hself : Bounded context limit self)
    (hreads : Reads context self) : Bounded context limit (visitNode I context self) := by
  intro e v he h
  have hread : ∀ w, access context e = some w → v = w := fun w hw => hreads.node e w v hw h
  have hleaves : limit ≤ leaves e * limit := limit_le_leaves e
  have hone : 1 ≤ leaves e * limit := hlimit.trans hleaves
  cases e with
  | constant c =>
      have hsize : v.bulk = literalSize c := by
        unfold literalSize
        simp only [visitNode, visitConstant] at h
        split at h
        · next hkey =>
            cases h
            simp [hkey]
        · cases h
      exact hsize.le.trans (he.trans hleaves)
  | name id =>
      rcases readOr_cases hread he with hv | ⟨hnone, -⟩
      · exact hv.trans hleaves
      · simp only [access] at hnone
        simp only [visitNode, visitName, hnone] at h
        cases h
  | list elts | tuple elts =>
      obtain ⟨hdisplay, helts⟩ := max_le_iff.mp he
      cases helements : elts.mapM self with
      | error r =>
          simp only [visitNode, helements] at h
          cases h
      | ok vs =>
          simp only [visitNode, helements] at h
          cases h
          obtain ⟨hlength, hvs⟩ := hself.values helts helements
          apply max_le
          · rw [hlength]
            exact hdisplay.trans hleaves
          · exact hvs.trans (Nat.mul_le_mul_right _ (Nat.le_max_right _ _))
  | subscript value slice =>
      rcases readOr_cases hread he with hv | ⟨-, hparts⟩
      · exact hv.trans hleaves
      · obtain ⟨container, hcontainer, h⟩ := Except.bind_ok_iff.mp h
        have hvalue := hself value container (max_le_iff.mp hparts).1 hcontainer
        cases slice with
        | constant key =>
            calc v.bulk ≤ container.bulk := bulk_lookUp (catching_ok h)
              _ ≤ leaves value * limit := hvalue
              _ ≤ leaves (.subscript value (.constant key)) * limit :=
                  Nat.mul_le_mul_right _ (Nat.le_add_right _ _)
        | _ => cases h
  | attr value attr =>
      rcases readOr_cases hread he with hv | ⟨-, hvalue⟩
      · exact hv.trans hleaves
      · simp only [visitNode, visitAttribute] at h
        split at h
        · cases h
        · obtain ⟨target, htarget, h⟩ := Except.bind_ok_iff.mp h
          exact (bulk_readField h).trans (max_le hone (hself value target hvalue htarget))
  | compare left ops comparators =>
      obtain ⟨w, -, h⟩ := Except.bind_ok_iff.mp h
      obtain ⟨b, -, h⟩ := Except.bind_ok_iff.mp h
      cases h
      exact (bulk_bool_le b).trans hone
  | boolOp op values =>
      have hvalues : ∀ e ∈ values, ∀ w, self e = .ok w →
          w.bulk ≤ leaves (.boolOp op values) * limit := by
        intro e hmem w hw
        calc w.bulk ≤ leaves e * limit := hself e w (largest_le_of_mem he hmem) hw
          _ ≤ leaves (.boolOp op values) * limit :=
              Nat.mul_le_mul_right _ ((leaves_le_leavesAll hmem).trans (Nat.le_max_right _ _))
      cases op with
      | and => exact bulk_boolFrom ((bulk_bool_le true).trans hone) hvalues h
      | or => exact bulk_boolFrom ((bulk_bool_le false).trans hone) hvalues h
  | unaryOp op operand =>
      cases op with
      | invert => cases h
      | not =>
          obtain ⟨w, -, h⟩ := Except.bind_ok_iff.mp h
          cases h
          exact (bulk_bool_le _).trans hone
      | uAdd =>
          obtain ⟨w, hw, h⟩ := Except.bind_ok_iff.mp h
          exact (PyValue.bulk_positive (catching_ok h)).trans (hself operand w he hw)
      | uSub =>
          obtain ⟨w, hw, h⟩ := Except.bind_ok_iff.mp h
          exact (PyValue.bulk_negative (catching_ok h)).trans (hself operand w he hw)
  | binOp left op right =>
      obtain ⟨hleft, hright⟩ := max_le_iff.mp he
      simp only [visitNode, visitBinOp] at h
      split at h
      · split at h <;> cases h
      · next opFn hop =>
          obtain ⟨a, ha, h⟩ := Except.bind_ok_iff.mp h
          obtain ⟨b, hb, h⟩ := Except.bind_ok_iff.mp h
          calc v.bulk ≤ a.bulk + b.bulk := bulk_operate hop h
            _ ≤ leaves left * limit + leaves right * limit :=
                Nat.add_le_add (hself left a hleft ha) (hself right b hright hb)
            _ = leaves (.binOp left op right) * limit := (Nat.add_mul _ _ _).symm
  | call func args keywords =>
      cases func with
      | name name =>
          simp only [visitNode, visitCall] at h
          split at h
          · cases h
          · next fn hfn =>
              split at h
              · cases h
              · obtain ⟨values, hvalues, h⟩ := Except.bind_ok_iff.mp h
                have hargs : leavesAll args ≤ leaves (.call (.name name) args keywords) :=
                  (Nat.le_add_left _ _).trans (Nat.le_add_right _ _)
                calc v.bulk ≤ PyValue.bulkAll values := bulk_callable hfn (catching_ok h)
                  _ ≤ leavesAll args * limit := (hself.values he hvalues).2
                  _ ≤ leaves (.call (.name name) args keywords) * limit :=
                      Nat.mul_le_mul_right _ hargs
      | _ => cases h
  | other construct children => cases h

theorem reads_visit (depth : ℕ) : Reads context (visit I context depth) := by
  induction depth with
  | zero =>
      intro e w v _ h
      cases h
  | succ depth ih =>
      intro e w v hw h
      obtain ⟨v', hv', hhold⟩ := Except.bind_ok_iff.mp h
      cases hold_ok hhold
      exact ih.node e w v hw hv'

theorem bounded_visit (hlimit : 1 ≤ limit) (depth : ℕ) :
    Bounded context limit (visit I context depth) := by
  induction depth with
  | zero =>
      intro e v _ h
      cases h
  | succ depth ih =>
      intro e v he h
      obtain ⟨w, hw, hhold⟩ := Except.bind_ok_iff.mp h
      cases hold_ok hhold
      exact ih.node hlimit (reads_visit depth) e v he hw

end Bounded

theorem evaluated_body {I : Interpreter F} {parse : String → Except ParseError (Expr F)} {depth : ℕ}
    {expression : String} {context : Context F} {v : PyValue F}
    (h : evaluateCondition I parse depth expression context = .ok v) :
    ∃ body, parse expression = .ok body ∧ visit I context depth body = .ok v := by
  unfold evaluateCondition at h
  split at h
  · cases h
  · split at h
    · cases h
    · cases h
    · next body hbody =>
        refine ⟨body, hbody, ?_⟩
        unfold handled at h
        split at h
        · cases h
        · cases h
        · exact h

theorem no_amplification (I : Interpreter F) (parse : String → Except ParseError (Expr F))
    (depth : ℕ) (expression : String) (context : Context F) (body : Expr F) (v : PyValue F)
    (hparse : parse expression = .ok body)
    (h : evaluateCondition I parse depth expression context = .ok v) :
    v.size ≤ v.bulk ∧ v.bulk ≤ leaves body * max 1 (largest context body) := by
  obtain ⟨body', hbody, hvisit⟩ := evaluated_body h
  cases hparse.symm.trans hbody
  refine ⟨v.size_le_bulk, ?_⟩
  exact bounded_visit (Nat.le_max_left _ _) depth body v (Nat.le_max_right _ _) hvisit

def product : Expr ℚ := .binOp (.name "a") .mult (.name "b")

theorem no_amplification_product :
    evaluateCondition plainInterpreter (parseOnly "a * b" product) 1000 "a * b"
      [("a", .int 6), ("b", .int 7)] = .ok (.int 42) ∧
    (.int 42 : PyValue ℚ).size ≤ (.int 42 : PyValue ℚ).bulk ∧
    (.int 42 : PyValue ℚ).bulk ≤
      leaves product * max 1 (largest [("a", .int 6), ("b", .int 7)] product) := by
  have hblank : isBlank plainInterpreter "a * b" = false := by decide
  have hparse : parseOnly "a * b" product "a * b" = .ok product := if_pos rfl
  have hvalue : evaluateCondition plainInterpreter (parseOnly "a * b" product) 1000 "a * b"
      [("a", .int 6), ("b", .int 7)] = .ok (.int 42) := by
    rw [evaluate_parsed hblank hparse]
    rfl
  exact ⟨hvalue, no_amplification _ _ _ _ _ _ _ hparse hvalue⟩

def denominator : Expr ℚ := .attr (.constant (.int 0)) "denominator"

theorem one_from_zero :
    evaluateCondition plainInterpreter (parseOnly "(0).denominator" denominator) 1000
      "(0).denominator" [] = .ok (.int 1) ∧
    ¬ (.int 1 : PyValue ℚ).size ≤ leaves denominator * largest [] denominator := by
  have hblank : isBlank plainInterpreter "(0).denominator" = false := by decide
  constructor
  · rw [evaluate_parsed hblank (if_pos rfl)]
    rfl
  · decide

end Conditions

end BTagent
