import BTagent.Data.PyRaises
import BTagent.Engine.Conditions

namespace BTagent

namespace Conditions

-- An operation that an evaluation carries out on values it has.
inductive Operation (F : Type) where
  | arithmetic (op : Arith) (left right : PyValue F)
  | subscript (container : PyValue F) (key : Constant F)

variable {F : Type} (I : Interpreter F)

def Faulty : Operation F → Prop
  | .arithmetic op x y => PyValue.Overflows op x y
  | .subscript container key => (∀ v, lookUp container key ≠ .ok v) ∧ Unprintable key

def Refused (op : BinOp) (a b : PyValue F) : Prop :=
  (op = .mult ∧ (PyValue.isSequence a ∨ PyValue.isSequence b)) ∨ (op = .mod ∧ PyValue.isText a)

section Reached
variable (context : Context F) (self : Visitor F)

def ComparesFrom (v : PyValue F) : List CmpOp → List (Expr F) → Expr F → Prop
  | op :: ops, x :: xs, c => ∃ opFn, COMPARE_OPS I op = some opFn ∧
      (c = x ∨ ∃ w, self x = .ok w ∧ opFn v w = some true ∧ ComparesFrom w ops xs c)
  | _, _, _ => False

def WeighsFrom (stop : Bool) : List (Expr F) → Expr F → Prop
  | [], _ => False
  | x :: xs, c => c = x ∨ ∃ v, self x = .ok v ∧ PyValue.truth I v ≠ stop ∧ WeighsFrom stop xs c

def InTurn (xs : List (Expr F)) (c : Expr F) : Prop :=
  ∃ pre post, xs = pre ++ c :: post ∧ ∀ x ∈ pre, ∃ v, self x = .ok v

def Visits : Expr F → Expr F → Prop
  | .list elts, c | .tuple elts, c => InTurn self elts c
  | .subscript value _, c => c = value
  | .attr value attr, c => isPrivate attr = false ∧ c = value
  | .compare left ops comparators, c =>
      c = left ∨ ∃ v, self left = .ok v ∧ ComparesFrom I self v ops comparators c
  | .boolOp op values, c => WeighsFrom I self (op = .or) values c
  | .unaryOp op operand, c => op ≠ .invert ∧ c = operand
  | .binOp left op right, c =>
      (BIN_OPS op).isSome ∧ (c = left ∨ (∃ a, self left = .ok a) ∧ c = right)
  | .call func args keywords, c =>
      (∃ name, func = .name name ∧ (ALLOWED_CALLABLES I name).isSome) ∧ keywords = [] ∧
        InTurn self args c
  | _, _ => False

def Performs : Expr F → Operation F → Prop
  | .subscript value (.constant key), o => ∃ v, self value = .ok v ∧ o = .subscript v key
  | .binOp left op right, o => ∃ arith a b, BIN_OPS op = some arith ∧ self left = .ok a ∧
      self right = .ok b ∧ ¬ Refused op a b ∧ o = .arithmetic arith a b
  | _, _ => False

end Reached

def Reaches (context : Context F) : ℕ → Expr F → Operation F → Prop
  | 0, _, _ => False
  | depth + 1, e, o => Performs (visit I context depth) e o ∨
      ∃ c, Visits I (visit I context depth) e c ∧ Reaches context depth c o

def Escapes : Raised F → Prop
  | .condition _ => False
  | .builtin exc => exc ≠ .recursionError ∧ exc ≠ .memoryError

def Escaping {α : Type} (x : Eval F α) : Prop := ∃ r, x = .error r ∧ Escapes r

section Escaping
variable {I} {α β : Type} {x : Eval F α} {f : α → Eval F β}

theorem escaping_bind : Escaping (x >>= f) ↔ Escaping x ∨ ∃ a, x = .ok a ∧ Escaping (f a) := by
  cases x with
  | error r => simp [Escaping, bind, Except.bind]
  | ok a => simp [Escaping, bind, Except.bind]

@[simp] theorem not_escaping_ok {a : α} : ¬ Escaping (.ok a : Eval F α) := by
  rintro ⟨r, h, -⟩
  cases h

@[simp] theorem not_escaping_fail {e : ConditionError F} : ¬ Escaping (fail e : Eval F α) := by
  rintro ⟨r, h, hr⟩
  cases h
  exact hr

theorem escaping_map {g : α → β} : Escaping (x.map g) ↔ Escaping x := by
  cases x with
  | error r => simp [Escaping, Except.map]
  | ok a => simp [Escaping, Except.map]

theorem escaping_mapM {self : Visitor F} {xs : List (Expr F)} :
    Escaping (xs.mapM self) ↔ ∃ c, InTurn self xs c ∧ Escaping (self c) := by
  constructor
  · rintro ⟨r, h, hr⟩
    obtain ⟨pre, c, post, heq, hpre, hc⟩ := Except.mapM_error_iff.mp h
    exact ⟨c, ⟨pre, post, heq, hpre⟩, r, hc, hr⟩
  · rintro ⟨c, ⟨pre, post, heq, hpre⟩, r, hc, hr⟩
    exact ⟨r, Except.mapM_error_iff.mpr ⟨pre, c, post, heq, hpre, hc⟩, hr⟩

theorem escaping_catching {caught : List PyError} {become : PyError → Raised F}
    {result : Except PyError α} : Escaping (catching caught become result) ↔
      ∃ exc, result = .error exc ∧ Escapes (if exc ∈ caught then become exc else .builtin exc) := by
  cases result with
  | error exc => simp [Escaping, catching]
  | ok v => simp [Escaping, catching]

theorem not_escaping_catching {caught : List PyError} {e : PyError → ConditionError F}
    {result : Except PyError α} (h : ∀ exc, result = .error exc → exc ∈ caught) :
    ¬ Escaping (catching caught (fun exc => .condition (e exc)) result) := by
  rw [escaping_catching]
  rintro ⟨exc, hexc, hescapes⟩
  rw [if_pos (h exc hexc)] at hescapes
  exact hescapes

end Escaping

section Node
variable {I} {context : Context F} {self : Visitor F}

theorem lookUp_error {container : PyValue F} {key : Constant F}
    (h : lookUp container key = .error exc) :
    exc ∈ [PyError.keyError, .indexError, .typeError] := by
  unfold lookUp at h
  split at h
  · exact PyValue.getItem_error h
  · split at h <;> cases h <;> decide

theorem escapes_subscriptFailed {key : Constant F} {exc : PyError} :
    Escapes (subscriptFailed key exc) ↔ Unprintable key := by
  unfold subscriptFailed
  split
  · next h => simp [Escapes, h]
  · next h => simp [Escapes, h]

theorem escaping_lookUp {container : PyValue F} {key : Constant F} :
    Escaping (catching [.keyError, .indexError, .typeError] (subscriptFailed key)
      (lookUp container key)) ↔ Faulty (.subscript container key) := by
  rw [escaping_catching]
  constructor
  · rintro ⟨exc, h, hescapes⟩
    rw [if_pos (lookUp_error h), escapes_subscriptFailed] at hescapes
    refine ⟨?_, hescapes⟩
    intro v hv
    rw [hv] at h
    cases h
  · rintro ⟨hfails, hkey⟩
    cases h : lookUp container key with
    | ok v => exact absurd h (hfails v)
    | error exc =>
        refine ⟨exc, rfl, ?_⟩
        rwa [if_pos (lookUp_error h), escapes_subscriptFailed]

theorem escaping_subscript {value slice : Expr F} : Escaping (visitSubscript self value slice) ↔
    (∃ o, Performs self (.subscript value slice) o ∧ Faulty o) ∨ Escaping (self value) := by
  unfold visitSubscript
  rw [escaping_bind, or_comm]
  apply or_congr_left
  cases slice with
  | constant key =>
      simp only [escaping_lookUp, Performs]
      constructor
      · rintro ⟨v, hv, h⟩
        exact ⟨_, ⟨v, hv, rfl⟩, h⟩
      · rintro ⟨_, ⟨v, hv, rfl⟩, h⟩
        exact ⟨v, hv, h⟩
  | _ => simp [Performs]

theorem not_escaping_readField {target : PyValue F} {attr : String} :
    ¬ Escaping (readField I target attr) := by
  unfold readField
  split
  · split <;> simp
  · apply not_escaping_catching
    intro exc hexc
    simp [PyValue.getAttr_error hexc]

theorem escaping_attribute {value : Expr F} {attr : String} :
    Escaping (visitAttribute I self value attr) ↔
      isPrivate attr = false ∧ Escaping (self value) := by
  unfold visitAttribute
  split
  · next h => simp [h]
  · next h => simp [escaping_bind, not_escaping_readField, h]

theorem escaping_decided {answer : Option Bool} {onward : Eval F Bool} :
    Escaping (match answer with
      | none => fail .comparisonFailed
      | some false => .ok false
      | some true => onward) ↔ answer = some true ∧ Escaping onward := by
  rcases answer with - | - | - <;> simp

theorem escaping_compareFrom {v : PyValue F} {ops : List CmpOp} {comparators : List (Expr F)} :
    Escaping (compareFrom I self v ops comparators) ↔
      ∃ c, ComparesFrom I self v ops comparators c ∧ Escaping (self c) := by
  induction comparators generalizing v ops with
  | nil => cases ops <;> simp [compareFrom, ComparesFrom]
  | cons x xs ih =>
      cases ops with
      | nil => simp [compareFrom, ComparesFrom]
      | cons op ops =>
          simp only [compareFrom, ComparesFrom]
          cases hop : COMPARE_OPS I op with
          | none => simp
          | some opFn =>
              simp only [Option.some.injEq, exists_eq_left']
              rw [escaping_bind]
              constructor
              · rintro (h | ⟨w, hw, h⟩)
                · exact ⟨x, Or.inl rfl, h⟩
                · obtain ⟨htrue, honward⟩ := escaping_decided.mp h
                  obtain ⟨c, hc, h⟩ := ih.mp honward
                  exact ⟨c, Or.inr ⟨w, hw, htrue, hc⟩, h⟩
              · rintro ⟨c, rfl | ⟨w, hw, htrue, hc⟩, h⟩
                · exact Or.inl h
                · exact Or.inr ⟨w, hw, escaping_decided.mpr ⟨htrue, ih.mpr ⟨c, hc, h⟩⟩⟩

theorem escaping_compare {left : Expr F} {ops : List CmpOp} {comparators : List (Expr F)} :
    Escaping (visitCompare I self left ops comparators) ↔
      ∃ c, Visits I self (.compare left ops comparators) c ∧ Escaping (self c) := by
  simp only [visitCompare, escaping_bind, escaping_compareFrom, not_escaping_ok, and_false,
    exists_false, or_false, Visits]
  constructor
  · rintro (h | ⟨v, hv, c, hc, h⟩)
    · exact ⟨left, Or.inl rfl, h⟩
    · exact ⟨c, Or.inr ⟨v, hv, hc⟩, h⟩
  · rintro ⟨c, rfl | ⟨v, hv, hc⟩, h⟩
    · exact Or.inl h
    · exact Or.inr ⟨v, hv, c, hc, h⟩

theorem escaping_boolFrom {stop : Bool} {v : PyValue F} {values : List (Expr F)} :
    Escaping (boolFrom I self stop v values) ↔
      ∃ c, WeighsFrom I self stop values c ∧ Escaping (self c) := by
  induction values generalizing v with
  | nil => simp [boolFrom, WeighsFrom]
  | cons x xs ih =>
      have hstep : ∀ w, Escaping
          (if PyValue.truth I w = stop then .ok w else boolFrom I self stop w xs) ↔
          PyValue.truth I w ≠ stop ∧ ∃ c, WeighsFrom I self stop xs c ∧ Escaping (self c) := by
        intro w
        split
        · next h => simp [h]
        · next h => simp [h, ih]
      simp only [boolFrom, WeighsFrom, escaping_bind, hstep]
      constructor
      · rintro (h | ⟨w, hw, htruth, c, hc, h⟩)
        · exact ⟨x, Or.inl rfl, h⟩
        · exact ⟨c, Or.inr ⟨w, hw, htruth, hc⟩, h⟩
      · rintro ⟨c, rfl | ⟨w, hw, htruth, hc⟩, h⟩
        · exact Or.inl h
        · exact Or.inr ⟨w, hw, htruth, c, hc, h⟩

theorem escaping_unary {op : UnaryOp} {operand : Expr F} :
    Escaping (visitUnaryOp I self op operand) ↔ op ≠ .invert ∧ Escaping (self operand) := by
  have hcaught : ∀ {opFn : PyValue F → Except PyError (PyValue F)} {v : PyValue F},
      (∀ exc, opFn v = .error exc → exc = .typeError) →
      ¬ Escaping (catching [.typeError] (fun _ => .condition .unaryFailed) (opFn v) :
        Eval F (PyValue F)) := by
    intro opFn v h
    apply not_escaping_catching
    intro exc hexc
    simp [h exc hexc]
  cases op with
  | invert => simp [visitUnaryOp, UNARY_OPS]
  | not =>
      simp [visitUnaryOp, UNARY_OPS, escaping_bind, catching]
  | uAdd =>
      simp [visitUnaryOp, UNARY_OPS, escaping_bind, hcaught fun _ => PyValue.positive_error]
  | uSub =>
      simp [visitUnaryOp, UNARY_OPS, escaping_bind, hcaught fun _ => PyValue.negative_error]

theorem escaping_operate {op : BinOp} {opFn : Arith} {a b : PyValue F}
    (hop : BIN_OPS op = some opFn) : Escaping (operate I op opFn a b) ↔
      ¬ Refused op a b ∧ Faulty (.arithmetic opFn a b) := by
  unfold operate
  split
  · next h => simp [Refused, h]
  · next hmult =>
      split
      · next h => simp [Refused, h]
      · next hmod =>
          have hok : ¬ Refused op a b := not_or.mpr ⟨hmult, hmod⟩
          simp only [not_and, not_or, Bool.not_eq_true] at hmult hmod
          have hrepeat : opFn = .mult → PyValue.isSequence a = false ∧ PyValue.isSequence b = false := by
            rintro rfl
            apply hmult
            cases op <;> first | rfl | cases hop
          have hformat : opFn = .mod → PyValue.isText a = false := by
            rintro rfl
            apply hmod
            cases op <;> first | rfl | cases hop
          rw [escaping_catching]
          constructor
          · rintro ⟨exc, h, hescapes⟩
            rcases PyValue.arith_error hrepeat hformat h with (rfl | rfl) | ⟨-, hfault⟩
            · exact absurd hescapes id
            · exact absurd hescapes id
            · exact ⟨hok, hfault⟩
          · rintro ⟨-, h⟩
            exact ⟨.overflowError, PyValue.arith_faulty h, nofun, nofun⟩

theorem escaping_binOp {left right : Expr F} {op : BinOp} :
    Escaping (visitBinOp I self left op right) ↔
      (∃ o, Performs self (.binOp left op right) o ∧ Faulty o) ∨
        ∃ c, Visits I self (.binOp left op right) c ∧ Escaping (self c) := by
  unfold visitBinOp
  cases hop : BIN_OPS op with
  | none =>
      have hfail : ¬ Escaping (if op = .pow then fail .powerNotAllowed
          else fail (.unsupportedBinary op) : Eval F (PyValue F)) := by
        split <;> simp
      simp [hfail, Performs, Visits, hop]
  | some opFn =>
      simp only [escaping_bind, escaping_operate hop]
      constructor
      · rintro (h | ⟨a, ha, h | ⟨b, hb, hok, hfault⟩⟩)
        · exact Or.inr ⟨left, ⟨by simp [hop], Or.inl rfl⟩, h⟩
        · exact Or.inr ⟨right, ⟨by simp [hop], Or.inr ⟨⟨a, ha⟩, rfl⟩⟩, h⟩
        · exact Or.inl ⟨_, ⟨opFn, a, b, hop, ha, hb, hok, rfl⟩, hfault⟩
      · rintro (⟨_, ⟨opFn', a, b, hop', ha, hb, hok, rfl⟩, hfault⟩ |
          ⟨c, ⟨-, rfl | ⟨⟨a, ha⟩, rfl⟩⟩, h⟩)
        · cases hop.symm.trans hop'
          exact Or.inr ⟨a, ha, Or.inr ⟨b, hb, hok, hfault⟩⟩
        · exact Or.inl h
        · exact Or.inr ⟨a, ha, Or.inl h⟩

theorem callable_error {name : String} {fn : List (PyValue F) → Except PyError (PyValue F)}
    {values : List (PyValue F)} {exc : PyError} (hfn : ALLOWED_CALLABLES I name = some fn)
    (h : fn values = .error exc) : exc = .typeError ∨ exc = .valueError := by
  unfold ALLOWED_CALLABLES at hfn
  split at hfn
  · cases hfn
    exact Or.inl (PyValue.callLen_error h)
  · split at hfn
    · cases hfn
      exact PyValue.select_error h
    · split at hfn <;> cases hfn
      exact PyValue.select_error h

theorem escaping_call {func : Expr F} {args keywords : List (Expr F)} :
    Escaping (visitCall I self func args keywords) ↔
      ∃ c, Visits I self (.call func args keywords) c ∧ Escaping (self c) := by
  cases func with
  | name name =>
      simp only [visitCall, Visits, Expr.name.injEq, exists_eq_left']
      cases hfn : ALLOWED_CALLABLES I name with
      | none => simp
      | some fn =>
          simp only [Option.isSome_some, true_and]
          split
          · next hkeys => simp [hkeys]
          · next hkeys =>
              have hcaught : ∀ values, ¬ Escaping (catching [.typeError, .valueError]
                  (fun exc => .condition (.callFailed name exc)) (fn values) :
                  Eval F (PyValue F)) := by
                intro values
                apply not_escaping_catching
                intro exc hexc
                simpa using callable_error hfn hexc
              rw [not_not] at hkeys
              simp [escaping_bind, escaping_mapM, hcaught, hkeys]
  | _ => simp [visitCall, Visits]

theorem escaping_node {e : Expr F} : Escaping (visitNode I context self e) ↔
    (∃ o, Performs self e o ∧ Faulty o) ∨ ∃ c, Visits I self e c ∧ Escaping (self c) := by
  cases e with
  | constant c =>
      have hconstant : ¬ Escaping (visitConstant c) := by
        unfold visitConstant
        split <;> simp
      simp [visitNode, Performs, Visits, hconstant]
  | name id =>
      have hname : ¬ Escaping (visitName context id) := by
        unfold visitName
        split <;> simp
      simp [visitNode, Performs, Visits, hname]
  | list elts | tuple elts => simp [visitNode, Performs, Visits, escaping_map, escaping_mapM]
  | subscript value slice =>
      rw [visitNode, escaping_subscript]
      simp [Visits]
  | attr value attr => simp [visitNode, Performs, Visits, escaping_attribute]
  | compare left ops comparators => simp [visitNode, Performs, escaping_compare]
  | boolOp op values =>
      have hbool : Escaping (visitBoolOp I self op values) ↔
          ∃ c, WeighsFrom I self (op = .or) values c ∧ Escaping (self c) := by
        cases op <;> exact escaping_boolFrom
      simp [visitNode, Performs, Visits, hbool]
  | unaryOp op operand => simp [visitNode, Performs, Visits, escaping_unary]
  | binOp left op right => exact escaping_binOp
  | call func args keywords => simp [visitNode, Performs, escaping_call]
  | other construct children => simp [visitNode, Performs, Visits]

theorem escaping_visit {depth : ℕ} {e : Expr F} :
    Escaping (visit I context depth e) ↔ ∃ o, Reaches I context depth e o ∧ Faulty o := by
  induction depth generalizing e with
  | zero => simp [visit, Reaches, Escaping, Escapes]
  | succ depth ih =>
      have hhold : ∀ v, ¬ Escaping (hold I v) := by
        intro v
        unfold hold
        split <;> simp [Escaping, Escapes]
      simp only [visit, Reaches, escaping_bind, hhold, and_false, exists_false, or_false,
        escaping_node, ih]
      constructor
      · rintro (⟨o, ho, hfault⟩ | ⟨c, hc, o, ho, hfault⟩)
        · exact ⟨o, Or.inl ho, hfault⟩
        · exact ⟨o, Or.inr ⟨c, hc, ho⟩, hfault⟩
      · rintro ⟨o, ho | ⟨c, hc, ho⟩, hfault⟩
        · exact Or.inl ⟨o, ho, hfault⟩
        · exact Or.inr ⟨c, hc, o, ho, hfault⟩

end Node

-- The evaluation returns a value or raises ConditionEvaluationError.
def ExceptionSafe (result : Eval F (PyValue F)) : Prop :=
  ∀ r, result = .error r → ∃ e, r = .condition e

theorem exceptionSafe_fail {e : ConditionError F} : ExceptionSafe (fail e) := by
  intro r h
  cases h
  exact ⟨e, rfl⟩

theorem exceptionSafe_handled {x : Eval F (PyValue F)} :
    ExceptionSafe (handled x) ↔ ¬ Escaping x := by
  unfold handled
  split
  · simp [exceptionSafe_fail, Escaping, Escapes]
  · simp [exceptionSafe_fail, Escaping, Escapes]
  · next hrecursion hmemory =>
      constructor
      · rintro h ⟨r, hr, hescapes⟩
        obtain ⟨e, rfl⟩ := h r hr
        exact hescapes
      · intro h r hr
        cases r with
        | condition e => exact ⟨e, rfl⟩
        | builtin exc =>
            refine absurd ⟨_, hr, ?_, ?_⟩ h
            · rintro rfl
              exact hrecursion hr
            · rintro rfl
              exact hmemory hr

theorem exception_safe_iff (I : Interpreter F) (parse : String → Except ParseError (Expr F))
    (depth : ℕ) (expression : String) (context : Context F) :
    ExceptionSafe (evaluateCondition I parse depth expression context) ↔
      ∀ body, isBlank I expression = false → parse expression = .ok body →
        ∀ o, Reaches I context depth body o → ¬ Faulty o := by
  unfold evaluateCondition
  split
  · next hblank => simp [exceptionSafe_fail, hblank]
  · next hblank =>
      split
      · next hparse => simp [exceptionSafe_fail, hparse]
      · next hparse => simp [exceptionSafe_fail, hparse]
      · next body hparse => simp [exceptionSafe_handled, escaping_visit, hblank, hparse]

@[irreducible] def huge : ℕ := 10 ^ 309

def halved : Expr ℚ := .binOp (.attr (.name "node") "n") .div (.constant (.int 2))

@[irreducible] def far : ℕ := 16 ^ 3572

def farIndex : Expr ℚ := .subscript (.constant (.str "a")) (.constant (.int far))

def farText : String := "\x22a\x22[0x1" ++ String.ofList (List.replicate 3572 '0') ++ "]"

theorem overflow_escapes :
    ¬ ExceptionSafe (evaluateCondition plainInterpreter (parseOnly "node.n / 2" halved) 1000
      "node.n / 2" [("node", .dict [("n", .int huge)])]) ∧
    ¬ ExceptionSafe (evaluateCondition plainInterpreter (parseOnly farText farIndex) 1000
      farText []) := by
  constructor
  · have hblank : isBlank plainInterpreter "node.n / 2" = false := by decide
    rw [evaluate_parsed hblank (if_pos rfl), exceptionSafe_handled, not_not,
      escaping_visit]
    refine ⟨.arithmetic .div (.int huge) (.int 2), Or.inl ?_, ?_⟩
    · refine ⟨.div, _, _, rfl, rfl, rfl, ?_, rfl⟩
      simp [Refused]
    · have hlimit : doubleLimit * 2 ≤ huge := by decide +kernel
      have hover : PyValue.NumberOverflows .div (.int huge) (.int 2 : Number ℚ) :=
        ⟨rfl, by decide, by simpa using hlimit⟩
      exact ⟨_, _, rfl, rfl, hover⟩
  · have hblank : isBlank plainInterpreter farText = false := by
      apply not_blank (c := ']')
      · rw [farText, String.toList_append]
        exact List.mem_append_right _ (by decide)
      · decide
    rw [evaluate_parsed hblank (if_pos rfl), exceptionSafe_handled, not_not,
      escaping_visit]
    refine ⟨.subscript (.str "a") (.int far), Or.inl ⟨_, rfl, rfl⟩, ?_, ?_⟩
    · have hfar : "a".toList.length ≤ far := by decide +kernel
      have hitem : lookUp (.str "a" : PyValue ℚ) (.int far) = .error .indexError := by
        simp only [lookUp, Constant.toKey, PyValue.getItem, PyValue.integer?, PyValue.number?,
          PyValue.item_far hfar]
        rfl
      intro v hv
      rw [hitem] at hv
      cases hv
    · have hdigits : 10 ^ maxStrDigits ≤ far := by decide +kernel
      exact hdigits

end Conditions

end BTagent
