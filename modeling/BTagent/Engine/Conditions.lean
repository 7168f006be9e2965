import BTagent.Data.PyValue
import Mathlib.Data.Rat.Floor

namespace BTagent

-- A literal of the source text.
inductive Constant (F : Type) where
  | none
  | bool (b : Bool)
  | int (n : ℤ)
  | float (x : F)
  | complex (re im : F)
  | str (s : String)
  | bytes (length : ℕ)
  | ellipsis

inductive CmpOp where
  | lt
  | ltE
  | eq
  | notEq
  | gtE
  | gt
  | isOp
  | isNot
  | inOp
  | notIn
  deriving DecidableEq

inductive BoolOp where
  | and
  | or
  deriving DecidableEq

inductive UnaryOp where
  | invert
  | not
  | uAdd
  | uSub
  deriving DecidableEq

inductive BinOp where
  | add
  | sub
  | mult
  | matMult
  | div
  | mod
  | pow
  | lShift
  | rShift
  | bitOr
  | bitXor
  | bitAnd
  | floorDiv
  deriving DecidableEq

-- A tree of `ast`; `other` is any construct the evaluator has no method for.
inductive Expr (F : Type) where
  | constant (value : Constant F)
  | name (id : String)
  | list (elts : List (Expr F))
  | tuple (elts : List (Expr F))
  | subscript (value slice : Expr F)
  | attr (value : Expr F) (attr : String)
  | compare (left : Expr F) (ops : List CmpOp) (comparators : List (Expr F))
  | boolOp (op : BoolOp) (values : List (Expr F))
  | unaryOp (op : UnaryOp) (operand : Expr F)
  | binOp (left : Expr F) (op : BinOp) (right : Expr F)
  | call (func : Expr F) (args keywords : List (Expr F))
  | other (construct : String) (children : List (Expr F))

inductive ConditionError (F : Type) where
  | empty
  | syntaxError
  | tooComplexToParse
  | nestedTooDeeply
  | exhaustedMemory
  | disallowedConstruct (construct : String)
  | bytesLiteral
  | unknownVariable (id : String)
  | indexNotConstant
  | subscriptFailed (key : Constant F) (exc : PyError)
  | privateAttribute (attr : String)
  | fieldNotPresent (attr : String)
  | attributeNotFound (attr : String)
  | unsupportedComparison (op : CmpOp)
  | comparisonFailed
  | unsupportedUnary (op : UnaryOp)
  | unaryFailed
  | powerNotAllowed
  | unsupportedBinary (op : BinOp)
  | repetitionNotAllowed
  | formattingNotAllowed
  | arithmeticFailed (exc : PyError)
  | notDirectCall
  | notInAllowlist (name : String)
  | keywordArguments (name : String)
  | callFailed (name : String) (exc : PyError)

-- What `evaluate_condition` can raise.
inductive Raised (F : Type) where
  | condition (e : ConditionError F)
  | builtin (e : PyError)

-- What `ast.parse` raises.
inductive ParseError where
  | syntaxError
  | recursionError
  | memoryError
  | valueError
  deriving DecidableEq

namespace Conditions

variable {F : Type} (I : Interpreter F)

abbrev Eval (F : Type) := Except (Raised F)

abbrev Context (F : Type) := List (String × PyValue F)

abbrev Visitor (F : Type) := Expr F → Eval F (PyValue F)

def fail {α : Type} (e : ConditionError F) : Eval F α := .error (.condition e)

def catching {α : Type} (caught : List PyError) (become : PyError → Raised F) :
    Except PyError α → Eval F α
  | .ok v => .ok v
  | .error exc => .error (if exc ∈ caught then become exc else .builtin exc)

-- `sys.int_info.default_max_str_digits`
def maxStrDigits : ℕ := 4300

-- `repr` of the literal raises ValueError.
def Unprintable : Constant F → Prop
  | .int n => 10 ^ maxStrDigits ≤ n.natAbs
  | _ => False

instance : (c : Constant F) → Decidable (Unprintable c)
  | .int n => inferInstanceAs (Decidable (10 ^ maxStrDigits ≤ n.natAbs))
  | .none | .bool _ | .float _ | .complex _ _ | .str _ | .bytes _ | .ellipsis => .isFalse id

-- A literal as a value; bytes are a key that no container has.
def Constant.toKey : Constant F → Option (PyValue F)
  | .none => some .none
  | .bool b => some (.bool b)
  | .int n => some (.int n)
  | .float x => some (.float x)
  | .complex re im => some (.complex re im)
  | .str s => some (.str s)
  | .ellipsis => some .ellipsis
  | .bytes _ => none

def lookUp (container : PyValue F) (key : Constant F) : Except PyError (PyValue F) :=
  match Constant.toKey key with
  | some k => container.getItem k
  | none =>
      match container with
      | .dict _ => .error .keyError
      | _ => .error .typeError

def COMPARE_OPS : CmpOp → Option (PyValue F → PyValue F → Option Bool)
  | .lt => some (PyValue.order I .lt)
  | .ltE => some (PyValue.order I .le)
  | .eq => some fun a b => some (PyValue.eq I a b)
  | .notEq => some fun a b => some (!PyValue.eq I a b)
  | .gtE => some (PyValue.order I .ge)
  | .gt => some (PyValue.order I .gt)
  | .inOp => some (PyValue.contains I)
  | .notIn => some fun a b => (PyValue.contains I a b).map not
  | .isOp | .isNot => none

def BIN_OPS : BinOp → Option Arith
  | .add => some .add
  | .sub => some .sub
  | .mult => some .mult
  | .div => some .div
  | .floorDiv => some .floorDiv
  | .mod => some .mod
  | _ => none

def UNARY_OPS : UnaryOp → Option (PyValue F → Except PyError (PyValue F))
  | .not => some fun x => .ok (.bool (!PyValue.truth I x))
  | .uSub => some (PyValue.negative I)
  | .uAdd => some PyValue.positive
  | .invert => none

def ALLOWED_CALLABLES (name : String) :
    Option (List (PyValue F) → Except PyError (PyValue F)) :=
  if name = "len" then some PyValue.callLen
  else if name = "min" then some (PyValue.select I .lt)
  else if name = "max" then some (PyValue.select I .gt)
  else none

section Visit
variable (context : Context F) (self : Visitor F)

def visitConstant (c : Constant F) : Eval F (PyValue F) :=
  match Constant.toKey c with
  | some v => .ok v
  | none => fail .bytesLiteral

def visitName (id : String) : Eval F (PyValue F) :=
  match context.lookup id with
  | some v => .ok v
  | none => fail (.unknownVariable id)

-- The message quotes the key, and `repr` has no text for a very long int.
def subscriptFailed (key : Constant F) (exc : PyError) : Raised F :=
  if Unprintable key then .builtin .valueError else .condition (.subscriptFailed key exc)

def visitSubscript (value slice : Expr F) : Eval F (PyValue F) := do
  let container ← self value
  match slice with
  | .constant key =>
      catching [.keyError, .indexError, .typeError] (subscriptFailed key) (lookUp container key)
  | _ => fail .indexNotConstant

def isPrivate (attr : String) : Bool := attr.toList.head? = some '_'

def readField (target : PyValue F) (attr : String) : Eval F (PyValue F) :=
  match target with
  | .dict kvs =>
      match kvs.lookup attr with
      | some v => .ok v
      | none => fail (.fieldNotPresent attr)
  | _ =>
      catching [.attributeError] (fun _ => .condition (.attributeNotFound attr))
        (PyValue.getAttr I target attr)

def visitAttribute (value : Expr F) (attr : String) : Eval F (PyValue F) :=
  if isPrivate attr then fail (.privateAttribute attr)
  else do
    let target ← self value
    readField I target attr

def compareFrom (left : PyValue F) : List CmpOp → List (Expr F) → Eval F Bool
  | op :: ops, c :: cs =>
      match COMPARE_OPS I op with
      | none => fail (.unsupportedComparison op)
      | some opFn => do
          let right ← self c
          match opFn left right with
          | none => fail .comparisonFailed
          | some false => .ok false
          | some true => compareFrom right ops cs
  | _, _ => .ok true

def visitCompare (left : Expr F) (ops : List CmpOp) (comparators : List (Expr F)) :
    Eval F (PyValue F) := do
  let value ← self left
  let result ← compareFrom I self value ops comparators
  .ok (.bool result)

-- The first value whose truth is `stop` ends the chain.
def boolFrom (stop : Bool) (value : PyValue F) : List (Expr F) → Eval F (PyValue F)
  | [] => .ok value
  | sub :: subs => do
      let v ← self sub
      if PyValue.truth I v = stop then .ok v else boolFrom stop v subs

def visitBoolOp (op : BoolOp) (values : List (Expr F)) : Eval F (PyValue F) :=
  match op with
  | .and => boolFrom I self false (.bool true) values
  | .or => boolFrom I self true (.bool false) values

def visitUnaryOp (op : UnaryOp) (operand : Expr F) : Eval F (PyValue F) :=
  match UNARY_OPS I op with
  | none => fail (.unsupportedUnary op)
  | some opFn => do
      let v ← self operand
      catching [.typeError] (fun _ => .condition .unaryFailed) (opFn v)

-- Repetition and formatting are refused before they allocate.
def operate (op : BinOp) (opFn : Arith) (left right : PyValue F) : Eval F (PyValue F) :=
  if op = .mult ∧ (left.isSequence ∨ right.isSequence) then fail .repetitionNotAllowed
  else if op = .mod ∧ left.isText then fail .formattingNotAllowed
  else
    catching [.typeError, .zeroDivisionError] (fun exc => .condition (.arithmeticFailed exc))
      (PyValue.arith I opFn left right)

def visitBinOp (left : Expr F) (op : BinOp) (right : Expr F) : Eval F (PyValue F) :=
  match BIN_OPS op with
  | none => if op = .pow then fail .powerNotAllowed else fail (.unsupportedBinary op)
  | some opFn => do
      let a ← self left
      let b ← self right
      operate I op opFn a b

def visitCall (func : Expr F) (args keywords : List (Expr F)) : Eval F (PyValue F) :=
  match func with
  | .name name =>
      match ALLOWED_CALLABLES I name with
      | none => fail (.notInAllowlist name)
      | some fn =>
          if keywords ≠ [] then fail (.keywordArguments name)
          else do
            let values ← args.mapM self
            catching [.typeError, .valueError] (fun exc => .condition (.callFailed name exc))
              (fn values)
  | _ => fail .notDirectCall

-- `_DISPATCH`
def visitNode : Expr F → Eval F (PyValue F)
  | .constant value => visitConstant value
  | .name id => visitName context id
  | .list elts => (elts.mapM self).map .list
  | .tuple elts => (elts.mapM self).map .tuple
  | .subscript value slice => visitSubscript self value slice
  | .attr value attr => visitAttribute I self value attr
  | .compare left ops comparators => visitCompare I self left ops comparators
  | .boolOp op values => visitBoolOp I self op values
  | .unaryOp op operand => visitUnaryOp I self op operand
  | .binOp left op right => visitBinOp I self left op right
  | .call func args keywords => visitCall I self func args keywords
  | .other construct _ => fail (.disallowedConstruct construct)

end Visit

def hold (v : PyValue F) : Eval F (PyValue F) :=
  if I.holds v then .ok v else .error (.builtin .memoryError)

-- The stack has room for so many visits.
def visit (context : Context F) : ℕ → Expr F → Eval F (PyValue F)
  | 0, _ => .error (.builtin .recursionError)
  | depth + 1, e => visitNode I context (visit context depth) e >>= hold I

def handled : Eval F (PyValue F) → Eval F (PyValue F)
  | .error (.builtin .recursionError) => fail .nestedTooDeeply
  | .error (.builtin .memoryError) => fail .exhaustedMemory
  | result => result

def isBlank (expression : String) : Bool := I.chars.strip expression = ""

def evaluateCondition (parse : String → Except ParseError (Expr F)) (depth : ℕ)
    (expression : String) (context : Context F) : Eval F (PyValue F) :=
  if isBlank I expression then fail .empty
  else
    match parse expression with
    | .error .syntaxError => fail .syntaxError
    | .error _ => fail .tooComplexToParse
    | .ok body => handled (visit I context depth body)

theorem not_blank {I : Interpreter F} {expression : String} {c : Char}
    (hc : c ∈ expression.toList) (hspace : I.chars.isSpace c = false) :
    isBlank I expression = false := by
  rw [isBlank, decide_eq_false_iff_not, CharTable.strip, String.ofList_eq_empty_iff,
    List.rdropWhile_eq_nil_iff]
  intro hall
  have hspaces : I.chars.isSpace c = true := by
    rw [← List.takeWhile_append_dropWhile (p := I.chars.isSpace) (l := expression.toList)] at hc
    rcases List.mem_append.mp hc with h | h
    · exact List.mem_takeWhile_imp h
    · exact hall c h
  rw [hspace] at hspaces
  cases hspaces

theorem evaluate_parsed {I : Interpreter F} {parse : String → Except ParseError (Expr F)}
    {depth : ℕ} {expression : String} {context : Context F} {body : Expr F}
    (hblank : isBlank I expression = false) (hparse : parse expression = .ok body) :
    evaluateCondition I parse depth expression context = handled (visit I context depth body) := by
  simp [evaluateCondition, hblank, hparse]

def rationals : Doubles ℚ where
  ofInt n := n
  quotient a b := a / b
  neg x := -x
  add x y := x + y
  sub x y := x - y
  mul x y := x * y
  div x y := x / y
  floorDiv x y := ⌊x / y⌋
  mod x y := x - y * ⌊x / y⌋
  isZero x := x = 0
  eq x y := x = y
  eqInt x n := x = n
  order r x y := r.holds x y
  orderInt r x n := r.holds x n
  complexMul z w := (z.1 * w.1 - z.2 * w.2, z.1 * w.2 + z.2 * w.1)
  complexDiv z w :=
    let norm := w.1 * w.1 + w.2 * w.2
    ((z.1 * w.1 + z.2 * w.2) / norm, (z.2 * w.1 - z.1 * w.2) / norm)

def plainInterpreter : Interpreter ℚ where
  chars := .ascii
  doubles := rationals
  same _ _ := false
  isMethod _ _ := false
  format _ _ := .error .typeError
  holds _ := true

def parseOnly (expression : String) (body : Expr ℚ) (text : String) :
    Except ParseError (Expr ℚ) :=
  if text = expression then .ok body else .error .syntaxError

end Conditions

end BTagent
