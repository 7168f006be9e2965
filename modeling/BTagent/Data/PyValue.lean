import BTagent.Data.CharTable
import Mathlib.Algebra.Group.Int.Defs
import Mathlib.Data.List.Infix
import Mathlib.Data.Nat.Size
import Mathlib.Data.String.Basic
import Mathlib.Order.Defs.LinearOrder

namespace BTagent

inductive Inequality where
  | lt
  | le
  | gt
  | ge
  deriving DecidableEq

namespace Inequality

def holds {α : Type*} [LinearOrder α] (r : Inequality) (a b : α) : Bool :=
  match r with
  | lt => a < b
  | le => a ≤ b
  | gt => b < a
  | ge => b ≤ a

def swap : Inequality → Inequality
  | lt => gt
  | le => ge
  | gt => lt
  | ge => le

end Inequality

-- The doubles of the interpreter. `ofInt` and `quotient` round what is in range; `orderInt`
-- compares with an int exactly.
structure Doubles (F : Type) where
  ofInt : ℤ → F
  quotient : ℤ → ℤ → F
  neg : F → F
  add : F → F → F
  sub : F → F → F
  mul : F → F → F
  div : F → F → F
  floorDiv : F → F → F
  mod : F → F → F
  isZero : F → Bool
  eq : F → F → Bool
  eqInt : F → ℤ → Bool
  order : Inequality → F → F → Bool
  orderInt : Inequality → F → ℤ → Bool
  complexMul : F × F → F × F → F × F
  complexDiv : F × F → F × F → F × F

-- The least magnitude that rounds to no double.
def doubleLimit : ℕ := 2 ^ 1024 - 2 ^ 970

inductive PyError where
  | typeError
  | keyError
  | indexError
  | attributeError
  | valueError
  | zeroDivisionError
  | overflowError
  | recursionError
  | memoryError
  deriving DecidableEq

-- A method is what an attribute of a value gives that is no plain value.
inductive PyValue (F : Type) where
  | none
  | bool (b : Bool)
  | int (n : ℤ)
  | float (x : F)
  | complex (re im : F)
  | str (s : String)
  | ellipsis
  | list (xs : List (PyValue F))
  | tuple (xs : List (PyValue F))
  | dict (kvs : List (String × PyValue F))
  | method (self : PyValue F) (name : String)

inductive Number (F : Type) where
  | int (n : ℤ)
  | float (x : F)
  | complex (re im : F)

-- What an expression can see of the interpreter besides its doubles: which values are one object,
-- the methods of a value, printf-style formatting, and whether there is memory for a value.
structure Interpreter (F : Type) where
  chars : CharTable
  doubles : Doubles F
  same : PyValue F → PyValue F → Bool
  isMethod : PyValue F → String → Bool
  format : String → PyValue F → Except PyError String
  holds : PyValue F → Bool

inductive Arith where
  | add
  | sub
  | mult
  | div
  | floorDiv
  | mod
  deriving DecidableEq

namespace PyValue

variable {F : Type}

def number? : PyValue F → Option (Number F)
  | bool b => some (.int b.toInt)
  | int n => some (.int n)
  | float x => some (.float x)
  | complex re im => some (.complex re im)
  | _ => Option.none

def isSequence : PyValue F → Bool
  | str _ | list _ | tuple _ => true
  | _ => false

def isText : PyValue F → Bool
  | str _ => true
  | _ => false

mutual

def hashable : PyValue F → Bool
  | list _ | dict _ => false
  | tuple xs => hashableAll xs
  | _ => true

def hashableAll : List (PyValue F) → Bool
  | [] => true
  | x :: xs => hashable x && hashableAll xs

end

variable (I : Interpreter F)

def truth : PyValue F → Bool
  | none => false
  | bool b => b
  | int n => n ≠ 0
  | float x => !I.doubles.isZero x
  | complex re im => !(I.doubles.isZero re && I.doubles.isZero im)
  | str s => s ≠ ""
  | list xs | tuple xs => !xs.isEmpty
  | dict kvs => !kvs.isEmpty
  | ellipsis | method _ _ => true

def eqNumber : Number F → Number F → Bool
  | .int a, .int b => a = b
  | .int a, .float y => I.doubles.eqInt y a
  | .float x, .int b => I.doubles.eqInt x b
  | .float x, .float y => I.doubles.eq x y
  | .complex re im, .int b => I.doubles.eqInt re b && I.doubles.isZero im
  | .int a, .complex re im => I.doubles.eqInt re a && I.doubles.isZero im
  | .complex re im, .float y => I.doubles.eq re y && I.doubles.isZero im
  | .float x, .complex re im => I.doubles.eq x re && I.doubles.isZero im
  | .complex re im, .complex re' im' => I.doubles.eq re re' && I.doubles.eq im im'

mutual

def eq : PyValue F → PyValue F → Bool
  | none, none => true
  | ellipsis, ellipsis => true
  | str s, str t => s = t
  | list xs, list ys => eqAll xs ys
  | tuple xs, tuple ys => eqAll xs ys
  | dict kvs, dict kvs' => kvs.length = kvs'.length && eqFields kvs kvs'
  | method self name, method self' name' => name = name' && I.same self self'
  | x, y =>
      match number? x, number? y with
      | some a, some b => eqNumber I a b
      | _, _ => false

def eqAll : List (PyValue F) → List (PyValue F) → Bool
  | [], [] => true
  | x :: xs, y :: ys => (I.same x y || eq x y) && eqAll xs ys
  | _, _ => false

def eqFields : List (String × PyValue F) → List (String × PyValue F) → Bool
  | [], _ => true
  | (k, x) :: kvs, kvs' =>
      (match kvs'.lookup k with
        | some y => I.same x y || eq x y
        | Option.none => false) && eqFields kvs kvs'

end

-- The order of two numbers, or none where there is none.
def orderNumber (r : Inequality) : Number F → Number F → Option Bool
  | .int a, .int b => some (r.holds a b)
  | .int a, .float y => some (I.doubles.orderInt r.swap y a)
  | .float x, .int b => some (I.doubles.orderInt r x b)
  | .float x, .float y => some (I.doubles.order r x y)
  | _, _ => Option.none

mutual

-- `none` is a TypeError.
def order (r : Inequality) : PyValue F → PyValue F → Option Bool
  | str s, str t => some (r.holds s t)
  | list xs, list ys => orderAll r xs ys
  | tuple xs, tuple ys => orderAll r xs ys
  | x, y =>
      match number? x, number? y with
      | some a, some b => orderNumber I r a b
      | _, _ => Option.none

def orderAll (r : Inequality) : List (PyValue F) → List (PyValue F) → Option Bool
  | x :: xs, y :: ys => if I.same x y || eq I x y then orderAll r xs ys else order r x y
  | xs, ys => some (r.holds xs.length ys.length)

end

-- `x in container`; `none` is a TypeError.
def contains (x : PyValue F) : PyValue F → Option Bool
  | list ys | tuple ys => some (ys.any fun y => I.same x y || eq I x y)
  | str t =>
      match x with
      | str s => some (s.toList <:+: t.toList)
      | _ => Option.none
  | dict kvs =>
      if hashable x then
        match x with
        | str k => some ((kvs.lookup k).isSome)
        | _ => some false
      else Option.none
  | _ => Option.none

def toDouble (n : ℤ) : Except PyError F :=
  if n.natAbs < doubleLimit then .ok (I.doubles.ofInt n) else .error .overflowError

def arithInt (op : Arith) (a b : ℤ) : Except PyError (PyValue F) :=
  match op with
  | .add => .ok (int (a + b))
  | .sub => .ok (int (a - b))
  | .mult => .ok (int (a * b))
  | .div =>
      if b = 0 then .error .zeroDivisionError
      else if a.natAbs < doubleLimit * b.natAbs then .ok (float (I.doubles.quotient a b))
      else .error .overflowError
  | .floorDiv => if b = 0 then .error .zeroDivisionError else .ok (int (a.fdiv b))
  | .mod => if b = 0 then .error .zeroDivisionError else .ok (int (a.fmod b))

def arithFloat (op : Arith) (x y : F) : Except PyError (PyValue F) :=
  let divided (f : F → F → F) :=
    if I.doubles.isZero y then .error .zeroDivisionError else .ok (float (f x y))
  match op with
  | .add => .ok (float (I.doubles.add x y))
  | .sub => .ok (float (I.doubles.sub x y))
  | .mult => .ok (float (I.doubles.mul x y))
  | .div => divided I.doubles.div
  | .floorDiv => divided I.doubles.floorDiv
  | .mod => divided I.doubles.mod

def ofPair (z : F × F) : PyValue F := complex z.1 z.2

def arithComplex (op : Arith) (z w : F × F) : Except PyError (PyValue F) :=
  match op with
  | .add => .ok (complex (I.doubles.add z.1 w.1) (I.doubles.add z.2 w.2))
  | .sub => .ok (complex (I.doubles.sub z.1 w.1) (I.doubles.sub z.2 w.2))
  | .mult => .ok (ofPair (I.doubles.complexMul z w))
  | .div =>
      if I.doubles.isZero w.1 && I.doubles.isZero w.2 then .error .zeroDivisionError
      else .ok (ofPair (I.doubles.complexDiv z w))
  | .floorDiv | .mod => .error .typeError

def toComplex : Number F → Except PyError (F × F)
  | .int n => (toDouble I n).map fun x => (x, I.doubles.ofInt 0)
  | .float x => .ok (x, I.doubles.ofInt 0)
  | .complex re im => .ok (re, im)

-- A complex number has no floor and no remainder, and neither operand is converted for one.
def arithConverted (op : Arith) (a b : Number F) : Except PyError (PyValue F) :=
  if op = .floorDiv ∨ op = .mod then .error .typeError
  else (toComplex I a).bind fun z => (toComplex I b).bind fun w => arithComplex I op z w

def arithNumber (op : Arith) : Number F → Number F → Except PyError (PyValue F)
  | .int a, .int b => arithInt I op a b
  | .int a, .float y => (toDouble I a).bind fun x => arithFloat I op x y
  | .float x, .int b => (toDouble I b).bind fun y => arithFloat I op x y
  | .float x, .float y => arithFloat I op x y
  | a, b => arithConverted I op a b

-- A count that is no index of the machine is refused.
def repeated {α : Type} (xs : List α) (n : ℤ) : Except PyError (List α) :=
  if -2 ^ 63 ≤ n ∧ n < 2 ^ 63 then .ok (List.replicate n.toNat xs).flatten
  else .error .overflowError

def integer? (x : PyValue F) : Option ℤ :=
  match number? x with
  | some (.int n) => some n
  | _ => Option.none

def repetition (x : PyValue F) (n : ℤ) : Except PyError (PyValue F) :=
  match x with
  | str s => (repeated s.toList n).map fun cs => str (String.ofList cs)
  | list xs => (repeated xs n).map list
  | tuple xs => (repeated xs n).map tuple
  | _ => .error .typeError

def arithSequence (op : Arith) (x y : PyValue F) : Except PyError (PyValue F) :=
  match op with
  | .add =>
      match x, y with
      | str s, str t => .ok (str (s ++ t))
      | list xs, list ys => .ok (list (xs ++ ys))
      | tuple xs, tuple ys => .ok (tuple (xs ++ ys))
      | _, _ => .error .typeError
  | .mult =>
      match integer? x, integer? y with
      | _, some n => repetition x n
      | some n, _ => repetition y n
      | _, _ => .error .typeError
  | .mod =>
      match x with
      | str s => (I.format s y).map str
      | _ => .error .typeError
  | _ => .error .typeError

-- `x op y`
def arith (op : Arith) (x y : PyValue F) : Except PyError (PyValue F) :=
  match number? x, number? y with
  | some a, some b => arithNumber I op a b
  | _, _ => arithSequence I op x y

-- `-x`
def negative (x : PyValue F) : Except PyError (PyValue F) :=
  match number? x with
  | some (.int n) => .ok (int (-n))
  | some (.float a) => .ok (float (I.doubles.neg a))
  | some (.complex re im) => .ok (complex (I.doubles.neg re) (I.doubles.neg im))
  | Option.none => .error .typeError

-- `+x`
def positive (x : PyValue F) : Except PyError (PyValue F) :=
  match number? x with
  | some (.int n) => .ok (int n)
  | some (.float a) => .ok (float a)
  | some (.complex re im) => .ok (complex re im)
  | Option.none => .error .typeError

def item {α : Type} (xs : List α) (n : ℤ) : Except PyError α :=
  match xs[(if n < 0 then n + xs.length else n).toNat]? with
  | some x => if n + xs.length < 0 then .error .indexError else .ok x
  | Option.none => .error .indexError

-- `container[key]`
def getItem (container key : PyValue F) : Except PyError (PyValue F) :=
  match container with
  | list xs | tuple xs =>
      match integer? key with
      | some n => item xs n
      | Option.none => .error .typeError
  | str s =>
      match integer? key with
      | some n => (item s.toList n).map fun c => str (String.ofList [c])
      | Option.none => .error .typeError
  | dict kvs =>
      match key with
      | str k =>
          match kvs.lookup k with
          | some x => .ok x
          | Option.none => .error .keyError
      | _ => if hashable key then .error .keyError else .error .typeError
  | _ => .error .typeError

def plainAttribute : PyValue F → String → Option (PyValue F)
  | bool b, name => plainInt b.toInt name
  | int n, name => plainInt n name
  | float x, "real" => some (float x)
  | float _, "imag" => some (float (I.doubles.ofInt 0))
  | complex re _, "real" => some (float re)
  | complex _ im, "imag" => some (float im)
  | _, _ => Option.none
where
  plainInt (n : ℤ) : String → Option (PyValue F)
    | "real" | "numerator" => some (int n)
    | "imag" => some (int 0)
    | "denominator" => some (int 1)
    | _ => Option.none

-- `getattr(x, name)`
def getAttr (x : PyValue F) (name : String) : Except PyError (PyValue F) :=
  match plainAttribute I x name with
  | some y => .ok y
  | Option.none => if I.isMethod x name then .ok (method x name) else .error .attributeError

def len : PyValue F → Except PyError (PyValue F)
  | str s => .ok (int s.length)
  | list xs | tuple xs => .ok (int xs.length)
  | dict kvs => .ok (int kvs.length)
  | _ => .error .typeError

def callLen : List (PyValue F) → Except PyError (PyValue F)
  | [x] => len x
  | _ => .error .typeError

def iterate : PyValue F → Except PyError (List (PyValue F))
  | str s => .ok (s.toList.map fun c => str (String.ofList [c]))
  | list xs | tuple xs => .ok xs
  | dict kvs => .ok (kvs.map fun kv => str kv.1)
  | _ => .error .typeError

-- A later value is taken only where it comes strictly before the best one so far.
def extremum (r : Inequality) (best : PyValue F) : List (PyValue F) → Except PyError (PyValue F)
  | [] => .ok best
  | x :: xs =>
      match order I r x best with
      | some true => extremum r x xs
      | some false => extremum r best xs
      | Option.none => .error .typeError

-- `min` and `max`
def select (r : Inequality) : List (PyValue F) → Except PyError (PyValue F)
  | [] => .error .typeError
  | [x] =>
      (iterate x).bind fun xs =>
        match xs with
        | [] => .error .valueError
        | y :: ys => extremum I r y ys
  | x :: xs => extremum I r x xs

end PyValue

end BTagent
