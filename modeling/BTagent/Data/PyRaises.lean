import BTagent.Data.PyValue
import BTagent.Lib.Monads

namespace BTagent

namespace PyValue

variable {F : Type}

def OutOfRange (n : ℤ) : Prop := doubleLimit ≤ n.natAbs

-- An int that no double is near takes part in float or complex arithmetic, or the quotient of two
-- ints is none.
def NumberOverflows (op : Arith) : Number F → Number F → Prop
  | .int a, .int b => op = .div ∧ b ≠ 0 ∧ doubleLimit * b.natAbs ≤ a.natAbs
  | .int a, .float _ => OutOfRange a
  | .float _, .int b => OutOfRange b
  | .int a, .complex _ _ => (op ≠ .floorDiv ∧ op ≠ .mod) ∧ OutOfRange a
  | .complex _ _, .int b => (op ≠ .floorDiv ∧ op ≠ .mod) ∧ OutOfRange b
  | _, _ => False

def Overflows (op : Arith) (x y : PyValue F) : Prop :=
  ∃ a b, number? x = some a ∧ number? y = some b ∧ NumberOverflows op a b

variable {I : Interpreter F} {op : Arith} {a b : Number F} {x y : PyValue F} {exc : PyError} {m n : ℤ}

theorem toDouble_error (h : toDouble I n = .error exc) : exc = .overflowError ∧ OutOfRange n := by
  unfold toDouble at h
  split at h
  · cases h
  · next hn =>
      cases h
      exact ⟨rfl, Nat.le_of_not_lt hn⟩

theorem toDouble_outOfRange (h : OutOfRange n) : toDouble I n = .error .overflowError :=
  if_neg (Nat.not_lt.mpr h)

theorem arithInt_error (h : arithInt I op m n = .error exc) :
    exc = .zeroDivisionError ∨ (exc = .overflowError ∧ NumberOverflows op (.int m : Number F) (.int n)) := by
  cases op with
  | add | sub | mult => cases h
  | floorDiv | mod =>
      simp only [arithInt] at h
      split at h
      · cases h
        exact Or.inl rfl
      · cases h
  | div =>
      simp only [arithInt] at h
      split at h
      · cases h
        exact Or.inl rfl
      · next hn =>
          split at h
          · cases h
          · next hm =>
              cases h
              exact Or.inr ⟨rfl, rfl, hn, Nat.le_of_not_lt hm⟩

theorem arithFloat_error {u v : F} (h : arithFloat I op u v = .error exc) :
    exc = .zeroDivisionError := by
  cases op with
  | add | sub | mult => cases h
  | div | floorDiv | mod =>
      simp only [arithFloat] at h
      split at h
      · cases h
        rfl
      · cases h

theorem arithComplex_error {z w : F × F} (h : arithComplex I op z w = .error exc) :
    exc = .typeError ∨ exc = .zeroDivisionError := by
  cases op with
  | add | sub | mult => cases h
  | floorDiv | mod =>
      cases h
      exact Or.inl rfl
  | div =>
      simp only [arithComplex] at h
      split at h
      · cases h
        exact Or.inr rfl
      · cases h

theorem toComplex_error (h : toComplex I a = .error exc) :
    exc = .overflowError ∧ ∃ n, a = .int n ∧ OutOfRange n := by
  cases a with
  | float x => cases h
  | complex re im => cases h
  | int n =>
      simp only [toComplex] at h
      cases hn : toDouble I n with
      | ok x =>
          rw [hn] at h
          cases h
      | error e =>
          rw [hn] at h
          cases h
          exact ⟨(toDouble_error hn).1, n, rfl, (toDouble_error hn).2⟩

theorem arithConverted_error (h : arithConverted I op a b = .error exc) :
    (exc = .typeError ∨ exc = .zeroDivisionError) ∨
      (exc = .overflowError ∧ (op ≠ .floorDiv ∧ op ≠ .mod) ∧
        ∃ n, (a = .int n ∨ b = .int n) ∧ OutOfRange n) := by
  unfold arithConverted at h
  split at h
  · cases h
    exact Or.inl (Or.inl rfl)
  · next hop =>
      rw [not_or] at hop
      rcases Except.bind_error_iff.mp h with h | ⟨z, -, h⟩
      · obtain ⟨hexc, n, ha, hn⟩ := toComplex_error h
        exact Or.inr ⟨hexc, hop, n, Or.inl ha, hn⟩
      · rcases Except.bind_error_iff.mp h with h | ⟨w, -, h⟩
        · obtain ⟨hexc, n, hb, hn⟩ := toComplex_error h
          exact Or.inr ⟨hexc, hop, n, Or.inr hb, hn⟩
        · exact Or.inl (arithComplex_error h)

theorem arithNumber_error (h : arithNumber I op a b = .error exc) :
    (exc = .typeError ∨ exc = .zeroDivisionError) ∨ (exc = .overflowError ∧ NumberOverflows op a b) := by
  cases a with
  | int m =>
      cases b with
      | int n => exact (arithInt_error h).imp_left Or.inr
      | float y =>
          rcases Except.bind_error_iff.mp h with h | ⟨x, -, h⟩
          · exact Or.inr (toDouble_error h)
          · exact Or.inl (Or.inr (arithFloat_error h))
      | complex re im =>
          refine (arithConverted_error h).imp_right ?_
          rintro ⟨hexc, hop, k, ha | hb, hk⟩
          · cases ha
            exact ⟨hexc, hop, hk⟩
          · cases hb
  | float x =>
      cases b with
      | int n =>
          rcases Except.bind_error_iff.mp h with h | ⟨y, -, h⟩
          · exact Or.inr (toDouble_error h)
          · exact Or.inl (Or.inr (arithFloat_error h))
      | float y => exact Or.inl (Or.inr (arithFloat_error h))
      | complex re im =>
          refine (arithConverted_error h).imp_right ?_
          rintro ⟨-, -, k, ha | hb, -⟩
          · cases ha
          · cases hb
  | complex re im =>
      cases b with
      | int n =>
          refine (arithConverted_error h).imp_right ?_
          rintro ⟨hexc, hop, k, ha | hb, hk⟩
          · cases ha
          · cases hb
            exact ⟨hexc, hop, hk⟩
      | float y | complex re' im' =>
          refine (arithConverted_error h).imp_right ?_
          rintro ⟨-, -, k, ha | hb, -⟩
          · cases ha
          · cases hb

theorem arithNumber_overflows (h : NumberOverflows op a b) :
    arithNumber I op a b = .error .overflowError := by
  cases a with
  | int m =>
      cases b with
      | int n =>
          obtain ⟨rfl, hn, hm⟩ := h
          exact (if_neg hn).trans (if_neg (Nat.not_lt.mpr hm))
      | float y =>
          simp only [arithNumber, toDouble_outOfRange h]
          rfl
      | complex re im =>
          obtain ⟨⟨hfloor, hmod⟩, hm⟩ := h
          simp only [arithNumber, arithConverted, hfloor, hmod, or_self, if_false, toComplex,
            toDouble_outOfRange hm]
          rfl
  | float x =>
      cases b with
      | int n =>
          simp only [arithNumber, toDouble_outOfRange h]
          rfl
      | float y => exact absurd h id
      | complex re im => exact absurd h id
  | complex re im =>
      cases b with
      | int n =>
          obtain ⟨⟨hfloor, hmod⟩, hn⟩ := h
          simp only [arithNumber, arithConverted, hfloor, hmod, or_self, if_false, toComplex,
            toDouble_outOfRange hn]
          rfl
      | float y => exact absurd h id
      | complex re' im' => exact absurd h id

theorem arithSequence_error (hrepeat : op = .mult → isSequence x = false ∧ isSequence y = false)
    (hformat : op = .mod → isText x = false) (h : arithSequence I op x y = .error exc) :
    exc = .typeError := by
  cases op with
  | add =>
      simp only [arithSequence] at h
      split at h <;> cases h
      rfl
  | mult =>
      obtain ⟨hx, hy⟩ := hrepeat rfl
      have hrepetition : ∀ {z : PyValue F} {n : ℤ}, isSequence z = false →
          repetition z n = .error exc → exc = .typeError := by
        intro z n hz h
        cases z with
        | str _ | list _ | tuple _ => cases hz
        | _ =>
            cases h
            rfl
      simp only [arithSequence] at h
      split at h
      · exact hrepetition hx h
      · exact hrepetition hy h
      · cases h
        rfl
  | mod =>
      have hx := hformat rfl
      cases x with
      | str _ => cases hx
      | _ =>
          cases h
          rfl
  | sub | div | floorDiv =>
      cases h
      rfl

theorem arith_error (hrepeat : op = .mult → isSequence x = false ∧ isSequence y = false)
    (hformat : op = .mod → isText x = false) (h : arith I op x y = .error exc) :
    (exc = .typeError ∨ exc = .zeroDivisionError) ∨
      (exc = .overflowError ∧ Overflows op x y) := by
  unfold arith at h
  split at h
  · next a b ha hb =>
      refine (arithNumber_error h).imp_right ?_
      rintro ⟨hexc, hover⟩
      exact ⟨hexc, a, b, ha, hb, hover⟩
  · exact Or.inl (Or.inl (arithSequence_error hrepeat hformat h))

theorem arith_faulty (h : Overflows op x y) : arith I op x y = .error .overflowError := by
  obtain ⟨a, b, ha, hb, hover⟩ := h
  simp only [arith, ha, hb]
  exact arithNumber_overflows hover

theorem item_error {α : Type} {xs : List α} (h : item xs n = .error exc) : exc = .indexError := by
  unfold item at h
  split at h
  · split at h <;> cases h
    rfl
  · cases h
    rfl

theorem item_far {α : Type} {xs : List α} {k : ℕ} (h : xs.length ≤ k) :
    item xs k = .error .indexError := by
  have hlast : xs[((k : ℤ)).toNat]? = Option.none := by simpa using h
  have hsign : ¬ (k : ℤ) < 0 := by omega
  simp only [item, if_neg hsign, hlast]

theorem getItem_error (h : getItem x y = .error exc) :
    exc ∈ [PyError.keyError, .indexError, .typeError] := by
  cases x with
  | list xs | tuple xs =>
      simp only [getItem] at h
      split at h
      · simp [item_error h]
      · cases h
        decide
  | str s =>
      simp only [getItem] at h
      split at h
      · next n hn =>
          cases hitem : item s.toList n with
          | ok c =>
              rw [hitem] at h
              cases h
          | error e =>
              rw [hitem] at h
              cases h
              simp [item_error hitem]
      · cases h
        decide
  | dict kvs =>
      simp only [getItem] at h
      split at h
      · split at h <;> cases h
        decide
      · split at h <;> cases h <;> decide
  | _ =>
      cases h
      decide

theorem negative_error (h : negative I x = .error exc) : exc = .typeError := by
  unfold negative at h
  split at h <;> cases h
  rfl

theorem positive_error (h : positive x = .error exc) : exc = .typeError := by
  unfold positive at h
  split at h <;> cases h
  rfl

theorem getAttr_error {name : String} (h : getAttr I x name = .error exc) :
    exc = .attributeError := by
  unfold getAttr at h
  split at h
  · cases h
  · split at h <;> cases h
    rfl

theorem len_error (h : len x = .error exc) : exc = .typeError := by
  cases x with
  | str _ | list _ | tuple _ | dict _ => cases h
  | _ =>
      cases h
      rfl

theorem callLen_error {xs : List (PyValue F)} (h : callLen xs = .error exc) : exc = .typeError := by
  unfold callLen at h
  split at h
  · exact len_error h
  · cases h
    rfl

theorem iterate_error (h : iterate x = .error exc) : exc = .typeError := by
  cases x with
  | str _ | list _ | tuple _ | dict _ => cases h
  | _ =>
      cases h
      rfl

theorem extremum_error {r : Inequality} {xs : List (PyValue F)}
    (h : extremum I r x xs = .error exc) : exc = .typeError := by
  induction xs generalizing x with
  | nil => cases h
  | cons y ys ih =>
      simp only [extremum] at h
      split at h
      · exact ih h
      · exact ih h
      · cases h
        rfl

theorem select_error {r : Inequality} {xs : List (PyValue F)} (h : select I r xs = .error exc) :
    exc = .typeError ∨ exc = .valueError := by
  match xs with
  | [] =>
      cases h
      exact Or.inl rfl
  | [x] =>
      rcases Except.bind_error_iff.mp h with h | ⟨ys, -, h⟩
      · exact Or.inl (iterate_error h)
      · cases ys with
        | nil =>
            cases h
            exact Or.inr rfl
        | cons y ys => exact Or.inl (extremum_error h)
  | x :: y :: ys => exact Or.inl (extremum_error h)

end PyValue

end BTagent
