import BTagent.Detection.ConditionTrees
import BTagent.Detection.SigmaMatch

namespace BTagent

namespace SigmaMatch
open SigmaCondition

variable (P : SigmaPython)

-- Where `multi` stands for any text and `single` for one character, letters without their case.
inductive Wildcards : List StringPart → List Char → Prop
  | nil : Wildcards [] []
  | text {s : String} {parts : List StringPart} {rest : List Char} :
      Wildcards parts rest → Wildcards (.text s :: parts) (lowered P s ++ rest)
  | multi {w : List Char} {parts : List StringPart} {rest : List Char} :
      Wildcards parts rest → Wildcards (.multi :: parts) (w ++ rest)
  | single {c : Char} {parts : List StringPart} {rest : List Char} :
      Wildcards parts rest → Wildcards (.single :: parts) (c :: rest)

-- The number of a field; a text counts as the integer it reads as, and a Boolean as none.
def numberOf : Json → Option ℚ
  | .int n => some n
  | .float r => some (P.floatValue r)
  | .str s => (readInt P s).map fun n : ℤ => (n : ℚ)
  | _ => none

-- A value of an item with a field; the field may be missing.
def ValueHolds : SigmaValue → Option Json → Prop
  | .null, field => field = none
  | _, none => False
  | .string parts, some x => Wildcards P parts (lowered P (P.str x))
  | .number q, some x => numberOf P x = some q
  | .bool b, some x => asBool P x = some b
  | .regex pattern, some x => P.search pattern (P.str x) = true

-- A keyword is searched for in every field of the event.
def KeywordHolds (event : Dict) : SigmaValue → Prop
  | .string parts => ∃ entry ∈ event.entries, entry.2 ≠ .null ∧
      Wildcards P (.multi :: (parts ++ [.multi])) (lowered P (P.str entry.2))
  | value => ∃ entry ∈ event.entries, entry.2 ≠ .null ∧ ValueHolds P value (some entry.2)

def TermHolds (event : Dict) (field : Option String) (value : SigmaValue) : Prop :=
  match field with
  | none => KeywordHolds P event value
  | some field => ValueHolds P value (present event field)

-- The values are alternatives; under `all` they hold together.
def ItemHolds (event : Dict) (item : DetectionItem) : Prop :=
  if .all ∈ item.modifiers then ∀ value ∈ item.values, TermHolds P event item.field value
  else ∃ value ∈ item.values, TermHolds P event item.field value

inductive DetectionHolds (event : Dict) : SigmaDetection → Prop
  | item {i : DetectionItem} : ItemHolds P event i → DetectionHolds event (.item i)
  | any {m : SigmaDetection} {members : List SigmaDetection} : m ∈ members →
      DetectionHolds event m → DetectionHolds event (.group .or members)
  | all {members : List SigmaDetection} : members ≠ [] → (∀ m ∈ members, DetectionHolds event m) →
      DetectionHolds event (.group .and members)

-- A text of a condition with the tree that it spells.
structure ParsedCondition (T : CharTable) where
  text : String
  tree : ConditionTree
  tokens : List String
  renders : Renders T .or tree tokens
  spells : Spells T tokens text.toList

structure SigmaRule (T : CharTable) where
  detections : OrderedDict String SigmaDetection
  condition : ParsedCondition T
  others : List (ParsedCondition T)

def matchSigmaRule (rule : SigmaRule P.chars) (event : Dict) : Bool :=
  evaluateCondition P.chars (rule.detections.mapVal (matchDetection P event)) rule.condition.text

open Classical in
noncomputable def meanings (rule : SigmaRule P.chars) (event : Dict) : DetectionResults :=
  rule.detections.mapVal fun d => decide (DetectionHolds P event d)

-- Some condition of the rule holds.
def RuleHolds (rule : SigmaRule P.chars) (event : Dict) : Prop :=
  ∃ c ∈ rule.condition :: rule.others, Holds P.chars (meanings P rule event) c.tree

section Strings
variable {P} {modifiers : List SigmaModifier} {s : String} {w u : List Char}

theorem wildcards_text : Wildcards P [.text s] w ↔ w = lowered P s := by
  constructor
  · intro h
    cases h with
    | text h =>
        cases h
        exact List.append_nil _
  · rintro rfl
    have h : Wildcards P [.text s] (lowered P s ++ []) := .text .nil
    rwa [List.append_nil] at h

theorem wildcards_any : Wildcards P [.multi] w := by
  have h : Wildcards P [.multi] (w ++ []) := .multi .nil
  rwa [List.append_nil] at h

theorem wildcards_end : Wildcards P [.multi, .text s] w ↔ lowered P s <:+ w := by
  constructor
  · intro h
    cases h with
    | @multi u _ rest h =>
        obtain rfl := wildcards_text.mp h
        exact List.suffix_append u _
  · rintro ⟨u, rfl⟩
    exact .multi (wildcards_text.mpr rfl)

theorem wildcards_start : Wildcards P [.text s, .multi] w ↔ lowered P s <+: w := by
  constructor
  · intro h
    cases h with
    | text h => exact List.prefix_append _ _
  · rintro ⟨u, rfl⟩
    exact .text wildcards_any

theorem wildcards_within : Wildcards P [.multi, .text s, .multi] w ↔ lowered P s <:+: w := by
  constructor
  · intro h
    cases h with
    | @multi u _ rest h =>
        obtain ⟨v, rfl⟩ := wildcards_start.mp h
        exact ⟨u, v, List.append_assoc _ _ _⟩
  · rintro ⟨u, v, rfl⟩
    rw [List.append_assoc]
    exact .multi (wildcards_start.mpr (List.prefix_append _ v))

theorem wildcards_stars {n : ℕ} {parts : List StringPart} :
    Wildcards P (List.replicate (n + 1) .multi ++ parts) w ↔ Wildcards P (.multi :: parts) w := by
  induction n generalizing w with
  | zero => rfl
  | succ n ih =>
      rw [List.replicate_succ, List.cons_append]
      constructor
      · intro h
        cases h with
        | @multi u _ rest h =>
            have htail := ih.mp h
            cases htail with
            | @multi v _ rest htail =>
                rw [← List.append_assoc]
                exact .multi htail
      · intro h
        have hskip : Wildcards P (.multi :: (List.replicate (n + 1) .multi ++ parts)) ([] ++ w) :=
          .multi (ih.mpr h)
        exact hskip

theorem wildcards_stars_after {n : ℕ} {left : List StringPart} :
    Wildcards P (left ++ .text s :: List.replicate (n + 1) .multi) w ↔
      Wildcards P (left ++ [.text s, .multi]) w := by
  induction left generalizing w with
  | nil =>
      have hstars : ∀ v, Wildcards P (List.replicate (n + 1) .multi) v := by
        intro v
        have h : Wildcards P (List.replicate (n + 1) .multi ++ []) v :=
          wildcards_stars.mpr wildcards_any
        rwa [List.append_nil] at h
      constructor
      · intro h
        cases h with
        | text h => exact .text wildcards_any
      · intro h
        cases h with
        | text h => exact .text (hstars _)
  | cons part left ih =>
      constructor
      · intro h
        cases h with
        | text h => exact .text (ih.mp h)
        | multi h => exact .multi (ih.mp h)
        | single h => exact .single (ih.mp h)
      · intro h
        cases h with
        | text h => exact .text (ih.mpr h)
        | multi h => exact .multi (ih.mpr h)
        | single h => exact .single (ih.mpr h)

-- A text with no star at its ends.
structure Unstarred (w : List Char) : Prop where
  nonempty : w ≠ []
  head : w.head? ≠ some '*'
  last : w.getLast? ≠ some '*'

-- The modifiers send a value with so many wildcards at its ends to the comparison of its ends.
def Placed (modifiers : List SigmaModifier) : ℕ → ℕ → Prop
  | _ + 1, 0 => True
  | 0, _ + 1 => .endswith ∉ modifiers
  | _ + 1, _ + 1 => .endswith ∉ modifiers ∧ .startswith ∉ modifiers
  | 0, 0 => .endswith ∉ modifiers ∧ .startswith ∉ modifiers ∧ .contains ∉ modifiers

variable (P) in
-- The strings that the matcher compares as they are meant: no wildcard stands inside them.
inductive Comparable (modifiers : List SigmaModifier) : List StringPart → Prop
  | empty : Placed modifiers 0 0 → Comparable modifiers []
  | any {n : ℕ} : Comparable modifiers (List.replicate (n + 1) .multi)
  | text {left right : ℕ} {s : String} : Unstarred (lowered P s) → Placed modifiers left right →
      Comparable modifiers
        (List.replicate left .multi ++ .text s :: List.replicate right .multi)

def stars (n : ℕ) : List Char := List.replicate n '*'

theorem isStar_stars {n : ℕ} : ∀ c ∈ stars n, isStar c = true := by
  intro c hc
  rw [List.eq_of_mem_replicate hc]
  rfl

theorem head_stars {n : ℕ} (w : List Char) : (stars (n + 1) ++ w).head? = some '*' := rfl

theorem last_stars {n : ℕ} (w : List Char) : (w ++ stars (n + 1)).getLast? = some '*' := by
  rw [stars, List.replicate_succ', ← List.append_assoc, List.getLast?_concat]

theorem dropWhile_stars {n : ℕ} (h : Unstarred w) : (stars n ++ w).dropWhile isStar = w := by
  rw [List.dropWhile_append_of_pos isStar_stars, List.dropWhile_eq_self_iff]
  intro hpos hstar
  refine h.head ?_
  rw [List.head?_eq_getElem?, List.getElem?_eq_getElem hpos]
  exact congrArg some (eq_of_beq hstar)

theorem rdropWhile_stars {n : ℕ} (h : Unstarred w) : (w ++ stars n).rdropWhile isStar = w := by
  induction n with
  | zero =>
      rw [stars, List.replicate_zero, List.append_nil, List.rdropWhile_eq_self_iff]
      intro hne hstar
      refine h.last ?_
      rw [List.getLast?_eq_some_getLast hne]
      exact congrArg some (eq_of_beq hstar)
  | succ n ih =>
      rw [stars, List.replicate_succ', ← List.append_assoc,
        List.rdropWhile_concat_pos _ _ _ (by decide)]
      exact ih

theorem stripBy_stars {n m : ℕ} (h : Unstarred w) :
    Quoted.stripBy isStar (stars n ++ (w ++ stars m)) = w := by
  have hdrop : (stars n ++ (w ++ stars m)).dropWhile isStar = w ++ stars m := by
    rw [List.dropWhile_append_of_pos isStar_stars]
    obtain ⟨c, v, rfl⟩ := List.exists_cons_of_ne_nil h.nonempty
    have hc : ¬ isStar c = true := fun hstar => h.head (congrArg some (eq_of_beq hstar))
    exact List.dropWhile_cons_of_neg hc
  rw [Quoted.stripBy, hdrop, rdropWhile_stars h]

theorem lowered_star_left (s : String) : lowered P ("*" ++ s) = '*' :: lowered P s := by
  rw [lowered, P.lower_star_left, String.toList_append]
  rfl

theorem lowered_star_right (s : String) : lowered P (s ++ "*") = lowered P s ++ ['*'] := by
  rw [lowered, P.lower_star_right, String.toList_append]
  rfl

theorem lowered_empty : lowered P "" = [] := by
  rw [lowered, P.chars.lower_ascii "" (by simp), String.toList_map]
  rfl

theorem toPlain_append (ps qs : List StringPart) : toPlain (ps ++ qs) = toPlain ps ++ toPlain qs := by
  induction ps with
  | nil => exact String.empty_append.symm
  | cons p ps ih => rw [List.cons_append, toPlain, toPlain, ih, String.append_assoc]

theorem lowered_stars_left {n : ℕ} (parts : List StringPart) :
    lowered P (toPlain (List.replicate n .multi ++ parts)) = stars n ++ lowered P (toPlain parts) := by
  induction n with
  | zero => rfl
  | succ n ih =>
      rw [List.replicate_succ, List.cons_append, toPlain, StringPart.plain, lowered_star_left, ih]
      rfl

theorem lowered_stars_right {n : ℕ} (parts : List StringPart) :
    lowered P (toPlain (parts ++ List.replicate n .multi)) = lowered P (toPlain parts) ++ stars n := by
  have hone : toPlain [.multi] = "*" := String.append_empty
  induction n with
  | zero => rw [List.replicate_zero, List.append_nil, stars, List.replicate_zero, List.append_nil]
  | succ n ih =>
      rw [List.replicate_succ', ← List.append_assoc, toPlain_append, hone, lowered_star_right, ih,
        List.append_assoc, stars, stars, List.replicate_succ']

-- The comparison that each kind of wildcards comes to.
theorem stringMatches_text (h : Unstarred w) (hplaced : Placed modifiers 0 0) :
    stringMatches modifiers w u = true ↔ u = w := by
  obtain ⟨hends, hstarts, hcontains⟩ := hplaced
  simp [stringMatches, hends, hstarts, hcontains, h.head, h.last]

theorem stringMatches_end {n : ℕ} (h : Unstarred w) :
    stringMatches modifiers (stars (n + 1) ++ w) u = true ↔ w <:+ u := by
  have hlast : (stars (n + 1) ++ w).getLast? = w.getLast? :=
    List.getLast?_append_of_ne_nil _ h.nonempty
  have hbranch : SigmaModifier.endswith ∈ modifiers ∨
      ((stars (n + 1) ++ w).head? = some '*' ∧ ¬ (stars (n + 1) ++ w).getLast? = some '*') :=
    Or.inr ⟨head_stars w, hlast ▸ h.last⟩
  rw [stringMatches, if_pos hbranch, dropWhile_stars h, decide_eq_true_eq]

theorem stringMatches_start {n : ℕ} (h : Unstarred w) (hplaced : Placed modifiers 0 (n + 1)) :
    stringMatches modifiers (w ++ stars (n + 1)) u = true ↔ w <+: u := by
  have hhead : (w ++ stars (n + 1)).head? = w.head? := by
    obtain ⟨c, v, rfl⟩ := List.exists_cons_of_ne_nil h.nonempty
    rfl
  have hlast := last_stars (n := n) w
  have hfirst : ¬ (SigmaModifier.endswith ∈ modifiers ∨
      ((w ++ stars (n + 1)).head? = some '*' ∧ ¬ (w ++ stars (n + 1)).getLast? = some '*')) := by
    rintro (hends | ⟨-, hnot⟩)
    · exact hplaced hends
    · exact hnot hlast
  have hbranch : SigmaModifier.startswith ∈ modifiers ∨
      ((w ++ stars (n + 1)).getLast? = some '*' ∧ ¬ (w ++ stars (n + 1)).head? = some '*') :=
    Or.inr ⟨hlast, hhead ▸ h.head⟩
  rw [stringMatches, if_neg hfirst, if_pos hbranch, rdropWhile_stars h, decide_eq_true_eq]

theorem stringMatches_within {n m : ℕ} (h : Unstarred w) (hplaced : Placed modifiers (n + 1) (m + 1)) :
    stringMatches modifiers (stars (n + 1) ++ (w ++ stars (m + 1))) u = true ↔ w <:+: u := by
  have hhead := head_stars (n := n) (w ++ stars (m + 1))
  have hlast : (stars (n + 1) ++ (w ++ stars (m + 1))).getLast? = some '*' := by
    rw [← List.append_assoc]
    exact last_stars _
  have hbranch : SigmaModifier.contains ∈ modifiers ∨
      ((stars (n + 1) ++ (w ++ stars (m + 1))).head? = some '*' ∧
        (stars (n + 1) ++ (w ++ stars (m + 1))).getLast? = some '*') :=
    Or.inr ⟨hhead, hlast⟩
  rw [stringMatches, if_neg, if_neg, if_pos hbranch, stripBy_stars h, decide_eq_true_eq]
  · rintro (hstarts | ⟨-, hnot⟩)
    · exact hplaced.2 hstarts
    · exact hnot hhead
  · rintro (hends | ⟨-, hnot⟩)
    · exact hplaced.1 hends
    · exact hnot hlast

-- A text of stars alone is dropped whole, whichever end it is dropped from.
theorem stringMatches_stars {n : ℕ} : stringMatches modifiers (stars (n + 1)) u = true := by
  have hdrop : (stars (n + 1)).dropWhile isStar = [] := List.dropWhile_eq_nil_iff.mpr isStar_stars
  have hrdrop : (stars (n + 1)).rdropWhile isStar = [] :=
    List.rdropWhile_eq_nil_iff.mpr isStar_stars
  have hstrip : Quoted.stripBy isStar (stars (n + 1)) = [] := by
    rw [Quoted.stripBy, hdrop, List.rdropWhile_nil]
  have hhead : (stars (n + 1)).head? = some '*' := rfl
  have hlast : (stars (n + 1)).getLast? = some '*' := last_stars []
  rw [stringMatches, hdrop, hrdrop, hstrip]
  split_ifs with hends hstarts hcontains
  · exact decide_eq_true List.nil_suffix
  · exact decide_eq_true List.nil_prefix
  · exact decide_eq_true List.nil_infix
  · exact absurd (Or.inr ⟨hhead, hlast⟩) hcontains

theorem string_agrees {parts : List StringPart} (h : Comparable P modifiers parts) :
    stringMatches modifiers (lowered P (toPlain parts)) u = true ↔ Wildcards P parts u := by
  cases h with
  | empty hplaced =>
      obtain ⟨hends, hstarts, hcontains⟩ := hplaced
      have hnil : Wildcards P [] u ↔ u = [] := by
        constructor
        · intro h
          cases h
          rfl
        · rintro rfl
          exact .nil
      rw [hnil, toPlain, lowered_empty]
      simp [stringMatches, hends, hstarts, hcontains]
  | @any n =>
      have hplain := lowered_stars_left (P := P) (n := n + 1) []
      have hstars : Wildcards P (List.replicate (n + 1) .multi ++ []) u :=
        wildcards_stars.mpr wildcards_any
      rw [List.append_nil] at hplain hstars
      rw [hplain, toPlain, lowered_empty, List.append_nil]
      exact iff_of_true stringMatches_stars hstars
  | @text left right s hs hplaced =>
      have hplain : lowered P (toPlain (List.replicate left .multi ++ .text s ::
          List.replicate right .multi)) = stars left ++ (lowered P s ++ stars right) := by
        have hone : toPlain [.text s] = s := String.append_empty
        rw [lowered_stars_left, ← List.singleton_append, lowered_stars_right, hone]
      rw [hplain]
      cases left with
      | zero =>
          cases right with
          | zero =>
              have hempty : stars 0 ++ (lowered P s ++ stars 0) = lowered P s := List.append_nil _
              rw [hempty, stringMatches_text hs hplaced]
              exact wildcards_text.symm
          | succ right =>
              have hempty : stars 0 ++ (lowered P s ++ stars (right + 1)) =
                  lowered P s ++ stars (right + 1) := rfl
              rw [hempty, stringMatches_start hs hplaced, wildcards_stars_after]
              exact wildcards_start.symm
      | succ left =>
          cases right with
          | zero =>
              have hempty : lowered P s ++ stars 0 = lowered P s := List.append_nil _
              rw [hempty, stringMatches_end hs, wildcards_stars]
              exact wildcards_end.symm
          | succ right =>
              rw [stringMatches_within hs hplaced, wildcards_stars_after, wildcards_stars]
              exact wildcards_within.symm

end Strings

section Agreement

-- What the matcher makes of the value at the field is what the value means.
def ValueAgrees (modifiers : List SigmaModifier) (x : Json) : SigmaValue → Prop
  | .string parts => Comparable P modifiers parts
  | .number q => intOf P x = some (truncate q) → numberOf P x = some q
  | .regex pattern => P.search pattern (P.str x) = false
  | _ => True

-- No keyword is found, no null meets a missing field, and the values of `all` hold together or not
-- at all.
def ItemAgrees (event : Dict) (item : DetectionItem) : Prop :=
  match item.field with
  | none => ¬ ItemHolds P event item
  | some field =>
      match present event field with
      | none => if .all ∈ item.modifiers then ∃ value ∈ item.values, value ≠ .null
          else .null ∉ item.values
      | some x => (∀ value ∈ item.values, ValueAgrees P item.modifiers x value) ∧
          (.all ∈ item.modifiers → ∀ v ∈ item.values, ∀ w ∈ item.values,
            ValueHolds P v (some x) → ValueHolds P w (some x))

inductive ItemIn (i : DetectionItem) : SigmaDetection → Prop
  | item : ItemIn i (.item i)
  | group {linking : ItemLinking} {m : SigmaDetection} {members : List SigmaDetection} :
      m ∈ members → ItemIn i m → ItemIn i (.group linking members)

-- Every detection item is handled, and no later condition holds without the first.
structure Handled (rule : SigmaRule P.chars) (event : Dict) : Prop where
  names : ∀ name ∈ rule.detections.keys, IsIdentifier P.chars name
  items : ∀ name d, (name, d) ∈ rule.detections.entries → ∀ i, ItemIn i d → ItemAgrees P event i
  conditions : ∀ c ∈ rule.others, Holds P.chars (meanings P rule event) c.tree →
    Holds P.chars (meanings P rule event) rule.condition.tree

variable {P} {event : Dict} {modifiers : List SigmaModifier} {x : Json} {value : SigmaValue}

theorem intOf_numberOf {q : ℚ} (h : numberOf P x = some q) : intOf P x = some (truncate q) := by
  have hcast : ∀ n : ℤ, truncate (n : ℚ) = n := by
    intro n
    simp [truncate]
  cases x with
  | int n =>
      obtain rfl := Option.some.inj h
      rw [hcast]
      rfl
  | float r =>
      obtain rfl := Option.some.inj h
      rfl
  | str s =>
      have hread : (readInt P s).map (fun n : ℤ => (n : ℚ)) = some q := h
      obtain ⟨n, hn, hq⟩ := Option.map_eq_some_iff.mp hread
      rw [← hq, hcast]
      exact hn
  | _ => cases h

theorem value_agrees (h : ValueAgrees P modifiers x value) :
    valueMatches P modifiers x value = true ↔ ValueHolds P value (some x) := by
  cases value with
  | string parts => exact string_agrees h
  | number q =>
      rw [valueMatches, decide_eq_true_eq]
      exact ⟨h, intOf_numberOf⟩
  | bool b =>
      rw [valueMatches, decide_eq_true_eq]
      rfl
  | null => exact iff_of_false Bool.false_ne_true fun h => by cases h
  | regex pattern =>
      refine iff_of_false Bool.false_ne_true fun hholds => ?_
      have hfound : P.search pattern (P.str x) = true := hholds
      rw [h] at hfound
      cases hfound

theorem missing_holds : ValueHolds P value none ↔ value = .null := by
  cases value with
  | null => exact iff_of_true rfl rfl
  | _ => exact iff_of_false id fun h => by cases h

theorem item_agrees {item : DetectionItem} (h : ItemAgrees P event item) :
    matchDetectionItem P event item = true ↔ ItemHolds P event item := by
  unfold ItemAgrees at h
  unfold matchDetectionItem ItemHolds TermHolds at *
  cases hfield : item.field with
  | none =>
      simp only [hfield] at h ⊢
      exact iff_of_false Bool.false_ne_true h
  | some field =>
      simp only [hfield] at h ⊢
      cases hpresent : present event field with
      | none =>
          simp only [hpresent, missing_holds] at h ⊢
          refine iff_of_false Bool.false_ne_true ?_
          split_ifs at h ⊢ with hall
          · obtain ⟨value, hvalue, hnull⟩ := h
            exact fun hheld => hnull (hheld value hvalue)
          · rintro ⟨value, hvalue, rfl⟩
            exact h hvalue
      | some x =>
          simp only [hpresent] at h ⊢
          obtain ⟨hvalues, htogether⟩ := h
          have hany : item.values.any (valueMatches P item.modifiers x) = true ↔
              ∃ value ∈ item.values, ValueHolds P value (some x) := by
            rw [List.any_eq_true]
            exact exists_congr fun value => and_congr_right fun hv => value_agrees (hvalues value hv)
          rw [hany]
          split_ifs with hall
          · constructor
            · rintro ⟨value, hvalue, hholds⟩ w hw
              exact htogether hall value hvalue w hw hholds
            · intro hheld
              obtain ⟨value, hvalue⟩ := List.exists_mem_of_ne_nil _ item.nonempty
              exact ⟨value, hvalue, hheld value hvalue⟩
          · rfl

theorem anyMatches_eq (members : List SigmaDetection) :
    anyMatches P event members = members.any (matchDetection P event) := by
  induction members with
  | nil => rfl
  | cons m members ih => rw [anyMatches, List.any_cons, ih]

theorem allMatch_eq (members : List SigmaDetection) :
    allMatch P event members = members.all (matchDetection P event) := by
  induction members with
  | nil => rfl
  | cons m members ih => rw [allMatch, List.all_cons, ih]

theorem matchDetection_or {members : List SigmaDetection} :
    matchDetection P event (.group .or members) = true ↔
      ∃ m ∈ members, matchDetection P event m = true := by
  cases members with
  | nil => simp [matchDetection]
  | cons m members => rw [matchDetection, anyMatches_eq, List.any_eq_true]

theorem matchDetection_and {members : List SigmaDetection} :
    matchDetection P event (.group .and members) = true ↔
      members ≠ [] ∧ ∀ m ∈ members, matchDetection P event m = true := by
  cases members with
  | nil => simp [matchDetection]
  | cons m members =>
      rw [matchDetection, allMatch_eq, List.all_eq_true]
      exact (and_iff_right (List.cons_ne_nil m members)).symm

theorem detection_agrees : ∀ d : SigmaDetection, (∀ i, ItemIn i d → ItemAgrees P event i) →
    (matchDetection P event d = true ↔ DetectionHolds P event d)
  | .item i, h => by
      rw [matchDetection, item_agrees (h i .item)]
      constructor
      · exact .item
      · rintro ⟨h⟩
        exact h
  | .group linking members, h => by
      have hmembers : ∀ m ∈ members, (matchDetection P event m = true ↔ DetectionHolds P event m) :=
        fun m hm => detection_agrees m fun i hi => h i (.group hm hi)
      cases linking with
      | or =>
          rw [matchDetection_or]
          constructor
          · rintro ⟨m, hm, hmatch⟩
            exact .any hm ((hmembers m hm).mp hmatch)
          · intro hholds
            cases hholds with
            | @any m _ hm hholds => exact ⟨m, hm, (hmembers m hm).mpr hholds⟩
      | and =>
          rw [matchDetection_and]
          constructor
          · rintro ⟨hne, hall⟩
            exact .all hne fun m hm => (hmembers m hm).mp (hall m hm)
          · intro hholds
            cases hholds with
            | all hne hall => exact ⟨hne, fun m hm => (hmembers m hm).mpr (hall m hm)⟩
termination_by d => sizeOf d
decreasing_by
  have hsize := List.sizeOf_lt_of_mem hm
  simp only [SigmaDetection.group.sizeOf_spec]
  omega

theorem meanings_eq {rule : SigmaRule P.chars} (h : Handled P rule event) :
    meanings P rule event = rule.detections.mapVal (matchDetection P event) := by
  classical
  refine OrderedDict.ext_entries (List.map_congr_left fun entry hentry => ?_)
  have hagrees := detection_agrees entry.2 (h.items entry.1 entry.2 hentry)
  refine congrArg (entry.1, ·) ?_
  rw [Bool.eq_iff_iff, decide_eq_true_eq]
  exact hagrees.symm

theorem keys_meanings (rule : SigmaRule P.chars) :
    (meanings P rule event).keys = rule.detections.keys := by
  rw [OrderedDict.keys, meanings, OrderedDict.mapVal, List.map_map]
  rfl

end Agreement

section Example

theorem lower_append (s t : String) : (s ++ t).map Char.toLower =
    s.map Char.toLower ++ t.map Char.toLower := by
  refine String.toList_injective ?_
  simp only [String.toList_map, String.toList_append, List.map_append]

theorem lower_star : "*".map Char.toLower = "*" := by
  decide +kernel

def asciiSigma : SigmaPython where
  chars := CharTable.ascii
  isPrintable _ := true
  floatRepr := id
  floatValue _ := 0
  digitValue c := c.toNat - '0'.toNat
  search pattern text := decide (pattern.toList <:+: text.toList)
  lower_star_left s := (lower_append "*" s).trans (by rw [lower_star]; rfl)
  lower_star_right s := (lower_append s "*").trans (by rw [lower_star]; rfl)

def onlySelection : ParsedCondition CharTable.ascii where
  text := "selection"
  tree := .detection "selection"
  tokens := ["selection"]
  renders := .conjunction (.unary (.detection (by decide +kernel)))
  spells := by
    have htext : Spells CharTable.ascii ["selection"] ([] ++ "selection".toList ++ []) :=
      .word (by decide) (by decide) (by decide) (.nil (by decide))
    exact htext

def selectionRule (item : DetectionItem) : SigmaRule CharTable.ascii where
  detections := ⟨[("selection", .item item)], List.nodup_singleton _⟩
  condition := onlySelection
  others := []

def around (s : String) : SigmaValue := .string [.multi, .text s, .multi]

def hiddenItem : DetectionItem :=
  ⟨some "CommandLine", [.contains, .all], [around "-enc", around "-nop"], List.cons_ne_nil _ _⟩

def commandEvent (s : String) : Dict := ⟨[("CommandLine", .str s)], List.nodup_singleton _⟩

theorem selectionRule_holds {item : DetectionItem} {event : Dict} :
    RuleHolds asciiSigma (selectionRule item) event ↔ ItemHolds asciiSigma event item := by
  classical
  have hfirst : RuleHolds asciiSigma (selectionRule item) event ↔
      some (decide (DetectionHolds asciiSigma event (.item item))) = some true := by
    constructor
    · rintro ⟨c, hc, hholds⟩
      obtain rfl := List.mem_singleton.mp hc
      exact hholds
    · exact fun hholds => ⟨onlySelection, List.mem_singleton_self _, hholds⟩
  rw [hfirst, Option.some_inj, decide_eq_true_eq]
  constructor
  · rintro ⟨h⟩
    exact h
  · exact .item

end Example

end SigmaMatch

end BTagent
