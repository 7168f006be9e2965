import BTagent.Detection.SigmaMatch

namespace BTagent

inductive Quantifier where
  | one
  | any
  | all
  deriving DecidableEq

def Quantifier.word : Quantifier → String
  | one => "1"
  | any => "any"
  | all => "all"

inductive Selector where
  | them
  | pattern (p : String)

inductive ConditionTree where
  | detection (name : String)
  | quantified (q : Quantifier) (s : Selector)
  | not (c : ConditionTree)
  | and (c d : ConditionTree)
  | or (c d : ConditionTree)

namespace SigmaCondition

variable (T : CharTable)

-- Where a star stands for any text and letters are compared without their case.
inductive Glob : List Char → List Char → Prop
  | nil : Glob [] []
  | letter {c d : Char} {pattern name : List Char} : c ≠ '*' → T.sameLetter c d = true →
      Glob pattern name → Glob (c :: pattern) (d :: name)
  | star {w pattern name : List Char} : Glob pattern name → Glob ('*' :: pattern) (w ++ name)

def Selector.Names : Selector → String → Prop
  | .them, name => name.toList.head? ≠ some '_'
  | .pattern p, name => Glob T p.toList name.toList

def keywords : List String := ["and", "or", "not", "1", "all", "any"]

structure IsWord (w : String) : Prop where
  nonempty : w.toList ≠ []
  chars : ∀ c ∈ w.toList, isWordChar T c = true

structure IsIdentifier (name : String) : Prop extends IsWord T name where
  not_keyword : T.lower name ∉ keywords
  not_private : name.toList.head? ≠ some '_'

instance : DecidablePred (IsWord T) := fun w =>
  decidable_of_iff (w.toList ≠ [] ∧ ∀ c ∈ w.toList, isWordChar T c = true)
    ⟨fun h => ⟨h.1, h.2⟩, fun h => ⟨h.nonempty, h.chars⟩⟩

instance : DecidablePred (IsIdentifier T) := fun name =>
  decidable_of_iff (IsWord T name ∧ T.lower name ∉ keywords ∧ name.toList.head? ≠ some '_')
    ⟨fun h => ⟨h.1, h.2.1, h.2.2⟩, fun h => ⟨h.toIsWord, h.not_keyword, h.not_private⟩⟩

variable (results : DetectionResults)

def Holds : ConditionTree → Prop
  | .detection name => results.get? name = some true
  | .quantified .all s => (∃ name ∈ results.keys, Selector.Names T s name) ∧
      ∀ name ∈ results.keys, Selector.Names T s name → results.get? name = some true
  | .quantified _ s => ∃ name ∈ results.keys, Selector.Names T s name ∧ results.get? name = some true
  | .not c => ¬ Holds c
  | .and c d => Holds c ∧ Holds d
  | .or c d => Holds c ∨ Holds d

inductive Spelled : Selector → String → Prop
  | them {w : String} : T.lower w = "them" → Spelled .them w
  | pattern {p : String} : T.lower p ≠ "them" → Spelled (.pattern p) p

inductive Level where
  | or
  | and
  | unary

-- The tokens of a tree where an operand of each operator binds at least as tightly as it has to.
inductive Renders : Level → ConditionTree → List String → Prop
  | detection {name : String} : IsIdentifier T name → Renders .unary (.detection name) [name]
  | quantified {q : Quantifier} {s : Selector} {word preposition p : String} :
      T.lower word = q.word → T.lower preposition = "of" → Spelled T s p →
      Renders .unary (.quantified q s) [word, preposition, p]
  | not {c : ConditionTree} {word : String} {ts : List String} : T.lower word = "not" →
      Renders .unary c ts → Renders .unary (.not c) (word :: ts)
  | parens {c : ConditionTree} {ts : List String} : Renders .or c ts →
      Renders .unary c ("(" :: (ts ++ [")"]))
  | and {c d : ConditionTree} {word : String} {ts us : List String} : T.lower word = "and" →
      Renders .and c ts → Renders .and d us → Renders .and (.and c d) (ts ++ word :: us)
  | or {c d : ConditionTree} {word : String} {ts us : List String} : T.lower word = "or" →
      Renders .or c ts → Renders .or d us → Renders .or (.or c d) (ts ++ word :: us)
  | unary {c : ConditionTree} {ts : List String} : Renders .unary c ts → Renders .and c ts
  | conjunction {c : ConditionTree} {ts : List String} : Renders .and c ts → Renders .or c ts

-- A text with these tokens: words are kept apart by white space or parentheses.
inductive Spells : List String → List Char → Prop
  | nil {blank : List Char} : (∀ c ∈ blank, T.isSpace c = true) → Spells [] blank
  | paren {blank text : List Char} {c : Char} {ts : List String} :
      (∀ c ∈ blank, T.isSpace c = true) → c = '(' ∨ c = ')' → Spells ts text →
      Spells (String.ofList [c] :: ts) (blank ++ c :: text)
  | word {blank text : List Char} {w : String} {ts : List String} :
      (∀ c ∈ blank, T.isSpace c = true) → IsWord T w → (∀ c ∈ text.head?, isWordChar T c = false) →
      Spells ts text → Spells (w :: ts) (blank ++ w.toList ++ text)

section Selectors
variable {T results}

theorem matches_selectorRegex {prev : Option Char} {pattern w rest : List Char}
    (hw : ∀ c ∈ w, c ≠ '\n') :
    Regex.Matches T.isWord (selectorRegex T pattern) prev w rest ↔ Glob T pattern w := by
  induction pattern generalizing prev w with
  | nil =>
      rw [selectorRegex, Regex.matches_sets, List.forall₂_nil_left_iff]
      constructor
      · rintro rfl
        exact .nil
      · intro h
        cases h
        rfl
  | cons p pattern ih =>
      rw [selectorRegex, Regex.matches_seq]
      constructor
      · rintro ⟨u, v, rfl, hu, hv⟩
        have hglob := (ih fun c hc => hw c (List.mem_append_right u hc)).mp hv
        by_cases hp : p = '*'
        · subst hp
          exact .star hglob
        · rw [if_neg hp] at hu
          obtain ⟨d, rfl, hd⟩ := Regex.matches_set.mp hu
          exact .letter hp hd hglob
      · intro h
        cases h with
        | @letter _ d _ name hp hd hglob =>
            refine ⟨[d], name, rfl, ?_, (ih fun c hc => hw c (List.mem_cons_of_mem d hc)).mpr hglob⟩
            rw [if_neg hp]
            exact Regex.matches_set.mpr ⟨d, rfl, hd⟩
        | @star u _ v hglob =>
            refine ⟨u, v, rfl, ?_, (ih fun c hc => hw c (List.mem_append_right u hc)).mpr hglob⟩
            rw [if_pos rfl, Regex.matches_star_set]
            intro c hc
            simpa using hw c (List.mem_append_left v hc)

theorem regexMatch_iff {p name : String} (hname : ∀ c ∈ name.toList, c ≠ '\n') :
    regexMatch T p name = true ↔ Glob T p.toList name.toList := by
  rw [regexMatch, List.any_eq_true]
  constructor
  · rintro ⟨⟨w, rest⟩, hmem, hrest⟩
    have htext := Regex.sound_splits hmem
    have hempty : rest = [] := by
      rcases of_decide_eq_true hrest with h | h
      · exact h
      · have hnewline : '\n' ∈ name.toList := by
          rw [htext, show rest = ['\n'] from h]
          simp
        exact absurd rfl (hname _ hnewline)
    rw [hempty, List.append_nil] at htext
    rw [htext] at hname ⊢
    exact (matches_selectorRegex hname).mp (Regex.matches_of_mem hmem)
  · intro h
    have hmatch : Regex.Matches T.isWord (selectorRegex T p.toList) none name.toList [] :=
      (matches_selectorRegex hname).mpr h
    rw [Regex.Matches, List.append_nil] at hmatch
    exact ⟨_, hmatch, by simp⟩

theorem newline_free {name : String} (h : IsWord T name) : ∀ c ∈ name.toList, c ≠ '\n' := by
  rintro c hc rfl
  have hspace : T.isSpace '\n' = true := by
    rw [T.space_ascii _ (by decide)]
    decide
  simpa [isWordChar, hspace] using h.chars _ hc

theorem mem_selectorMatches {s : Selector} {p name : String}
    (hkeys : ∀ name ∈ results.keys, IsIdentifier T name) (hs : Spelled T s p) :
    name ∈ selectorMatches T p results.keys ↔ name ∈ results.keys ∧ Selector.Names T s name := by
  cases hs with
  | them hthem =>
      rw [selectorMatches, if_pos hthem]
      exact ⟨fun h => ⟨h, (hkeys name h).not_private⟩, And.left⟩
  | pattern hpattern =>
      rw [selectorMatches, if_neg hpattern, List.mem_filter]
      constructor
      · rintro ⟨hname, h⟩
        exact ⟨hname, (regexMatch_iff (newline_free (hkeys name hname).toIsWord)).mp h⟩
      · rintro ⟨hname, h⟩
        exact ⟨hname, (regexMatch_iff (newline_free (hkeys name hname).toIsWord)).mpr h⟩

theorem lookup_iff {name : String} : lookup results name = true ↔ results.get? name = some true := by
  unfold lookup
  cases results.get? name <;> simp

theorem quantified_iff {q : Quantifier} {s : Selector} {word p : String}
    (hkeys : ∀ name ∈ results.keys, IsIdentifier T name) (hword : T.lower word = q.word)
    (hs : Spelled T s p) :
    quantified T results word p = true ↔ Holds T results (.quantified q s) := by
  have hmem := @mem_selectorMatches T results s p
  have hany : (selectorMatches T p results.keys).any (lookup results) = true ↔
      ∃ name ∈ results.keys, Selector.Names T s name ∧ results.get? name = some true := by
    simp only [List.any_eq_true, hmem hkeys hs, lookup_iff, and_assoc]
  rw [quantified, hword]
  cases q with
  | one => exact hany
  | any => exact hany
  | all =>
      have hsome : (!(selectorMatches T p results.keys).isEmpty) = true ↔
          ∃ name ∈ results.keys, Selector.Names T s name := by
        rw [Bool.not_eq_true', List.isEmpty_eq_false_iff_exists_mem]
        simp only [hmem hkeys hs]
      simp only [Quantifier.word, if_true, Bool.and_eq_true, hsome, List.all_eq_true, hmem hkeys hs,
        lookup_iff, and_imp, Holds]

end Selectors

section Parser
variable {T results} {ts us : List String} {tok : String} {val acc : Bool} {c : ConditionTree}

-- The value with the tokens that are left.
def out {ts : List String} (r : Bool × Rest ts) : Bool × List String := (r.1, r.2.1)

variable (T results) in
-- An operand and the rest of a conjunction after the value `acc`.
def andChain (acc : Bool) (ts : List String) : Bool × List String :=
  out (andLoop T results (acc && (out (parseUnary T results ts)).1) (out (parseUnary T results ts)).2)

variable (T results) in
def orChain (acc : Bool) (ts : List String) : Bool × List String :=
  out (orLoop T results (acc || (andChain T results true ts).1) (andChain T results true ts).2)

theorem parseAnd_out : out (parseAnd T results ts) = andChain T results true ts := by
  rw [parseAnd]
  rfl

theorem parseOr_out : out (parseOr T results ts) = orChain T results false ts := by
  rw [parseOr, orChain, ← parseAnd_out]
  rfl

theorem andLoop_next (h : T.lower tok = "and") :
    out (andLoop T results val (tok :: ts)) = andChain T results val ts := by
  rw [andLoop, if_pos h]
  rfl

theorem andLoop_stop (h : ∀ tok ∈ ts.head?, T.lower tok ≠ "and") :
    out (andLoop T results val ts) = (val, ts) := by
  cases ts with
  | nil =>
      rw [andLoop]
      rfl
  | cons tok ts =>
      rw [andLoop, if_neg (h tok rfl)]
      rfl

theorem orLoop_next (h : T.lower tok = "or") :
    out (orLoop T results val (tok :: ts)) = orChain T results val ts := by
  rw [orLoop, if_pos h, orChain, ← parseAnd_out]
  rfl

theorem orLoop_stop (h : ∀ tok ∈ ts.head?, T.lower tok ≠ "or") :
    out (orLoop T results val ts) = (val, ts) := by
  cases ts with
  | nil =>
      rw [orLoop]
      rfl
  | cons tok ts =>
      rw [orLoop, if_neg (h tok rfl)]
      rfl

theorem lower_paren {c : Char} (h : c = '(' ∨ c = ')') :
    T.lower (String.ofList [c]) = String.ofList [c] := by
  rw [T.lower_ascii]
  · rcases h with rfl | rfl <;> decide +kernel
  · rcases h with rfl | rfl <;> decide +kernel

theorem parseUnary_not (h : T.lower tok = "not") : out (parseUnary T results (tok :: ts)) =
    (!(out (parseUnary T results ts)).1, (out (parseUnary T results ts)).2) := by
  rw [parseUnary.eq_def]
  simp only [if_pos h]
  rfl

theorem parseUnary_parens (h : out (parseOr T results ts) = (val, ")" :: us)) :
    out (parseUnary T results ("(" :: ts)) = (val, us) := by
  have hnot : T.lower "(" ≠ "not" := by
    rw [show "(" = String.ofList ['('] from rfl, lower_paren (Or.inl rfl)]
    decide
  rw [parseUnary.eq_def]
  simp only [if_neg hnot, if_true]
  obtain ⟨hval, hus⟩ := Prod.mk.inj h
  generalize parseOr T results ts = r at hval hus
  obtain ⟨v, rest, hrest⟩ := r
  subst hval hus
  rfl

theorem parseUnary_detection (hnot : T.lower tok ≠ "not") (hparen : tok ≠ "(")
    (hplain : T.lower tok ∉ quantifiers) :
    out (parseUnary T results (tok :: ts)) = (lookup results tok, ts) := by
  rw [parseUnary.eq_def]
  simp only [if_neg hnot, if_neg hparen, hplain, false_and, if_false]
  rcases ts with _ | ⟨t, _ | ⟨u, ts⟩⟩ <;> rfl

theorem parseUnary_quantified {word p : String} (hnot : T.lower tok ≠ "not") (hparen : tok ≠ "(")
    (htok : T.lower tok ∈ quantifiers) (hword : T.lower word = "of") :
    out (parseUnary T results (tok :: word :: p :: ts)) = (quantified T results tok p, ts) := by
  rw [parseUnary.eq_def]
  simp only [if_neg hnot, if_neg hparen, htok, hword, and_self, if_true]
  rfl

end Parser

section Trees
variable {T results} {l : Level} {c d : ConditionTree} {ts us : List String} {word : String}

-- What the parser does with the tokens of a tree at each level, before the tokens that follow.
def Parsed (T : CharTable) (results : DetectionResults) (ts : List String) (val : Bool) :
    Level → Prop
  | .unary => ∀ rest, out (parseUnary T results (ts ++ rest)) = (val, rest)
  | .and => ∀ acc rest, andChain T results acc (ts ++ rest) =
      out (andLoop T results (acc && val) rest)
  | .or => ∀ acc rest, (∀ tok ∈ rest.head?, T.lower tok ≠ "and") →
      orChain T results acc (ts ++ rest) = out (orLoop T results (acc || val) rest)

theorem paren_ne {c : Char} {k : String} (hk : k ∈ "of" :: "them" :: keywords)
    (hc : c = '(' ∨ c = ')') : T.lower (String.ofList [c]) ≠ k := by
  rw [lower_paren hc]
  rintro rfl
  revert hk
  rcases hc with rfl | rfl <;> decide

theorem word_ne_paren {w : String} (h : IsWord T w) : w ≠ "(" := by
  rintro rfl
  have hchar := h.chars '(' (by decide)
  simp [isWordChar] at hchar

theorem lower_ne_of_paren {k : String} (hk : k ∈ "of" :: "them" :: keywords)
    (h : T.lower word = k) : word ≠ "(" := by
  rintro rfl
  exact paren_ne hk (Or.inl rfl) h

theorem Quantifier.word_mem (q : Quantifier) : q.word ∈ quantifiers := by
  cases q <;> decide

theorem parsed_detection (h : IsIdentifier T word) :
    Parsed T results [word] (lookup results word) .unary := by
  intro rest
  have hnot := h.not_keyword
  simp only [keywords, List.mem_cons, List.not_mem_nil, or_false, not_or] at hnot
  obtain ⟨-, -, hnot, hone, hall, hany⟩ := hnot
  exact parseUnary_detection hnot (word_ne_paren h.toIsWord) (by simp [quantifiers, hone, hall, hany])

theorem parsed_quantified {q : Quantifier} {preposition p : String} (hword : T.lower word = q.word)
    (hof : T.lower preposition = "of") :
    Parsed T results [word, preposition, p] (quantified T results word p) .unary := by
  intro rest
  have hmem : q.word ∈ "of" :: "them" :: keywords := by cases q <;> decide
  have hnot : q.word ≠ "not" := by cases q <;> decide
  refine parseUnary_quantified (hword ▸ hnot) (lower_ne_of_paren hmem hword) ?_ hof
  rw [hword]
  exact Quantifier.word_mem q

theorem parsed_parens {val : Bool} (h : Parsed T results ts val .or) :
    Parsed T results ("(" :: (ts ++ [")"])) val .unary := by
  intro rest
  have hparen : ∀ k ∈ "of" :: "them" :: keywords, ∀ tok ∈ (")" :: rest).head?, T.lower tok ≠ k := by
    rintro k hk tok htok rfl
    cases htok
    exact paren_ne hk (Or.inr rfl) rfl
  have hinner : out (parseOr T results (ts ++ ")" :: rest)) = (val, ")" :: rest) := by
    rw [parseOr_out, h false _ (hparen _ (by decide)), Bool.false_or]
    exact orLoop_stop (hparen _ (by decide))
  rw [List.cons_append, List.append_assoc]
  exact parseUnary_parens hinner

theorem parsed_and {val val' : Bool} (hword : T.lower word = "and")
    (hc : Parsed T results ts val .and) (hd : Parsed T results us val' .and) :
    Parsed T results (ts ++ word :: us) (val && val') .and := by
  intro acc rest
  rw [List.append_assoc, List.cons_append, hc, andLoop_next hword, hd, Bool.and_assoc]

theorem parsed_or {val val' : Bool} (hword : T.lower word = "or")
    (hc : Parsed T results ts val .or) (hd : Parsed T results us val' .or) :
    Parsed T results (ts ++ word :: us) (val || val') .or := by
  intro acc rest hrest
  have hhead : ∀ tok ∈ (word :: (us ++ rest)).head?, T.lower tok ≠ "and" := by
    intro tok htok
    cases htok
    rw [hword]
    decide
  rw [List.append_assoc, List.cons_append, hc _ _ hhead, orLoop_next hword, hd _ _ hrest,
    Bool.or_assoc]

theorem parsed_conjunction {val : Bool} (h : Parsed T results ts val .and) :
    Parsed T results ts val .or := by
  intro acc rest hrest
  rw [orChain, h true rest, Bool.true_and, andLoop_stop hrest]

-- By induction on the rendering: each tree is parsed to its value, and nothing after it is read.
theorem parsed_renders (hkeys : ∀ name ∈ results.keys, IsIdentifier T name)
    (h : Renders T l c ts) :
    ∃ val, (val = true ↔ Holds T results c) ∧ Parsed T results ts val l := by
  induction h with
  | @detection name hname => exact ⟨lookup results name, lookup_iff, parsed_detection hname⟩
  | @quantified q s word preposition p hword hof hs =>
      exact ⟨quantified T results word p, quantified_iff hkeys hword hs, parsed_quantified hword hof⟩
  | @not c word ts hword _ ih =>
      obtain ⟨val, hval, hparsed⟩ := ih
      refine ⟨!val, ?_, fun rest => ?_⟩
      · rw [Holds, ← hval]
        simp
      · rw [List.cons_append, parseUnary_not hword, hparsed rest]
  | parens _ ih =>
      obtain ⟨val, hval, hparsed⟩ := ih
      exact ⟨val, hval, parsed_parens hparsed⟩
  | and hword _ _ ihc ihd =>
      obtain ⟨val, hval, hc⟩ := ihc
      obtain ⟨val', hval', hd⟩ := ihd
      refine ⟨val && val', ?_, parsed_and hword hc hd⟩
      rw [Holds, ← hval, ← hval', Bool.and_eq_true]
  | or hword _ _ ihc ihd =>
      obtain ⟨val, hval, hc⟩ := ihc
      obtain ⟨val', hval', hd⟩ := ihd
      refine ⟨val || val', ?_, parsed_or hword hc hd⟩
      rw [Holds, ← hval, ← hval', Bool.or_eq_true]
  | unary _ ih =>
      obtain ⟨val, hval, hparsed⟩ := ih
      refine ⟨val, hval, fun acc rest => ?_⟩
      rw [andChain, hparsed rest]
  | conjunction _ ih =>
      obtain ⟨val, hval, hparsed⟩ := ih
      exact ⟨val, hval, parsed_conjunction hparsed⟩

end Trees

section Tokens
variable {T} {ts : List String} {text : List Char} {prev : Option Char}

theorem isSpace_paren {c : Char} (h : c = '(' ∨ c = ')') : T.isSpace c = false := by
  rcases h with rfl | rfl <;> exact T.isSpace_of_graphic (by decide)

theorem splits_space {c : Char} (h : T.isSpace c = true) :
    Regex.splits T.isWord (condToken T) prev (c :: text) = [] := by
  have hopen : (c == '(') = false := by
    rw [beq_eq_false_iff_ne]
    rintro rfl
    simp [isSpace_paren (Or.inl rfl)] at h
  have hclose : (c == ')') = false := by
    rw [beq_eq_false_iff_ne]
    rintro rfl
    simp [isSpace_paren (Or.inr rfl)] at h
  simp [condToken, Regex.char, Regex.plus, Regex.splits, Regex.chain, isWordChar, hopen, hclose, h]

theorem splits_paren {c : Char} (h : c = '(' ∨ c = ')') :
    (Regex.splits T.isWord (condToken T) prev ([c] ++ text)).head? = some ([c], text) := by
  rcases h with rfl | rfl <;> simp [condToken, Regex.char, Regex.splits]

theorem splits_word {w : List Char} (hne : w ≠ []) (hw : ∀ c ∈ w, isWordChar T c = true)
    (hstop : ∀ c ∈ text.head?, isWordChar T c = false) :
    (Regex.splits T.isWord (condToken T) prev (w ++ text)).head? = some (w, text) := by
  have hplus : (Regex.splits T.isWord (.plus (.set (isWordChar T))) prev (w ++ text)).head? =
      some (w, text) := Regex.plus_set_head? hne hw hstop
  obtain ⟨c, w, rfl⟩ := List.exists_cons_of_ne_nil hne
  have hc := hw c List.mem_cons_self
  simp only [isWordChar, Bool.and_eq_true, bne_iff_ne] at hc
  have hopen : (c == '(') = false := beq_eq_false_iff_ne.mpr hc.1.2
  have hclose : (c == ')') = false := beq_eq_false_iff_ne.mpr hc.2
  have hnone : ∀ p : Char, (c == p) = false →
      Regex.splits T.isWord (.char p) prev (c :: w ++ text) = [] := by
    intro p hp
    simp [Regex.char, Regex.splits, hp]
  change (Regex.splits T.isWord (.char '(') prev _ ++ (Regex.splits T.isWord (.char ')') prev _ ++
    Regex.splits T.isWord (.plus (.set (isWordChar T))) prev _)).head? = _
  rw [hnone _ hopen, hnone _ hclose]
  exact hplus

theorem scanFrom_blank {blank : List Char} (h : ∀ c ∈ blank, T.isSpace c = true) :
    (Regex.scanFrom T.isWord (condToken T) 0 prev (blank ++ text)).filterMap Regex.Piece.match? =
      (Regex.scanFrom T.isWord (condToken T) 0 (Regex.lastOf prev blank) text).filterMap
        Regex.Piece.match? := by
  induction blank generalizing prev with
  | nil => rfl
  | cons c blank ih =>
      obtain ⟨hc, hblank⟩ := List.forall_mem_cons.mp h
      rw [List.cons_append, Regex.scanFrom_between (splits_space hc), List.filterMap_cons]
      rw [← Regex.lastOf_cons]
      exact ih hblank

theorem scanFrom_spells (h : Spells T ts text) :
    ((Regex.scanFrom T.isWord (condToken T) 0 prev text).filterMap Regex.Piece.match?).map
      String.ofList = ts := by
  induction h generalizing prev with
  | @nil blank hblank =>
      rw [← List.append_nil blank, scanFrom_blank hblank]
      rfl
  | @paren blank text c ts hblank hc _ ih =>
      rw [scanFrom_blank hblank, ← List.singleton_append (x := c),
        Regex.scanFrom_found (List.cons_ne_nil _ _) (splits_paren hc), List.filterMap_cons]
      exact congrArg (_ :: ·) ih
  | @word blank text w ts hblank hw hstop _ ih =>
      rw [List.append_assoc, scanFrom_blank hblank,
        Regex.scanFrom_found hw.nonempty (splits_word hw.nonempty hw.chars hstop),
        List.filterMap_cons]
      change String.ofList w.toList :: _ = _
      rw [String.ofList_toList]
      exact congrArg (w :: ·) ih

theorem dropWhile_blank {blank : List Char} (h : ∀ c ∈ blank, T.isSpace c = true)
    (hstop : ∀ c ∈ text.head?, T.isSpace c = false) : (blank ++ text).dropWhile T.isSpace = text := by
  rw [List.dropWhile_append_of_pos h]
  cases text with
  | nil => rfl
  | cons c text => rw [List.dropWhile_cons_of_neg (by simp [hstop c rfl])]

theorem rdropWhile_after {pre : List Char} {c : Char} (h : T.isSpace c = false) :
    (pre ++ c :: text).rdropWhile T.isSpace = pre ++ c :: text.rdropWhile T.isSpace := by
  induction text using List.reverseRecOn with
  | nil => rw [List.rdropWhile_concat_neg _ _ _ (by simp [h]), List.rdropWhile_nil]
  | append_singleton text d ih =>
      rw [← List.cons_append, ← List.append_assoc]
      by_cases hd : T.isSpace d = true
      · rw [List.rdropWhile_concat_pos _ _ _ hd, List.rdropWhile_concat_pos _ _ _ hd, ih]
      · rw [List.rdropWhile_concat_neg _ _ _ hd, List.rdropWhile_concat_neg _ _ _ hd]
        simp

theorem isSpace_word {w : String} (h : IsWord T w) : ∀ c ∈ w.toList, T.isSpace c = false := by
  intro c hc
  have hchar := h.chars c hc
  simp only [isWordChar, Bool.and_eq_true] at hchar
  simpa using hchar.1.1

theorem spells_dropWhile (h : Spells T ts text) : Spells T ts (text.dropWhile T.isSpace) := by
  have hnil : ∀ c ∈ ([] : List Char), T.isSpace c = true := by simp
  cases h with
  | nil hblank =>
      rw [List.dropWhile_eq_nil_iff.mpr hblank]
      exact .nil hnil
  | @paren blank text c ts hblank hc htext =>
      have hstop : ∀ d ∈ (c :: text).head?, T.isSpace d = false := by
        rintro d hd
        cases hd
        exact isSpace_paren hc
      rw [dropWhile_blank hblank hstop]
      exact .paren hnil hc htext
  | @word blank text w ts hblank hw hstop htext =>
      have hhead : ∀ d ∈ (w.toList ++ text).head?, T.isSpace d = false := by
        intro d hd
        obtain ⟨c, cs, hcs⟩ := List.exists_cons_of_ne_nil hw.nonempty
        rw [hcs] at hd
        cases hd
        exact isSpace_word hw _ (by simp [hcs])
      rw [List.append_assoc, dropWhile_blank hblank hhead]
      exact .word hnil hw hstop htext

theorem spells_rdropWhile (h : Spells T ts text) : Spells T ts (text.rdropWhile T.isSpace) := by
  induction h with
  | nil hblank =>
      rw [List.rdropWhile_eq_nil_iff.mpr hblank]
      exact .nil (by simp)
  | paren hblank hc _ ih =>
      rw [rdropWhile_after (isSpace_paren hc)]
      exact .paren hblank hc ih
  | @word blank text w ts hblank hw hstop _ ih =>
      obtain ⟨cs, c, hcs⟩ := (List.eq_nil_or_concat' w.toList).resolve_left hw.nonempty
      have hspace := isSpace_word hw c (by simp [hcs])
      have hsplit : (blank ++ w.toList ++ text).rdropWhile T.isSpace =
          blank ++ w.toList ++ text.rdropWhile T.isSpace := by
        rw [hcs, ← List.append_assoc, List.append_assoc, List.singleton_append,
          rdropWhile_after hspace, List.append_assoc (blank ++ cs), List.singleton_append]
      rw [hsplit]
      refine .word hblank hw (fun d hd => hstop d ?_) ih
      obtain ⟨after, hafter⟩ := List.rdropWhile_prefix T.isSpace (l := text)
      rw [← hafter, List.head?_append, Option.mem_def.mp hd]
      rfl

theorem tokens_spells {condition : String} (h : Spells T ts condition.toList) :
    tokens T condition = ts := by
  rw [tokens, CharTable.strip, String.toList_ofList]
  exact scanFrom_spells (spells_rdropWhile (spells_dropWhile h))

end Tokens

theorem evaluate_rendering {c : ConditionTree} {ts : List String} {condition : String}
    (hkeys : ∀ name ∈ results.keys, IsIdentifier T name) (hrender : Renders T .or c ts)
    (htext : Spells T ts condition.toList) :
    evaluateCondition T results condition = true ↔ Holds T results c := by
  obtain ⟨val, hval, hparsed⟩ := parsed_renders hkeys hrender
  have hout : out (parseOr T results ts) = (val, []) := by
    have hrest := hparsed false [] (by simp)
    rw [List.append_nil, Bool.false_or] at hrest
    rw [parseOr_out, hrest]
    exact orLoop_stop (by simp)
  rw [evaluateCondition, tokens_spells htext, ← hval]
  exact iff_of_eq (congrArg (· = true) (Prod.mk.inj hout).1)

section Example

def selectionNotFilter : DetectionResults :=
  ⟨[("selection", true), ("filter_main", false), ("filter_optional", true)], by decide⟩

theorem filtered_selection_evaluated :
    evaluateCondition CharTable.ascii selectionNotFilter "selection AND not all of filter_*" = true ↔
      Holds CharTable.ascii selectionNotFilter (.and (.detection "selection")
        (.not (.quantified .all (.pattern "filter_*")))) := by
  have hkeys : ∀ name ∈ selectionNotFilter.keys, IsIdentifier CharTable.ascii name := by
    decide +kernel
  have hrender : Renders CharTable.ascii .or (.and (.detection "selection")
      (.not (.quantified .all (.pattern "filter_*")))) (["selection"] ++
        "AND" :: ["not", "all", "of", "filter_*"]) := by
    refine .conjunction (.and (by decide +kernel) (.unary (.detection (by decide +kernel))) (.unary ?_))
    exact .not (by decide +kernel)
      (.quantified (by decide +kernel) (by decide +kernel) (.pattern (by decide +kernel)))
  have hword : ∀ {w : String} {ts : List String} {text : List Char}, IsWord CharTable.ascii w →
      (∀ c ∈ text.head?, isWordChar CharTable.ascii c = false) → Spells CharTable.ascii ts text →
      Spells CharTable.ascii (w :: ts) ([' '] ++ w.toList ++ text) :=
    fun hw hstop htext => .word (by decide) hw hstop htext
  have hrest : Spells CharTable.ascii ["AND", "not", "all", "of", "filter_*"]
      " AND not all of filter_*".toList :=
    hword (by decide) (by decide) <| hword (by decide) (by decide) <|
      hword (by decide) (by decide) <| hword (by decide) (by decide) <|
      hword (by decide) (by decide) (.nil (by decide))
  have htext : Spells CharTable.ascii (["selection"] ++ "AND" :: ["not", "all", "of", "filter_*"])
      ([] ++ "selection".toList ++ " AND not all of filter_*".toList) :=
    .word (by decide) (by decide) (by decide) hrest
  exact evaluate_rendering CharTable.ascii selectionNotFilter hkeys hrender htext

end Example

end SigmaCondition

end BTagent
