import BTagent.Frontend.StepLines

namespace BTagent

namespace PlaybookGraph

variable (g : PlaybookGraph) (n : PlaybookNode)

def optionalText (value : String) : Option String :=
  if value = "" then none else some (readText value)

def readTarget (edge : Option PlaybookEdge) : Option String :=
  edge.map fun e => readText e.target

def readStep : ParsedStep :=
  let out := g.outEdges n.id
  let step : ParsedStep :=
    { id := some (readText n.id), type := some n.data.stepType
      name := some (readText n.data.label) }
  match n.data with
  | .action _ toolName _ timeoutSeconds onFailure =>
      { step with
        toolName := optionalText toolName
        timeoutSeconds :=
          if timeoutSeconds ≠ 0 ∧ timeoutSeconds ≠ 300 then some timeoutSeconds else none
        onFailure := if onFailure ≠ "" ∧ onFailure ≠ "abort" then some onFailure else none
        nextStep := readTarget out.head? }
  | .decision _ condition =>
      { step with
        condition := optionalText condition
        trueBranch := readTarget (handleEdge out "yes")
        falseBranch := readTarget (handleEdge out "no") }
  | .hitlGate _ prompt timeoutSeconds requiredRole =>
      { step with
        prompt := optionalText prompt
        timeoutSeconds := if timeoutSeconds ≠ 0 then some timeoutSeconds else none
        requiredRole := optionalText requiredRole
        nextStep := readTarget out.head? }
  | .parallelFork .. => { step with branches := if out = [] then none else some "" }
  | .endNode _ | .trigger .. => step

def onStep (s : ParseState) (step : ParsedStep) : ParseState :=
  { s with currentStep := some step }

section Fields
variable {s : ParseState} {step : ParsedStep} {key : String}

theorem parseLine_keyLine (hphase : s.phase = .steps) (hkey : FieldKey key.toList) (value : Line) :
    parseLine (onStep s step) (keyLine 2 key value) =
      onStep s (assign step key.toList (readValue value)) := by
  have hread : readValue (' ' :: value) = readValue value := by
    rw [readValue, trim, Lines.trim_cons_blank isSpace_blank]
    rfl
  have hline := parseLine_field (s := onStep s step) hphase rfl hkey 2 (' ' :: value)
  rw [hread] at hline
  exact hline

theorem fold_optionalLine (hphase : s.phase = .steps) (hkey : FieldKey key.toList)
    (value : String) :
    (optionalLine key value).foldl parseLine (onStep s step) =
      onStep s (if value = "" then step else assign step key.toList (readText value).toList) := by
  unfold optionalLine
  split
  · rfl
  · rw [List.foldl_cons, List.foldl_nil, parseLine_keyLine hphase hkey, readText,
      String.toList_ofList]

theorem fold_keyLine (hphase : s.phase = .steps) (hkey : FieldKey key.toList) (c : Prop)
    [Decidable c] (value : Line) :
    (if c then [keyLine 2 key value] else []).foldl parseLine (onStep s step) =
      onStep s (if c then assign step key.toList (readValue value) else step) := by
  split
  · rw [List.foldl_cons, List.foldl_nil, parseLine_keyLine hphase hkey]
  · rfl

theorem fold_edgeLine (hphase : s.phase = .steps) (hkey : FieldKey key.toList)
    (edge : Option PlaybookEdge) :
    (edgeLine key edge).foldl parseLine (onStep s step) =
      onStep s (match readTarget edge with
        | none => step
        | some target => assign step key.toList target.toList) := by
  cases edge with
  | none => rfl
  | some e =>
      simp only [edgeLine, Option.toList_some, List.map_cons, List.map_nil, List.foldl_cons,
        List.foldl_nil, readTarget, Option.map_some]
      rw [parseLine_keyLine hphase hkey, readText, String.toList_ofList]

end Fields

section Number

theorem digit_range {c : Char} (h : c.isDigit = true) : 48 ≤ c.toNat ∧ c.toNat ≤ 57 := by
  simp only [Char.isDigit, Bool.and_eq_true, decide_eq_true_eq, ge_iff_le,
    UInt32.le_iff_toNat_le] at h
  exact h

theorem digit_solid {c : Char} (h : c.isDigit = true) : isSpace c = false := by
  have hrange := digit_range h
  simp only [isSpace, decide_eq_false_iff_not, List.mem_cons, List.not_mem_nil, or_false]
  omega

theorem digit_bare {c : Char} (h : c.isDigit = true) : isQuote c = false := by
  simp only [isQuote, decide_eq_false_iff_not, not_or]
  constructor <;> rintro rfl <;> simp [Char.isDigit] at h

theorem digitsValue_toDigits (n : ℕ) : digitsValue (Nat.toDigits 10 n) = n := by
  have hvalue := Nat.ofDigitChars_ten_toDigits (n := n)
  rw [Nat.ofDigitChars_eq_foldl] at hvalue
  simp only [Nat.mul_comm 10] at hvalue
  exact hvalue

theorem isDigit_toDigits {n : ℕ} {c : Char} (h : c ∈ Nat.toDigits 10 n) : c.isDigit = true :=
  Nat.isDigit_of_mem_toDigits (by decide) (by decide) h

theorem toList_toString (n : ℤ) :
    (toString n).toList =
      if n < 0 then '-' :: Nat.toDigits 10 n.natAbs else Nat.toDigits 10 n.natAbs := by
  rw [Int.toString_eq_repr]
  cases n with
  | ofNat m =>
      rw [if_neg (by simp)]
      exact Nat.toList_repr
  | negSucc m =>
      rw [if_pos (Int.negSucc_lt_zero m)]
      simp [Int.repr]

theorem parseInt_digits {cs : Line} (hne : cs ≠ []) (h : ∀ c ∈ cs, c.isDigit = true) :
    parseInt cs = some (digitsValue cs : ℤ) ∧
      parseInt ('-' :: cs) = some (-digitsValue cs : ℤ) := by
  have htake : cs.takeWhile Char.isDigit = cs := List.takeWhile_eq_self_iff.mpr h
  have hdash : isSpace '-' = false := by decide
  obtain ⟨c, ds, rfl⟩ := List.exists_cons_of_ne_nil hne
  have hc := h c List.mem_cons_self
  have hspace := digit_solid hc
  have hminus : c ≠ '-' := by
    rintro rfl
    simp [Char.isDigit] at hc
  have hplus : c ≠ '+' := by
    rintro rfl
    simp [Char.isDigit] at hc
  constructor
  · unfold parseInt
    rw [List.dropWhile_cons_of_neg (by simp [hspace])]
    dsimp only
    split
    · simp_all
    · simp_all
    · simp [htake]
  · unfold parseInt
    rw [List.dropWhile_cons_of_neg (by simp [hdash])]
    simp [htake]

theorem toString_chars (n : ℤ) : ∀ c ∈ (toString n).toList, isSpace c = false ∧ isQuote c = false := by
  have hdash : isSpace '-' = false ∧ isQuote '-' = false := by decide
  have hdigit : ∀ c ∈ Nat.toDigits 10 n.natAbs, isSpace c = false ∧ isQuote c = false :=
    fun c hc => ⟨digit_solid (isDigit_toDigits hc), digit_bare (isDigit_toDigits hc)⟩
  intro c hc
  rw [toList_toString] at hc
  split at hc
  · rcases List.mem_cons.mp hc with rfl | hrest
    · exact hdash
    · exact hdigit c hrest
  · exact hdigit c hc

theorem parseInt_toString (n : ℤ) : parseInt (readValue (toString n).toList) = some n := by
  have hread : readValue (toString n).toList = (toString n).toList := by
    rw [readValue, trim_solid fun c hc => (toString_chars n c hc).1,
      unquote_bare fun c hc => (toString_chars n c hc).2]
  have hparse := parseInt_digits Nat.toDigits_ne_nil fun c hc => isDigit_toDigits (n := n.natAbs) hc
  rw [digitsValue_toDigits] at hparse
  rw [hread, toList_toString]
  split
  · rw [hparse.2]
    congr 1
    omega
  · rw [hparse.1]
    congr 1
    omega

theorem toString_line (n : ℤ) : '\n' ∉ (toString n).toList := by
  intro hmem
  have hspace : isSpace '\n' = true := by decide
  rw [(toString_chars n '\n' hmem).1] at hspace
  exact Bool.false_ne_true hspace

end Number

theorem assign_timeout (step : ParsedStep) (n : ℤ) :
    assign step "timeout_seconds".toList (readValue (toString n).toList) =
      { step with timeoutSeconds := some (if n ≠ 0 then n else 300) } := by
  rw [assign, if_pos rfl, parseInt_toString]
  split_ifs with hn
  · simp [Option.filter, hn]
  · simp [Option.filter, hn]

-- A step whose data hold nothing that the format has no place for.
def Writable (data : NodeData) : Prop :=
  match data with
  | .action _ _ arguments _ onFailure =>
      arguments = .object [] ∧ onFailure ∈ ["skip", "abort", "retry"]
  | .parallelFork _ _ branchLabels => branchLabels = []
  | .trigger .. => False
  | _ => True

def baseStep : ParsedStep :=
  { id := some (readText n.id), type := some n.data.stepType
    name := some (readText n.data.label) }

def stepTypes : List String :=
  ["trigger", "action", "decision", "hitl_gate", "parallel_fork", "end"]

section Fold
variable {n} {s : ParseState}

theorem fold_branches (hphase : s.phase = .steps) (step : ParsedStep) (edges : List PlaybookEdge) :
    (edges.map fun e => indent 3 ++ "- [".toList ++ yamlEscape e.target ++ [']']).foldl parseLine
      (onStep s step) = onStep s step := by
  induction edges with
  | nil => rfl
  | cons e edges ih =>
      rw [List.map_cons, List.foldl_cons, parseLine_branch (s := onStep s step) hphase rfl, ih]

theorem fold_dataLines (hphase : s.phase = .steps) (hwritable : Writable n.data) :
    ∃ lines, g.dataLines n = some lines ∧
      lines.foldl parseLine (onStep s (baseStep n)) = onStep s (readStep g n) := by
  unfold dataLines
  cases hdata : n.data with
  | trigger label type parameters => simp [hdata, Writable] at hwritable
  | action label toolName arguments timeoutSeconds onFailure =>
      rw [hdata] at hwritable
      obtain ⟨rfl, hfailure⟩ := hwritable
      refine ⟨_, rfl, ?_⟩
      simp only [List.foldl_append, List.foldl_nil]
      rw [fold_optionalLine hphase (by decide), numberLine, fold_keyLine hphase (by decide),
        fold_keyLine hphase (by decide), fold_edgeLine hphase (by decide), assign_timeout]
      congr 1
      have hraw : String.ofList (readValue onFailure.toList) = onFailure := by
        simp only [List.mem_cons, List.not_mem_nil, or_false] at hfailure
        rcases hfailure with rfl | rfl | rfl <;> decide
      simp only [readStep, hdata, optionalText, baseStep]
      split_ifs <;> split <;> simp_all [assign]
  | decision label condition =>
      refine ⟨_, rfl, ?_⟩
      rw [List.foldl_append, List.foldl_append, fold_optionalLine hphase (by decide),
        fold_edgeLine hphase (by decide), fold_edgeLine hphase (by decide)]
      congr 1
      simp only [readStep, hdata, optionalText, baseStep]
      split_ifs <;> split <;> split <;> simp_all [assign]
  | hitlGate label prompt timeoutSeconds requiredRole =>
      refine ⟨_, rfl, ?_⟩
      simp only [List.foldl_append]
      rw [fold_optionalLine hphase (by decide), numberLine, fold_keyLine hphase (by decide),
        fold_optionalLine hphase (by decide), fold_edgeLine hphase (by decide), assign_timeout]
      congr 1
      simp only [readStep, hdata, optionalText, baseStep]
      split_ifs <;> split <;> simp_all [assign]
  | parallelFork label branchCount branchLabels =>
      rw [hdata] at hwritable
      have hlabels : branchLabels = [] := hwritable
      subst hlabels
      refine ⟨_, rfl, ?_⟩
      have hread : readValue [] = "".toList := rfl
      rw [if_pos rfl, List.append_nil]
      simp only [readStep, hdata, baseStep]
      split
      · rfl
      · rw [List.foldl_cons, headLine,
          parseLine_field (s := onStep s { id := _, type := _, name := _ }) hphase rfl (by decide)]
        refine (fold_branches hphase _ (g.outEdges n.id)).trans ?_
        congr 1
  | endNode label =>
      exact ⟨[], rfl, by simp [readStep, hdata, baseStep]⟩

theorem stepType_mem (data : NodeData) : data.stepType ∈ stepTypes := by
  cases data <;> simp [NodeData.stepType, stepTypes]

theorem readValue_stepType (data : NodeData) :
    readValue data.stepType.toList = data.stepType.toList := by
  have hwords : ∀ word ∈ stepTypes, readValue word.toList = word.toList := by decide
  exact hwords data.stepType (stepType_mem data)

theorem fold_nodeLines (hphase : s.phase = .steps) (hwritable : Writable n.data) :
    ∃ lines, g.nodeLines n = some lines ∧
      lines.foldl parseLine s = onStep { s with steps := flushed s } (readStep g n) := by
  let saved : ParseState := { s with steps := flushed s }
  have hsaved : saved.phase = .steps := hphase
  obtain ⟨lines, hlines, hfold⟩ := fold_dataLines g hsaved hwritable
  have htype := readValue_stepType n.data
  have hid : parseLine s (indent 1 ++ "- id: ".toList ++ yamlEscape n.id) =
      onStep saved { id := some (readText n.id) } := parseLine_id hphase _
  have hstep : assign (assign { id := some (readText n.id) } "type".toList n.data.stepType.toList)
      "name".toList (readText n.data.label).toList = baseStep n := by
    simp [assign, baseStep]
  have hlabel : readValue (yamlEscape n.data.label) = (readText n.data.label).toList := by
    rw [readText, String.toList_ofList]
  rw [nodeLines, hlines]
  refine ⟨_, rfl, ?_⟩
  simp only [List.cons_append, List.nil_append, List.foldl_cons, List.foldl_append, List.foldl_nil]
  rw [hid, parseLine_keyLine hsaved (by decide), htype, parseLine_keyLine hsaved (by decide),
    hlabel, hstep, hfold, parseLine_blank]

end Fold

section OneLine
variable {n} {key : String} {value : Line} {lines : List Line}

theorem line_yamlEscape {v : String} (h : '\n' ∉ v.toList) : '\n' ∉ yamlEscape v := by
  simp only [yamlEscape]
  split
  · simp only [List.mem_cons, List.mem_append, List.not_mem_nil, or_false, not_or]
    exact ⟨by decide, fun hmem => h (mem_of_mem_escaped (by decide) hmem), by decide⟩
  · exact h

theorem line_indent (level : ℕ) : '\n' ∉ indent level := by
  intro hmem
  rw [indent, List.mem_replicate] at hmem
  exact absurd hmem.2 (by decide)

theorem line_keyLine (hkey : '\n' ∉ key.toList) (hvalue : '\n' ∉ value) :
    '\n' ∉ keyLine 2 key value := by
  simp only [keyLine, List.mem_append, List.mem_cons, not_or]
  exact ⟨⟨line_indent 2, hkey⟩, by decide, by decide, hvalue⟩

theorem line_optionalLine {v : String} (hkey : '\n' ∉ key.toList) (h : '\n' ∉ v.toList) :
    ∀ line ∈ optionalLine key v, '\n' ∉ line := by
  intro line hline
  unfold optionalLine at hline
  split at hline
  · simp at hline
  · rw [List.mem_singleton.mp hline]
    exact line_keyLine hkey (line_yamlEscape h)

theorem line_ite {c : Prop} [Decidable c] {l : Line} (h : '\n' ∉ l) :
    ∀ line ∈ (if c then [l] else []), '\n' ∉ line := by
  intro line hline
  split at hline
  · rwa [List.mem_singleton.mp hline]
  · simp at hline

theorem line_edgeLine {edge : Option PlaybookEdge} (hkey : '\n' ∉ key.toList)
    (h : ∀ e ∈ edge, '\n' ∉ e.target.toList) : ∀ line ∈ edgeLine key edge, '\n' ∉ line := by
  intro line hline
  obtain ⟨e, he, rfl⟩ := List.mem_map.mp hline
  exact line_keyLine hkey (line_yamlEscape (h e (Option.mem_toList.mp he)))

def texts (data : NodeData) : List String :=
  data.label ::
    match data with
    | .action _ toolName _ _ _ => [toolName]
    | .decision _ condition => [condition]
    | .hitlGate _ prompt _ requiredRole => [prompt, requiredRole]
    | .parallelFork .. | .endNode _ | .trigger .. => []

theorem line_dataLines (hwritable : Writable n.data) (htexts : ∀ t ∈ texts n.data, '\n' ∉ t.toList)
    (htargets : ∀ e ∈ g.edges, '\n' ∉ e.target.toList) (hlines : g.dataLines n = some lines) :
    ∀ line ∈ lines, '\n' ∉ line := by
  have hout : ∀ e ∈ g.outEdges n.id, '\n' ∉ e.target.toList := fun e he =>
    htargets e (List.mem_of_mem_filter he)
  have hhead : ∀ e ∈ (g.outEdges n.id).head?, '\n' ∉ e.target.toList := fun e he =>
    hout e (List.mem_of_head? he)
  have hhandle (handle : String) :
      ∀ e ∈ handleEdge (g.outEdges n.id) handle, '\n' ∉ e.target.toList := fun e he =>
    hout e (List.mem_of_find?_eq_some he)
  have hnumber (key : String) (hkey : '\n' ∉ key.toList) (t : ℤ) : '\n' ∉ numberLine key t :=
    line_keyLine hkey (toString_line t)
  unfold dataLines at hlines
  cases hdata : n.data with
  | trigger label type parameters => simp [hdata, Writable] at hwritable
  | action label toolName arguments timeoutSeconds onFailure =>
      rw [hdata] at hwritable htexts hlines
      obtain ⟨rfl, hfailure⟩ := hwritable
      cases hlines
      intro line hline
      simp only [List.mem_append, List.not_mem_nil, or_false] at hline
      rcases hline with (((hline | hline) | hline) | hline)
      · exact line_optionalLine (by decide) (htexts toolName (by simp [texts])) line hline
      · exact line_ite (hnumber _ (by decide) timeoutSeconds) line hline
      · refine line_ite (line_keyLine (by decide) ?_) line hline
        simp only [List.mem_cons, List.not_mem_nil, or_false] at hfailure
        rcases hfailure with rfl | rfl | rfl <;> decide
      · exact line_edgeLine (by decide) hhead line hline
  | decision label condition =>
      rw [hdata] at htexts hlines
      cases hlines
      intro line hline
      simp only [List.mem_append] at hline
      rcases hline with (hline | hline) | hline
      · exact line_optionalLine (by decide) (htexts condition (by simp [texts])) line hline
      · exact line_edgeLine (by decide) (hhandle "yes") line hline
      · exact line_edgeLine (by decide) (hhandle "no") line hline
  | hitlGate label prompt timeoutSeconds requiredRole =>
      rw [hdata] at htexts hlines
      cases hlines
      intro line hline
      simp only [List.mem_append] at hline
      rcases hline with ((hline | hline) | hline) | hline
      · exact line_optionalLine (by decide) (htexts prompt (by simp [texts])) line hline
      · exact line_ite (hnumber _ (by decide) timeoutSeconds) line hline
      · exact line_optionalLine (by decide) (htexts requiredRole (by simp [texts])) line hline
      · exact line_edgeLine (by decide) hhead line hline
  | parallelFork label branchCount branchLabels =>
      rw [hdata] at hwritable htexts hlines
      have hlabels : branchLabels = [] := hwritable
      subst hlabels
      cases hlines
      intro line hline
      simp only [if_true, List.append_nil] at hline
      split at hline
      · simp at hline
      · rcases List.mem_cons.mp hline with rfl | hbranch
        · decide
        · obtain ⟨e, he, rfl⟩ := List.mem_map.mp hbranch
          have htarget := line_yamlEscape (hout e he)
          simp [htarget, line_indent]
  | endNode label =>
      rw [hdata] at hlines
      cases hlines
      simp

theorem line_nodeLines (hwritable : Writable n.data) (hid : '\n' ∉ n.id.toList)
    (htexts : ∀ t ∈ texts n.data, '\n' ∉ t.toList)
    (htargets : ∀ e ∈ g.edges, '\n' ∉ e.target.toList) (hlines : g.nodeLines n = some lines) :
    ∀ line ∈ lines, '\n' ∉ line := by
  obtain ⟨data, hdata, hsome⟩ := Option.bind_eq_some_iff.mp hlines
  have htype : ∀ word ∈ stepTypes, '\n' ∉ word.toList := by decide
  have hlabel := line_yamlEscape (htexts n.data.label (by simp [texts]))
  cases hsome
  intro line hline
  simp only [List.cons_append, List.nil_append, List.mem_cons, List.mem_append,
    List.not_mem_nil, or_false] at hline
  rcases hline with rfl | rfl | rfl | hline | rfl
  · have hescaped := line_yamlEscape hid
    simp [hescaped, line_indent]
  · exact line_keyLine (by decide) (htype _ (stepType_mem n.data))
  · exact line_keyLine (by decide) hlabel
  · exact line_dataLines g hwritable htexts htargets hdata line hline
  · exact List.not_mem_nil

end OneLine

end PlaybookGraph

end BTagent
