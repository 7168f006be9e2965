import BTagent.Frontend.ScalarText

namespace BTagent

namespace PlaybookGraph

def FieldKey (key : Line) : Prop :=
  key ≠ [] ∧ (∀ c ∈ key, c ≠ ':' ∧ c ≠ '#' ∧ c ≠ '-' ∧ isSpace c = false) ∧
    key ≠ "trigger".toList ∧ key ≠ "steps".toList

instance : DecidablePred FieldKey := fun _ => inferInstanceAs (Decidable (_ ∧ _))

section Split
variable {key rest : Line}

theorem takeWhile_colon (h : ':' ∉ key) (rest : Line) :
    (key ++ ':' :: rest).takeWhile (fun c => c ≠ ':') = key := by
  rw [List.takeWhile_append_of_pos]
  · simp
  · intro c hc
    simp only [ne_eq, decide_eq_true_eq]
    exact fun hcolon => h (hcolon ▸ hc)

theorem dropWhile_colon (h : ':' ∉ key) (rest : Line) :
    (key ++ ':' :: rest).dropWhile (fun c => c ≠ ':') = ':' :: rest := by
  rw [List.dropWhile_append_of_pos]
  · simp
  · intro c hc
    simp only [ne_eq, decide_eq_true_eq]
    exact fun hcolon => h (hcolon ▸ hc)

theorem splitColon_key (h : ':' ∉ key) (hne : key ≠ []) (rest : Line) :
    splitColon (key ++ ':' :: rest) = some (trim key, readValue rest) := by
  simp only [splitColon, takeWhile_colon h, dropWhile_colon h]
  rw [if_neg (by simpa using hne), readValue]

theorem removeFirst_absent (h : '-' ∉ key) : removeFirst ['-', ' '] key = key := by
  induction key with
  | nil => rfl
  | cons c cs ih =>
      simp only [List.mem_cons, not_or] at h
      have hprefix : (['-', ' '].isPrefixOf (c :: cs)) = false := by
        simp [List.isPrefixOf, h.1]
      rw [removeFirst, hprefix, if_neg Bool.false_ne_true, ih h.2]

end Split

theorem indent_blank (level : ℕ) : ∀ c ∈ indent level, isSpace c = true := by
  intro c hc
  rw [indent, List.mem_replicate] at hc
  rw [hc.2]
  exact isSpace_blank

theorem trim_line (level : ℕ) {c : Char} (hc : isSpace c = false) (cs rest : Line) :
    trim (indent level ++ c :: cs ++ ':' :: rest) =
      c :: cs ++ ':' :: rest.rdropWhile isSpace := by
  have hcolon : isSpace ':' = false := by decide
  rw [List.append_assoc, List.cons_append, trim, Lines.trim_append_cons (indent_blank level) hc,
    Lines.rdropWhile_append_solid hcolon, List.cons_append]

theorem readValue_rdropWhile (rest : Line) :
    readValue (rest.rdropWhile isSpace) = readValue rest := by
  rw [readValue, trim, Lines.trim_rdropWhile]
  rfl

theorem eq_key_of_line {key word : Line} (hkey : ':' ∉ key) (hword : ':' ∉ word) {rest : Line}
    (h : key ++ ':' :: rest = word ++ [':']) : key = word := by
  have htake := congrArg (List.takeWhile fun c => c ≠ ':') h
  rwa [takeWhile_colon hkey, takeWhile_colon hword] at htake

section Read
variable {s : ParseState} {step : ParsedStep}

theorem parseLine_field (hphase : s.phase = .steps) (hcurrent : s.currentStep = some step)
    {key : Line} (hkey : FieldKey key) (level : ℕ) (rest : Line) :
    parseLine s (indent level ++ key ++ ':' :: rest) =
      { s with currentStep := some (assign step key (readValue rest)) } := by
  obtain ⟨hne, hchars, htrigger, hsteps⟩ := hkey
  have hcolon : ':' ∉ key := fun h => (hchars _ h).1 rfl
  have hdash : '-' ∉ key := fun h => (hchars _ h).2.2.1 rfl
  have htrim_key : trim key = key := trim_solid fun c hc => (hchars c hc).2.2.2
  obtain ⟨c, cs, rfl⟩ := List.exists_cons_of_ne_nil hne
  obtain ⟨-, hhash, hminus, hsolid⟩ := hchars c List.mem_cons_self
  have htrim := trim_line level hsolid cs rest
  have hnot_trigger : c :: cs ++ ':' :: rest.rdropWhile isSpace ≠ "trigger:".toList :=
    fun h => htrigger (eq_key_of_line hcolon (by decide) h)
  have hnot_steps : c :: cs ++ ':' :: rest.rdropWhile isSpace ≠ "steps:".toList :=
    fun h => hsteps (eq_key_of_line hcolon (by decide) h)
  have hnot_id : ("- id:".toList.isPrefixOf
      (c :: cs ++ ':' :: rest.rdropWhile isSpace)) = false := by
    simp [List.isPrefixOf, Ne.symm hminus]
  have hsplit := splitColon_key hcolon hne (rest.rdropWhile isSpace)
  rw [htrim_key, readValue_rdropWhile] at hsplit
  simp only [parseLine, htrim]
  rw [if_neg (by simp [hhash]), if_neg hnot_trigger, if_neg hnot_steps, hphase]
  simp only [hnot_id, hcurrent, hsplit, removeFirst_absent hdash, Bool.false_eq_true, if_false]

theorem parseLine_id (hphase : s.phase = .steps) (rest : Line) :
    parseLine s (indent 1 ++ "- id: ".toList ++ rest) =
      { s with steps := flushed s
               currentStep := some { id := some (String.ofList (readValue rest)) } } := by
  have hline : indent 1 ++ "- id: ".toList ++ rest =
      indent 1 ++ '-' :: "- id".toList.tail ++ ':' :: ' ' :: rest := by
    simp [List.append_assoc]
  have htrim := trim_line 1 (c := '-') (by decide) "- id".toList.tail (' ' :: rest)
  have hread : readValue (' ' :: rest) = readValue rest := by
    rw [readValue, trim, Lines.trim_cons_blank isSpace_blank]
    rfl
  have hdash : '-' :: "- id".toList.tail ++ ':' :: (' ' :: rest).rdropWhile isSpace =
      "- id:".toList ++ (' ' :: rest).rdropWhile isSpace := rfl
  rw [hdash] at htrim
  have hid : "- id:".toList.isPrefixOf ("- id:".toList ++ (' ' :: rest).rdropWhile isSpace) =
      true := List.isPrefixOf_iff_prefix.mpr (List.prefix_append _ _)
  have hdrop : ("- id:".toList ++ (' ' :: rest).rdropWhile isSpace).drop 5 =
      (' ' :: rest).rdropWhile isSpace := rfl
  have hvalue : unquote (trim ((' ' :: rest).rdropWhile isSpace)) = readValue rest := by
    rw [← hread, ← readValue_rdropWhile (' ' :: rest)]
    rfl
  simp only [parseLine, hline, htrim]
  rw [if_neg (by simp), if_neg (by simp), if_neg (by simp), hphase]
  simp only [hid, hdrop, hvalue, if_true]

theorem parseLine_blank (s : ParseState) : parseLine s [] = s := by
  have htrim : trim [] = [] := rfl
  rw [parseLine, htrim, if_pos (Or.inl rfl)]

theorem assign_bracket (step : ParsedStep) (key value : Line) :
    assign step ('[' :: key) value = step := by
  simp [assign]

theorem splitColon_branch (value : Line) :
    splitColon ('-' :: (" [".toList ++ value)) = none ∨
      ∃ key read, splitColon ('-' :: (" [".toList ++ value)) = some (['-', ' '] ++ '[' :: key, read) := by
  have htake : ('-' :: (" [".toList ++ value)).takeWhile (fun c => c ≠ ':') =
      ['-', ' '] ++ '[' :: value.takeWhile (fun c => c ≠ ':') := by
    simp
  have hdrop : ('-' :: (" [".toList ++ value)).dropWhile (fun c => c ≠ ':') =
      value.dropWhile (fun c => c ≠ ':') := by
    simp
  have hopen : isSpace '[' = false := by decide
  have hdash : isSpace '-' = false := by decide
  have htrim (key : Line) : trim (['-', ' '] ++ '[' :: key) =
      ['-', ' '] ++ '[' :: key.rdropWhile isSpace := by
    rw [trim, Lines.trim, List.cons_append, List.dropWhile_cons_of_neg (by simp [hdash]),
      ← List.cons_append, Lines.rdropWhile_append_solid hopen]
  simp only [splitColon, htake, hdrop, htrim]
  cases value.dropWhile (fun c => c ≠ ':') with
  | nil => exact Or.inl rfl
  | cons c cs => exact Or.inr ⟨_, _, rfl⟩

theorem parseLine_branch (hphase : s.phase = .steps) (hcurrent : s.currentStep = some step)
    (value : Line) : parseLine s (indent 3 ++ "- [".toList ++ value ++ [']']) = s := by
  have hline : indent 3 ++ "- [".toList ++ value ++ [']'] =
      indent 3 ++ '-' :: (" [".toList ++ value ++ [']']) := by
    simp [List.append_assoc]
  have hdash : isSpace '-' = false := by decide
  have hclose : isSpace ']' = false := by decide
  have htrim := Lines.trim_append_cons (indent_blank 3) hdash (" [".toList ++ value ++ [']'])
  rw [List.rdropWhile_concat_neg isSpace _ ']' (by simp [hclose])] at htrim
  have hid : "- id:".toList.isPrefixOf ('-' :: (" [".toList ++ value ++ [']'])) = false := by
    simp [List.isPrefixOf]
  simp only [parseLine, hline, trim, htrim]
  rw [if_neg (by simp), if_neg (by simp), if_neg (by simp), hphase]
  simp only [hid, hcurrent, Bool.false_eq_true, if_false]
  have hsplit := splitColon_branch (value ++ [']'])
  rw [← List.append_assoc] at hsplit
  rcases hsplit with hnone | ⟨key, read, hsome⟩
  · rw [hnone]
  · have hremove : removeFirst ['-', ' '] (['-', ' '] ++ '[' :: key) = '[' :: key := rfl
    simp only [hsome, hremove, assign_bracket, ← hcurrent]
    rw [← hphase]

end Read

-- The texts of a parsed step that reach its node hold no line end.
structure OneLine (step : ParsedStep) : Prop where
  id : ∀ t ∈ step.id, '\n' ∉ t.toList
  name : ∀ t ∈ step.name, '\n' ∉ t.toList
  toolName : ∀ t ∈ step.toolName, '\n' ∉ t.toList
  condition : ∀ t ∈ step.condition, '\n' ∉ t.toList
  prompt : ∀ t ∈ step.prompt, '\n' ∉ t.toList
  requiredRole : ∀ t ∈ step.requiredRole, '\n' ∉ t.toList

section OneLine
variable {s : ParseState} {step : ParsedStep}

theorem line_ofList {l : Line} (h : '\n' ∉ l) : ∀ t ∈ some (String.ofList l), '\n' ∉ t.toList := by
  rintro t ⟨⟩
  rwa [String.toList_ofList]

theorem oneLine_ite {c : Prop} [Decidable c] {other : ParsedStep} (h : OneLine step)
    (hother : OneLine other) : OneLine (if c then step else other) := by
  split
  · exact h
  · exact hother

theorem oneLine_assign (h : OneLine step) {key value : Line} (hvalue : '\n' ∉ value) :
    OneLine (assign step key value) := by
  have htext := line_ofList hvalue
  obtain ⟨hid, hname, htool, hcondition, hprompt, hrole⟩ := h
  unfold assign
  dsimp only
  repeat' apply oneLine_ite
  all_goals constructor <;> assumption

theorem line_readValue {l : Line} (h : '\n' ∉ l) : '\n' ∉ readValue l := fun hmem =>
  h (mem_of_mem_trim (mem_of_mem_unquote hmem))

theorem line_splitColon {l : Line} {kv : Line × Line} (hl : '\n' ∉ l)
    (h : splitColon l = some kv) : '\n' ∉ kv.2 := by
  unfold splitColon at h
  dsimp only at h
  split at h
  · rename_i c rest hdrop
    split_ifs at h
    cases h
    have hsuffix : rest ⊆ l := fun c hc => (List.dropWhile_suffix _).subset
      (hdrop ▸ List.mem_cons_of_mem _ hc)
    exact line_readValue fun hmem => hl (hsuffix hmem)
  · cases h

def AllOneLine (s : ParseState) : Prop := ∀ step ∈ s.steps ++ s.currentStep.toList, OneLine step

theorem oneLine_flushed (h : AllOneLine s) : ∀ step ∈ flushed s, OneLine step := by
  intro step hstep
  unfold flushed at hstep
  split at hstep
  · rename_i current hcurrent
    split at hstep
    · exact h step (by simpa [hcurrent] using hstep)
    · exact h step (List.mem_append_left _ hstep)
  · exact h step (List.mem_append_left _ hstep)

theorem allOneLine_parseLine (h : AllOneLine s) {line : Line} (hline : '\n' ∉ line) :
    AllOneLine (parseLine s line) := by
  have htrim : '\n' ∉ trim line := fun hmem => hline (mem_of_mem_trim hmem)
  unfold parseLine
  dsimp only
  split
  · exact h
  split
  · exact h
  split
  · exact h
  split
  · split <;> exact h
  · split <;> exact h
  split
  · have hid : '\n' ∉ unquote (trim ((trim line).drop 5)) :=
      line_readValue fun hmem => htrim (List.mem_of_mem_drop hmem)
    intro step hstep
    simp only [Option.toList_some, List.mem_append, List.mem_singleton] at hstep
    rcases hstep with hstep | rfl
    · exact oneLine_flushed h step hstep
    · constructor <;> first | exact line_ofList hid | exact fun t ht => absurd ht (Option.not_mem_none t)
  split
  · rename_i current hcurrent
    split
    · rename_i kv hsplit
      intro step hstep
      simp only [Option.toList_some, List.mem_append, List.mem_singleton] at hstep
      rcases hstep with hstep | rfl
      · exact h step (List.mem_append_left _ hstep)
      · exact oneLine_assign (h current (by simp [hcurrent])) (line_splitColon htrim hsplit)
    · exact h
  · exact h

theorem oneLine_parseLines {lines : List Line} (h : ∀ line ∈ lines, '\n' ∉ line) :
    ∀ step ∈ flushed (parseLines lines), OneLine step := by
  apply oneLine_flushed
  have hfold : ∀ (ls : List Line) (s : ParseState), (∀ line ∈ ls, '\n' ∉ line) → AllOneLine s →
      AllOneLine (ls.foldl parseLine s) := by
    intro ls
    induction ls with
    | nil => exact fun s _ hs => hs
    | cons line ls ih =>
        intro s hls hs
        exact ih _ (fun l hl => hls l (List.mem_cons_of_mem _ hl))
          (allOneLine_parseLine hs (hls line List.mem_cons_self))
  exact hfold lines {} h (by simp [AllOneLine])

end OneLine

end PlaybookGraph

end BTagent
