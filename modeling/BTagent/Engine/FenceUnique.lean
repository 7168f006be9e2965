import BTagent.Engine.PromptFence

namespace BTagent

namespace PromptFence
open Regex

def openTag (tag : String) : List Char := '<' :: (tag.toList ++ ['>'])

def closeTag (tag : String) : List Char := '<' :: '/' :: (tag.toList ++ ['>'])

inductive FenceError where
  | unknownTag (tag : String)

variable (T : CharTable)

def fenced (tag : String) (body : List Char) : List Char :=
  openTag tag ++ ('\n' :: (body ++ ('\n' :: closeTag tag)))

def wrapFenced (text tag : String) : Except FenceError String :=
  if tag ∉ TAG_NAMES then .error (.unknownTag tag)
  else .ok (String.ofList (fenced tag (neutralize T text.toList)))

-- The tags of a text are the opening one at its start and the closing one at its end.
def OnlyFence (tag : String) (out : List Char) : Prop :=
  (IsTag T (openTag tag) ∧ openTag tag <+: out) ∧ (IsTag T (closeTag tag) ∧ closeTag tag <:+ out) ∧
    ∀ before w after, out = before ++ (w ++ after) → IsTag T w →
      (before = [] ∧ w = openTag tag) ∨ (w = closeTag tag ∧ after = [])

-- The text ends in a tag that lacks only its `>`.
def OpenEnded (text : List Char) : Prop := ∃ u, u <:+ text ∧ IsTag T (u ++ ['>'])

structure Fences (text tag : String) : Prop where
  unique : ∃ out, wrapFenced T text tag = .ok out ∧ OnlyFence T tag out.toList
  idempotent : neutralizeSentinels T (neutralizeSentinels T text) = neutralizeSentinels T text
  clean : ∀ w, IsTag T w → ¬ w <:+: (neutralizeSentinels T text).toList

variable {T} {tag : String} {text body u w a b : List Char} {c : Char}

theorem sub_plain (h : ∀ w, IsTag T w → ¬ w <:+: text) : neutralize T text = text := by
  unfold neutralize sub
  rw [delimited.scan_plain h, List.flatMap_map]
  exact List.flatMap_singleton' text

theorem neutralize_idempotent : neutralize T (neutralize T text) = neutralize T text :=
  sub_plain fun _ hw => neutralize_no_tag hw

theorem tag_ends (hw : IsTag T w) : ∃ x, w = x ++ ['>'] ∧ '>' ∉ x := delimited.stop_last hw

theorem tag_starts (hw : IsTag T w) : ∃ x, w = '<' :: x := by
  obtain ⟨before, slash, after, word, attrs, rfl, -⟩ := hw
  exact ⟨_, rfl⟩

theorem no_tag_of_no_close (h : '>' ∉ text) : ∀ w, IsTag T w → ¬ w <:+: text := by
  intro w hw hin
  obtain ⟨x, rfl, -⟩ := tag_ends hw
  exact h (hin.subset (by simp))

theorem isTag_plain (htag : tag ∈ TAG_NAMES) {slash : List Char}
    (hslash : slash = [] ∨ slash = ['/']) : IsTag T ('<' :: (slash ++ (tag.toList ++ ['>']))) := by
  have hascii : ∀ tag ∈ TAG_NAMES, ∀ c ∈ tag.toList, c.toNat < 128 := by decide
  have hself : ∀ {l : List Char}, (∀ c ∈ l, c.toNat < 128) →
      List.Forall₂ (fun c d => T.sameLetter c d = true) l l := by
    intro l hl
    rw [List.forall₂_same]
    intro c hc
    rw [T.letter_ascii c c (hl c hc) (hl c hc), beq_self_eq_true]
  have hend : ∀ tag ∈ TAG_NAMES, tag.toList.getLast?.any
      (fun c => decide (c.toNat < 128) && (c.isAlphanum || c == '_')) = true := by decide
  refine ⟨[], slash, [], tag.toList, [], by simp, by simp, hslash, by simp,
    ⟨tag, htag, hself (hascii tag htag)⟩, ?_, by simp⟩
  obtain ⟨c, hc, hword⟩ := (Option.any_eq_true _ _).mp (hend tag htag)
  simp only [Bool.and_eq_true, decide_eq_true_eq] at hword
  have hclose : T.isWord '>' = false := (T.word_ascii _ (by decide)).trans (by decide)
  have hlast : T.isWord c = true := (T.word_ascii c hword.1).trans hword.2
  rw [AtBoundary, hc]
  simp [hlast, hclose]

theorem isTag_open (htag : tag ∈ TAG_NAMES) : IsTag T (openTag tag) :=
  isTag_plain htag (Or.inl rfl)

theorem isTag_close (htag : tag ∈ TAG_NAMES) : IsTag T (closeTag tag) :=
  isTag_plain htag (Or.inr rfl)

theorem suffix_skip {y : List Char} (ha : '<' ∉ a) (h : '<' :: y <:+ a ++ b) : '<' :: y <:+ b := by
  rcases List.suffix_or_suffix_of_suffix h (List.suffix_append a b) with hs | ⟨v, hv⟩
  · exact hs
  · cases v with
    | nil => exact hv ▸ List.suffix_refl _
    | cons c v =>
        obtain ⟨z, hz⟩ := h
        rw [← hv, ← List.append_assoc] at hz
        have hmem := List.append_cancel_right hz
        obtain ⟨rfl, -⟩ := List.cons.inj hv
        exact absurd (hmem ▸ by simp) ha

theorem tag_chars (htag : tag ∈ TAG_NAMES) : '<' ∉ tag.toList ∧ '>' ∉ tag.toList := by
  have hall : ∀ tag ∈ TAG_NAMES, '<' ∉ tag.toList ∧ '>' ∉ tag.toList := by decide
  exact hall tag htag

theorem not_word {x : Char} (hx : x.toNat < 128) (hword : (x.isAlphanum || x == '_') = false) :
    T.isWord x = false := (T.word_ascii x hx).trans hword

theorem open_end_iff (htag : tag ∈ TAG_NAMES) (hu : u ≠ []) :
    IsTag T (u ++ '\n' :: closeTag tag) ↔ IsTag T (u ++ ['>']) := by
  have hclose : closeTag tag = ('<' :: '/' :: tag.toList) ++ ['>'] := rfl
  have hgt : T.isWord '>' = false := not_word (by decide) (by decide)
  have hnl : T.isWord '\n' = false := T.isWord_newline
  constructor
  · rintro ⟨before, slash, after, word, attrs, heq, hbefore, hslash, hafter, hname, hat, hattrs⟩
    have hlt := plain_of_ascii (T := T) (c := '<') (by decide) (by decide) (by decide)
    have hhead := head_plain hlt (by decide) hbefore hslash hafter hname
    have hsplit : u ++ '\n' :: closeTag tag =
        ('<' :: (before ++ (slash ++ (after ++ word)))) ++ (attrs ++ ['>']) := by
      simpa using heq
    have hinside : ∃ v, u = ('<' :: (before ++ (slash ++ (after ++ word)))) ++ v ∧
        attrs ++ ['>'] = v ++ '\n' :: closeTag tag := by
      rcases List.append_eq_append_iff.mp hsplit with ⟨v, hv, hrest⟩ | ⟨v, hv, hrest⟩
      · cases v with
        | nil => exact ⟨[], by simpa using hv.symm, by simpa using hrest.symm⟩
        | cons c v =>
            obtain ⟨d, u, rfl⟩ := List.exists_cons_of_ne_nil hu
            have htail : before ++ (slash ++ (after ++ word)) = u ++ c :: v := (List.cons.inj hv).2
            obtain ⟨hc, hclosing⟩ := List.cons.inj hrest
            subst hc
            cases v with
            | nil =>
                have hlast := congrArg List.getLast? htail
                rw [List.getLast?_concat, ← List.append_assoc, ← List.append_assoc,
                  List.getLast?_append_of_ne_nil _ (name_ne_nil hname)] at hlast
                exact absurd (List.mem_of_getLast? hlast)
                  (not_in_name (by decide) (by decide) hname)
            | cons e v =>
                have he : '<' = e := (List.cons.inj hclosing).1
                subst he
                exact absurd (htail ▸ by simp) hhead
      · exact ⟨v, hv, hrest⟩
    obtain ⟨v, rfl, hrest⟩ := hinside
    have hv : attrs = v ++ ('\n' :: '<' :: '/' :: tag.toList) := by
      apply (List.append_left_inj ['>']).mp
      rw [hrest, hclose]
      simp
    refine ⟨before, slash, after, word, v, by simp, hbefore, hslash, hafter, hname, ?_, ?_⟩
    · rw [hv, List.append_assoc] at hat
      rw [AtBoundary, head_any hgt]
      rw [AtBoundary, List.cons_append, head_any hnl] at hat
      exact hat
    · exact fun c hc => hattrs c (by rw [hv]; exact List.mem_append_left _ hc)
  · rintro ⟨before, slash, after, word, attrs, heq, hbefore, hslash, hafter, hname, hat, hattrs⟩
    have hsplit : u = '<' :: (before ++ (slash ++ (after ++ (word ++ attrs)))) := by
      apply (List.append_left_inj ['>']).mp
      rw [heq]
      simp
    refine ⟨before, slash, after, word, attrs ++ ('\n' :: '<' :: '/' :: tag.toList), ?_, hbefore,
      hslash, hafter, hname, ?_, ?_⟩
    · rw [hsplit, hclose]
      simp
    · rw [AtBoundary, head_any hgt] at hat
      rw [AtBoundary, List.append_assoc, List.cons_append, head_any hnl]
      exact hat
    · intro c hc
      rcases List.mem_append.mp hc with h | h
      · exact hattrs c h
      · rw [bne_iff_ne]
        rintro rfl
        simp [(tag_chars htag).2] at h

theorem openEnded_neutralize : OpenEnded T (neutralize T text) ↔ OpenEnded T text := by
  constructor
  · rintro ⟨u, hu, htag⟩
    have hown := htag
    obtain ⟨before, slash, after, word, attrs, heq, hbefore, hslash, hafter, hname, hat, hattrs⟩ :=
      htag
    have hsplit : u = '<' :: ((before ++ (slash ++ (after ++ word))) ++ attrs) := by
      apply (List.append_left_inj ['>']).mp
      rw [heq]
      simp
    rw [hsplit] at hu
    obtain ⟨tail, htail, hsuffix, hnone⟩ := neutralize_suffix hu
    have hamp := plain_of_ascii (T := T) (c := '&') (by decide) (by decide) (by decide)
    have hhead := head_plain hamp (by decide) hbefore hslash hafter hname
    obtain ⟨rest, rfl, hrest⟩ := neutralize_copies hhead htail.symm
    rw [hrest] at hat
    have hopen : '>' ∉ rest := by
      intro hstop
      obtain ⟨w, hw, hpre⟩ := tag_of_head hbefore hslash hafter hname hat hstop
      exact hnone w hw hpre
    rw [sub_plain (no_tag_of_no_close hopen)] at hrest
    refine ⟨u, ?_, hown⟩
    rw [hsplit, hrest]
    exact hsuffix
  · rintro ⟨u, ⟨a, rfl⟩, htag⟩
    obtain ⟨x, hx, hfree⟩ := tag_ends htag
    have hu : '>' ∉ u := by rwa [(List.append_inj' hx rfl).1]
    refine ⟨u, ?_, htag⟩
    have hacross : ¬ Across (IsTag T) a u := by
      rintro ⟨y, z, -, hz, -, hzu, hyz⟩
      obtain ⟨v, hv, -⟩ := tag_ends hyz
      have hlast := congrArg List.getLast? hv
      rw [List.getLast?_append_of_ne_nil _ hz, List.getLast?_concat] at hlast
      exact hu (hzu.subset (List.mem_of_getLast? hlast))
    have hsplit : neutralize T (a ++ u) = neutralize T a ++ neutralize T u := by
      unfold neutralize sub
      rw [delimited.scan_append hacross, List.flatMap_append]
    rw [hsplit, sub_plain (no_tag_of_no_close hu)]
    exact List.suffix_append _ _

theorem openTag_plain (htag : tag ∈ TAG_NAMES) : '<' ∉ tag.toList ++ ['>', '\n'] := by
  simp [(tag_chars htag).1]

theorem closing_part (htag : tag ∈ TAG_NAMES) {v after : List Char} (hw : IsTag T w)
    (hv : w = u ++ v) (hne : v ≠ []) (hrest : '\n' :: closeTag tag = v ++ after) :
    v = '\n' :: closeTag tag := by
  cases after using List.reverseRecOn with
  | nil => rw [hrest, List.append_nil]
  | append_singleton after c _ =>
      have hsplit : ('\n' :: '<' :: '/' :: tag.toList) ++ ['>'] = (v ++ after) ++ [c] := by
        rw [List.append_assoc, ← hrest]
        rfl
      have hinit := (List.append_inj' hsplit rfl).1
      obtain ⟨x, hx, -⟩ := tag_ends hw
      have hlast := congrArg List.getLast? (hv.symm.trans hx)
      rw [List.getLast?_append_of_ne_nil _ hne, List.getLast?_concat] at hlast
      have hmem : '>' ∈ '\n' :: '<' :: '/' :: tag.toList := by
        rw [hinit]
        exact List.mem_append_left _ (List.mem_of_getLast? hlast)
      simp [(tag_chars htag).2] at hmem

theorem fenced_tag (htag : tag ∈ TAG_NAMES) {before after : List Char}
    (hw : IsTag T w) (hout : fenced tag (neutralize T text) = before ++ (w ++ after)) :
    (before = [] ∧ w = openTag tag) ∨ (w = closeTag tag ∧ after = []) ∨
      ∃ u, u <:+ neutralize T text ∧ u ≠ [] ∧ w = u ++ '\n' :: closeTag tag := by
  obtain ⟨rest, rfl⟩ := tag_starts hw
  cases before with
  | nil =>
      have hpre : openTag tag <+: fenced tag (neutralize T text) := List.prefix_append _ _
      have hown : '<' :: rest <+: fenced tag (neutralize T text) := by
        rw [hout]
        exact List.prefix_append _ _
      rcases List.prefix_or_prefix_of_prefix hown hpre with h | h
      · exact Or.inl ⟨rfl, delimited.prefix_unique hw (isTag_open htag) h⟩
      · exact Or.inl ⟨rfl, (delimited.prefix_unique (isTag_open htag) hw h).symm⟩
  | cons c before =>
      have hsuffix : '<' :: (rest ++ after) <:+ neutralize T text ++ '\n' :: closeTag tag := by
        apply suffix_skip (openTag_plain htag)
        refine ⟨before, ?_⟩
        have htail := (List.cons.inj hout).2
        simpa [fenced, openTag] using htail.symm
      rcases List.suffix_or_suffix_of_suffix hsuffix (List.suffix_append _ ('\n' :: closeTag tag))
        with hs | ⟨u, hu⟩
      · have hclose : '<' :: (rest ++ after) <:+ closeTag tag := by
          have hskip : '<' ∉ ['\n'] := by decide
          exact suffix_skip hskip hs
        have heq : '<' :: (rest ++ after) = closeTag tag := by
          rcases List.suffix_cons_iff.mp hclose with h | h
          · exact h
          · have hmem := h.subset List.mem_cons_self
            simp [(tag_chars htag).1] at hmem
        have hown : '<' :: rest = closeTag tag :=
          delimited.prefix_unique hw (isTag_close htag) (heq ▸ List.prefix_append _ _)
        rw [← List.cons_append, hown] at heq
        exact Or.inr (Or.inl ⟨hown, by simpa using heq⟩)
      · have hin : u <:+ neutralize T text := by
          obtain ⟨z, hz⟩ := hsuffix
          rw [← hu, ← List.append_assoc] at hz
          exact ⟨z, List.append_cancel_right hz⟩
        have hne : u ≠ [] := by
          rintro rfl
          exact absurd (List.cons.inj hu).1 (by decide)
        refine Or.inr (Or.inr ⟨u, hin, hne, ?_⟩)
        rw [← List.cons_append] at hu
        rcases List.append_eq_append_iff.mp hu with ⟨v, hv, hrest⟩ | ⟨v, hv, -⟩
        · rw [hv, closing_part htag hw hv ?_ hrest]
          rintro rfl
          rw [List.append_nil] at hv
          exact neutralize_no_tag hw (hv ▸ hin.isInfix)
        · have hsub : '<' :: rest <:+: u := ⟨[], v, by simp [hv]⟩
          exact absurd (hsub.trans hin.isInfix) (neutralize_no_tag hw)

theorem closed_of_fences {text : String} (htag : tag ∈ TAG_NAMES) (h : Fences T text tag) :
    ¬ OpenEnded T text.toList := by
  rw [← openEnded_neutralize]
  rintro ⟨u, ⟨a, hu⟩, hopen⟩
  obtain ⟨out, hwrap, -, -, hunique⟩ := h.unique
  obtain rfl : out = String.ofList (fenced tag (neutralize T text.toList)) := by
    rw [wrapFenced, if_neg (not_not.mpr htag)] at hwrap
    exact (Except.ok.inj hwrap).symm
  have hne : u ≠ [] := by
    rintro rfl
    obtain ⟨x, hx⟩ := tag_starts hopen
    exact absurd (List.cons.inj hx).1 (by decide)
  have hword := (open_end_iff htag hne).mpr hopen
  have hout : (String.ofList (fenced tag (neutralize T text.toList))).toList =
      (openTag tag ++ '\n' :: a) ++ ((u ++ '\n' :: closeTag tag) ++ []) := by
    rw [String.toList_ofList, fenced, ← hu]
    simp
  rcases hunique _ _ _ hout hword with ⟨hnil, -⟩ | ⟨hclose, -⟩
  · simp [openTag] at hnil
  · have hlen := congrArg List.length hclose
    simp only [List.length_append, List.length_cons] at hlen
    omega

theorem fence_unique_iff (T : CharTable) (text tag : String) (htag : tag ∈ TAG_NAMES) :
    Fences T text tag ↔ ¬ OpenEnded T text.toList := by
  refine ⟨closed_of_fences htag, ?_⟩
  rw [← openEnded_neutralize]
  intro hclosed
  refine ⟨⟨String.ofList (fenced tag (neutralize T text.toList)), ?_, ?_⟩, ?_, ?_⟩
  · rw [wrapFenced, if_neg (not_not.mpr htag)]
  · rw [String.toList_ofList]
    refine ⟨⟨isTag_open htag, List.prefix_append _ _⟩, ⟨isTag_close htag, ?_⟩, ?_⟩
    · exact ⟨openTag tag ++ '\n' :: (neutralize T text.toList ++ ['\n']), by simp [fenced]⟩
    · intro before w after hout hw
      rcases fenced_tag htag hw hout with h | h | ⟨u, hu, hne, rfl⟩
      · exact Or.inl h
      · exact Or.inr h
      · exact absurd ⟨u, hu, (open_end_iff htag hne).mp hw⟩ hclosed
  · simp only [neutralizeSentinels, String.toList_ofList, neutralize_idempotent]
  · intro w hw
    rw [neutralizeSentinels, String.toList_ofList]
    exact neutralize_no_tag hw

theorem fence_unique_iff_plain : Fences .ascii "a host > b" "external-data" := by
  apply (fence_unique_iff .ascii "a host > b" "external-data" (by decide)).mpr
  rintro ⟨u, hu, htag⟩
  obtain ⟨x, hx⟩ := tag_starts htag
  have hmem : '<' ∈ u ++ ['>'] := by
    rw [hx]
    exact List.mem_cons_self
  have hin : '<' ∈ "a host > b".toList := by
    rcases List.mem_append.mp hmem with h | h
    · exact hu.subset h
    · exact absurd h (by decide)
  exact absurd hin (by decide)

-- The closing fence becomes the end of a tag that the text began.
theorem closing_fence_swallowed : ¬ Fences .ascii "see <external-data" "external-data" := by
  intro h
  have hknown : "external-data" ∈ TAG_NAMES := by decide
  have hopen : IsTag .ascii ("<external-data".toList ++ ['>']) := isTag_open hknown
  exact closed_of_fences hknown h ⟨"<external-data".toList, ⟨"see ".toList, rfl⟩, hopen⟩

end PromptFence

end BTagent
