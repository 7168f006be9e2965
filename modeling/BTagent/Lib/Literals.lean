import BTagent.Lib.Quoted
import Mathlib.Data.List.Count
import Mathlib.Data.List.Forall2
import Mathlib.Order.WellFoundedSet

-- Texts of a language with literals, and templates of such texts: what the values in the holes of a
-- template can do to what a reader of the language makes of it.
namespace Literals

-- A literal ends at the mark that opened it. Where it may not hold a line end, it breaks off there.
structure Syntax where
  delimiters : List Char
  spansLines : Bool
  reserved : List (List Char)
  quote_mem : '\x22' ∈ delimiters
  slash_not_mem : '\\' ∉ delimiters
  paren_not_mem : '(' ∉ delimiters

variable {L : Syntax}

abbrev Syntax.Delimiter (L : Syntax) := {c : Char // c ∈ L.delimiters}

def Syntax.quote (L : Syntax) : L.Delimiter := ⟨'\x22', L.quote_mem⟩

inductive Reading (L : Syntax) where
  | outside
  | inside (d : L.Delimiter) (content : List Char)
  | escaping (d : L.Delimiter) (content : List Char)

inductive Mark where
  | outer (c : Char)
  | literal (content : List Char)
  | unclosed (content : List Char)
  deriving DecidableEq

def endsLine (c : Char) : Bool := c = '\n' || c = '\r'

-- What `\c` stands for in a literal.
def unescaped (L : Syntax) (c : Char) : List Char :=
  if c ∈ L.delimiters ∨ c = '\\' then [c] else ['\\', c]

def step : Reading L → Char → List Mark × Reading L
  | .outside, c =>
      if h : c ∈ L.delimiters then ([], .inside ⟨c, h⟩ []) else ([.outer c], .outside)
  | .inside d content, c =>
      if c = d.1 then ([.literal content], .outside)
      else if c = '\\' then ([], .escaping d content)
      else if endsLine c && !L.spansLines then ([.unclosed content], .outside)
      else ([], .inside d (content ++ [c]))
  | .escaping d content, c => ([], .inside d (content ++ unescaped L c))

def read (r : Reading L) : List Char → List Mark × Reading L
  | [] => ([], r)
  | c :: cs => ((step r c).1 ++ (read (step r c).2 cs).1, (read (step r c).2 cs).2)

def finish : Reading L → List Mark
  | .outside => []
  | .inside _ content => [.unclosed content]
  | .escaping _ content => [.unclosed content]

def marks (L : Syntax) (text : List Char) : List Mark :=
  (read (.outside : Reading L) text).1 ++ finish (read (.outside : Reading L) text).2

section Structure

-- A word keeps its text only where the language reserves it.
inductive Kind where
  | word (reserved : Option (List Char))
  | symbol (c : Char)
  | literal
  | unclosed
  deriving DecidableEq

def isWordChar (c : Char) : Bool := c.isAlphanum || c = '_'

def endWord (L : Syntax) (w : List Char) : List Kind :=
  if w = [] then [] else [.word (if w ∈ L.reserved then some w else none)]

def gather (L : Syntax) : List Char → List Mark → List Kind
  | w, [] => endWord L w
  | w, .outer c :: ms =>
      if isWordChar c then gather L (w ++ [c]) ms
      else endWord L w ++ (if c.isWhitespace then [] else [.symbol c]) ++ gather L [] ms
  | w, .literal _ :: ms => endWord L w ++ .literal :: gather L [] ms
  | w, .unclosed _ :: ms => endWord L w ++ .unclosed :: gather L [] ms

def tokenStructure (L : Syntax) (text : List Char) : List Kind := gather L [] (marks L text)

def Mark.blank : Mark → Mark
  | outer c => .outer c
  | literal _ => .literal []
  | unclosed _ => .unclosed []

variable {ms ms' : List Mark} {w : List Char}

theorem gather_blank : gather L w (ms.map Mark.blank) = gather L w ms := by
  induction ms generalizing w with
  | nil => rfl
  | cons m ms ih =>
      cases m with
      | outer c => simp only [List.map_cons, Mark.blank, gather, ih]
      | literal content => simp only [List.map_cons, Mark.blank, gather, ih]
      | unclosed content => simp only [List.map_cons, Mark.blank, gather, ih]

theorem gather_congr (h : ms.map Mark.blank = ms'.map Mark.blank) :
    gather L w ms = gather L w ms' :=
  calc gather L w ms = gather L w (ms.map Mark.blank) := gather_blank.symm
    _ = gather L w (ms'.map Mark.blank) := by rw [h]
    _ = gather L w ms' := gather_blank

theorem count_endWord : (endWord L w).count (.symbol '(') = 0 := by
  unfold endWord
  split_ifs <;> simp

theorem count_gather : (gather L w ms).count (.symbol '(') = ms.count (.outer '(') := by
  induction ms generalizing w with
  | nil => exact count_endWord
  | cons m ms ih =>
      cases m with
      | outer c =>
          rcases eq_or_ne c '(' with rfl | hc
          · have hword : isWordChar '(' = false := by decide
            have hspace : '('.isWhitespace = false := by decide
            simp only [gather, hword, hspace, Bool.false_eq_true, if_false, List.count_append,
              count_endWord, ih, List.count_cons_self, List.count_nil]
            omega
          · have hmark : Mark.outer c ≠ .outer '(' := fun h => hc (Mark.outer.inj h)
            have hkind : Kind.symbol c ≠ .symbol '(' := fun h => hc (Kind.symbol.inj h)
            rw [List.count_cons_of_ne hmark, gather]
            split_ifs
            · exact ih
            · rw [List.append_nil, List.count_append, count_endWord, ih, Nat.zero_add]
            · rw [List.count_append, List.count_append, count_endWord, ih,
                List.count_singleton, beq_false_of_ne hkind, if_neg Bool.false_ne_true,
                Nat.zero_add]
      | literal content => simp [gather, count_endWord, ih]
      | unclosed content => simp [gather, count_endWord, ih]

end Structure

section Reading
variable {r : Reading L} {s t : List Char} {d : L.Delimiter} {content : List Char}

theorem read_append : read r (s ++ t) =
    ((read r s).1 ++ (read (read r s).2 t).1, (read (read r s).2 t).2) := by
  induction s generalizing r with
  | nil => rfl
  | cons c s ih => simp only [List.cons_append, read, ih, List.append_assoc]

theorem delimiter_ne_slash (d : L.Delimiter) : d.1 ≠ '\\' :=
  fun h => L.slash_not_mem (h ▸ d.2)

theorem step_close : step (.inside d content) d.1 = ([.literal content], .outside) := by
  simp [step]

theorem step_slash : step (.inside d content) '\\' = ([], .escaping d content) := by
  have hne : ¬ '\\' = d.1 := (delimiter_ne_slash d).symm
  simp only [step, hne, if_false, if_true]

theorem step_plain {c : Char} (hd : c ≠ d.1) (hc : c ≠ '\\')
    (hline : L.spansLines = true ∨ endsLine c = false) :
    step (.inside d content) c = ([], .inside d (content ++ [c])) := by
  have hends : (endsLine c && !L.spansLines) = false := by
    rcases hline with h | h <;> simp [h]
  rw [step, if_neg hd, if_neg hc, hends, if_neg Bool.false_ne_true]

theorem step_escaping {c : Char} (h : c ∈ L.delimiters ∨ c = '\\') :
    step (.escaping d content) c = ([], .inside d (content ++ [c])) := by
  rw [step, unescaped, if_pos h]

theorem read_parens {n : ℕ} : read (.outside : Reading L) (List.replicate n '(') =
    (List.replicate n (.outer '('), .outside) := by
  induction n with
  | zero => rfl
  | succ n ih =>
      have hstep : step (.outside : Reading L) '(' = ([.outer '('], .outside) := by
        rw [step, dif_neg L.paren_not_mem]
      rw [List.replicate_succ, read, hstep, ih]
      rfl

theorem le_count_parens {n : ℕ} (h : (read r s).2 = .outside) :
    n ≤ (read r (s ++ (List.replicate n '(' ++ t))).1.count (.outer '(') := by
  rw [read_append, h, read_append, read_parens, List.count_append, List.count_append,
    List.count_replicate_self]
  omega

-- From everywhere a text leads out of the literal.
theorem exists_leaving (r : Reading L) : ∃ w, (read r w).2 = .outside := by
  cases r with
  | outside => exact ⟨[], rfl⟩
  | inside d content => exact ⟨[d.1], by rw [read, step_close, read]⟩
  | escaping d content => exact ⟨['\\', d.1], by
      rw [read, step_escaping (Or.inr rfl), read, step_close, read]⟩

end Reading

section Template

def isSpecial (c : Char) : Bool := c = '\\' || c = '\x22'

-- A hole between quotes has its special characters escaped.
inductive Fragment where
  | fixed (text : List Char)
  | quoted (value : List Char)
  | raw (value : List Char)

def Fragment.text : Fragment → List Char
  | fixed text => text
  | quoted value => '\x22' :: (Quoted.escape '\\' isSpecial value ++ ['\x22'])
  | raw value => value

def Fragment.value? : Fragment → Option (List Char)
  | fixed _ => none
  | quoted value => some value
  | raw value => some value

def Fragment.fill (v : List Char) : Fragment → Fragment
  | fixed text => .fixed text
  | quoted _ => .quoted v
  | raw _ => .raw v

-- The same but for the values.
inductive Fragment.Alike : Fragment → Fragment → Prop
  | fixed (text : List Char) : Alike (.fixed text) (.fixed text)
  | quoted (v w : List Char) : Alike (.quoted v) (.quoted w)
  | raw (v w : List Char) : Alike (.raw v) (.raw w)

def text (parts : List Fragment) : List Char := parts.flatMap Fragment.text

def values (parts : List Fragment) : List (List Char) := parts.filterMap Fragment.value?

def Holds (value : List Char) : Mark → Prop
  | .literal content => value <:+: content
  | _ => False

-- Each value is inside a closed literal of its own.
def Enclosed (L : Syntax) (parts : List Fragment) : Prop :=
  List.SublistForall₂ Holds (values parts) (marks L (text parts))

-- A quote opens a literal that a quote ends.
def Opens (r : Reading L) : Prop := ∃ content, step r '\x22' = ([], .inside L.quote content)

-- Every value is escaped, and the quote before it opens a literal.
def Sealed : Reading L → List Fragment → Prop
  | _, [] => True
  | r, .fixed t :: parts => Sealed (read r t).2 parts
  | r, .quoted _ :: parts => (Opens r ∧ L.spansLines = true) ∧ Sealed (.outside : Reading L) parts
  | _, .raw _ :: _ => False

variable {r : Reading L} {d : L.Delimiter} {content v : List Char} {parts parts' : List Fragment}

theorem text_cons (part : Fragment) : text (part :: parts) = part.text ++ text parts := rfl

theorem read_escape (hline : L.spansLines = true) :
    read (.inside L.quote content) (Quoted.escape '\\' isSpecial v) =
      ([], .inside L.quote (content ++ v)) := by
  induction v generalizing content with
  | nil => rw [List.append_nil]; rfl
  | cons c v ih =>
      have hnext : read (.inside L.quote (content ++ [c])) (Quoted.escape '\\' isSpecial v) =
          ([], .inside L.quote (content ++ [c] ++ v)) := ih
      rw [List.append_assoc, List.singleton_append] at hnext
      rw [Quoted.escape_cons, read_append]
      cases hc : isSpecial c with
      | true =>
          have hmem : c ∈ L.delimiters ∨ c = '\\' := by
            simp only [isSpecial, Bool.or_eq_true, decide_eq_true_eq] at hc
            rcases hc with rfl | rfl
            · exact Or.inr rfl
            · exact Or.inl L.quote_mem
          simp only [if_true, read, step_slash, step_escaping hmem, hnext, List.nil_append]
      | false =>
          simp only [isSpecial, Bool.or_eq_false_iff, decide_eq_false_iff_not] at hc
          have hplain : step (.inside L.quote content) c = ([], .inside L.quote (content ++ [c])) :=
            step_plain hc.2 hc.1 (Or.inl hline)
          simp only [Bool.false_eq_true, if_false, read, hplain, hnext, List.nil_append]

theorem read_quoted (hopen : step r '\x22' = ([], .inside L.quote content))
    (hline : L.spansLines = true) :
    read r (Fragment.quoted v).text = ([.literal (content ++ v)], .outside) := by
  have hclose : step (.inside L.quote (content ++ v)) '\x22' =
      ([.literal (content ++ v)], .outside) := step_close
  rw [Fragment.text, read, hopen, read_append, read_escape hline, read, hclose]
  rfl

theorem Sealed.alike (h : Sealed r parts) (halike : List.Forall₂ Fragment.Alike parts parts') :
    Sealed r parts' := by
  induction halike generalizing r with
  | nil => trivial
  | cons hpart _ ih =>
      cases hpart with
      | fixed text => exact ih h
      | quoted v w => exact ⟨h.1, ih h.2⟩
      | raw v w => exact h.elim

theorem Sealed.raw_not_mem (h : Sealed r parts) : Fragment.raw v ∉ parts := by
  induction parts generalizing r with
  | nil => exact List.not_mem_nil
  | cons part parts ih =>
      cases part with
      | fixed text =>
          intro hmem
          rcases List.mem_cons.mp hmem with hmem | hmem
          · cases hmem
          · exact ih h hmem
      | quoted w =>
          intro hmem
          rcases List.mem_cons.mp hmem with hmem | hmem
          · cases hmem
          · exact ih h.2 hmem
      | raw w => exact h.elim

theorem Sealed.spansLines (h : Sealed r parts) (hv : Fragment.quoted v ∈ parts) :
    L.spansLines = true := by
  induction parts generalizing r with
  | nil => cases hv
  | cons part parts ih =>
      cases part with
      | fixed text =>
          rcases List.mem_cons.mp hv with hv | hv
          · cases hv
          · exact ih h hv
      | quoted w => exact h.1.2
      | raw w => exact h.elim

theorem Sealed.read_alike (h : Sealed r parts) (halike : List.Forall₂ Fragment.Alike parts parts') :
    (read r (text parts)).1.map Mark.blank = (read r (text parts')).1.map Mark.blank ∧
      (read r (text parts)).2 = (read r (text parts')).2 := by
  induction halike generalizing r with
  | nil => exact ⟨rfl, rfl⟩
  | cons hpart _ ih =>
      simp only [text_cons, read_append, List.map_append]
      cases hpart with
      | fixed text =>
          obtain ⟨hmarks, hend⟩ := ih h
          exact ⟨congrArg _ hmarks, hend⟩
      | quoted v w =>
          obtain ⟨⟨content, hopen⟩, hline⟩ := h.1
          rw [read_quoted hopen hline, read_quoted hopen hline]
          obtain ⟨hmarks, hend⟩ := ih h.2
          exact ⟨congrArg _ hmarks, hend⟩
      | raw v w => exact h.elim

theorem sublistForall_append {ms ms' : List Mark} {vs : List (List Char)}
    (h : List.SublistForall₂ Holds vs ms') : List.SublistForall₂ Holds vs (ms ++ ms') := by
  induction ms with
  | nil => exact h
  | cons m ms ih => exact .cons_right ih

theorem Sealed.enclosed {ms : List Mark} (h : Sealed r parts) :
    List.SublistForall₂ Holds (values parts) ((read r (text parts)).1 ++ ms) := by
  induction parts generalizing r with
  | nil => exact .nil
  | cons part parts ih =>
      rw [text_cons, read_append]
      cases part with
      | fixed text =>
          rw [List.append_assoc]
          exact sublistForall_append (ih h)
      | quoted v =>
          obtain ⟨⟨content, hopen⟩, hline⟩ := h.1
          rw [read_quoted hopen hline]
          exact .cons (List.suffix_append content v).isInfix (ih h.2)
      | raw v => exact h.elim

-- Inside a literal that no quote ends, or that a line end breaks off, a value leads out of it.
theorem exists_leaving_inside (h : d ≠ L.quote ∨ L.spansLines = false) :
    ∃ w, (read (.inside d content) (Quoted.escape '\\' isSpecial w)).2 = .outside := by
  rcases eq_or_ne d L.quote with rfl | hd
  · have hline := h.resolve_left fun hne => hne rfl
    refine ⟨['\n'], ?_⟩
    have hstep : step (.inside L.quote content) '\n' = ([.unclosed content], .outside) := by
      have hquote : ¬ '\n' = L.quote.1 := by
        change ¬ '\n' = '\x22'
        decide
      have hends : (endsLine '\n' && !L.spansLines) = true := by
        rw [hline]
        decide
      rw [step, if_neg hquote, if_neg (by decide), hends, if_pos rfl]
    have hplain : Quoted.escape '\\' isSpecial ['\n'] = ['\n'] := by decide
    rw [hplain, read, hstep, read]
  · refine ⟨[d.1], ?_⟩
    have hspecial : isSpecial d.1 = false := by
      have hquote : d.1 ≠ '\x22' := fun heq => hd (Subtype.ext heq)
      simp [isSpecial, delimiter_ne_slash d, hquote]
    have hplain : Quoted.escape '\\' isSpecial [d.1] = [d.1] := by
      apply Quoted.escape_plain
      intro c hc
      rw [List.mem_singleton.mp hc]
      exact hspecial
    rw [hplain, read, step_close, read]

theorem exists_leaving_quoted (h : ¬ (Opens r ∧ L.spansLines = true)) :
    ∃ w, (read r ('\x22' :: Quoted.escape '\\' isSpecial w)).2 = .outside := by
  have hinside : ∀ {d : L.Delimiter} {content : List Char},
      step r '\x22' = ([], .inside d content) →
        ∃ w, (read r ('\x22' :: Quoted.escape '\\' isSpecial w)).2 = .outside := by
    intro d content hstep
    have hleave : d ≠ L.quote ∨ L.spansLines = false := by
      by_contra hboth
      rw [not_or, not_not, Bool.not_eq_false] at hboth
      obtain ⟨rfl, hline⟩ := hboth
      exact h ⟨⟨content, hstep⟩, hline⟩
    obtain ⟨w, hw⟩ : ∃ w, (read (.inside d content) (Quoted.escape '\\' isSpecial w)).2 = .outside :=
      exists_leaving_inside hleave
    refine ⟨w, ?_⟩
    rw [read, hstep]
    exact hw
  cases r with
  | outside =>
      have hstep : step (.outside : Reading L) '\x22' = ([], .inside L.quote []) := by
        rw [step, dif_pos L.quote_mem]
        rfl
      exact hinside hstep
  | inside d content =>
      rcases eq_or_ne d L.quote with rfl | hd
      · have hclose : step (.inside L.quote content) '\x22' = ([.literal content], .outside) :=
          step_close
        have hnil : Quoted.escape '\\' isSpecial [] = [] := rfl
        refine ⟨[], ?_⟩
        rw [hnil, read, hclose, read]
      · have hne : '\x22' ≠ d.1 := fun heq => hd (Subtype.ext heq.symm)
        exact hinside (step_plain hne (by decide) (Or.inr (by decide)))
  | escaping d content => exact hinside (step_escaping (Or.inl L.quote_mem))

-- Where a template is not sealed, a value brings as many brackets outside the literals as it likes.
theorem exposed_of_not_sealed (h : ¬ Sealed r parts) :
    ∃ w, ∀ n, n ≤ (read r (text (parts.map (Fragment.fill (w ++ List.replicate n '('))))).1.count
      (.outer '(') := by
  induction parts generalizing r with
  | nil => exact absurd trivial h
  | cons part parts ih =>
      cases part with
      | fixed t =>
          obtain ⟨w, hw⟩ := ih h
          refine ⟨w, fun n => ?_⟩
          rw [List.map_cons, text_cons, Fragment.fill, Fragment.text, read_append, List.count_append]
          exact Nat.le_add_left_of_le (hw n)
      | quoted v =>
          by_cases hsealed : Opens r ∧ L.spansLines = true
          · obtain ⟨w, hw⟩ := ih fun hrest => h ⟨hsealed, hrest⟩
            obtain ⟨⟨content, hopen⟩, hline⟩ := hsealed
            refine ⟨w, fun n => ?_⟩
            rw [List.map_cons, text_cons, Fragment.fill, read_append, read_quoted hopen hline,
              List.count_append]
            exact Nat.le_add_left_of_le (hw n)
          · obtain ⟨w, hw⟩ := exists_leaving_quoted hsealed
            refine ⟨w, fun n => ?_⟩
            have hparens : Quoted.escape '\\' isSpecial (List.replicate n '(') =
                List.replicate n '(' := by
              apply Quoted.escape_plain
              intro c hc
              rw [List.eq_of_mem_replicate hc]
              decide
            have htext : (Fragment.quoted (w ++ List.replicate n '(')).text =
                ('\x22' :: Quoted.escape '\\' isSpecial w) ++ (List.replicate n '(' ++ ['\x22']) := by
              rw [Fragment.text, Quoted.escape_append, hparens]
              simp
            rw [List.map_cons, text_cons, Fragment.fill, htext, List.append_assoc, List.append_assoc]
            exact le_count_parens hw
      | raw v =>
          obtain ⟨w, hw⟩ := exists_leaving r
          refine ⟨w, fun n => ?_⟩
          rw [List.map_cons, text_cons, Fragment.fill, Fragment.text, List.append_assoc]
          exact le_count_parens hw

theorem alike_fill (v : List Char) : List.Forall₂ Fragment.Alike parts (parts.map (Fragment.fill v)) := by
  induction parts with
  | nil => exact .nil
  | cons part parts ih =>
      cases part with
      | fixed text => exact .cons (.fixed text) ih
      | quoted w => exact .cons (.quoted w v) ih
      | raw w => exact .cons (.raw w v) ih

theorem alike_of_fill_eq (h : parts.map (Fragment.fill []) = parts'.map (Fragment.fill [])) :
    List.Forall₂ Fragment.Alike parts parts' := by
  induction parts generalizing parts' with
  | nil =>
      cases parts' with
      | nil => exact .nil
      | cons part parts' => cases h
  | cons part parts ih =>
      cases parts' with
      | nil => cases h
      | cons part' parts' =>
          obtain ⟨hpart, hparts⟩ := List.cons.inj h
          refine .cons ?_ (ih hparts)
          cases part with
          | fixed text =>
              cases part' with
              | fixed text' =>
                  obtain rfl := Fragment.fixed.inj hpart
                  exact .fixed text
              | quoted w => cases hpart
              | raw w => cases hpart
          | quoted v =>
              cases part' with
              | fixed text' => cases hpart
              | quoted w => exact .quoted v w
              | raw w => cases hpart
          | raw v =>
              cases part' with
              | fixed text' => cases hpart
              | quoted w => cases hpart
              | raw w => exact .raw v w

theorem sealed_of_filled
    (h : ∀ v, tokenStructure L (text (parts.map (Fragment.fill v))) = tokenStructure L (text parts)) :
    Sealed (.outside : Reading L) parts := by
  by_contra hsealed
  obtain ⟨w, hw⟩ := exposed_of_not_sealed hsealed
  have hcount : ∀ s, (tokenStructure L s).count (.symbol '(') = (marks L s).count (.outer '(') :=
    fun s => count_gather
  have hsame := congrArg (List.count (Kind.symbol '('))
    (h (w ++ List.replicate ((marks L (text parts)).count (.outer '(') + 1) '('))
  have hmore := hw ((marks L (text parts)).count (.outer '(') + 1)
  rw [hcount, hcount, marks, List.count_append] at hsame
  omega

theorem Sealed.stable (h : Sealed (.outside : Reading L) parts)
    (halike : List.Forall₂ Fragment.Alike parts parts') :
    tokenStructure L (text parts') = tokenStructure L (text parts) ∧ Enclosed L parts' := by
  obtain ⟨hmarks, hend⟩ := h.read_alike halike
  refine ⟨gather_congr ?_, (h.alike halike).enclosed⟩
  rw [marks, marks, List.map_append, List.map_append, hmarks, hend]

end Template

end Literals
