import BTagent.Engine.Redaction

namespace BTagent

namespace Redaction
open Regex

variable {T : LetterTable}

def Bar (c : Char) : Prop := c = '[' ∨ c = ']'

instance : DecidablePred Bar := fun _ => inferInstanceAs (Decidable (_ ∨ _))

def Blank (T : LetterTable) (c : Char) : Prop := T.isSpace c = true

def kinds : List String :=
  ["bearer_token", "basic_auth", "aws_access_key_id", "aws_secret_access_key", "slack_token",
    "github_token", "jwt", "credential"]

def Body (m : List Char) : Prop := ∃ kind ∈ kinds, m = "REDACTED:".toList ++ kind.toList

def Plainly (T : LetterTable) (x : List Char) : Prop := Solid (Blank T) Bar x

section Chars
variable {c : Char}

def Graphic (c : Char) : Prop := 33 ≤ c.toNat ∧ c.toNat < 127

instance : DecidablePred Graphic := fun _ => inferInstanceAs (Decidable (_ ∧ _))

theorem alnum_graphic (h : c.isAlphanum = true) : Graphic c ∧ ¬Bar c := by
  have hrange : (65 ≤ c.toNat ∧ c.toNat ≤ 90) ∨ (97 ≤ c.toNat ∧ c.toNat ≤ 122) ∨
      (48 ≤ c.toNat ∧ c.toNat ≤ 57) := by
    rcases Bool.or_eq_true_iff.mp h with h | h
    · rcases Bool.or_eq_true_iff.mp h with h | h
      · have hupper : 'A'.val ≤ c.val ∧ c.val ≤ 'Z'.val := of_decide_eq_true h
        exact Or.inl ⟨UInt32.le_iff_toNat_le.mp hupper.1, UInt32.le_iff_toNat_le.mp hupper.2⟩
      · have hlower := (Bool.and_eq_true _ _).mp h
        exact Or.inr (Or.inl ⟨UInt32.le_iff_toNat_le.mp (of_decide_eq_true hlower.1),
          UInt32.le_iff_toNat_le.mp (of_decide_eq_true hlower.2)⟩)
    · exact Or.inr (Or.inr (Char.isDigit_iff_toNat.mp h))
  refine ⟨⟨by omega, by omega⟩, ?_⟩
  rintro (rfl | rfl)
  · exact absurd hrange (by decide)
  · exact absurd hrange (by decide)

theorem class_graphic {extra : List Char} (hextra : ∀ d ∈ extra, Graphic d ∧ ¬Bar d)
    (h : (c.isAlphanum || decide (c ∈ extra)) = true) : Graphic c ∧ ¬Bar c := by
  rcases Bool.or_eq_true_iff.mp h with h | h
  · exact alnum_graphic h
  · exact hextra c (of_decide_eq_true h)

theorem bearerChar_graphic (h : isBearerChar c = true) : Graphic c ∧ ¬Bar c :=
  class_graphic (by decide) h

theorem jwtChar_graphic (h : isJwtChar c = true) : Graphic c ∧ ¬Bar c :=
  class_graphic (by decide) h

theorem base64Char_graphic (h : isBase64Char c = true) : Graphic c ∧ ¬Bar c :=
  class_graphic (by decide) h

theorem tokenChar_graphic (h : isTokenChar c = true) : Graphic c ∧ ¬Bar c := by
  rcases Bool.or_eq_true_iff.mp h with h | h
  · exact alnum_graphic h
  · rw [eq_of_beq h]
    decide

theorem graphic_solid {v : List Char} (hne : v ≠ []) (h : ∀ c ∈ v, Graphic c ∧ ¬Bar c) :
    Plainly T v where
  ne_nil := hne
  no_bar c hc := (h c hc).2
  last c hc := by
    have hspace := T.isSpace_of_graphic (h c (List.mem_of_mem_getLast? hc)).1
    simp [Blank, hspace]

theorem solid_append {u v : List Char} (hu : ∀ c ∈ u, ¬Bar c) (hv : Plainly T v) :
    Plainly T (u ++ v) where
  ne_nil h := hv.ne_nil (List.append_eq_nil_iff.mp h).2
  no_bar c hc := (List.mem_append.mp hc).elim (hu c) (hv.no_bar c)
  last c hc := by
    rw [List.getLast?_append_of_ne_nil _ hv.ne_nil] at hc
    exact hv.last c hc

theorem space_not_bar (h : T.isSpace c = true) : ¬Bar c := by
  rintro (rfl | rfl)
  · rw [T.isSpace_of_graphic (by decide)] at h
    cases h
  · rw [T.isSpace_of_graphic (by decide)] at h
    cases h

end Chars

section Words
variable {x : List Char}

theorem bearer_plain : Plain (BEARER_RE T) := ⟨plain_sets _, plain_plus, plain_atLeast⟩

theorem basic_plain : Plain (BASIC_AUTH_HEADER_RE T) :=
  ⟨plain_sets _, plain_plus, plain_atLeast, Or.inr trivial⟩

theorem akid_plain : Plain AWS_AKID_RE := ⟨plain_sets _, plain_sets _⟩

theorem slack_plain : Plain SLACK_RE := ⟨plain_sets _, trivial, trivial, plain_atLeast⟩

theorem github_plain : Plain GITHUB_RE := ⟨plain_sets _, trivial, trivial, plain_atLeast⟩

theorem jwt_plain : Plain JWT_RE :=
  ⟨plain_sets _, plain_atLeast, trivial, plain_atLeast, trivial, plain_atLeast⟩

-- A word begins with a text that no mark holds.
structure Led (T : LetterTable) (lead x : List Char) : Prop where
  leads : lead <+: x
  solid : Plainly T x
  longer : lead.length < x.length

theorem led_of_parts {lead u v : List Char} (hlead : ∀ c ∈ lead, ¬Bar c) (hu : ∀ c ∈ u, ¬Bar c)
    (hne : v ≠ []) (hv : ∀ c ∈ v, Graphic c ∧ ¬Bar c) : Led T lead (lead ++ (u ++ v)) where
  leads := List.prefix_append _ _
  solid := solid_append hlead (solid_append hu (graphic_solid hne hv))
  longer := by
    have hpos := List.length_pos_of_ne_nil hne
    simp only [List.length_append]
    omega

theorem ne_nil_of_le {n : ℕ} {v : List Char} (h : n + 1 ≤ v.length) : v ≠ [] := by
  rintro rfl
  simp at h

theorem bearer_led (h : Word T.isWord (BEARER_RE T) x) : Led T "Bearer".toList x := by
  obtain ⟨_, _, rfl, hlead, h⟩ := matches_seq.mp h
  obtain ⟨u, v, rfl, hu, hv⟩ := matches_seq.mp h
  obtain ⟨-, hu⟩ := matches_plus_set.mp hu
  obtain ⟨hlen, hv⟩ := matches_atLeast.mp hv
  rw [matches_literal.mp hlead]
  exact led_of_parts (by decide) (fun c hc => space_not_bar (hu c hc)) (ne_nil_of_le hlen)
    fun c hc => bearerChar_graphic (hv c hc)

theorem basic_led (h : Word T.isWord (BASIC_AUTH_HEADER_RE T) x) : Led T "Basic".toList x := by
  obtain ⟨_, _, rfl, hlead, h⟩ := matches_seq.mp h
  obtain ⟨u, _, rfl, hu, h⟩ := matches_seq.mp h
  obtain ⟨v, e, rfl, hv, he⟩ := matches_seq.mp h
  obtain ⟨-, hu⟩ := matches_plus_set.mp hu
  obtain ⟨hlen, hv⟩ := matches_atLeast.mp hv
  obtain ⟨-, he⟩ := repeats_set.mp (matches_upTo.mp he)
  rw [matches_literal.mp hlead]
  refine led_of_parts (by decide) (fun c hc => space_not_bar (hu c hc)) ?_ ?_
  · exact fun hnil => ne_nil_of_le hlen (List.append_eq_nil_iff.mp hnil).1
  · intro c hc
    rcases List.mem_append.mp hc with hc | hc
    · exact base64Char_graphic (hv c hc)
    · rw [eq_of_beq (he c hc)]
      decide

theorem akid_led (h : Word T.isWord AWS_AKID_RE x) : Led T "AKIA".toList x := by
  obtain ⟨_, v, rfl, hlead, hv⟩ := matches_seq.mp h
  obtain ⟨hlen, hv⟩ := forall₂_replicate.mp (matches_sets.mp hv)
  rw [matches_literal.mp hlead, ← List.nil_append v]
  refine led_of_parts (by decide) (by simp) (ne_nil_of_le hlen.ge) ?_
  intro c hc
  apply alnum_graphic
  rcases Bool.or_eq_true_iff.mp (hv c hc) with hdigit | hupper
  · simp [Char.isAlphanum, hdigit]
  · exact Bool.or_eq_true_iff.mpr (Or.inl (Bool.or_eq_true_iff.mpr (Or.inl hupper)))

theorem slack_led (h : Word T.isWord SLACK_RE x) : Led T "xox".toList x := by
  obtain ⟨_, _, rfl, hlead, h⟩ := matches_seq.mp h
  obtain ⟨_, _, rfl, hkind, h⟩ := matches_seq.mp h
  obtain ⟨_, v, rfl, hdash, hv⟩ := matches_seq.mp h
  obtain ⟨c, rfl, hc⟩ := matches_set.mp hkind
  obtain ⟨hlen, hv⟩ := matches_atLeast.mp hv
  rw [matches_literal.mp hlead, matches_char.mp hdash, ← List.append_assoc [c]]
  refine led_of_parts (by decide) ?_ (ne_nil_of_le hlen) fun c hc => tokenChar_graphic (hv c hc)
  have hall : ∀ d ∈ ['b', 'a', 'p', 'r', 's'], ∀ e ∈ [d] ++ ['-'], ¬Bar e := by decide
  exact hall c (of_decide_eq_true hc)

theorem github_led (h : Word T.isWord GITHUB_RE x) : Led T "gh".toList x := by
  obtain ⟨_, _, rfl, hlead, h⟩ := matches_seq.mp h
  obtain ⟨_, _, rfl, hkind, h⟩ := matches_seq.mp h
  obtain ⟨_, v, rfl, hline, hv⟩ := matches_seq.mp h
  obtain ⟨c, rfl, hc⟩ := matches_set.mp hkind
  obtain ⟨hlen, hv⟩ := matches_atLeast.mp hv
  rw [matches_literal.mp hlead, matches_char.mp hline, ← List.append_assoc [c]]
  refine led_of_parts (by decide) ?_ (ne_nil_of_le hlen) fun c hc => alnum_graphic (hv c hc)
  have hall : ∀ d ∈ ['p', 'o', 'u', 's', 'r'], ∀ e ∈ [d] ++ ['_'], ¬Bar e := by decide
  exact hall c (of_decide_eq_true hc)

theorem jwt_led (h : Word T.isWord JWT_RE x) : Led T "eyJ".toList x := by
  obtain ⟨_, _, rfl, hlead, h⟩ := matches_seq.mp h
  obtain ⟨u, _, rfl, hu, h⟩ := matches_seq.mp h
  obtain ⟨_, _, rfl, hdot, h⟩ := matches_seq.mp h
  obtain ⟨u', _, rfl, hu', h⟩ := matches_seq.mp h
  obtain ⟨_, v, rfl, hdot', hv⟩ := matches_seq.mp h
  obtain ⟨-, hu⟩ := matches_atLeast.mp hu
  obtain ⟨-, hu'⟩ := matches_atLeast.mp hu'
  obtain ⟨hlen, hv⟩ := matches_atLeast.mp hv
  have hparts : u ++ (['.'] ++ (u' ++ (['.'] ++ v))) = (u ++ '.' :: (u' ++ ['.'])) ++ v := by simp
  rw [matches_literal.mp hlead, matches_char.mp hdot, matches_char.mp hdot', hparts]
  refine led_of_parts (by decide) ?_ (ne_nil_of_le hlen) fun c hc => jwtChar_graphic (hv c hc)
  intro c hc
  simp only [List.mem_append, List.mem_cons, List.not_mem_nil, or_false] at hc
  rcases hc with hc | rfl | hc | rfl
  · exact (jwtChar_graphic (hu c hc)).2
  · decide
  · exact (jwtChar_graphic (hu' c hc)).2
  · decide

end Words

section Credentials

variable {c : Char} {x key s₁ s₂ quote v : List Char}

def keyLetters : List Char := "apikeyscrtonwd".toList

def KeyChar (T : LetterTable) (c : Char) : Prop :=
  (∃ d ∈ keyLetters, T.sameLetter c d = true) ∨ c = '_' ∨ c = '-'

theorem letter_ne {e d : Char} (h : T.sameLetter c d = true) (he : e.toNat < 128)
    (hd : d.toNat < 128) (hne : e.toLower ≠ d.toLower) : c ≠ e := by
  rintro rfl
  rw [T.letter_ascii c d he hd] at h
  exact hne (eq_of_beq h)

theorem KeyChar.ne (h : KeyChar T c) {e : Char} (he : e.toNat < 128)
    (hne : ∀ d ∈ keyLetters, d.toNat < 128 ∧ e.toLower ≠ d.toLower) (hline : e ≠ '_' ∧ e ≠ '-') :
    c ≠ e := by
  rcases h with ⟨d, hd, hsame⟩ | rfl | rfl
  · exact letter_ne hsame he (hne d hd).1 (hne d hd).2
  · exact hline.1.symm
  · exact hline.2.symm

theorem KeyChar.not_space (h : KeyChar T c) : T.isSpace c = false := by
  rcases h with ⟨d, hd, hsame⟩ | rfl | rfl
  · have hlower : ∀ d ∈ keyLetters, d.isLower = true := by decide
    exact T.letter_space c d (hlower d hd) hsame
  · exact T.isSpace_of_graphic (by decide)
  · exact T.isSpace_of_graphic (by decide)

-- A key; two of its letters are in no scheme and in no mark's first word.
structure IsKey (T : LetterTable) (key : List Char) : Prop where
  chars : ∀ c ∈ key, KeyChar T c
  beyond_scheme : ∃ c ∈ key, ∃ d ∈ ['a', 'e', 'o', 'w'], T.sameLetter c d = true
  beyond_mark : ∃ c ∈ key, ∃ d ∈ ['k', 's', 'w'], T.sameLetter c d = true

theorem anyCase_chars {s : List Char} (h : Word T.isWord (sets (s.map fun d c => T.sameLetter c d)) x) :
    (∀ c ∈ x, ∃ d ∈ s, T.sameLetter c d = true) ∧ ∀ d ∈ s, ∃ c ∈ x, T.sameLetter c d = true := by
  have hall := matches_sets.mp h
  clear h
  induction s generalizing x with
  | nil =>
      rw [List.map_nil, List.forall₂_nil_left_iff] at hall
      simp [hall]
  | cons d s ih =>
      obtain ⟨c, u, hc, hu, rfl⟩ := List.forall₂_cons_left_iff.mp hall
      obtain ⟨hchars, hletters⟩ := ih hu
      simp only [List.forall_mem_cons, List.exists_mem_cons_iff]
      refine ⟨⟨Or.inl hc, fun e he => Or.inr (hchars e he)⟩, Or.inl hc, fun e he => ?_⟩
      exact Or.inr (hletters e he)

theorem anyCase_key {s : String} (hs : ∀ d ∈ s.toList, d ∈ keyLetters)
    (hscheme : ∃ d ∈ s.toList, d ∈ ['a', 'e', 'o', 'w'])
    (hmark : ∃ d ∈ s.toList, d ∈ ['k', 's', 'w']) (h : Word T.isWord (anyCase T s) x) :
    IsKey T x := by
  obtain ⟨hchars, hletters⟩ := anyCase_chars h
  obtain ⟨d, hd, hdin⟩ := hscheme
  obtain ⟨e, he, hein⟩ := hmark
  obtain ⟨c, hc, hsame⟩ := hletters d hd
  obtain ⟨c', hc', hsame'⟩ := hletters e he
  refine ⟨?_, ⟨c, hc, d, hdin, hsame⟩, ⟨c', hc', e, hein, hsame'⟩⟩
  intro c hc
  obtain ⟨d, hd, hsame⟩ := hchars c hc
  exact Or.inl ⟨d, hs d hd, hsame⟩

theorem credentialKey_plain : Plain (credentialKey T) :=
  ⟨⟨plain_sets _, Or.inr trivial, plain_sets _⟩, plain_sets _, plain_sets _, plain_sets _,
    plain_sets _, plain_sets _, plain_sets _⟩

theorem generic_plain : Plain (GENERIC_KEY_RE T) :=
  ⟨credentialKey_plain, ⟨⟨_, rfl⟩, trivial, _, rfl⟩, ⟨trivial, plain_atLeast, trivial⟩,
    ⟨trivial, plain_atLeast, trivial⟩, plain_atLeast⟩

theorem credentialKey_key (h : Word T.isWord (credentialKey T) x) : IsKey T x := by
  rcases matches_alt.mp h with h | h
  · obtain ⟨u, _, rfl, hu, h⟩ := matches_seq.mp h
    obtain ⟨line, v, rfl, hline, hv⟩ := matches_seq.mp h
    obtain ⟨huchars, huletters⟩ := anyCase_chars ((plain_sets _).word_iff.mp hu)
    obtain ⟨hvchars, hvletters⟩ := anyCase_chars ((plain_sets _).word_iff.mp hv)
    have hsubset : ∀ d, d ∈ "api".toList ∨ d ∈ "key".toList → d ∈ keyLetters := by
      rintro d (hd | hd)
      · exact (by decide : ∀ d ∈ "api".toList, d ∈ keyLetters) d hd
      · exact (by decide : ∀ d ∈ "key".toList, d ∈ keyLetters) d hd
    obtain ⟨c, hc, hsame⟩ := huletters 'a' (by decide)
    obtain ⟨c', hc', hsame'⟩ := hvletters 'k' (by decide)
    refine ⟨?_, ⟨c, by simp [hc], 'a', by decide, hsame⟩, ⟨c', by simp [hc'], 'k', by decide, hsame'⟩⟩
    intro c hc
    simp only [List.mem_append] at hc
    rcases hc with hc | hc | hc
    · obtain ⟨d, hd, hsame⟩ := huchars c hc
      exact Or.inl ⟨d, hsubset d (Or.inl hd), hsame⟩
    · rcases matches_opt.mp hline with rfl | hline
      · cases hc
      · obtain ⟨e, rfl, he⟩ := matches_set.mp hline
        rw [List.mem_singleton.mp hc]
        have heq : e = '_' ∨ e = '-' := by simpa using of_decide_eq_true he
        exact Or.inr heq
    · obtain ⟨d, hd, hsame⟩ := hvchars c hc
      exact Or.inl ⟨d, hsubset d (Or.inr hd), hsame⟩
  rcases matches_alt.mp h with h | h
  · exact anyCase_key (by decide) (by decide) (by decide) h
  rcases matches_alt.mp h with h | h
  · exact anyCase_key (by decide) (by decide) (by decide) h
  rcases matches_alt.mp h with h | h
  · exact anyCase_key (by decide) (by decide) (by decide) h
  rcases matches_alt.mp h with h | h
  · exact anyCase_key (by decide) (by decide) (by decide) h
  rcases matches_alt.mp h with h | h
  · exact anyCase_key (by decide) (by decide) (by decide) h
  · exact anyCase_key (by decide) (by decide) (by decide) h

-- `key`, blanks, `:` or `=`, blanks, and the value, quoted or not.
structure IsCredential (T : LetterTable) (key s₁ : List Char) (c : Char) (s₂ quote v : List Char) :
    Prop where
  isKey : IsKey T key
  blanks : ∀ d ∈ s₁, T.isSpace d = true
  sep : c = ':' ∨ c = '='
  blanks' : ∀ d ∈ s₂, T.isSpace d = true
  quoted : quote = [] ∨ ∃ d, quote = [d] ∧ isQuote d = true
  long : 16 ≤ v.length
  chars : ∀ d ∈ v, isValueChar T d = true

theorem credential_parts (h : Word T.isWord (GENERIC_KEY_RE T) x) :
    ∃ key s₁ c s₂ quote v, x = key ++ (s₁ ++ c :: (s₂ ++ (quote ++ (v ++ quote)))) ∧
      IsCredential T key s₁ c s₂ quote v := by
  obtain ⟨key, _, rfl, hkeyword, h⟩ := matches_seq.mp h
  obtain ⟨_, w, rfl, hsepword, h⟩ := matches_seq.mp h
  obtain ⟨s₁, _, rfl, hblanks, hsepword⟩ := matches_seq.mp hsepword
  obtain ⟨_, s₂, rfl, hset, hblanks'⟩ := matches_seq.mp hsepword
  obtain ⟨c, rfl, hsep⟩ := matches_set.mp hset
  have hkey : IsKey T key := credentialKey_key (Plain.moved credentialKey_plain hkeyword)
  have hs₁ := matches_star_set.mp hblanks
  have hs₂ := matches_star_set.mp hblanks'
  have hc : c = ':' ∨ c = '=' := by simpa using of_decide_eq_true hsep
  have hquoted : ∀ {e w}, isQuote e = true →
      Matches T.isWord (seq (char e) (seq (value T) (char e))) (lastOf (lastOf none key)
        (s₁ ++ ([c] ++ s₂))) w [] →
      ∃ v, w = [e] ++ (v ++ [e]) ∧ 16 ≤ v.length ∧ ∀ d ∈ v, isValueChar T d = true := by
    intro e w _ h
    obtain ⟨_, _, rfl, hfirst, h⟩ := matches_seq.mp h
    obtain ⟨v, _, rfl, hv, hlast⟩ := matches_seq.mp h
    obtain ⟨hlen, hv⟩ := matches_atLeast.mp hv
    rw [matches_char.mp hfirst, matches_char.mp hlast]
    exact ⟨v, rfl, hlen, hv⟩
  rcases matches_alt.mp h with h | h
  · obtain ⟨v, rfl, hlen, hv⟩ := hquoted (by decide) h
    exact ⟨key, s₁, c, s₂, ['\x27'], v, by simp, hkey, hs₁, hc, hs₂, Or.inr ⟨_, rfl, by decide⟩, hlen, hv⟩
  rcases matches_alt.mp h with h | h
  · obtain ⟨v, rfl, hlen, hv⟩ := hquoted (by decide) h
    exact ⟨key, s₁, c, s₂, ['\x22'], v, by simp, hkey, hs₁, hc, hs₂, Or.inr ⟨_, rfl, by decide⟩, hlen, hv⟩
  · obtain ⟨hlen, hv⟩ := matches_atLeast.mp h
    exact ⟨key, s₁, c, s₂, [], w, by simp, hkey, hs₁, hc, hs₂, Or.inl rfl, hlen, hv⟩

def otherChars : List Char := [':', '=', '[', ']', '@', '/', 'h', '\x27', '\x22']

theorem IsKey.not_other (h : IsKey T key) {e : Char} (he : e ∈ otherChars) : e ∉ key := by
  intro hmem
  have hall : ∀ e ∈ otherChars, e.toNat < 128 ∧
      (∀ d ∈ keyLetters, d.toNat < 128 ∧ e.toLower ≠ d.toLower) ∧ e ≠ '_' ∧ e ≠ '-' := by
    decide
  obtain ⟨hascii, hletters, hline⟩ := hall e he
  exact (h.chars e hmem).ne hascii hletters hline rfl

theorem IsKey.ne_nil (h : IsKey T key) : key ≠ [] := by
  obtain ⟨c, hc, -⟩ := h.beyond_scheme
  exact List.ne_nil_of_mem hc

theorem valueChar_plain (h : isValueChar T c = true) :
    ¬Bar c ∧ T.isSpace c = false ∧ isQuote c = false := by
  have hletters : ∀ d ∈ "abcdefghijklmnopqrstuvwxyz".toList, d.isLower = true ∧ d.toNat < 128 ∧
      ∀ e ∈ ['[', ']', '\x27', '\x22'], e.toNat < 128 ∧ e.toLower ≠ d.toLower := by
    decide
  have hgraphic : Graphic c ∧ ¬Bar c → T.isSpace c = false := fun h => T.isSpace_of_graphic h.1
  rcases Bool.or_eq_true_iff.mp h with h | h
  · rcases Bool.or_eq_true_iff.mp h with h | h
    · obtain ⟨d, hd, hsame⟩ := List.any_eq_true.mp h
      obtain ⟨hlower, hascii, hne⟩ := hletters d hd
      have hcne : ∀ e ∈ ['[', ']', '\x27', '\x22'], c ≠ e :=
        fun e he => letter_ne hsame (hne e he).1 hascii (hne e he).2
      refine ⟨?_, T.letter_space c d hlower hsame, ?_⟩
      · rintro (rfl | rfl)
        · exact hcne '[' (by decide) rfl
        · exact hcne ']' (by decide) rfl
      · simp [isQuote, hcne '\x27' (by decide), hcne '\x22' (by decide)]
    · have hrange : 48 ≤ c.toNat ∧ c.toNat ≤ 57 := Char.isDigit_iff_toNat.mp h
      have hsolid := alnum_graphic (c := c) (by simp [Char.isAlphanum, h])
      refine ⟨hsolid.2, hgraphic hsolid, ?_⟩
      simp only [isQuote, List.mem_cons, List.not_mem_nil, or_false, decide_eq_false_iff_not]
      rintro (rfl | rfl)
      · exact absurd hrange (by decide)
      · exact absurd hrange (by decide)
  · have hall : ∀ d ∈ ['.', '_', '/', '+', '=', '-'], (Graphic d ∧ ¬Bar d) ∧ isQuote d = false := by
      decide
    obtain ⟨hsolid, hquote⟩ := hall c (of_decide_eq_true h)
    exact ⟨hsolid.2, hgraphic hsolid, hquote⟩

theorem quote_plain (h : isQuote c = true) : ¬Bar c ∧ T.isSpace c = false := by
  have hall : ∀ d ∈ ['\x27', '\x22'], Graphic d ∧ ¬Bar d := by decide
  obtain ⟨hgraphic, hbar⟩ := hall c (of_decide_eq_true h)
  exact ⟨hbar, T.isSpace_of_graphic hgraphic⟩

namespace IsCredential

variable (h : IsCredential T key s₁ c s₂ quote v)
include h

theorem value_ne_nil : v ≠ [] := ne_nil_of_le h.long

theorem quote_chars : ∀ d ∈ quote, isQuote d = true := by
  rcases h.quoted with rfl | ⟨d, rfl, hd⟩
  · simp
  · simpa using hd

theorem solid : Plainly T (key ++ (s₁ ++ c :: (s₂ ++ (quote ++ (v ++ quote))))) := by
  have hend : Plainly T (v ++ quote) := by
    have hall : ∀ d ∈ v ++ quote, ¬Bar d ∧ T.isSpace d = false := by
      intro d hd
      rcases List.mem_append.mp hd with hd | hd
      · exact ⟨(valueChar_plain (h.chars d hd)).1, (valueChar_plain (h.chars d hd)).2.1⟩
      · exact quote_plain (h.quote_chars d hd)
    refine ⟨?_, fun d hd => (hall d hd).1, ?_⟩
    · exact fun hnil => h.value_ne_nil (List.append_eq_nil_iff.mp hnil).1
    · intro d hd
      simp [Blank, (hall d (List.mem_of_mem_getLast? hd)).2]
  have hkey : ∀ d ∈ key, ¬Bar d := by
    rintro d hd (rfl | rfl)
    · exact h.isKey.not_other (by decide) hd
    · exact h.isKey.not_other (by decide) hd
  have hsep : ¬Bar c := by
    rcases h.sep with rfl | rfl
    · decide
    · decide
  refine solid_append hkey (solid_append (fun d hd => space_not_bar (h.blanks d hd)) ?_)
  rw [← List.singleton_append]
  refine solid_append (by simpa using hsep) ?_
  refine solid_append (fun d hd => space_not_bar (h.blanks' d hd)) ?_
  exact solid_append (fun d hd => (quote_plain (h.quote_chars d hd) (T := T)).1) hend

theorem after_key (rest : List Char) : ∃ d tail, s₁ ++ c :: rest = d :: tail ∧
    (!(T.isSpace d || d == ':' || d == '=')) = false := by
  cases s₁ with
  | nil =>
      refine ⟨c, rest, rfl, ?_⟩
      rcases h.sep with rfl | rfl <;> simp
  | cons d s₁ =>
      refine ⟨d, s₁ ++ c :: rest, rfl, ?_⟩
      simp [h.blanks d List.mem_cons_self]

theorem sep_solid : T.isSpace c = false := by
  rcases h.sep with rfl | rfl
  · exact T.isSpace_of_graphic (by decide)
  · exact T.isSpace_of_graphic (by decide)

theorem after_blanks : ∃ d tail, quote ++ (v ++ quote) = d :: tail ∧ T.isSpace d = false ∧
    [d].filter isQuote = quote := by
  rcases h.quoted with rfl | ⟨d, rfl, hd⟩
  · obtain ⟨d, v', rfl⟩ := List.exists_cons_of_ne_nil h.value_ne_nil
    obtain ⟨-, hspace, hquote⟩ := valueChar_plain (h.chars d List.mem_cons_self)
    exact ⟨d, v', by simp, hspace, by simp [hquote]⟩
  · exact ⟨d, v ++ [d], rfl, (quote_plain hd).2, by simp [hd]⟩

theorem credentialHead_eq :
    credentialHead T (key ++ (s₁ ++ c :: (s₂ ++ (quote ++ (v ++ quote))))) =
      (key ++ (s₁ ++ c :: s₂), quote) := by
  have hkey : ∀ d ∈ key, (!(T.isSpace d || d == ':' || d == '=')) = true := by
    intro d hd
    have hcolon : d ≠ ':' := fun heq => h.isKey.not_other (by decide) (heq ▸ hd)
    have hequal : d ≠ '=' := fun heq => h.isKey.not_other (by decide) (heq ▸ hd)
    simp [(h.isKey.chars d hd).not_space, hcolon, hequal]
  obtain ⟨d, tail, hnext, hstop⟩ := h.after_key (s₂ ++ (quote ++ (v ++ quote)))
  obtain ⟨e, tail', hvalue, hsolid, hfilter⟩ := h.after_blanks
  have hsep := h.sep_solid
  unfold credentialHead
  simp only [List.takeWhile_append_of_pos hkey, List.dropWhile_append_of_pos hkey]
  have htake : (s₁ ++ c :: (s₂ ++ (quote ++ (v ++ quote)))).takeWhile
      (fun d => !(T.isSpace d || d == ':' || d == '=')) = [] := by
    rw [hnext, List.takeWhile_cons_of_neg (by simp [hstop])]
  have hdrop : (s₁ ++ c :: (s₂ ++ (quote ++ (v ++ quote)))).dropWhile
      (fun d => !(T.isSpace d || d == ':' || d == '=')) =
        s₁ ++ c :: (s₂ ++ (quote ++ (v ++ quote))) := by
    rw [hnext, List.dropWhile_cons_of_neg (by simp [hstop])]
  rw [htake, hdrop, List.takeWhile_append_of_pos h.blanks, List.dropWhile_append_of_pos h.blanks,
    List.takeWhile_cons_of_neg (by simp [hsep]), List.dropWhile_cons_of_neg (by simp [hsep])]
  simp only [List.drop_one, List.tail_cons, List.take_succ_cons, List.take_zero,
    List.takeWhile_append_of_pos h.blanks', List.dropWhile_append_of_pos h.blanks', hvalue,
    List.takeWhile_cons_of_neg (Bool.eq_false_iff.mp hsolid),
    List.dropWhile_cons_of_neg (Bool.eq_false_iff.mp hsolid), List.append_nil, hfilter]
  simp

theorem hideValue_eq : hideValue T (key ++ (s₁ ++ c :: (s₂ ++ (quote ++ (v ++ quote))))) =
    key ++ (s₁ ++ c :: (s₂ ++ (quote ++ (mark "credential" ++ quote)))) := by
  rw [hideValue, h.credentialHead_eq]
  simp

-- The only `:` or `=` of what stands before the value is the separator.
theorem split_at_sep {y z : List Char} {d : Char} (hd : d = ':' ∨ d = '=')
    (heq : key ++ (s₁ ++ c :: (s₂ ++ quote)) = y ++ d :: z) : z = s₂ ++ quote := by
  have hspace : T.isSpace d = false := by
    rcases hd with rfl | rfl
    · exact T.isSpace_of_graphic (by decide)
    · exact T.isSpace_of_graphic (by decide)
  have hquote : isQuote d = false := by
    rcases hd with rfl | rfl <;> decide
  have hbefore : d ∉ key ++ s₁ := by
    intro hmem
    rcases List.mem_append.mp hmem with hmem | hmem
    · rcases hd with rfl | rfl
      · exact h.isKey.not_other (by decide) hmem
      · exact h.isKey.not_other (by decide) hmem
    · rw [h.blanks d hmem] at hspace
      cases hspace
  have hafter : d ∉ s₂ ++ quote := by
    intro hmem
    rcases List.mem_append.mp hmem with hmem | hmem
    · rw [h.blanks' d hmem] at hspace
      cases hspace
    · rw [h.quote_chars d hmem] at hquote
      cases hquote
  rw [← List.append_assoc] at heq
  rcases List.append_eq_append_iff.mp heq with ⟨w, hy, hrest⟩ | ⟨w, hfront, hrest⟩
  · cases w with
    | nil => exact (List.cons.inj hrest).2.symm
    | cons e w =>
        obtain ⟨-, htail⟩ := List.cons.inj hrest
        exact absurd (htail ▸ List.mem_append_right w List.mem_cons_self) hafter
  · cases w with
    | nil => exact (List.cons.inj hrest).2
    | cons e w =>
        obtain ⟨rfl, -⟩ := List.cons.inj hrest
        exact absurd (hfront ▸ List.mem_append_right y List.mem_cons_self) hbefore

end IsCredential

theorem credential_word_parts {pre post : List Char} (h : Word T.isWord (GENERIC_KEY_RE T) x)
    (hin : pre ++ x ++ post = v) : ∃ y d z, v = y ++ d :: z ∧ (d = ':' ∨ d = '=') ∧
      (∃ key s₁, y = pre ++ (key ++ s₁) ∧ IsKey T key ∧ ∀ d ∈ s₁, T.isSpace d = true) ∧
      ∃ e ∈ z, isValueChar T e = true := by
  obtain ⟨key, s₁, c, s₂, quote, v', rfl, hx⟩ := credential_parts h
  obtain ⟨e, v'', rfl⟩ := List.exists_cons_of_ne_nil hx.value_ne_nil
  refine ⟨pre ++ (key ++ s₁), c, s₂ ++ (quote ++ (e :: v'' ++ quote)) ++ post, ?_, hx.sep, ⟨key, s₁, rfl, hx.isKey, hx.blanks⟩, e, ?_,
    hx.chars e List.mem_cons_self⟩
  · rw [← hin]
    simp only [List.append_assoc, List.cons_append]
  · simp

theorem generic_solid (h : Word T.isWord (GENERIC_KEY_RE T) x) : Plainly T x := by
  obtain ⟨key, s₁, c, s₂, quote, v, rfl, hx⟩ := credential_parts h
  exact hx.solid

theorem generic_head (h : Word T.isWord (GENERIC_KEY_RE T) x) :
    ∃ c rest, x = c :: rest ∧ c ∉ otherChars := by
  obtain ⟨key, s₁, c, s₂, quote, v, rfl, hx⟩ := credential_parts h
  obtain ⟨e, key', rfl⟩ := List.exists_cons_of_ne_nil hx.isKey.ne_nil
  exact ⟨e, _, rfl, fun he => hx.isKey.not_other he List.mem_cons_self⟩

theorem generic_marked (h : Word T.isWord (GENERIC_KEY_RE T) x) :
    SelfMarked (Blank T) Bar Body (Word T.isWord (GENERIC_KEY_RE T)) x (hideValue T x) := by
  obtain ⟨key, s₁, c, s₂, quote, v, rfl, hx⟩ := credential_parts h
  refine ⟨key ++ (s₁ ++ c :: (s₂ ++ quote)), [], '[', "REDACTED:".toList ++ "credential".toList, ']',
    quote, ?_, ?_, ?_, by simp, Or.inl rfl, Or.inr rfl, ⟨"credential", by decide, rfl⟩, ?_, ?_⟩
  · rw [hx.hideValue_eq]
    simp [mark]
  · exact ⟨v ++ quote, by simp⟩
  · exact ⟨key ++ (s₁ ++ c :: (s₂ ++ (quote ++ v))), by simp⟩
  · intro text y z hquote hne w hw hpre
    obtain ⟨e, rest, rfl, he⟩ := generic_head hw
    obtain ⟨d, z, rfl⟩ := List.exists_cons_of_ne_nil hne
    obtain ⟨rfl, -⟩ := List.cons_prefix_cons.mp hpre
    have hd := hx.quote_chars e (hquote ▸ List.mem_append_right y List.mem_cons_self)
    have hall : ∀ d ∈ ['\x27', '\x22'], d ∈ otherChars := by decide
    exact he (hall e (of_decide_eq_true hd))
  · rintro w hw ⟨pre, post, hin⟩
    obtain ⟨y, d, z, hsplit, hd, -, e, he, hvalue⟩ := credential_word_parts hw hin
    obtain ⟨-, hspace, hquote⟩ := valueChar_plain hvalue
    rw [hx.split_at_sep hd hsplit] at he
    rcases List.mem_append.mp he with he | he
    · rw [hx.blanks' e he] at hspace
      cases hspace
    · rw [hx.quote_chars e he] at hquote
      cases hquote

theorem generic_body {m : List Char} (hm : Body m) (h : Word T.isWord (GENERIC_KEY_RE T) x) :
    ¬x <:+: m := by
  rintro ⟨pre, post, hin⟩
  obtain ⟨kind, hkind, rfl⟩ := hm
  obtain ⟨y, d, z, hsplit, hd, ⟨key, s₁, rfl, hkey, -⟩, -⟩ := credential_word_parts h hin
  have hnone : ∀ kind ∈ kinds, ∀ c ∈ kind.toList, c ≠ ':' ∧ c ≠ '=' := by decide
  have hletters : ∀ c ∈ "REDACTED:".toList, c.toNat < 128 ∧
      ∀ d ∈ ['k', 's', 'w'], d.toNat < 128 ∧ c.toLower ≠ d.toLower := by decide
  obtain ⟨c, hc, d', hd', hsame⟩ := hkey.beyond_mark
  have hc' : c ∈ "REDACTED:".toList := by
    rcases List.append_eq_append_iff.mp hsplit with ⟨w, hy, hrest⟩ | ⟨w, hfront, hrest⟩
    · -- the separator would stand in the kind
      have hmem : d ∈ kind.toList := by
        rw [hrest]
        simp
      rcases hd with rfl | rfl
      · exact absurd rfl (hnone kind hkind _ hmem).1
      · exact absurd rfl (hnone kind hkind _ hmem).2
    · rw [hfront]
      simp [hc]
  obtain ⟨hascii, hne⟩ := hletters c hc'
  exact letter_ne hsame hascii (hne d' hd').1 (hne d' hd').2 rfl

end Credentials

section Stages

variable {r : Regex} {f : List Char → List Char} {P : List Char → Prop} {text x lead : List Char}

-- What a mark can neither hold nor cut.
structure Kept (T : LetterTable) (P : List Char → Prop) : Prop where
  solid : ∀ x, P x → Plainly T x
  body : ∀ m, Body m → ∀ x, P x → ¬x <:+: m

def Absent (P : List Char → Prop) (text : List Char) : Prop := ∀ x, P x → ¬x <:+: text

theorem kept_of_lead (h : ∀ x, P x → Led T lead x)
    (hkinds : ∀ kind ∈ kinds, ¬lead <:+: "REDACTED:".toList ++ kind.toList) : Kept T P where
  solid x hx := (h x hx).solid
  body := by
    rintro _ ⟨kind, hkind, rfl⟩ x hx hin
    exact hkinds kind hkind ((h x hx).leads.isInfix.trans hin)

theorem bearer_kept : Kept T (Word T.isWord (BEARER_RE T)) :=
  kept_of_lead (fun _ => bearer_led) (by decide)

theorem basic_kept : Kept T (Word T.isWord (BASIC_AUTH_HEADER_RE T)) :=
  kept_of_lead (fun _ => basic_led) (by decide)

theorem akid_kept : Kept T (Word T.isWord AWS_AKID_RE) :=
  kept_of_lead (fun _ => akid_led) (by decide)

theorem slack_kept : Kept T (Word T.isWord SLACK_RE) :=
  kept_of_lead (fun _ => slack_led) (by decide)

theorem github_kept : Kept T (Word T.isWord GITHUB_RE) :=
  kept_of_lead (fun _ => github_led) (by decide)

theorem jwt_kept : Kept T (Word T.isWord JWT_RE) :=
  kept_of_lead (fun _ => jwt_led) (by decide)

theorem generic_kept : Kept T (Word T.isWord (GENERIC_KEY_RE T)) where
  solid _ := generic_solid
  body _ hm _ := generic_body hm

theorem Kept.not_nil (h : Kept T P) : ¬P [] := fun hnil => (h.solid [] hnil).ne_nil rfl

theorem const_marked {kind : String} (hkind : kind ∈ kinds) (h : Kept T P) :
    SelfMarked (Blank T) Bar Body P x (mark kind) := by
  refine ⟨[], [], '[', "REDACTED:".toList ++ kind.toList, ']', [], by simp [mark], List.nil_prefix,
    List.nil_suffix, by simp, Or.inl rfl, Or.inr rfl, ⟨kind, hkind, rfl⟩, fun _ => NoStart.nil, ?_⟩
  intro w hw hin
  exact (h.solid w hw).ne_nil (List.infix_nil.mp hin)

theorem basic_marked (h : Word T.isWord (BASIC_AUTH_HEADER_RE T) x) :
    SelfMarked (Blank T) Bar Body (Word T.isWord (BASIC_AUTH_HEADER_RE T)) x
      ("Basic ".toList ++ mark "basic_auth") := by
  refine ⟨"Basic".toList, [' '], '[', "REDACTED:".toList ++ "basic_auth".toList, ']', [],
    by decide, (basic_led h).leads, List.nil_suffix, ?_, Or.inl rfl, Or.inr rfl,
    ⟨"basic_auth", by decide, rfl⟩, fun _ => NoStart.nil, ?_⟩
  · intro c hc
    rw [List.mem_singleton.mp hc, Blank, T.space_ascii _ (by decide)]
    decide
  · intro w hw hin
    exact absurd hin.length_le (Nat.not_le_of_lt (basic_led hw).longer)

theorem sub_absent (hr : Plain r) (hkept : Kept T (Word T.isWord r))
    (hf : ∀ w, Word T.isWord r w →
      SelfMarked (Blank T) Bar Body (Word T.isWord r) w (f w)) :
    Absent (Word T.isWord r) (sub T.isWord r f text) := by
  have hscanned : Scanned (Word T.isWord r) text (scan T.isWord r text) :=
    scanned_scan hr hkept.not_nil
  exact fresh_render hf hscanned hkept.solid hkept.body NoStart.nil

theorem sub_keeps (hr : Plain r) (hempty : ¬Word T.isWord r [])
    (hf : ∀ w, Word T.isWord r w → Marked (Blank T) Bar Body w (f w)) (hkept : Kept T P)
    (h : Absent P text) : Absent P (sub T.isWord r f text) := by
  intro x hx hin
  have hscanned : Scanned (Word T.isWord r) text (scan T.isWord r text) := scanned_scan hr hempty
  have hleft : x <:+: [] ++ render f (scan T.isWord r text) := hin
  rcases infix_render hf hscanned (hkept.solid x hx) hleft with hin | ⟨m, hm, hin⟩
  · exact h x hx hin
  · exact hkept.body m hm x hx hin

theorem sub_unchanged (hr : Plain r) (hempty : ¬Word T.isWord r [])
    (h : Absent (Word T.isWord r) text) : sub T.isWord r f text = text :=
  render_of_fixed (scanned_scan hr hempty) fun w hw hin => absurd hin (h w hw)

end Stages

section AccessKeys

variable {P : List Char → Prop} {text out : List Char} {ms : List (ℕ × ℕ)}

-- Stretches of the text, a mark after each.
def Extends (text out : List Char) : Prop :=
  ∀ z, Stitched Bar Body (· <:+: text) z → Stitched Bar Body (· <:+: text) (out ++ z)

theorem Extends.add {kind : String} {i j : ℕ} (h : Extends text out) (hkind : kind ∈ kinds) :
    Extends text (out ++ ((text.take i).drop j ++ mark kind)) := by
  intro z hz
  have hstretch : (text.take i).drop j <:+: text :=
    (List.drop_suffix j _).isInfix.trans (List.take_prefix i text).isInfix
  have hmark : out ++ ((text.take i).drop j ++ mark kind) ++ z =
      out ++ ((text.take i).drop j ++ '[' :: (("REDACTED:".toList ++ kind.toList) ++ ']' :: z)) := by
    simp [mark]
  rw [hmark]
  exact h _ (.cons hstretch (Or.inl rfl) (Or.inr rfl) ⟨kind, hkind, rfl⟩ hz)

theorem awsStep_extends (acc : List Char × ℕ) (m : ℕ × ℕ) (h : Extends text acc.1) :
    Extends text (awsStep text acc m).1 := by
  unfold awsStep
  dsimp only
  split
  · exact h.add (by decide)
  · exact (h.add (by decide)).add (by decide)

theorem foldl_extends (acc : List Char × ℕ) (h : Extends text acc.1) :
    Extends text (ms.foldl (awsStep text) acc).1 := by
  induction ms generalizing acc with
  | nil => exact h
  | cons m ms ih => exact ih _ (awsStep_extends acc m h)

theorem aws_keeps (hkept : Kept T P) (h : Absent P text) : Absent P (redactAwsPair T text) := by
  intro x hx hin
  have hextends : Extends text
      ((spans 0 (scan T.isWord AWS_AKID_RE text)).foldl (awsStep text) ([], 0)).1 :=
    foldl_extends ([], 0) fun z hz => hz
  have hstitched : Stitched Bar Body (· <:+: text) (redactAwsPair T text) :=
    hextends _ (.last (List.drop_suffix _ _).isInfix)
  rcases infix_stitched hstitched (hkept.solid x hx) hin with ⟨y, hy, hin⟩ | ⟨m, hm, hin⟩
  · exact h x hx (hin.trans hy)
  · exact hkept.body m hm x hx hin

theorem spans_absent {i : ℕ} {ps : List Piece} (h : Scanned P text ps) (habsent : Absent P text) :
    spans i ps = [] := by
  induction h generalizing i with
  | nil => rfl
  | @between c text ps _ _ ih =>
      exact ih fun x hx hin => habsent x hx (hin.trans (List.suffix_cons c text).isInfix)
  | @found w rest ps hw _ _ => exact absurd (List.prefix_append w rest).isInfix (habsent w hw)

theorem aws_unchanged (h : Absent (Word T.isWord AWS_AKID_RE) text) :
    redactAwsPair T text = text := by
  have hscanned : Scanned (Word T.isWord AWS_AKID_RE) text (scan T.isWord AWS_AKID_RE text) :=
    scanned_scan akid_plain (akid_kept (T := T)).not_nil
  rw [redactAwsPair, spans_absent hscanned h]
  rfl

end AccessKeys

section Urls

variable {x text : List Char} {P : List Char → Prop}

theorem url_plain : Plain (BASIC_AUTH_URL_RE T) :=
  ⟨⟨plain_sets _, Or.inr trivial, plain_sets _⟩, plain_plus, trivial, plain_plus, trivial⟩

structure IsUserinfo (T : LetterTable) (user password : List Char) : Prop where
  user_ne : user ≠ []
  user_chars : ∀ c ∈ user, isUserChar T c = true
  password_ne : password ≠ []
  password_chars : ∀ c ∈ password, isPasswordChar T c = true

def schemes : List (List Char) := ["http://".toList, "https://".toList]

theorem scheme_word_iff : Word T.isWord scheme x ↔ x ∈ schemes := by
  have hplain : "http".toList ++ "://".toList = "http://".toList := by decide
  have hsecure : "http".toList ++ (['s'] ++ "://".toList) = "https://".toList := by decide
  unfold Word scheme
  simp only [matches_seq, matches_literal, matches_opt, matches_char]
  constructor
  · rintro ⟨_, _, rfl, rfl, _, _, rfl, rfl | rfl, rfl⟩
    · rw [List.nil_append, hplain]
      decide
    · rw [hsecure]
      decide
  · intro h
    rcases List.mem_cons.mp h with rfl | h
    · exact ⟨_, _, hplain.symm, rfl, [], _, rfl, Or.inl rfl, rfl⟩
    · rw [List.mem_singleton.mp h]
      exact ⟨_, _, hsecure.symm, rfl, ['s'], _, rfl, Or.inr rfl, rfl⟩

theorem url_word_iff : Word T.isWord (BASIC_AUTH_URL_RE T) x ↔ ∃ s ∈ schemes, ∃ user password,
    x = s ++ (user ++ ':' :: (password ++ ['@'])) ∧ IsUserinfo T user password := by
  constructor
  · intro h
    obtain ⟨s, _, rfl, hs, h⟩ := matches_seq.mp h
    obtain ⟨user, _, rfl, huser, h⟩ := matches_seq.mp h
    obtain ⟨_, _, rfl, hcolon, h⟩ := matches_seq.mp h
    obtain ⟨password, _, rfl, hpassword, hat⟩ := matches_seq.mp h
    have hscheme : Plain scheme := ⟨plain_sets _, Or.inr trivial, plain_sets _⟩
    rw [matches_char.mp hcolon, matches_char.mp hat]
    obtain ⟨hune, huchars⟩ := matches_plus_set.mp huser
    obtain ⟨hpne, hpchars⟩ := matches_plus_set.mp hpassword
    exact ⟨s, scheme_word_iff.mp (hscheme.moved hs), user, password, rfl, hune, huchars, hpne, hpchars⟩
  · rintro ⟨s, hs, user, password, rfl, h⟩
    have hscheme : Plain scheme := ⟨plain_sets _, Or.inr trivial, plain_sets _⟩
    have hword : Word T.isWord scheme s := scheme_word_iff.mpr hs
    refine matches_seq.mpr ⟨s, _, rfl, hscheme.moved hword, matches_seq.mpr ⟨user, _, rfl, ?_, ?_⟩⟩
    · exact matches_plus_set.mpr ⟨h.user_ne, h.user_chars⟩
    · refine matches_seq.mpr ⟨[':'], _, rfl, matches_char.mpr rfl, matches_seq.mpr
        ⟨password, ['@'], rfl, ?_, matches_char.mpr rfl⟩⟩
      exact matches_plus_set.mpr ⟨h.password_ne, h.password_chars⟩

theorem schemeOf_append {s rest : List Char} (h : s ∈ schemes) : schemeOf (s ++ rest) = s := by
  have hlong : "https".toList = ['h', 't', 't', 'p', 's'] := by decide
  have hplain : "http://".toList = ['h', 't', 't', 'p', ':', '/', '/'] := by decide
  have hsecure : "https://".toList = ['h', 't', 't', 'p', 's', ':', '/', '/'] := by decide
  unfold schemeOf
  rcases List.mem_cons.mp h with rfl | h
  · rw [if_neg]
    rw [hlong, hplain]
    rintro ⟨t, ht⟩
    simp at ht
  · rw [List.mem_singleton.mp h, if_pos]
    rw [hlong, hsecure]
    exact ⟨[':', '/', '/'] ++ rest, by simp⟩

theorem url_marked (h : Word T.isWord (BASIC_AUTH_URL_RE T) x) :
    Marked (Blank T) Bar Body x (schemeOf x ++ (mark "basic_auth" ++ ['@'])) := by
  obtain ⟨s, hs, user, password, rfl, -⟩ := url_word_iff.mp h
  rw [schemeOf_append hs]
  refine ⟨s, [], '[', "REDACTED:".toList ++ "basic_auth".toList, ']', ['@'], by simp [mark],
    List.prefix_append _ _, ?_, by simp, Or.inl rfl, Or.inr rfl, "basic_auth", by decide, rfl⟩
  exact ⟨s ++ (user ++ ':' :: password), by simp⟩

theorem url_not_nil : ¬Word T.isWord (BASIC_AUTH_URL_RE T) [] := by
  intro h
  obtain ⟨s, hs, user, password, hnil, -⟩ := url_word_iff.mp h
  simp at hnil

theorem url_keeps {P : List Char → Prop} (hkept : Kept T P) (h : Absent P text) :
    Absent P (redactBasicAuth T text) :=
  sub_keeps url_plain url_not_nil (fun _ => url_marked) hkept h

end Urls

end Redaction

end BTagent
