import BTagent.Engine.RedactionStages

namespace BTagent

namespace Redaction
open Regex

variable {T : LetterTable} {text o x : List Char}

abbrev UrlWord (T : LetterTable) : List Char → Prop := Word T.isWord (BASIC_AUTH_URL_RE T)

abbrev AkidWord (T : LetterTable) : List Char → Prop := Word T.isWord AWS_AKID_RE

abbrev GenericWord (T : LetterTable) : List Char → Prop := Word T.isWord (GENERIC_KEY_RE T)

section Cleared

-- The patterns that find nothing in a redacted text.
structure Cleared (T : LetterTable) (text : List Char) : Prop where
  bearer : Absent (Word T.isWord (BEARER_RE T)) text
  basic : Absent (Word T.isWord (BASIC_AUTH_HEADER_RE T)) text
  slack : Absent (Word T.isWord SLACK_RE) text
  github : Absent (Word T.isWord GITHUB_RE) text
  jwt : Absent (Word T.isWord JWT_RE) text

theorem const_keeps {r : Regex} {P : List Char → Prop} {kind : String} (hr : Plain r)
    (hkept : Kept T (Word T.isWord r)) (hkind : kind ∈ kinds) (hP : Kept T P) (h : Absent P text) :
    Absent P (sub T.isWord r (fun _ => mark kind) text) :=
  sub_keeps hr hkept.not_nil (fun _ _ => (const_marked hkind hkept).marked) hP h

theorem const_absent {r : Regex} {kind : String} (hr : Plain r)
    (hkept : Kept T (Word T.isWord r)) (hkind : kind ∈ kinds) :
    Absent (Word T.isWord r) (sub T.isWord r (fun _ => mark kind) text) :=
  sub_absent hr hkept fun _ _ => const_marked hkind hkept

theorem specific_cleared : Cleared T (redactSpecific T text) := by
  have hjwt : ∀ {P : List Char → Prop} {text}, Kept T P → Absent P text → Absent P
      (redactBasicAuth T (sub T.isWord JWT_RE (fun _ => mark "jwt") text)) :=
    fun hP h => url_keeps hP (const_keeps jwt_plain jwt_kept (by decide) hP h)
  have hgithub : ∀ {P : List Char → Prop} {text}, Kept T P → Absent P text → Absent P
      (redactBasicAuth T (sub T.isWord JWT_RE (fun _ => mark "jwt")
        (sub T.isWord GITHUB_RE (fun _ => mark "github_token") text))) :=
    fun hP h => hjwt hP (const_keeps github_plain github_kept (by decide) hP h)
  have hslack : ∀ {P : List Char → Prop} {text}, Kept T P → Absent P text → Absent P
      (redactBasicAuth T (sub T.isWord JWT_RE (fun _ => mark "jwt")
        (sub T.isWord GITHUB_RE (fun _ => mark "github_token")
          (sub T.isWord SLACK_RE (fun _ => mark "slack_token") text)))) :=
    fun hP h => hgithub hP (const_keeps slack_plain slack_kept (by decide) hP h)
  refine ⟨?_, ?_, ?_, ?_, ?_⟩
  · apply hslack bearer_kept (aws_keeps bearer_kept _)
    apply sub_keeps basic_plain basic_kept.not_nil (fun _ hw => (basic_marked hw).marked) bearer_kept
    exact const_absent bearer_plain bearer_kept (by decide)
  · apply hslack basic_kept (aws_keeps basic_kept _)
    exact sub_absent basic_plain basic_kept fun _ => basic_marked
  · exact hgithub slack_kept (const_absent slack_plain slack_kept (by decide))
  · exact hjwt github_kept (const_absent github_plain github_kept (by decide))
  · exact url_keeps jwt_kept (const_absent jwt_plain jwt_kept (by decide))

theorem generic_keeps {P : List Char → Prop} (hP : Kept T P) (h : Absent P text) :
    Absent P (redactGenericKey T text) :=
  sub_keeps generic_plain generic_kept.not_nil (fun _ hw => (generic_marked hw).marked) hP h

theorem Cleared.generic (h : Cleared T text) : Cleared T (redactGenericKey T text) :=
  ⟨generic_keeps bearer_kept h.bearer, generic_keeps basic_kept h.basic,
    generic_keeps slack_kept h.slack, generic_keeps github_kept h.github,
    generic_keeps jwt_kept h.jwt⟩

theorem absent_nil {P : List Char → Prop} (hP : Kept T P) : Absent P [] := by
  intro x hx hin
  rw [List.infix_nil.mp hin] at hx
  exact hP.not_nil hx

theorem redact_cleared : Cleared T (redactSecrets T text) ∧
    Absent (GenericWord T) (redactSecrets T text) := by
  by_cases hnil : text = []
  · rw [redactSecrets, if_pos hnil, hnil]
    exact ⟨⟨absent_nil bearer_kept, absent_nil basic_kept, absent_nil slack_kept,
      absent_nil github_kept, absent_nil jwt_kept⟩, absent_nil generic_kept⟩
  · rw [redactSecrets, if_neg hnil]
    exact ⟨specific_cleared.generic, sub_absent generic_plain generic_kept fun _ => generic_marked⟩

-- A second pass over a redacted text only looks at access key ids and at URLs.
theorem redact_of_cleared (h : Cleared T o) (hgeneric : Absent (GenericWord T) o) :
    redactSecrets T o = redactBasicAuth T (redactAwsPair T o) := by
  by_cases hnil : o = []
  · rw [hnil]
    rfl
  · have hspecific : redactSpecific T o = redactBasicAuth T (redactAwsPair T o) := by
      simp only [redactSpecific]
      rw [sub_unchanged bearer_plain bearer_kept.not_nil h.bearer,
        sub_unchanged basic_plain basic_kept.not_nil h.basic,
        sub_unchanged slack_plain slack_kept.not_nil (aws_keeps slack_kept h.slack),
        sub_unchanged github_plain github_kept.not_nil (aws_keeps github_kept h.github),
        sub_unchanged jwt_plain jwt_kept.not_nil (aws_keeps jwt_kept h.jwt)]
    rw [redactSecrets, if_neg hnil, hspecific]
    exact sub_unchanged generic_plain generic_kept.not_nil
      (url_keeps generic_kept (aws_keeps generic_kept hgeneric))

end Cleared

section UrlMarks

variable {user password rest s left y z : List Char} {ps : List Piece}

def urlMark : List Char := mark "basic_auth" ++ ['@']

theorem urlMark_parts : urlMark = "[REDACTED".toList ++ ':' :: ("basic_auth]".toList ++ ['@']) := by
  decide

theorem userChar_ne {c : Char} (h : isUserChar T c = true) :
    c ≠ ':' ∧ c ≠ '/' ∧ T.isSpace c = false := by
  simpa [isUserChar, and_assoc] using h

theorem passwordChar_ne {c : Char} (h : isPasswordChar T c = true) :
    c ≠ '@' ∧ c ≠ '/' ∧ T.isSpace c = false := by
  simpa [isPasswordChar, and_assoc] using h

theorem IsUserinfo.no_slash (h : IsUserinfo T user password) :
    '/' ∉ user ++ ':' :: (password ++ ['@']) := by
  intro hmem
  simp only [List.mem_append, List.mem_cons, List.not_mem_nil, or_false] at hmem
  rcases hmem with hmem | hmem | hmem | hmem
  · exact (userChar_ne (h.user_chars _ hmem)).2.1 rfl
  · exact absurd hmem (by decide)
  · exact (passwordChar_ne (h.password_chars _ hmem)).2.1 rfl
  · exact absurd hmem (by decide)

-- Where a text begins with the mark of a URL, its credentials are the mark.
theorem IsUserinfo.eq_mark (h : IsUserinfo T user password)
    (heq : user ++ ':' :: (password ++ '@' :: y) = urlMark ++ z) :
    user ++ ':' :: (password ++ ['@']) = urlMark ∧ y = z := by
  have hu : ':' ∉ user := fun hmem => (userChar_ne (h.user_chars _ hmem)).1 rfl
  have hp : '@' ∉ password := fun hmem => (passwordChar_ne (h.password_chars _ hmem)).1 rfl
  have hu' : ':' ∉ "[REDACTED".toList := by decide
  have hp' : '@' ∉ "basic_auth]".toList := by decide
  rw [urlMark_parts] at heq ⊢
  simp only [List.append_assoc, List.cons_append, List.nil_append] at heq
  obtain ⟨rfl, hrest⟩ := append_cons_inj hu hu' heq
  obtain ⟨rfl, rfl⟩ := append_cons_inj hp hp' hrest
  exact ⟨rfl, rfl⟩

def hideUserinfo (w : List Char) : List Char := schemeOf w ++ urlMark

theorem scheme_head (hs : s ∈ schemes) : ∃ t, s = 'h' :: 't' :: t := by
  have hall : ∀ s ∈ schemes, s = 'h' :: 't' :: s.drop 2 := by decide
  exact ⟨s.drop 2, hall s hs⟩

theorem scheme_of_infix {s₀ : List Char} (hs₀ : s₀ ∈ schemes) (hs : s ∈ schemes) (h : s₀ <:+: s) :
    s₀ = s := by
  have hall : ∀ s₀ ∈ schemes, ∀ s ∈ schemes, s₀ <:+: s → s₀ = s := by decide
  exact hall s₀ hs₀ s hs h

theorem scheme_last (hs : s ∈ schemes) : ∃ t, s = t ++ ['/'] := by
  have hall : ∀ s ∈ schemes, s = s.dropLast ++ ['/'] := by decide
  exact ⟨s.dropLast, hall s hs⟩

-- A text that ends in a slash and with which a URL begins lies in the URL's scheme.
theorem prefix_scheme {s₀ v t : List Char} (hv : '/' ∉ v) (h : t ++ ['/'] <+: s₀ ++ v) :
    t ++ ['/'] <+: s₀ := by
  obtain ⟨u, hu⟩ := h
  rcases List.append_eq_append_iff.mp hu with ⟨w, hs, -⟩ | ⟨w, ht, hv'⟩
  · exact ⟨w, hs.symm⟩
  · induction w using List.reverseRecOn with
    | nil =>
        rw [List.append_nil] at ht
        exact ht ▸ List.prefix_rfl
    | append_singleton w c _ =>
        rw [← List.append_assoc] at ht
        obtain ⟨-, hc⟩ := List.append_inj' ht rfl
        refine absurd ?_ hv
        rw [hv', (List.cons.inj hc).1]
        simp

theorem url_head (hs : s ∈ schemes) : ['h', 't'] <+: s := by
  obtain ⟨t, rfl⟩ := scheme_head hs
  exact ⟨t, rfl⟩

theorem scheme_unique {s' : List Char} (hs : s ∈ schemes) (hs' : s' ∈ schemes)
    (h : s ++ y = s' ++ z) : s = s' := by
  have hall : ∀ s ∈ schemes, ∀ s' ∈ schemes, s <+: s' ∨ s' <+: s → s = s' := by decide
  exact hall s hs s' hs' (List.prefix_or_prefix_of_prefix ⟨y, h⟩ (List.prefix_append s' z))

theorem hideUserinfo_append (hs : s ∈ schemes) : hideUserinfo (s ++ rest) = s ++ urlMark := by
  rw [hideUserinfo, schemeOf_append hs]

-- A URL that begins in a hidden one is the hidden one.
theorem url_in_mark (hs : s ∈ schemes) (hx : UrlWord T x) (hsplit : s ++ urlMark = y ++ z)
    (hne : z ≠ []) (hpre : x <+: z ++ rest) : y = [] ∧ x = s ++ urlMark := by
  obtain ⟨s', hs', user, password, rfl, hinfo⟩ := url_word_iff.mp hx
  cases y with
  | nil =>
      obtain ⟨rest', hrest⟩ := hpre
      rw [List.nil_append] at hsplit
      rw [← hsplit, List.append_assoc, List.append_assoc, List.append_assoc] at hrest
      obtain rfl := scheme_unique hs' hs hrest
      have htail := List.append_cancel_left hrest
      simp only [List.append_assoc, List.cons_append, List.nil_append] at htail
      exact ⟨rfl, congrArg _ (hinfo.eq_mark htail).1⟩
  | cons c y =>
      exfalso
      have hin : ['h', 't'] <+: z ++ rest := ((url_head hs').trans (List.prefix_append _ _)).trans hpre
      have hinner : ∀ s ∈ schemes, ¬['h', 't'] <:+: (s ++ urlMark).tail ∧
          (s ++ urlMark).getLast? ≠ some 'h' := by decide
      obtain ⟨hwithin, hlast⟩ := hinner s hs
      have htail : (s ++ urlMark).tail = y ++ z := by rw [hsplit]; rfl
      obtain ⟨d, z, rfl⟩ := List.exists_cons_of_ne_nil hne
      rw [List.cons_append] at hin
      have hd : 'h' = d := (List.cons_prefix_cons.mp hin).1
      subst hd
      cases z with
      | nil =>
          apply hlast
          rw [hsplit, List.getLast?_concat]
      | cons e z =>
          have he : 't' = e := (List.cons_prefix_cons.mp (List.cons_prefix_cons.mp hin).2).1
          subst he
          apply hwithin
          rw [htail]
          exact ⟨y, z, by simp⟩

-- A URL that begins before another's scheme ends before it too.
theorem prefix_of_scheme (hs : s ∈ schemes) (hx : UrlWord T x) (hne : y ≠ [])
    (hpre : x <+: y ++ (s ++ rest)) : x <+: y := by
  obtain ⟨s', hs', user, password, rfl, hinfo⟩ := url_word_iff.mp hx
  obtain ⟨t, ht⟩ := scheme_last hs
  have hslash := hinfo.no_slash
  rcases List.prefix_or_prefix_of_prefix hpre
    (show y ++ t ++ ['/'] <+: y ++ (s ++ rest) from ⟨rest, by rw [ht]; simp⟩) with hshort | hlong
  · have hlast : (s' ++ (user ++ ':' :: (password ++ ['@']))).getLast? = some '@' := by
      have hword : s' ++ (user ++ ':' :: (password ++ ['@'])) =
          (s' ++ (user ++ ':' :: password)) ++ ['@'] := by simp
      rw [hword, List.getLast?_concat]
    have hat : '@' ∉ t ++ ['/'] := by
      have hall : ∀ s ∈ schemes, '@' ∉ s := by decide
      exact ht ▸ hall s hs
    rw [List.append_assoc] at hshort
    exact prefix_of_last hlast hat hshort
  · exfalso
    have hin := prefix_scheme hslash hlong
    have hwithin : s <:+: s' := by
      obtain ⟨v, hv⟩ := hin
      exact ⟨y, v, by rw [ht, ← hv]; simp⟩
    obtain rfl := scheme_of_infix hs hs' hwithin
    have hlen := hin.length_le
    rw [List.append_assoc, ← ht, List.length_append] at hlen
    have hpos := List.length_pos_of_ne_nil hne
    omega

-- Every URL with credentials of a text in which they are hidden is a hidden one.
theorem url_of_render (h : Scanned (UrlWord T) text ps) (hleft : NoStart (UrlWord T) left text)
    (hx : UrlWord T x) (hin : x <:+: left ++ render hideUserinfo ps) :
    ∃ s ∈ schemes, x = s ++ urlMark := by
  induction h generalizing left with
  | nil =>
      rcases infix_append_cases hin with ⟨y, z, rfl, hne, hpre⟩ | hin
      · exact absurd hpre (hleft y z rfl hne x hx)
      · rw [List.infix_nil.mp hin] at hx
        exact absurd hx url_not_nil
  | @between c text ps hc _ ih =>
      apply ih (hleft.concat hc)
      rw [List.append_assoc]
      exact hin
  | @found w rest ps hw _ ih =>
      obtain ⟨s, hs, user, password, rfl, -⟩ := url_word_iff.mp hw
      have hrender : render hideUserinfo (.found (s ++ (user ++ ':' :: (password ++ ['@']))) :: ps) =
          s ++ urlMark ++ render hideUserinfo ps := by
        rw [render, List.flatMap_cons, Piece.replace, hideUserinfo_append hs]
        rfl
      rw [hrender] at hin
      rcases infix_append_cases hin with ⟨y, z, rfl, hne, hpre⟩ | hin
      · rw [List.append_assoc] at hpre
        have hshort := prefix_of_scheme hs hx hne hpre
        exact absurd (hshort.trans (List.prefix_append z _)) (hleft y z rfl hne x hx)
      · rcases infix_append_cases hin with ⟨y, z, hsplit, hne, hpre⟩ | hin
        · exact ⟨s, hs, (url_in_mark hs hx hsplit hne hpre).2⟩
        · exact ih NoStart.nil hin

theorem url_hidden (hx : UrlWord T x) (hin : x <:+: redactBasicAuth T text) :
    ∃ s ∈ schemes, x = s ++ urlMark :=
  url_of_render (scanned_scan url_plain url_not_nil) NoStart.nil hx hin

theorem url_unchanged (h : ∀ x, UrlWord T x → x <:+: text → ∃ s ∈ schemes, x = s ++ urlMark) :
    redactBasicAuth T text = text := by
  apply render_of_fixed (scanned_scan url_plain url_not_nil)
  intro w hw hin
  obtain ⟨s, hs, rfl⟩ := h w hw hin
  exact hideUserinfo_append hs

-- A mark put behind `y` does not go away with the URLs.
theorem mark_stays (h : Scanned (UrlWord T) text ps) (htext : text = y ++ '[' :: rest)
    (ho : render hideUserinfo ps = y ++ 'A' :: 'K' :: o) : False := by
  induction h generalizing y with
  | nil => exact absurd htext.symm (by simp)
  | @between c text ps _ _ ih =>
      cases y with
      | nil =>
          have hc := (List.cons.inj htext).1
          have ho' : c = 'A' := (List.cons.inj ho).1
          rw [hc] at ho'
          exact absurd ho' (by decide)
      | cons d y => exact ih (List.cons.inj htext).2 (List.cons.inj ho).2
  | @found w after ps hw _ ih =>
      obtain ⟨s, hs, user, password, rfl, hinfo⟩ := url_word_iff.mp hw
      have hrender : render hideUserinfo (.found (s ++ (user ++ ':' :: (password ++ ['@']))) :: ps) =
          s ++ urlMark ++ render hideUserinfo ps := by
        rw [render, List.flatMap_cons, Piece.replace, hideUserinfo_append hs]
        rfl
      rw [hrender] at ho
      have hbehind : ∀ q, y = s ++ urlMark ++ q →
          render hideUserinfo ps = q ++ 'A' :: 'K' :: o → False := by
        intro q hy hq
        rw [hy] at htext
        simp only [List.append_assoc, List.cons_append, List.nil_append] at htext
        exact ih (hinfo.eq_mark (List.append_cancel_left htext)).2 hq
      rcases List.append_eq_append_iff.mp ho with ⟨q, hy, hq⟩ | ⟨q, hmark, hq⟩
      · exact hbehind q hy hq
      · have hinner : ∀ s ∈ schemes, ¬['A', 'K'] <:+: s ++ urlMark ∧
            (s ++ urlMark).getLast? ≠ some 'A' := by decide
        obtain ⟨hwithin, hlast⟩ := hinner s hs
        cases q with
        | nil => exact hbehind [] (by rw [hmark, List.append_nil, List.append_nil]) hq.symm
        | cons a q =>
            obtain ⟨ha, htail⟩ := List.cons.inj hq
            subst ha
            cases q with
            | nil =>
                apply hlast
                rw [hmark, List.getLast?_concat]
            | cons b q =>
                have hb : 'K' = b := (List.cons.inj htail).1
                subst hb
                apply hwithin
                exact ⟨y, q, by rw [hmark]; simp⟩

end UrlMarks

section AccessKeys
variable {ps : List Piece} {acc : List Char × ℕ} {ms : List (ℕ × ℕ)} {i : ℕ}

theorem first_found {P : List Char → Prop} (h : Scanned P text ps) (hpresent : ¬Absent P text)
    (hempty : ¬P []) :
    ∃ y w rest tail, text = y ++ (w ++ rest) ∧ P w ∧
      spans i ps = (i + y.length, i + y.length + w.length) :: tail := by
  induction h generalizing i with
  | nil =>
      refine absurd ?_ hpresent
      intro x hx hin
      rw [List.infix_nil.mp hin] at hx
      exact hempty hx
  | @between c text ps hc _ ih =>
      have hrest : ¬Absent P text := by
        intro habsent
        apply hpresent
        intro x hx hin
        rcases List.infix_cons_iff.mp hin with hin | hin
        · exact hc x hx hin
        · exact habsent x hx hin
      obtain ⟨y, w, rest, tail, rfl, hw, hspans⟩ := @ih (i + 1) hrest
      refine ⟨c :: y, w, rest, tail, rfl, hw, ?_⟩
      rw [spans, hspans, List.length_cons, Nat.add_right_comm, Nat.add_assoc]
  | @found w rest ps hw _ _ => exact ⟨[], w, rest, _, rfl, hw, rfl⟩

theorem awsStep_grows (m : ℕ × ℕ) : acc.1 <+: (awsStep text acc m).1 := by
  unfold awsStep
  dsimp only
  split
  · exact List.prefix_append _ _
  · rw [List.append_assoc]
    exact List.prefix_append _ _

theorem foldl_grows : acc.1 <+: (ms.foldl (awsStep text) acc).1 := by
  induction ms generalizing acc with
  | nil => exact List.prefix_rfl
  | cons m ms ih => exact (awsStep_grows m).trans ih

-- The first access key id is replaced where it stands.
theorem aws_first (h : ¬Absent (AkidWord T) text) :
    ∃ y w rest out, text = y ++ (w ++ rest) ∧ AkidWord T w ∧
      redactAwsPair T text = y ++ (mark "aws_access_key_id" ++ out) := by
  have hscanned : Scanned (AkidWord T) text (scan T.isWord AWS_AKID_RE text) :=
    scanned_scan akid_plain (akid_kept (T := T)).not_nil
  obtain ⟨y, w, rest, tail, htext, hw, hspans⟩ :=
    @first_found _ _ 0 _ hscanned h (akid_kept (T := T)).not_nil
  have hfirst : y ++ mark "aws_access_key_id" <+:
      (awsStep text ([], 0) (0 + y.length, 0 + y.length + w.length)).1 := by
    have htake : (text.take (0 + y.length)).drop 0 = y := by
      rw [htext, Nat.zero_add, List.take_left, List.drop_zero]
    unfold awsStep
    dsimp only
    rw [htake, List.nil_append]
    split
    · exact List.prefix_rfl
    · exact List.prefix_append _ _
  have hout : y ++ mark "aws_access_key_id" <+: redactAwsPair T text := by
    rw [redactAwsPair, hspans, List.foldl_cons]
    exact (hfirst.trans foldl_grows).trans (List.prefix_append _ _)
  obtain ⟨out, hout⟩ := hout
  exact ⟨y, w, rest, out, htext, hw, by rw [← hout, List.append_assoc]⟩

end AccessKeys

-- A second pass changes nothing exactly where no access key id is left and every URL with credentials
-- is a hidden one.
theorem second_pass_iff (h : Cleared T o) (hgeneric : Absent (GenericWord T) o) :
    redactSecrets T o = o ↔
      Absent (AkidWord T) o ∧ ∀ x, UrlWord T x → x <:+: o → ∃ s ∈ schemes, x = s ++ urlMark := by
  rw [redact_of_cleared h hgeneric]
  constructor
  · intro hsame
    have habsent : Absent (AkidWord T) o := by
      by_contra hpresent
      obtain ⟨y, w, rest, out, ho, hw, haws⟩ := aws_first hpresent
      obtain ⟨tail, rfl⟩ := (akid_led hw).leads
      have hakia : "AKIA".toList = 'A' :: 'K' :: ['I', 'A'] := by decide
      have htext : redactAwsPair T o =
          y ++ '[' :: ("REDACTED:".toList ++ "aws_access_key_id".toList ++ ']' :: out) := by
        rw [haws, mark]
        simp
      have hrender : render hideUserinfo
          (scan T.isWord (BASIC_AUTH_URL_RE T) (redactAwsPair T o)) =
            y ++ 'A' :: 'K' :: (['I', 'A'] ++ tail ++ rest) := by
        calc render hideUserinfo (scan T.isWord (BASIC_AUTH_URL_RE T) (redactAwsPair T o))
            = redactBasicAuth T (redactAwsPair T o) := rfl
          _ = o := hsame
          _ = y ++ 'A' :: 'K' :: (['I', 'A'] ++ tail ++ rest) := by
            rw [ho, hakia]
            rfl
      exact mark_stays (scanned_scan url_plain url_not_nil) htext hrender
    refine ⟨habsent, fun x hx hin => ?_⟩
    rw [← hsame] at hin
    exact url_hidden hx hin
  · rintro ⟨habsent, hurls⟩
    rw [aws_unchanged habsent]
    exact url_unchanged hurls

end Redaction

namespace Redaction
open Regex

variable {T : LetterTable} {x : List Char}

section Values
variable {t : List Char} {left w y : List Char} {ps : List Piece} {P : List Char → Prop}

-- The stretches of a text before, between and after the values that are hidden.
def stretches (T : LetterTable) : List Char → List Piece → List (List Char)
  | left, [] => [left]
  | left, .between c :: ps => stretches T (left ++ [c]) ps
  | left, .found w :: ps =>
      (left ++ ((credentialHead T w).1 ++ (credentialHead T w).2)) ::
        stretches T (credentialHead T w).2 ps

theorem stitched_stretches :
    Stitched Bar Body (· ∈ stretches T left ps) (left ++ render (hideValue T) ps) := by
  induction ps generalizing left with
  | nil => exact .last (by simp [stretches, render])
  | cons p ps ih =>
      cases p with
      | between c =>
          have hnext : Stitched Bar Body (· ∈ stretches T (left ++ [c]) ps)
              (left ++ [c] ++ render (hideValue T) ps) := ih
          rw [List.append_assoc] at hnext
          exact hnext
      | found w =>
          have hnext : Stitched Bar Body (· ∈ stretches T left (.found w :: ps))
              ((credentialHead T w).2 ++ render (hideValue T) ps) :=
            ih.mono fun y hy => List.mem_cons_of_mem _ hy
          have hrender : left ++ render (hideValue T) (.found w :: ps) =
              (left ++ ((credentialHead T w).1 ++ (credentialHead T w).2)) ++
                '[' :: (("REDACTED:".toList ++ "credential".toList) ++
                  ']' :: ((credentialHead T w).2 ++ render (hideValue T) ps)) := by
            simp [render, Piece.replace, hideValue, mark]
          rw [hrender]
          exact .cons List.mem_cons_self (Or.inl rfl) (Or.inr rfl) ⟨"credential", by decide, rfl⟩ hnext

theorem infix_of_stretch (h : y ∈ stretches T left ps) :
    y <:+: left ++ render (hideValue T) ps := by
  induction ps generalizing left with
  | nil =>
      rw [List.mem_singleton.mp h]
      exact (List.prefix_append _ _).isInfix
  | cons p ps ih =>
      cases p with
      | between c =>
          have hin := ih h
          rw [List.append_assoc] at hin
          exact hin
      | found w =>
          have hrender : left ++ render (hideValue T) (.found w :: ps) =
              (left ++ ((credentialHead T w).1 ++ (credentialHead T w).2)) ++
                (mark "credential" ++ ((credentialHead T w).2 ++ render (hideValue T) ps)) := by
            simp [render, Piece.replace, hideValue]
          rw [hrender]
          rcases List.mem_cons.mp h with rfl | h
          · exact (List.prefix_append _ _).isInfix
          · refine (ih h).trans ?_
            rw [← List.append_assoc]
            exact (List.suffix_append _ _).isInfix

theorem absent_iff_stretches (hP : Kept T P) :
    Absent P (render (hideValue T) ps) ↔ ∀ y ∈ stretches T [] ps, Absent P y := by
  constructor
  · intro h y hy x hx hin
    exact h x hx (hin.trans (infix_of_stretch hy))
  · intro h x hx hin
    have hstitched : Stitched Bar Body (· ∈ stretches T [] ps) ([] ++ render (hideValue T) ps) :=
      stitched_stretches
    rcases infix_stitched hstitched (hP.solid x hx) hin with ⟨y, hy, hin⟩ | ⟨m, hm, hin⟩
    · exact h y hy x hx hin
    · exact hP.body m hm x hx hin

-- Hiding the values makes a URL with credentials of a stretch of the text.
def Completes (T : LetterTable) (ps : List Piece) : Prop :=
  ∃ pre mid post w, ps = pre ++ mid ++ post ∧ .found w ∈ mid ∧
    UrlWord T (render (hideValue T) mid)

theorem hidden_chars (hw : GenericWord T w) {d : Char} (hd : d = 'h' ∨ d = '@') :
    d ∉ hideValue T w := by
  obtain ⟨key, s₁, c, s₂, quote, v, rfl, hx⟩ := credential_parts hw
  have hall : ∀ d ∈ ['h', '@'], d ∈ otherChars ∧ CharTable.ascii.isSpace d = false ∧ d ≠ ':' ∧
      d ≠ '=' ∧ isQuote d = false ∧ d ∉ mark "credential" := by decide +kernel
  obtain ⟨hother, hspace, hcolon, hequal, hquote, hmark⟩ := hall d (by simpa using hd)
  have hblank : T.isSpace d = false := by
    have hascii : d.toNat < 128 := by rcases hd with rfl | rfl <;> decide
    rw [T.space_ascii d hascii]
    exact hspace
  rw [hx.hideValue_eq]
  intro hmem
  simp only [List.mem_append, List.mem_cons] at hmem
  rcases hmem with hmem | hmem | hmem | hmem | hmem | hmem | hmem
  · exact hx.isKey.not_other hother hmem
  · exact absurd (hx.blanks d hmem) (by simp [hblank])
  · rcases hx.sep with hsep | hsep
    · exact hcolon (hmem.trans hsep)
    · exact hequal (hmem.trans hsep)
  · exact absurd (hx.blanks' d hmem) (by simp [hblank])
  · exact absurd (hx.quote_chars d hmem) (by simp [hquote])
  · exact hmark hmem
  · exact absurd (hx.quote_chars d hmem) (by simp [hquote])

theorem url_ends (hx : UrlWord T x) : x.head? = some 'h' ∧ x.getLast? = some '@' := by
  obtain ⟨s, hs, user, password, rfl, -⟩ := url_word_iff.mp hx
  obtain ⟨t, rfl⟩ := scheme_head hs
  constructor
  · rfl
  · have hword : 'h' :: 't' :: t ++ (user ++ ':' :: (password ++ ['@'])) =
        ('h' :: 't' :: t ++ (user ++ ':' :: password)) ++ ['@'] := by simp
    rw [hword, List.getLast?_concat]

theorem infix_of_credential : mark "credential" <:+: hideValue T w :=
  ⟨(credentialHead T w).1 ++ (credentialHead T w).2, (credentialHead T w).2, by simp [hideValue]⟩

theorem infix_of_found {f : List Char → List Char} {mid : List Piece} (h : .found w ∈ mid) :
    f w <:+: render f mid := by
  obtain ⟨pre, post, rfl⟩ := List.append_of_mem h
  exact ⟨render f pre, render f post, by rw [render_append]; simp [render, Piece.replace]⟩

theorem render_between {f g : List Char → List Char} {mid : List Piece}
    (h : ∀ w, .found w ∉ mid) : render f mid = render g mid := by
  apply List.flatMap_congr
  intro p hp
  cases p with
  | between c => rfl
  | found w => exact absurd hp (h w)

theorem urls_hidden_iff (hscan : Scanned (GenericWord T) t ps)
    (ht : ∀ x, UrlWord T x → x <:+: t → ∃ s ∈ schemes, x = s ++ urlMark) :
    (∀ x, UrlWord T x → x <:+: render (hideValue T) ps → ∃ s ∈ schemes, x = s ++ urlMark) ↔
      ¬Completes T ps := by
  constructor
  · rintro h ⟨pre, mid, post, w, rfl, hw, hx⟩
    obtain ⟨s, hs, heq⟩ := h _ hx infix_render_mid
    have hin : mark "credential" <:+: s ++ urlMark :=
      heq ▸ infix_of_credential.trans (infix_of_found hw)
    have hnone : ∀ s ∈ schemes, ¬mark "credential" <:+: s ++ urlMark := by decide +kernel
    exact hnone s hs hin
  · intro h x hx hin
    obtain ⟨hhead, hlast⟩ := url_ends hx
    obtain ⟨pre, mid, post, rfl, rfl⟩ := infix_render_cut
      (fun d hd w hw => hidden_chars (hscan.word hw)
        (Or.inl (Option.some.inj (hd.symm.trans hhead))))
      (fun d hd w hw => hidden_chars (hscan.word hw)
        (Or.inr (Option.some.inj (hd.symm.trans hlast)))) hin
    have hbetween : ∀ w, .found w ∉ mid := fun w hw => h ⟨pre, mid, post, w, rfl, hw, hx⟩
    apply ht _ hx
    have hkept : render (hideValue T) mid = render id mid := render_between hbetween
    rw [hkept, ← hscan.render_id]
    exact infix_render_mid

theorem specific_nil : redactSpecific T [] = [] := by
  have hsub : ∀ (r : Regex) (f : List Char → List Char), sub T.isWord r f [] = [] := fun _ _ => rfl
  simp only [redactSpecific, hsub, redactBasicAuth]
  rw [aws_unchanged (absent_nil akid_kept)]
  simp only [hsub]

-- What has to hold of the text before the last pattern is applied to it.
structure Settled (T : LetterTable) (t : List Char) : Prop where
  keys : ∀ y ∈ stretches T [] (scan T.isWord (GENERIC_KEY_RE T) t), Absent (AkidWord T) y
  urls : ¬Completes T (scan T.isWord (GENERIC_KEY_RE T) t)

end Values

-- The second pass changes nothing exactly where, before the last pattern, no access key id stands
-- outside the values that it hides, and none of these completes the credentials of a URL.
theorem redact_idempotent_iff (T : LetterTable) (s : List Char) :
    redactSecrets T (redactSecrets T s) = redactSecrets T s ↔ Settled T (redactSpecific T s) := by
  have hscan : Scanned (GenericWord T) (redactSpecific T s)
      (scan T.isWord (GENERIC_KEY_RE T) (redactSpecific T s)) :=
    scanned_scan generic_plain generic_kept.not_nil
  have hout : redactSecrets T s =
      render (hideValue T) (scan T.isWord (GENERIC_KEY_RE T) (redactSpecific T s)) := by
    by_cases hnil : s = []
    · rw [redactSecrets, if_pos hnil, hnil, specific_nil]
      rfl
    · rw [redactSecrets, if_neg hnil]
      rfl
  obtain ⟨hcleared, hgeneric⟩ : Cleared T (redactSecrets T s) ∧
      Absent (GenericWord T) (redactSecrets T s) := redact_cleared
  rw [second_pass_iff hcleared hgeneric, hout, absent_iff_stretches akid_kept,
    urls_hidden_iff hscan fun x hx hin => url_hidden hx hin]
  exact ⟨fun h => ⟨h.1, h.2⟩, fun h => ⟨h.keys, h.urls⟩⟩

section Examples

-- The hidden token makes a password of the user it stands in.
theorem token_completes_url :
    redactSecrets LetterTable.ascii (redactSecrets LetterTable.ascii
        "https://token=abcdefghijklmnop@h".toList) ≠
      redactSecrets LetterTable.ascii "https://token=abcdefghijklmnop@h".toList := by
  decide +kernel

end Examples

end Redaction

end BTagent
