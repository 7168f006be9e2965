import BTagent.Engine.Scope

namespace BTagent

namespace Scope
open Regex

structure IsLabel (l : List Char) : Prop where
  length : l.length ≤ 63
  chars : ∀ c ∈ l, isLabelChar c = true
  first : ∃ c ∈ l.head?, c.isAlphanum = true
  last : ∃ c ∈ l.getLast?, c.isAlphanum = true

def IsTld (t : List Char) : Prop := 2 ≤ t.length ∧ ∀ c ∈ t, c.isAlpha = true

-- Labels, each ended by a dot, before a top-level domain.
inductive DomainBody : List Char → Prop where
  | tld {t : List Char} : IsTld t → DomainBody t
  | label {l b : List Char} : IsLabel l → DomainBody b → DomainBody (l ++ '.' :: b)

def IsDomain (d : List Char) : Prop := ∃ l b, d = l ++ '.' :: b ∧ IsLabel l ∧ DomainBody b

-- No longer domain starts where `d` starts.
def Longest (T : CharTable) (d post : List Char) : Prop :=
  ∀ e rest, post = e ++ rest → rest.head?.any T.isWord = false → DomainBody (d ++ e) → e = []

variable {T : CharTable} {prev : Option Char} {w rest pre post l b d t : List Char} {n : ℕ}

theorem alnum_label {c : Char} (h : c.isAlphanum = true) : isLabelChar c = true := by
  simp [isLabelChar, h]

theorem alpha_range {c : Char} (h : c.isAlpha = true) :
    (65 ≤ c.toNat ∧ c.toNat ≤ 90) ∨ (97 ≤ c.toNat ∧ c.toNat ≤ 122) := by
  rcases (Bool.or_eq_true _ _).mp h with h | h
  · have hrange : 'A'.val ≤ c.val ∧ c.val ≤ 'Z'.val := of_decide_eq_true h
    exact Or.inl ⟨UInt32.le_iff_toNat_le.mp hrange.1, UInt32.le_iff_toNat_le.mp hrange.2⟩
  · have hrange := (Bool.and_eq_true _ _).mp h
    exact Or.inr ⟨UInt32.le_iff_toNat_le.mp (of_decide_eq_true hrange.1),
      UInt32.le_iff_toNat_le.mp (of_decide_eq_true hrange.2)⟩

theorem alpha_word {c : Char} (h : c.isAlpha = true) : T.isWord c = true := by
  have hascii : c.toNat < 128 := by
    rcases alpha_range h with h | h <;> omega
  rw [T.word_ascii c hascii]
  simp [Char.isAlphanum, h]

theorem alnum_word {c : Char} (h : c.isAlphanum = true) : T.isWord c = true := by
  rcases Bool.or_eq_true_iff.mp h with h | h
  · exact alpha_word h
  · exact T.word_of_digit c (T.isDigit_of_ascii h)

theorem alpha_not_digit {c : Char} (h : c.isAlpha = true) : T.isDigit c = false := by
  have hrange := alpha_range h
  rw [T.digit_ascii c (by omega)]
  by_contra hd
  have hdigit : 48 ≤ c.toNat ∧ c.toNat ≤ 57 := Char.isDigit_iff_toNat.mp (by simpa using hd)
  omega

theorem label_no_dot (h : IsLabel l) : '.' ∉ l := fun hmem => absurd (h.chars _ hmem) (by decide)

theorem tld_no_dot (h : IsTld t) : '.' ∉ t := fun hmem => absurd (h.2 _ hmem) (by decide)

section Label

theorem label_match (h : Matches T.isWord label prev w rest) : ∃ l, w = l ++ ['.'] ∧ IsLabel l := by
  obtain ⟨_, _, rfl, hfirst, h⟩ := matches_seq.mp h
  obtain ⟨c, rfl, hc⟩ := matches_set.mp hfirst
  obtain ⟨m, _, rfl, hmid, hdot⟩ := matches_seq.mp h
  obtain rfl := matches_char.mp hdot
  refine ⟨c :: m, rfl, ?_⟩
  rcases matches_opt.mp hmid with rfl | hmid
  · exact ⟨by simp, by simpa using alnum_label hc, ⟨c, rfl, hc⟩, ⟨c, rfl, hc⟩⟩
  · obtain ⟨u, _, rfl, hu, hlast⟩ := matches_seq.mp hmid
    obtain ⟨e, rfl, he⟩ := matches_set.mp hlast
    obtain ⟨hlen, hall⟩ := repeats_set.mp (matches_upTo.mp hu)
    refine ⟨?_, ?_, ⟨c, rfl, hc⟩, ⟨e, ?_, he⟩⟩
    · simp only [List.length_cons, List.length_append, List.length_nil]
      omega
    · simp only [List.forall_mem_cons, List.forall_mem_append]
      exact ⟨alnum_label hc, hall, alnum_label he, by simp⟩
    · rw [Option.mem_def, ← List.cons_append, List.getLast?_concat]

theorem label_at (h : IsLabel l) : Matches T.isWord label prev (l ++ ['.']) rest := by
  obtain ⟨hlen, hall, ⟨c, hhead, hc⟩, ⟨e, hlast, he⟩⟩ := h
  obtain ⟨m, rfl⟩ := List.head?_eq_some_iff.mp hhead
  refine matches_seq.mpr ⟨[c], m ++ ['.'], rfl, matches_set.mpr ⟨c, rfl, hc⟩, ?_⟩
  refine matches_seq.mpr ⟨m, ['.'], rfl, matches_opt.mpr ?_, matches_char.mpr rfl⟩
  cases m using List.reverseRecOn with
  | nil => exact Or.inl rfl
  | append_singleton u f _ =>
      rw [← List.cons_append, List.getLast?_concat] at hlast
      obtain rfl := Option.some.inj hlast
      refine Or.inr (matches_seq.mpr ⟨u, [f], rfl, ?_, matches_set.mpr ⟨f, rfl, he⟩⟩)
      refine matches_upTo.mpr (repeats_set.mpr ⟨?_, ?_⟩)
      · simp only [List.length_cons, List.length_append, List.length_nil] at hlen
        omega
      · exact fun x hx => hall x (by simp [hx])

theorem label_unique (h : IsLabel l) {m : List Char × List Char}
    (hm : m ∈ splits T.isWord label prev ((l ++ ['.']) ++ rest)) : m = (l ++ ['.'], rest) := by
  obtain ⟨w', rest'⟩ := m
  obtain ⟨l', rfl, hl'⟩ := label_match (matches_of_mem hm)
  have heq := sound_splits hm
  rw [List.append_assoc, List.append_assoc] at heq
  have hchars : ∀ {l : List Char}, IsLabel l → ∀ c ∈ l, (c != '.') = true := by
    intro l hl c hc
    simp only [bne_iff_ne, ne_eq]
    rintro rfl
    exact label_no_dot hl hc
  obtain ⟨rfl, hrest⟩ := run_unique (p := (· != '.')) (hchars h) (hchars hl') (by simp) (by simp) heq
  have hrest' : rest = rest' := (List.cons.inj hrest).2
  rw [hrest']

end Label

section Tld

theorem tld_match (h : Matches T.isWord tld prev w rest) : IsTld w := by
  obtain ⟨_, _, rfl, hfirst, h⟩ := matches_seq.mp h
  obtain ⟨_, v, rfl, hsecond, hrest⟩ := matches_seq.mp h
  obtain ⟨c, rfl, hc⟩ := matches_set.mp hfirst
  obtain ⟨e, rfl, he⟩ := matches_set.mp hsecond
  refine ⟨by simp, ?_⟩
  simp only [List.singleton_append, List.forall_mem_cons]
  exact ⟨hc, he, matches_star_set.mp hrest⟩

theorem tld_at (h : IsTld t) : Matches T.isWord tld prev t rest := by
  match t, h with
  | c :: e :: t, h =>
      obtain ⟨hc, he, hall⟩ : c.isAlpha = true ∧ e.isAlpha = true ∧ ∀ x ∈ t, x.isAlpha = true := by
        simpa using h.2
      refine matches_seq.mpr ⟨[c], e :: t, rfl, matches_set.mpr ⟨c, rfl, hc⟩, ?_⟩
      exact matches_seq.mpr ⟨[e], t, rfl, matches_set.mpr ⟨e, rfl, he⟩,
        matches_star_set.mpr hall⟩

theorem tld_last (h : IsTld t) : ∃ c ∈ t.getLast?, T.isWord c = true := by
  have hne : t ≠ [] := by
    rintro rfl
    simp [IsTld] at h
  exact ⟨t.getLast hne, List.getLast?_eq_some_getLast hne, alpha_word (h.2 _ (List.getLast_mem hne))⟩

def ending : Regex := seq tld boundary

theorem ending_match (h : Matches T.isWord ending prev w rest) :
    IsTld w ∧ rest.head?.any T.isWord = false := by
  obtain ⟨t, _, rfl, htld, hend⟩ := matches_seq.mp h
  obtain ⟨rfl, hbound⟩ := matches_boundary.mp hend
  have ht := tld_match htld
  rw [List.append_nil]
  exact ⟨ht, (atBoundary_end (tld_last ht)).mp hbound⟩

theorem ending_head? (ht : IsTld t) (hpost : post.head?.any T.isWord = false) :
    (splits T.isWord ending prev (t ++ post)).head? = some (t, post) := by
  apply head?_of_unique
  · refine matches_seq.mpr ⟨t, [], by simp, tld_at ht, ?_⟩
    exact matches_boundary.mpr ⟨rfl, (atBoundary_end (tld_last ht)).mpr hpost⟩
  · intro w' rest' hw'
    obtain ⟨hw, hrest⟩ := ending_match (matches_of_mem hw')
    have hnot : ∀ {xs : List Char}, xs.head?.any T.isWord = false →
        xs.head?.any Char.isAlpha = false := by
      intro xs hxs
      cases xs with
      | nil => rfl
      | cons x xs =>
          by_contra hx
          have hword : T.isWord x = true := alpha_word (by simpa using hx)
          simp [hword] at hxs
    exact (run_unique hw.2 ht.2 (hnot hrest) (hnot hpost) (sound_splits hw').symm).1

end Tld

section Domain

def labelsThen (n : ℕ) (T : CharTable) : Matcher :=
  chain (repeated (splits T.isWord label) n) (splits T.isWord ending)

theorem labelsThen_body (h : (w, rest) ∈ labelsThen n T prev (w ++ rest)) :
    DomainBody w ∧ rest.head?.any T.isWord = false := by
  obtain ⟨u, mid, v, hu, hv, rfl⟩ := mem_chain.mp h
  obtain ⟨htld, hrest⟩ := ending_match (matches_of_mem hv)
  refine ⟨?_, hrest⟩
  have hmid := sound_splits hv
  subst hmid
  rw [List.append_assoc] at hu
  clear h hv
  generalize v ++ rest = tail at hu
  have hrep := mem_repeated.mp hu
  clear hu
  induction hrep with
  | nil => exact .tld htld
  | cons hone _ ih =>
      obtain ⟨l, rfl, hl⟩ := label_match hone
      have hbody := DomainBody.label hl ih
      simpa using hbody

theorem labelsThen_zero : labelsThen 0 T prev w = splits T.isWord ending prev w := chain_skip

theorem labelsThen_succ : labelsThen (n + 1) T prev w =
    chain (splits T.isWord label) (labelsThen n T) prev w ++ splits T.isWord ending prev w := by
  have hassoc : chain (chain (splits T.isWord label) (repeated (splits T.isWord label) n))
      (splits T.isWord ending) prev w = chain (splits T.isWord label) (labelsThen n T) prev w :=
    chain_assoc
  have hor : labelsThen (n + 1) T prev w =
      chain (chain (splits T.isWord label) (repeated (splits T.isWord label) n))
        (splits T.isWord ending) prev w ++
      chain (fun _ text => [([], text)]) (splits T.isWord ending) prev w := chain_or
  rw [hor, hassoc, chain_skip]

theorem no_label_after (ht : IsTld t) (hlong : Longest T t post) :
    chain (splits T.isWord label) (labelsThen n T) prev (t ++ post) = [] := by
  by_contra hne
  obtain ⟨⟨w, rest⟩, ms, hms⟩ := List.exists_cons_of_ne_nil hne
  have hmem : (w, rest) ∈ chain (splits T.isWord label) (labelsThen n T) prev (t ++ post) := by
    simp [hms]
  obtain ⟨u, mid, v, hu, hv, rfl⟩ := mem_chain.mp hmem
  obtain ⟨l, rfl, hl⟩ := label_match (matches_of_mem hu)
  have hmid : mid = v ++ rest :=
    Sound.chain (Sound.repeated sound_splits) sound_splits hv
  subst hmid
  obtain ⟨hbody, hrest⟩ := labelsThen_body hv
  have htext : t ++ post = l ++ '.' :: (v ++ rest) := by
    simpa using sound_splits hu
  have hwhole : DomainBody (l ++ '.' :: v) := .label hl hbody
  rcases List.append_eq_append_iff.mp htext with ⟨e, hle, hpost⟩ | ⟨e, hte, hdot⟩
  · have hlonger := hlong (e ++ '.' :: v) rest (by simp [hpost]) hrest
      (by rwa [← List.append_assoc, ← hle])
    simp at hlonger
  · cases e with
    | nil =>
        have hpost : post = '.' :: (v ++ rest) := by simpa using hdot.symm
        have hlonger := hlong ('.' :: v) rest (by simp [hpost]) hrest (by
          rw [List.append_nil] at hte
          rwa [hte])
        cases hlonger
    | cons x e =>
        obtain ⟨rfl, -⟩ := List.cons.inj hdot
        exact tld_no_dot ht (by simp [hte])

theorem Longest.tail (h : Longest T (l ++ '.' :: b) post) (hl : IsLabel l) : Longest T b post := by
  intro e rest hpost hrest hbody
  apply h e rest hpost hrest
  have hwhole := DomainBody.label hl hbody
  simpa using hwhole

theorem labelsThen_head? (hb : DomainBody b) (hlen : b.length ≤ n)
    (hpost : post.head?.any T.isWord = false) (hlong : Longest T b post) :
    (labelsThen n T prev (b ++ post)).head? = some (b, post) := by
  induction hb generalizing n prev with
  | tld ht =>
      cases n with
      | zero =>
          rw [labelsThen_zero]
          exact ending_head? ht hpost
      | succ n =>
          rw [labelsThen_succ, no_label_after ht hlong, List.nil_append]
          exact ending_head? ht hpost
  | @label l b hl _ ih =>
      cases n with
      | zero => simp at hlen
      | succ n =>
          have hlen' : b.length ≤ n := by
            simp only [List.length_append, List.length_cons] at hlen
            omega
          have hsplit : l ++ '.' :: b ++ post = (l ++ ['.']) ++ (b ++ post) := by simp
          have hlabel : (l ++ ['.'], b ++ post) ∈
              splits T.isWord label prev ((l ++ ['.']) ++ (b ++ post)) := label_at hl
          have hhead := chain_head? hlabel (fun m hm => label_unique hl hm)
            (ih hlen' (hlong.tail hl))
          rw [labelsThen_succ, hsplit, List.head?_append, hhead]
          simp

theorem domain_match (h : Matches T.isWord DOMAIN_PATTERN prev w rest) :
    IsDomain w ∧ rest.head?.any T.isWord = false := by
  obtain ⟨_, _, rfl, hstart, h⟩ := matches_seq.mp h
  obtain ⟨rfl, -⟩ := matches_boundary.mp hstart
  obtain ⟨_, v, rfl, hplus, hend⟩ := matches_seq.mp h
  obtain ⟨_, u, rfl, hone, hmore⟩ := matches_seq.mp hplus
  obtain ⟨l, rfl, hl⟩ := label_match hone
  have hbody : (u ++ v, rest) ∈ labelsThen (u ++ (v ++ rest)).length T
      (lastOf (lastOf prev []) (l ++ ['.'])) (u ++ v ++ rest) := by
    refine mem_chain.mpr ⟨u, v ++ rest, v, ?_, ?_, rfl⟩
    · rw [List.append_assoc]
      exact hmore
    · rw [← lastOf_append]
      exact hend
  obtain ⟨hb, hrest⟩ := labelsThen_body hbody
  exact ⟨⟨l, u ++ v, by simp, hl, hb⟩, hrest⟩

theorem domain_head? (hd : IsDomain d) (hprev : prev.any T.isWord = false)
    (hpost : post.head?.any T.isWord = false) (hlong : Longest T d post) :
    (splits T.isWord DOMAIN_PATTERN prev (d ++ post)).head? = some (d, post) := by
  obtain ⟨l, b, rfl, hl, hb⟩ := hd
  have hsplit : l ++ '.' :: b ++ post = (l ++ ['.']) ++ (b ++ post) := by simp
  have hlabel : (l ++ ['.'], b ++ post) ∈
      splits T.isWord label prev ((l ++ ['.']) ++ (b ++ post)) := label_at hl
  have hstar : (chain (splits T.isWord (star label)) (splits T.isWord ending)
      (lastOf prev (l ++ ['.'])) (b ++ post)).head? = some (b, post) :=
    labelsThen_head? hb (by simp) hpost (hlong.tail hl)
  have hhead := chain_head? hlabel (fun m hm => label_unique hl hm) hstar
  have hstart : AtBoundary T.isWord prev ((l ++ ['.']) ++ (b ++ post)).head? := by
    obtain ⟨c, hc, halnum⟩ := hl.first
    obtain ⟨m, rfl⟩ := List.head?_eq_some_iff.mp hc
    apply atBoundary_start hprev
    simp only [List.cons_append, List.head?_cons, Option.any_some]
    exact alnum_word halnum
  have hbound : ([], (l ++ ['.']) ++ (b ++ post)) ∈
      splits T.isWord boundary prev ((l ++ ['.']) ++ (b ++ post)) := by
    simp only [splits, hstart, if_true]
    exact List.mem_singleton_self _
  have hrest : (splits T.isWord (seq (plus label) ending) (lastOf prev [])
      ((l ++ ['.']) ++ (b ++ post))).head? = some ((l ++ ['.']) ++ b, post) := by
    rw [← hhead]
    exact congrArg List.head? chain_assoc
  have hwhole : (splits T.isWord DOMAIN_PATTERN prev ((l ++ ['.']) ++ (b ++ post))).head? =
      some ([] ++ ((l ++ ['.']) ++ b), post) :=
    chain_head? hbound (fun m hm => by
      simpa only [splits, hstart, if_true, List.mem_singleton] using hm) hrest
  rw [hsplit]
  simpa using hwhole

theorem domain_chars (hd : IsDomain d) :
    (∀ c ∈ d, isDomainChar c = true) ∧ ∀ c ∈ d.head?, c.isAlphanum = true := by
  obtain ⟨l, b, rfl, hl, hb⟩ := hd
  have hlabel : ∀ {l : List Char}, IsLabel l → ∀ c ∈ l, isDomainChar c = true := by
    intro l hl c hc
    simp [isDomainChar, hl.chars c hc]
  have hbody : ∀ c ∈ b, isDomainChar c = true := by
    induction hb with
    | tld ht =>
        intro c hc
        simp [isDomainChar, isLabelChar, Char.isAlphanum, ht.2 c hc]
    | label hl _ ih =>
        simp only [List.forall_mem_append, List.forall_mem_cons]
        exact ⟨hlabel hl, by decide, ih⟩
  constructor
  · simp only [List.forall_mem_append, List.forall_mem_cons]
    exact ⟨hlabel hl, by decide, hbody⟩
  · obtain ⟨c, hc, halnum⟩ := hl.first
    obtain ⟨m, rfl⟩ := List.head?_eq_some_iff.mp hc
    rintro _ ⟨⟩
    exact halnum

theorem domain_found (hd : IsDomain d) (h : Standing T isDomainChar Char.isAlphanum pre post)
    (hlong : Longest T d post) :
    String.ofList d ∈ found T DOMAIN_PATTERN (pre ++ (d ++ post)) := by
  have hne : d ≠ [] := by
    obtain ⟨l, b, rfl, -, -⟩ := hd
    simp
  have hmem := mem_finditer hne (domain_head? hd h.before h.after hlong)
    (h.detached.noneAcross fun hm => domain_chars (domain_match hm).1)
  exact List.mem_map.mpr ⟨_, hmem, rfl⟩

theorem domain_not_ip (hd : IsDomain d) : fullmatch T.isWord (IP_PATTERN T) d = false := by
  have hletter : ∃ c ∈ d, c.isAlpha = true := by
    obtain ⟨l, b, rfl, -, hb⟩ := hd
    have hbody : ∃ c ∈ b, c.isAlpha = true := by
      induction hb with
      | @tld t ht =>
          obtain ⟨c, hc⟩ := List.exists_mem_of_length_pos (by have := ht.1; omega : 0 < t.length)
          exact ⟨c, hc, ht.2 c hc⟩
      | label _ _ ih =>
          obtain ⟨c, hc, halpha⟩ := ih
          exact ⟨c, by simp [hc], halpha⟩
    obtain ⟨c, hc, halpha⟩ := hbody
    exact ⟨c, by simp [hc], halpha⟩
  by_contra hfull
  obtain ⟨w, hm⟩ : ∃ w, (w, []) ∈ splits T.isWord (IP_PATTERN T) none d := by
    simpa [fullmatch] using hfull
  have hdw : d = w := by simpa using sound_splits hm
  obtain ⟨c, hc, halpha⟩ := hletter
  have hquad := (ip_kind (matches_of_mem hm)).1 c (hdw ▸ hc)
  have hdot : c ≠ '.' := by
    rintro rfl
    exact absurd halpha (by decide)
  simp [isQuadChar, alpha_not_digit halpha, hdot] at hquad

end Domain

end Scope

end BTagent
