import Mathlib.Data.List.Basic
import Mathlib.Data.List.DropRight
import Mathlib.Data.List.Forall2
import Mathlib.Data.List.Infix

-- Patterns whose matches are tried in order, as a backtracking matcher tries them; every
-- repetition is greedy and repeats a pattern that takes at least one character.
inductive Regex where
  | set (p : Char → Bool)
  | boundary
  | seq (r s : Regex)
  | alt (r s : Regex)
  | upTo (n : ℕ) (r : Regex)
  | star (r : Regex)

namespace Regex

def char (c : Char) : Regex := set (· == c)

def opt (r : Regex) : Regex := upTo 1 r

def plus (r : Regex) : Regex := seq r (star r)

def sets : List (Char → Bool) → Regex
  | [] => upTo 0 boundary
  | p :: ps => seq (set p) (sets ps)

-- A matcher gives the texts it can take at a place, with what is left; it sees the character before.
abbrev Matcher := Option Char → List Char → List (List Char × List Char)

def lastOf (prev : Option Char) (w : List Char) : Option Char := w.getLast?.or prev

def chain (first second : Matcher) : Matcher := fun prev text =>
  (first prev text).flatMap fun m =>
    (second (lastOf prev m.1) m.2).map fun m' => (m.1 ++ m'.1, m'.2)

def repeated (one : Matcher) : ℕ → Matcher
  | 0 => fun _ text => [([], text)]
  | n + 1 => fun prev text => chain one (repeated one n) prev text ++ [([], text)]

variable (isWord : Char → Bool)

def AtBoundary (prev next : Option Char) : Prop := prev.any isWord ≠ next.any isWord

instance (prev next : Option Char) : Decidable (AtBoundary isWord prev next) :=
  inferInstanceAs (Decidable (_ ≠ _))

def splits : Regex → Matcher
  | set p => fun _ text =>
      match text with
      | c :: rest => if p c then [([c], rest)] else []
      | [] => []
  | boundary => fun prev text => if AtBoundary isWord prev text.head? then [([], text)] else []
  | seq r s => chain (splits r) (splits s)
  | alt r s => fun prev text => splits r prev text ++ splits s prev text
  | upTo n r => repeated (splits r) n
  | star r => fun prev text => repeated (splits r) text.length prev text

-- A text is cut into the matches, leftmost first, and the characters between them.
inductive Piece where
  | between (c : Char)
  | found (w : List Char)
  deriving DecidableEq

def scanFrom (r : Regex) : ℕ → Option Char → List Char → List Piece
  | _, _, [] => []
  | skip + 1, _, c :: text => scanFrom r skip (some c) text
  | 0, prev, c :: text =>
      match (splits isWord r prev (c :: text)).head? with
      | some (a :: w, _) => .found (a :: w) :: scanFrom r w.length (some c) text
      | _ => .between c :: scanFrom r 0 (some c) text

def scan (r : Regex) (text : List Char) : List Piece := scanFrom isWord r 0 none text

def Piece.match? : Piece → Option (List Char)
  | .between _ => none
  | .found w => some w

def finditer (r : Regex) (text : List Char) : List (List Char) :=
  (scan isWord r text).filterMap Piece.match?

def Piece.replace (f : List Char → List Char) : Piece → List Char
  | .between c => [c]
  | .found w => f w

def sub (r : Regex) (f : List Char → List Char) (text : List Char) : List Char :=
  (scan isWord r text).flatMap (Piece.replace f)

-- The matches, each with the place where it begins.
def placed : ℕ → List Piece → List (ℕ × List Char)
  | _, [] => []
  | i, .between _ :: pieces => placed (i + 1) pieces
  | i, .found w :: pieces => (i, w) :: placed (i + w.length) pieces

def occurrences (r : Regex) (text : List Char) : List (ℕ × List Char) :=
  placed 0 (scan isWord r text)

def fullmatch (r : Regex) (text : List Char) : Bool :=
  (splits isWord r none text).any fun m => m.2.isEmpty

-- `w` is matched where `rest` follows.
def Matches (r : Regex) (prev : Option Char) (w rest : List Char) : Prop :=
  (w, rest) ∈ splits isWord r prev (w ++ rest)

-- `w` consists of at most `n` matches.
inductive Repeats (r : Regex) : ℕ → Option Char → List Char → List Char → Prop
  | nil {n prev rest} : Repeats r n prev [] rest
  | cons {n prev u v rest} : Matches isWord r prev u (v ++ rest) →
      Repeats r n (lastOf prev u) v rest → Repeats r (n + 1) prev (u ++ v) rest

section Matches
variable {isWord} {r s : Regex} {prev : Option Char} {w rest text : List Char} {n : ℕ}
  {p : Char → Bool}

theorem mem_chain {first second : Matcher} :
    (w, rest) ∈ chain first second prev text ↔ ∃ u mid v, (u, mid) ∈ first prev text ∧
      (v, rest) ∈ second (lastOf prev u) mid ∧ w = u ++ v := by
  simp only [chain, List.mem_flatMap, List.mem_map, Prod.exists, Prod.mk.injEq]
  constructor
  · rintro ⟨u, mid, hu, v, _, hv, rfl, rfl⟩
    exact ⟨u, mid, v, hu, hv, rfl⟩
  · rintro ⟨u, mid, v, hu, hv, rfl⟩
    exact ⟨u, mid, hu, v, rest, hv, rfl, rfl⟩

def Sound (m : Matcher) : Prop := ∀ {prev w rest text}, (w, rest) ∈ m prev text → text = w ++ rest

theorem Sound.chain {first second : Matcher} (hfirst : Sound first) (hsecond : Sound second) :
    Sound (chain first second) := by
  intro prev w rest text h
  obtain ⟨u, mid, v, hu, hv, rfl⟩ := mem_chain.mp h
  rw [hfirst hu, hsecond hv, List.append_assoc]

theorem Sound.repeated {one : Matcher} (hone : Sound one) : Sound (repeated one n) := by
  induction n with
  | zero =>
      intro prev w rest text h
      obtain ⟨rfl, rfl⟩ := Prod.mk.inj (List.mem_singleton.mp h)
      rfl
  | succ n ih =>
      intro prev w rest text h
      rcases List.mem_append.mp h with h | h
      · exact hone.chain ih h
      · obtain ⟨rfl, rfl⟩ := Prod.mk.inj (List.mem_singleton.mp h)
        rfl

theorem sound_splits : Sound (splits isWord r) := by
  induction r with
  | set p =>
      intro prev w rest text h
      cases text with
      | nil => cases h
      | cons c text =>
          simp only [splits] at h
          split at h
          · obtain ⟨rfl, rfl⟩ := Prod.mk.inj (List.mem_singleton.mp h)
            rfl
          · cases h
  | boundary =>
      intro prev w rest text h
      simp only [splits] at h
      split at h
      · obtain ⟨rfl, rfl⟩ := Prod.mk.inj (List.mem_singleton.mp h)
        rfl
      · cases h
  | seq r s ihr ihs => exact ihr.chain ihs
  | alt r s ihr ihs =>
      intro prev w rest text h
      rcases List.mem_append.mp h with h | h
      · exact ihr h
      · exact ihs h
  | upTo n r ih => exact ih.repeated
  | star r ih =>
      intro prev w rest text h
      exact ih.repeated h

theorem matches_of_mem (h : (w, rest) ∈ splits isWord r prev text) :
    Matches isWord r prev w rest := by
  obtain rfl := sound_splits h
  exact h

theorem matches_set : Matches isWord (set p) prev w rest ↔ ∃ c, w = [c] ∧ p c = true := by
  unfold Matches
  cases w with
  | nil =>
      cases rest with
      | nil => simp [splits]
      | cons c rest =>
          simp only [List.nil_append, splits]
          split <;> simp
  | cons c w =>
      simp only [List.cons_append, splits]
      split
      · next hc =>
          simp only [List.mem_singleton, Prod.mk.injEq, List.cons.injEq]
          constructor
          · rintro ⟨⟨-, rfl⟩, -⟩
            exact ⟨c, ⟨rfl, rfl⟩, hc⟩
          · rintro ⟨_, ⟨rfl, rfl⟩, -⟩
            simp
      · next hc =>
          constructor
          · intro h
            cases h
          · rintro ⟨_, heq, hp⟩
            obtain ⟨rfl, -⟩ := List.cons.inj heq
            exact absurd hp hc

theorem matches_char {c : Char} : Matches isWord (char c) prev w rest ↔ w = [c] := by
  rw [char, matches_set]
  constructor
  · rintro ⟨d, rfl, hd⟩
    rw [eq_of_beq hd]
  · rintro rfl
    exact ⟨c, rfl, beq_self_eq_true c⟩

theorem matches_boundary :
    Matches isWord boundary prev w rest ↔ w = [] ∧ AtBoundary isWord prev rest.head? := by
  unfold Matches
  simp only [splits]
  split
  · next hb =>
      simp only [List.mem_singleton, Prod.mk.injEq]
      constructor
      · rintro ⟨rfl, -⟩
        exact ⟨rfl, hb⟩
      · rintro ⟨rfl, -⟩
        exact ⟨rfl, rfl⟩
  · next hb =>
      constructor
      · intro h
        cases h
      · rintro ⟨rfl, hb'⟩
        exact absurd hb' hb

theorem matches_seq : Matches isWord (seq r s) prev w rest ↔ ∃ u v, w = u ++ v ∧
    Matches isWord r prev u (v ++ rest) ∧ Matches isWord s (lastOf prev u) v rest := by
  unfold Matches
  constructor
  · intro h
    obtain ⟨u, mid, v, hu, hv, rfl⟩ := mem_chain.mp h
    have hmid := sound_splits hv
    subst hmid
    exact ⟨u, v, rfl, by rwa [← List.append_assoc], hv⟩
  · rintro ⟨u, v, rfl, hu, hv⟩
    exact mem_chain.mpr ⟨u, v ++ rest, v, by rwa [List.append_assoc], hv, rfl⟩

theorem matches_sets {ps : List (Char → Bool)} : Matches isWord (sets ps) prev w rest ↔
    List.Forall₂ (fun p c => p c = true) ps w := by
  induction ps generalizing prev w with
  | nil =>
      unfold Matches
      simp [sets, splits, repeated]
  | cons p ps ih =>
      simp only [sets, matches_seq, matches_set, ih, List.forall₂_cons_left_iff]
      constructor
      · rintro ⟨_, v, rfl, ⟨c, rfl, hc⟩, hv⟩
        exact ⟨c, v, hc, hv, rfl⟩
      · rintro ⟨c, v, hc, hv, rfl⟩
        exact ⟨[c], v, rfl, ⟨c, rfl, hc⟩, hv⟩

theorem matches_alt : Matches isWord (alt r s) prev w rest ↔
    Matches isWord r prev w rest ∨ Matches isWord s prev w rest := List.mem_append

theorem mem_repeated :
    (w, rest) ∈ repeated (splits isWord r) n prev (w ++ rest) ↔
      Repeats isWord r n prev w rest := by
  constructor
  · intro h
    induction n generalizing prev w rest with
    | zero =>
        obtain ⟨rfl, -⟩ := Prod.mk.inj (List.mem_singleton.mp h)
        exact .nil
    | succ n ih =>
        rcases List.mem_append.mp h with h | h
        · obtain ⟨u, mid, v, hu, hv, rfl⟩ := mem_chain.mp h
          have hmid := sound_splits.repeated hv
          subst hmid
          exact .cons (by rwa [List.append_assoc] at hu) (ih hv)
        · obtain ⟨rfl, -⟩ := Prod.mk.inj (List.mem_singleton.mp h)
          exact .nil
  · intro h
    induction h with
    | @nil n _ rest =>
        cases n with
        | zero => exact List.mem_singleton_self _
        | succ n => exact List.mem_append_right _ (List.mem_singleton_self _)
    | @cons n prev u v rest hu _ ih =>
        refine List.mem_append_left _ (mem_chain.mpr ⟨u, v ++ rest, v, ?_, ih, rfl⟩)
        rwa [List.append_assoc]

theorem matches_upTo :
    Matches isWord (upTo n r) prev w rest ↔ Repeats isWord r n prev w rest := mem_repeated

theorem matches_star : Matches isWord (star r) prev w rest ↔
    Repeats isWord r (w ++ rest).length prev w rest := mem_repeated

theorem repeats_one : Repeats isWord r 1 prev w rest ↔ w = [] ∨ Matches isWord r prev w rest := by
  constructor
  · intro h
    cases h with
    | nil => exact Or.inl rfl
    | cons hu hv =>
        cases hv with
        | nil => exact Or.inr (by simpa using hu)
  · rintro (rfl | h)
    · exact .nil
    · have hcons : Repeats isWord r 1 prev (w ++ []) rest := .cons (by simpa using h) .nil
      simpa using hcons

theorem matches_opt : Matches isWord (opt r) prev w rest ↔
    w = [] ∨ Matches isWord r prev w rest := by
  rw [opt, matches_upTo, repeats_one]

theorem repeats_set : Repeats isWord (set p) n prev w rest ↔
    w.length ≤ n ∧ ∀ c ∈ w, p c = true := by
  constructor
  · intro h
    induction h with
    | nil => simp
    | cons hu _ ih =>
        obtain ⟨c, rfl, hc⟩ := matches_set.mp hu
        obtain ⟨hlen, hall⟩ := ih
        simp only [List.singleton_append, List.length_cons, List.forall_mem_cons]
        exact ⟨Nat.succ_le_succ hlen, hc, hall⟩
  · rintro ⟨hlen, hall⟩
    induction w generalizing n prev with
    | nil => exact .nil
    | cons c w ih =>
        cases n with
        | zero => simp at hlen
        | succ n =>
            obtain ⟨hc, hall⟩ := List.forall_mem_cons.mp hall
            have hone : Matches isWord (set p) prev [c] (w ++ rest) := matches_set.mpr ⟨c, rfl, hc⟩
            exact .cons hone (ih (Nat.le_of_succ_le_succ hlen) hall)

theorem matches_star_set : Matches isWord (star (set p)) prev w rest ↔ ∀ c ∈ w, p c = true := by
  rw [matches_star, repeats_set, List.length_append]
  exact and_iff_right (Nat.le_add_right _ _)

def Within (p : Char → Bool) : Regex → Prop
  | set q => ∀ c, q c = true → p c = true
  | boundary => True
  | seq r s => Within p r ∧ Within p s
  | alt r s => Within p r ∧ Within p s
  | upTo _ r => Within p r
  | star r => Within p r

theorem Repeats.forall (hone : ∀ {prev w rest}, Matches isWord r prev w rest → ∀ c ∈ w, p c = true)
    (h : Repeats isWord r n prev w rest) : ∀ c ∈ w, p c = true := by
  induction h with
  | nil => simp
  | cons hu _ ih =>
      intro c hc
      rcases List.mem_append.mp hc with hc | hc
      · exact hone hu c hc
      · exact ih c hc

theorem Within.forall (hr : Within p r) (h : Matches isWord r prev w rest) :
    ∀ c ∈ w, p c = true := by
  induction r generalizing prev w rest with
  | set q =>
      obtain ⟨c, rfl, hc⟩ := matches_set.mp h
      simpa using hr c hc
  | boundary =>
      obtain ⟨rfl, -⟩ := matches_boundary.mp h
      simp
  | seq r s ihr ihs =>
      obtain ⟨u, v, rfl, hu, hv⟩ := matches_seq.mp h
      intro c hc
      rcases List.mem_append.mp hc with hc | hc
      · exact ihr hr.1 hu c hc
      · exact ihs hr.2 hv c hc
  | alt r s ihr ihs =>
      rcases matches_alt.mp h with h | h
      · exact ihr hr.1 h
      · exact ihs hr.2 h
  | upTo n r ih => exact (matches_upTo.mp h).forall fun h => ih hr h
  | star r ih => exact (matches_star.mp h).forall fun h => ih hr h

theorem within_sets {ps : List (Char → Bool)} (h : ∀ q ∈ ps, ∀ c, q c = true → p c = true) :
    Within p (sets ps) := by
  induction ps with
  | nil => trivial
  | cons q ps ih =>
      exact ⟨h q List.mem_cons_self, ih fun q hq => h q (List.mem_cons_of_mem _ hq)⟩

section Head
variable {first second third : Matcher} {u mid : List Char}

theorem chain_or : chain (fun prev text => first prev text ++ second prev text) third prev text =
    chain first third prev text ++ chain second third prev text := by
  simp [chain]

theorem chain_skip : chain (fun _ text => [([], text)]) second prev text = second prev text := by
  simp [chain, lastOf]

theorem lastOf_append : lastOf prev (u ++ w) = lastOf (lastOf prev u) w := by
  simp [lastOf, List.getLast?_append, Option.or_assoc]

theorem chain_assoc :
    chain (chain first second) third prev text = chain first (chain second third) prev text := by
  simp only [chain, List.flatMap_assoc, List.flatMap_map, List.map_flatMap, List.map_map,
    lastOf_append, Function.comp_def, List.append_assoc]

theorem flatMap_head? {α β : Type*} {xs : List α} {a : α} {b : β} {f : α → List β} (hmem : a ∈ xs)
    (hunique : ∀ x ∈ xs, x = a) (hhead : (f a).head? = some b) :
    (xs.flatMap f).head? = some b := by
  obtain ⟨x, xs, rfl⟩ := List.exists_cons_of_ne_nil (List.ne_nil_of_mem hmem)
  obtain rfl := hunique x List.mem_cons_self
  rw [List.flatMap_cons, List.head?_append, hhead]
  rfl

theorem chain_head? (hmem : (u, mid) ∈ first prev text)
    (hunique : ∀ m ∈ first prev text, m = (u, mid))
    (hhead : (second (lastOf prev u) mid).head? = some (w, rest)) :
    (chain first second prev text).head? = some (u ++ w, rest) := by
  apply flatMap_head? hmem hunique
  rw [List.head?_map, hhead]
  rfl

theorem repeated_set_head? {p : Char → Bool} {n : ℕ} (hlen : w.length ≤ n)
    (hall : ∀ c ∈ w, p c = true) (hstop : ∀ c ∈ rest.head?, p c = false) :
    (repeated (splits isWord (set p)) n prev (w ++ rest)).head? = some (w, rest) := by
  induction w generalizing n prev with
  | nil =>
      cases n with
      | zero => rfl
      | succ n =>
          have hnone : splits isWord (set p) prev rest = [] := by
            cases rest with
            | nil => rfl
            | cons c rest => simp [splits, hstop c rfl]
          simp [repeated, chain, hnone]
  | cons c w ih =>
      cases n with
      | zero => simp at hlen
      | succ n =>
          obtain ⟨hc, hall⟩ := List.forall_mem_cons.mp hall
          have hone : splits isWord (set p) prev (c :: (w ++ rest)) = [([c], w ++ rest)] := by
            simp [splits, hc]
          have hrest : (repeated (splits isWord (set p)) n (lastOf prev [c]) (w ++ rest)).head? =
              some (w, rest) := ih (Nat.le_of_succ_le_succ hlen) hall
          simp [repeated, chain, hone, List.head?_append, hrest]

theorem plus_set_head? {p : Char → Bool} (hw : w ≠ []) (hall : ∀ c ∈ w, p c = true)
    (hstop : ∀ c ∈ rest.head?, p c = false) :
    (splits isWord (plus (set p)) prev (w ++ rest)).head? = some (w, rest) := by
  obtain ⟨c, w, rfl⟩ := List.exists_cons_of_ne_nil hw
  obtain ⟨hc, hall⟩ := List.forall_mem_cons.mp hall
  have hone : splits isWord (set p) prev (c :: (w ++ rest)) = [([c], w ++ rest)] := by
    simp [splits, hc]
  have hstar : (splits isWord (star (set p)) (lastOf prev [c]) (w ++ rest)).head? = some (w, rest) :=
    repeated_set_head? (by simp) hall hstop
  rw [List.cons_append]
  change (chain (splits isWord (set p)) (splits isWord (star (set p))) prev _).head? = _
  simp [chain, hone, hstar]

end Head

theorem head?_of_unique (h : Matches isWord r prev w rest)
    (hunique : ∀ {w' rest'}, (w', rest') ∈ splits isWord r prev (w ++ rest) → w' = w) :
    (splits isWord r prev (w ++ rest)).head? = some (w, rest) := by
  have hne : splits isWord r prev (w ++ rest) ≠ [] := List.ne_nil_of_mem h
  obtain ⟨⟨w', rest'⟩, ms, hms⟩ := List.exists_cons_of_ne_nil hne
  have hmem : (w', rest') ∈ splits isWord r prev (w ++ rest) := by simp [hms]
  obtain rfl := hunique hmem
  obtain rfl := List.append_cancel_left (sound_splits hmem)
  simp [hms]

end Matches

section Scan
variable {isWord} {r : Regex} {prev : Option Char} {pre w post text : List Char} {skip : ℕ}
  {p q : Char → Bool}

-- No match that begins in `pre` goes on past its end.
def NoneAcross (isWord : Char → Bool) (r : Regex) (prev : Option Char) (pre post : List Char) :
    Prop :=
  ∀ u v, pre = u ++ v → v ≠ [] → ∀ m rest,
    (m, rest) ∈ splits isWord r (lastOf prev u) (v ++ post) → m.length ≤ v.length

theorem lastOf_cons {c : Char} {u : List Char} : lastOf (some c) u = lastOf prev (c :: u) := by
  rw [lastOf, lastOf, List.getLast?_cons]
  cases u.getLast? <;> rfl

theorem scanFrom_skip :
    scanFrom isWord r w.length prev (w ++ post) = scanFrom isWord r 0 (lastOf prev w) post := by
  induction w generalizing prev with
  | nil => rfl
  | cons c w ih =>
      rw [← lastOf_cons]
      exact ih

theorem scanFrom_found (hw : w ≠ [])
    (hhead : (splits isWord r prev (w ++ post)).head? = some (w, post)) :
    scanFrom isWord r 0 prev (w ++ post) =
      .found w :: scanFrom isWord r 0 (lastOf prev w) post := by
  obtain ⟨a, w, rfl⟩ := List.exists_cons_of_ne_nil hw
  simp only [List.cons_append] at hhead ⊢
  simp only [scanFrom, hhead]
  rw [scanFrom_skip, lastOf_cons]

theorem scanFrom_between {c : Char} (h : splits isWord r prev (c :: text) = []) :
    scanFrom isWord r 0 prev (c :: text) = .between c :: scanFrom isWord r 0 (some c) text := by
  simp [scanFrom, h]

theorem NoneAcross.tail {c : Char} (h : NoneAcross isWord r prev (c :: pre) post) :
    NoneAcross isWord r (some c) pre post := by
  intro u v huv hv m rest hm
  refine h (c :: u) v (by rw [huv, List.cons_append]) hv m rest ?_
  rwa [← lastOf_cons]

theorem mem_scanFrom (hw : w ≠ [])
    (hhead : (splits isWord r (lastOf prev pre) (w ++ post)).head? = some (w, post))
    (hacross : NoneAcross isWord r prev pre (w ++ post)) (hskip : skip ≤ pre.length) :
    .found w ∈ scanFrom isWord r skip prev (pre ++ (w ++ post)) := by
  induction pre generalizing prev skip with
  | nil =>
      obtain rfl := Nat.le_zero.mp hskip
      obtain ⟨a, w, rfl⟩ := List.exists_cons_of_ne_nil hw
      have hprev : lastOf prev [] = prev := rfl
      rw [hprev] at hhead
      simp only [List.nil_append, List.cons_append] at hhead ⊢
      simp [scanFrom, hhead]
  | cons c pre ih =>
      rw [← lastOf_cons] at hhead
      cases skip with
      | succ skip => exact ih hhead hacross.tail (Nat.le_of_succ_le_succ hskip)
      | zero =>
          simp only [List.cons_append, scanFrom]
          split
          · next a m rest hm =>
              apply List.mem_cons_of_mem
              apply ih hhead hacross.tail
              have hle := hacross [] (c :: pre) rfl (List.cons_ne_nil _ _) (a :: m) rest
                (List.mem_of_mem_head? hm)
              exact Nat.le_of_succ_le_succ hle
          · exact List.mem_cons_of_mem _ (ih hhead hacross.tail (Nat.zero_le _))

theorem mem_finditer (hw : w ≠ [])
    (hhead : (splits isWord r pre.getLast? (w ++ post)).head? = some (w, post))
    (hacross : NoneAcross isWord r none pre (w ++ post)) :
    w ∈ finditer isWord r (pre ++ (w ++ post)) := by
  have hlast : lastOf none pre = pre.getLast? := by simp [lastOf]
  have hfound := mem_scanFrom hw (hlast ▸ hhead) hacross (Nat.zero_le _)
  exact List.mem_filterMap.mpr ⟨_, hfound, rfl⟩

theorem found_scanFrom (h : .found w ∈ scanFrom isWord r skip prev text) :
    ∃ pre post prev', text = pre ++ (w ++ post) ∧ Matches isWord r prev' w post := by
  induction text generalizing skip prev with
  | nil => simp [scanFrom] at h
  | cons c text ih =>
      have hlater : ∀ {skip prev}, .found w ∈ scanFrom isWord r skip prev text →
          ∃ pre post prev', c :: text = pre ++ (w ++ post) ∧ Matches isWord r prev' w post := by
        intro skip prev h
        obtain ⟨pre, post, prev', rfl, hm⟩ := ih h
        exact ⟨c :: pre, post, prev', rfl, hm⟩
      cases skip with
      | succ skip => exact hlater h
      | zero =>
          simp only [scanFrom] at h
          split at h
          · next a m rest hm =>
              rcases List.mem_cons.mp h with heq | h
              · obtain rfl := Piece.found.inj heq
                have hmem := List.mem_of_mem_head? hm
                have happ : c :: text = (a :: m) ++ rest := sound_splits hmem
                exact ⟨[], rest, prev, happ, matches_of_mem hmem⟩
              · exact hlater h
          · rcases List.mem_cons.mp h with heq | h
            · cases heq
            · exact hlater h

theorem of_mem_finditer (h : w ∈ finditer isWord r text) :
    ∃ pre post prev', text = pre ++ (w ++ post) ∧ Matches isWord r prev' w post := by
  obtain ⟨piece, hpiece, hw⟩ := List.mem_filterMap.mp h
  cases piece with
  | between c => cases hw
  | found w' =>
      obtain rfl := Option.some.inj hw
      exact found_scanFrom hpiece

-- No character of the run of `p` that ends `pre` can begin a match.
def Detached (p q : Char → Bool) (pre : List Char) : Prop := ∀ c ∈ pre.rtakeWhile p, q c = false

theorem Detached.noneAcross (h : Detached p q pre)
    (hmatch : ∀ {prev m rest}, Matches isWord r prev m rest →
      (∀ c ∈ m, p c = true) ∧ ∀ c ∈ m.head?, q c = true) :
    NoneAcross isWord r prev pre post := by
  intro u v huv hv m rest hm
  by_contra hlong
  obtain ⟨hall, hhead⟩ := hmatch (matches_of_mem hm)
  have happ := sound_splits hm
  have hvm : v <+: m := by
    apply List.prefix_of_prefix_length_le (List.prefix_append v post)
    · rw [happ]
      exact List.prefix_append _ _
    · omega
  obtain ⟨tail, rfl⟩ := hvm
  obtain ⟨c, v, rfl⟩ := List.exists_cons_of_ne_nil hv
  have hrun : c ∈ pre.rtakeWhile p := by
    have hsuffix : (c :: v) <:+ pre.rtakeWhile p := by
      subst huv
      rw [List.rtakeWhile, List.reverse_append, List.takeWhile_append_of_pos]
      · simp [List.reverse_append]
      · intro d hd
        exact hall d (List.mem_append_left _ (List.mem_reverse.mp hd))
    exact hsuffix.mem List.mem_cons_self
  have hq := hhead c (by simp)
  rw [h c hrun] at hq
  cases hq

end Scan

end Regex
