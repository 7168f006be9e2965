import BTagent.Data.CharTable
import BTagent.Data.IpAddress
import BTagent.Data.Json
import BTagent.Lib.Regex

namespace BTagent

structure InvestigationScope where
  allowedDomains : List String
  allowedIps : List String
  allowedCidrs : List String
  blockedDomains : List String
  blockedIps : List String

structure ScopeViolation where
  nodeId : String
  target : String
  reason : String
  deriving DecidableEq

structure Targets where
  ips : List String
  cidrs : List String
  domains : List String
  deriving DecidableEq

namespace Scope
open Regex

variable (T : CharTable)

def digit : Regex := set T.isDigit

def letter : Regex := set Char.isAlpha

def alnum : Regex := set Char.isAlphanum

def isLabelChar (c : Char) : Bool := c.isAlphanum || c == '-'

-- `25[0-5]|2[0-4]\d|[01]?\d\d?`
def octet : Regex :=
  alt (seq (char '2') (seq (char '5') (set fun c => '0' ≤ c && c ≤ '5')))
    (alt (seq (char '2') (seq (set fun c => '0' ≤ c && c ≤ '4') (digit T)))
      (seq (opt (set fun c => c == '0' || c == '1')) (seq (digit T) (opt (digit T)))))

def dotted : Regex := seq (octet T) (char '.')

def quad : Regex := seq (dotted T) (seq (dotted T) (seq (dotted T) (octet T)))

def IP_PATTERN : Regex := seq boundary (seq (quad T) boundary)

def CIDR_PATTERN : Regex :=
  seq boundary (seq (quad T) (seq (char '/') (seq (digit T) (seq (opt (digit T)) boundary))))

def label : Regex := seq alnum (seq (opt (seq (upTo 61 (set isLabelChar)) alnum)) (char '.'))

def tld : Regex := seq letter (plus letter)

def DOMAIN_PATTERN : Regex := seq boundary (seq (plus label) (seq tld boundary))

def ipNetworks (scope : InvestigationScope) : List Ipv4Network :=
  scope.allowedCidrs.filterMap fun cidr => Ipv4Network.parse cidr.toList

def isIpAllowed (scope : InvestigationScope) (ip : String) : Bool :=
  if ip ∈ scope.blockedIps then false
  else if scope.allowedIps = [] ∧ scope.allowedCidrs = [] then true
  else if ip ∈ scope.allowedIps then true
  else
    match Ipv4.parse ip.toList with
    | none => false
    | some addr => (ipNetworks scope).any fun net => net.Contains addr

def rstripDots (s : String) : String := String.ofList (s.toList.rdropWhile (· == '.'))

def normalize (s : String) : String := rstripDots (T.lower s)

def Under (lower suffix : String) : Prop :=
  lower = suffix ∨ ('.' :: suffix.toList) <:+ lower.toList

instance (lower suffix : String) : Decidable (Under lower suffix) :=
  inferInstanceAs (Decidable (_ ∨ _))

def isDomainAllowed (scope : InvestigationScope) (domain : String) : Bool :=
  let lower := normalize T domain
  if ∃ blocked ∈ scope.blockedDomains, Under lower (normalize T blocked) then false
  else if scope.allowedDomains = [] then true
  else decide (∃ allowed ∈ scope.allowedDomains, Under lower (normalize T allowed))

def addNew (xs : List String) (x : String) : List String := if x ∈ xs then xs else xs ++ [x]

def found (r : Regex) (text : List Char) : List String :=
  (finditer T.isWord r text).map String.ofList

def cidrBase (cidr : String) : String := String.ofList (cidr.toList.takeWhile (· ≠ '/'))

-- `_extract_targets`
def extractTargets (text : List Char) : Targets :=
  let cidrs := (found T (CIDR_PATTERN T) text).foldl addNew []
  let cidrIps := cidrs.map cidrBase
  let ips := ((found T (IP_PATTERN T) text).filter fun ip => ip ∉ cidrIps).foldl addNew []
  let domains := ((found T DOMAIN_PATTERN text).filter fun domain =>
    ¬ fullmatch T.isWord (IP_PATTERN T) domain.toList).foldl addNew []
  ⟨ips, cidrs, domains⟩

mutual

-- `_walk`
def walk (depth : ℕ) : Json → List String
  | .str s => if 12 < depth then [] else [s]
  | .obj kvs => if 12 < depth then [] else walkFields (depth + 1) kvs
  | .arr xs => if 12 < depth then [] else walkItems (depth + 1) xs
  | .null => []
  | .bool _ => []
  | .int n => if 12 < depth then [] else [toString n]
  | .float r => if 12 < depth then [] else [r]

def walkItems (depth : ℕ) : List Json → List String
  | [] => []
  | x :: xs => walk depth x ++ walkItems depth xs

def walkFields (depth : ℕ) : List (String × Json) → List String
  | [] => []
  | (_, v) :: kvs => walk depth v ++ walkFields depth kvs

end

def joinLines : List String → List Char
  | [] => []
  | [part] => part.toList
  | part :: parts => part.toList ++ '\n' :: joinLines parts

def flattenStrings (input : Json) : List Char := joinLines (walk 0 input)

def cidrViolation (scope : InvestigationScope) (cidr : String) : Option String :=
  match Ipv4Network.parse cidr.toList with
  | some net =>
      if isIpAllowed scope net.address.text then none else some s!"CIDR {cidr} is out of scope"
  | none => some s!"Invalid CIDR {cidr}"

def violations (scope : InvestigationScope) (targets : Targets) : List String :=
  (targets.ips.filter fun ip => ¬ isIpAllowed scope ip).map (fun ip => s!"IP {ip} is out of scope") ++
  (targets.domains.filter fun domain => ¬ isDomainAllowed T scope domain).map
    (fun domain => s!"Domain {domain} is out of scope") ++
  targets.cidrs.filterMap (cidrViolation scope)

-- `ScopeEnforcementMiddleware.before_run`
def beforeRun (scope : InvestigationScope) (nodeId : String) (input : Json) :
    Except ScopeViolation Unit :=
  match violations T scope (extractTargets T (flattenStrings input)) with
  | [] => .ok ()
  | v :: vs => .error {
      nodeId := nodeId
      target := "; ".intercalate (v :: vs)
      reason := "Node input targets assets outside the investigation scope" }

end Scope

namespace Scope
open Regex

variable {T : CharTable} {prev : Option Char} {w rest pre post u v xs ys : List Char}

-- A text stands on its own between `pre` and `post`: it is not glued to a word, and no match that
-- begins before it can run into it.
structure Standing (T : CharTable) (p q : Char → Bool) (pre post : List Char) : Prop where
  detached : Detached p q pre
  before : pre.getLast?.any T.isWord = false
  after : post.head?.any T.isWord = false

def isQuadChar (T : CharTable) (c : Char) : Bool := T.isDigit c || c == '.'

def isCidrChar (T : CharTable) (c : Char) : Bool := isQuadChar T c || c == '/'

def isDomainChar (c : Char) : Bool := isLabelChar c || c == '.'

theorem atBoundary_start (hprev : prev.any T.isWord = false) (h : rest.head?.any T.isWord = true) :
    AtBoundary T.isWord prev rest.head? := by
  simp [AtBoundary, hprev, h]

theorem atBoundary_end (h : ∃ c ∈ w.getLast?, T.isWord c = true) :
    AtBoundary T.isWord (lastOf prev w) rest.head? ↔ rest.head?.any T.isWord = false := by
  obtain ⟨c, hlast, hc⟩ := h
  simp only [AtBoundary, lastOf, Option.mem_def.mp hlast, Option.some_or, Option.any_some, hc]
  cases rest.head?.any T.isWord <;> simp

theorem not_isDigit_dot : T.isDigit '.' = false := by
  rw [T.digit_ascii _ (by decide)]
  decide

theorem not_isDigit_slash : T.isDigit '/' = false := by
  rw [T.digit_ascii _ (by decide)]
  decide

theorem run_unique {p : Char → Bool} (hu : ∀ c ∈ u, p c = true) (hv : ∀ c ∈ v, p c = true)
    (hxs : xs.head?.any p = false) (hys : ys.head?.any p = false) (h : u ++ xs = v ++ ys) :
    u = v ∧ xs = ys := by
  have htake : ∀ {u xs : List Char}, (∀ c ∈ u, p c = true) → xs.head?.any p = false →
      (u ++ xs).takeWhile p = u := by
    intro u xs hu hxs
    rw [List.takeWhile_append_of_pos hu]
    cases xs with
    | nil => simp
    | cons x xs =>
        have hx : p x = false := by simpa using hxs
        simp [hx]
  have heq : u = v := by
    rw [← htake hu hxs, h, htake hv hys]
  exact ⟨heq, List.append_cancel_left (heq ▸ h)⟩

section Quad

def Digits (T : CharTable) (w : List Char) : Prop := w ≠ [] ∧ ∀ c ∈ w, T.isDigit c = true

theorem digit_of_range {lo hi c : Char} (hlo : '0' ≤ lo) (hhi : hi ≤ '9')
    (h : (lo ≤ c && c ≤ hi) = true) : T.isDigit c = true := by
  simp only [Bool.and_eq_true, decide_eq_true_eq] at h
  apply T.isDigit_of_ascii
  rw [Char.isDigit_iff_toNat]
  exact ⟨le_trans hlo h.1, le_trans h.2 hhi⟩

theorem octet_digits (h : Matches T.isWord (octet T) prev w rest) : Digits T w := by
  have hchar : ∀ c, c.isDigit = true → T.isDigit c = true := fun c => T.isDigit_of_ascii
  have hwithin : Within T.isDigit (octet T) := by
    simp only [octet, Within, char, opt, digit, beq_iff_eq, Bool.or_eq_true, forall_eq]
    refine ⟨⟨hchar _ (by decide), hchar _ (by decide), fun c => digit_of_range (by decide)
      (by decide)⟩, ⟨hchar _ (by decide), fun c => digit_of_range (by decide) (by decide),
      fun _ => id⟩, ?_, fun _ => id, fun _ => id⟩
    rintro c (rfl | rfl) <;> exact hchar _ (by decide)
  refine ⟨?_, hwithin.forall h⟩
  rintro rfl
  simp [octet, matches_alt, matches_seq, matches_char, digit, matches_set] at h

theorem dotted_match (h : Matches T.isWord (dotted T) prev w rest) :
    ∃ o, w = o ++ ['.'] ∧ Digits T o := by
  obtain ⟨o, dot, rfl, ho, hdot⟩ := matches_seq.mp h
  obtain rfl := matches_char.mp hdot
  exact ⟨o, rfl, octet_digits ho⟩

def Quad (T : CharTable) (a b c d : List Char) : Prop :=
  Digits T a ∧ Digits T b ∧ Digits T c ∧ Digits T d

def quadText (a b c d : List Char) : List Char := a ++ '.' :: (b ++ '.' :: (c ++ '.' :: d))

theorem quad_match (h : Matches T.isWord (quad T) prev w rest) :
    ∃ a b c d, w = quadText a b c d ∧ Quad T a b c d := by
  obtain ⟨_, _, rfl, ha, h⟩ := matches_seq.mp h
  obtain ⟨_, _, rfl, hb, h⟩ := matches_seq.mp h
  obtain ⟨_, d, rfl, hc, hd⟩ := matches_seq.mp h
  obtain ⟨a, rfl, hda⟩ := dotted_match ha
  obtain ⟨b, rfl, hdb⟩ := dotted_match hb
  obtain ⟨c, rfl, hdc⟩ := dotted_match hc
  exact ⟨a, b, c, d, by simp [quadText], hda, hdb, hdc, octet_digits hd⟩

-- The numbers up to 255 as the pattern writes them, without a needless zero.
def octetShape : List Char → Bool
  | [d] => d.isDigit
  | [c, d] => c.isDigit && d.isDigit
  | [c, d, e] =>
      ((c == '2' && d == '5') && ('0' ≤ e && e ≤ '5')) ||
        ((c == '2' && ('0' ≤ d && d ≤ '4')) && e.isDigit) ||
          ((c == '0' || c == '1') && d.isDigit && e.isDigit)
  | _ => false

theorem octetShape_digits : ∀ n : Fin 256, octetShape (BTagent.digits n) = true := by
  decide +kernel

theorem digit_match {d : Char} (hd : d.isDigit = true) :
    Matches T.isWord (digit T) prev [d] rest := matches_set.mpr ⟨d, rfl, T.isDigit_of_ascii hd⟩

theorem octet_short (hu : u = [] ∨ Matches T.isWord (set fun c => c == '0' || c == '1') prev u
      (v ++ (w ++ rest)))
    (hv : Matches T.isWord (digit T) (lastOf prev u) v (w ++ rest))
    (hw : w = [] ∨ Matches T.isWord (digit T) (lastOf (lastOf prev u) v) w rest) :
    Matches T.isWord (octet T) prev (u ++ (v ++ w)) rest := by
  refine matches_alt.mpr (Or.inr (matches_alt.mpr (Or.inr ?_)))
  refine matches_seq.mpr ⟨u, v ++ w, rfl, matches_opt.mpr ?_, ?_⟩
  · rwa [List.append_assoc]
  · exact matches_seq.mpr ⟨v, w, rfl, hv, matches_opt.mpr hw⟩

theorem octet_match (h : octetShape w = true) : Matches T.isWord (octet T) prev w rest := by
  match w, h with
  | [d], h => exact octet_short (u := []) (w := []) (Or.inl rfl) (digit_match h) (Or.inl rfl)
  | [c, d], h =>
      obtain ⟨hc, hd⟩ := Bool.and_eq_true_iff.mp h
      exact octet_short (u := []) (w := [d]) (Or.inl rfl) (digit_match hc) (Or.inr (digit_match hd))
  | [c, d, e], h =>
      simp only [octetShape, Bool.or_eq_true, Bool.and_eq_true] at h
      rcases h with (⟨⟨hc, hd⟩, he⟩ | ⟨⟨hc, hd⟩, he⟩) | ⟨⟨hc, hd⟩, he⟩
      · refine matches_alt.mpr (Or.inl (matches_seq.mpr ⟨[c], [d, e], rfl, ?_, ?_⟩))
        · exact matches_set.mpr ⟨c, rfl, hc⟩
        · exact matches_seq.mpr ⟨[d], [e], rfl, matches_set.mpr ⟨d, rfl, hd⟩,
            matches_set.mpr ⟨e, rfl, by simpa using he⟩⟩
      · refine matches_alt.mpr (Or.inr (matches_alt.mpr (Or.inl ?_)))
        refine matches_seq.mpr ⟨[c], [d, e], rfl, matches_set.mpr ⟨c, rfl, hc⟩, ?_⟩
        exact matches_seq.mpr ⟨[d], [e], rfl, matches_set.mpr ⟨d, rfl, by simpa using hd⟩,
          digit_match he⟩
      · apply octet_short (u := [c]) (v := [d]) (w := [e])
        · exact Or.inr (matches_set.mpr ⟨c, rfl, by simpa using hc⟩)
        · exact digit_match hd
        · exact Or.inr (digit_match he)

theorem octet_of_fin {n : Fin 256} : Matches T.isWord (octet T) prev (BTagent.digits n) rest :=
  octet_match (octetShape_digits n)

theorem digits_of_fin {n : Fin 256} : Digits T (BTagent.digits n) :=
  octet_digits (@octet_of_fin T none [] n)

theorem dotted_of_fin {n : Fin 256} :
    Matches T.isWord (dotted T) prev (BTagent.digits n ++ ['.']) rest :=
  matches_seq.mpr ⟨_, _, rfl, octet_of_fin, matches_char.mpr rfl⟩

theorem quad_of_ip (ip : Ipv4) : Matches T.isWord (quad T) prev ip.chars rest := by
  have hchars : ip.chars = (BTagent.digits ip.a ++ ['.']) ++ ((BTagent.digits ip.b ++ ['.']) ++
      ((BTagent.digits ip.c ++ ['.']) ++ BTagent.digits ip.d)) := by
    simp [Ipv4.chars]
  rw [hchars]
  refine matches_seq.mpr ⟨_, _, rfl, dotted_of_fin, ?_⟩
  refine matches_seq.mpr ⟨_, _, rfl, dotted_of_fin, ?_⟩
  exact matches_seq.mpr ⟨_, _, rfl, dotted_of_fin, octet_of_fin⟩

theorem quad_unique {a b c d a' b' c' d' : List Char} (h : Quad T a b c d) (h' : Quad T a' b' c' d')
    (hxs : xs.head?.any T.isDigit = false) (hys : ys.head?.any T.isDigit = false)
    (heq : quadText a b c d ++ xs = quadText a' b' c' d' ++ ys) :
    quadText a b c d = quadText a' b' c' d' ∧ xs = ys := by
  have hdot : ∀ {zs : List Char}, ('.' :: zs).head?.any T.isDigit = false := by
    simp [not_isDigit_dot]
  simp only [quadText, List.append_assoc, List.cons_append] at heq
  obtain ⟨rfl, hb⟩ := run_unique h.1.2 h'.1.2 hdot hdot heq
  obtain ⟨rfl, hc⟩ := run_unique h.2.1.2 h'.2.1.2 hdot hdot (List.cons.inj hb).2
  obtain ⟨rfl, hd⟩ := run_unique h.2.2.1.2 h'.2.2.1.2 hdot hdot (List.cons.inj hc).2
  obtain ⟨rfl, hrest⟩ := run_unique h.2.2.2.2 h'.2.2.2.2 hxs hys (List.cons.inj hd).2
  exact ⟨rfl, hrest⟩

theorem digits_last (h : Digits T w) : ∃ c ∈ (u ++ w).getLast?, T.isWord c = true := by
  obtain ⟨hne, hall⟩ := h
  have hlast := List.getLast?_eq_some_getLast hne
  refine ⟨w.getLast hne, ?_, T.word_of_digit _ (hall _ (List.getLast_mem hne))⟩
  rw [List.getLast?_append, hlast]
  rfl

theorem quad_last {a b c d : List Char} (h : Quad T a b c d) :
    ∃ x ∈ (quadText a b c d).getLast?, T.isWord x = true := by
  have hsplit : quadText a b c d = (a ++ '.' :: (b ++ '.' :: (c ++ ['.']))) ++ d := by
    simp [quadText]
  rw [hsplit]
  exact digits_last h.2.2.2

theorem quad_head {a b c d : List Char} (xs : List Char) (h : Quad T a b c d) :
    ∃ x, (quadText a b c d ++ xs).head? = some x ∧ T.isDigit x = true := by
  obtain ⟨hne, hall⟩ := h.1
  obtain ⟨x, a, rfl⟩ := List.exists_cons_of_ne_nil hne
  exact ⟨x, rfl, hall x List.mem_cons_self⟩

theorem quad_chars {a b c d : List Char} (h : Quad T a b c d) :
    ∀ x ∈ quadText a b c d, isQuadChar T x = true := by
  have hdigits : ∀ {w : List Char}, Digits T w → ∀ x ∈ w, isQuadChar T x = true := by
    intro w hw x hx
    simp [isQuadChar, hw.2 x hx]
  have hdot : isQuadChar T '.' = true := by simp [isQuadChar]
  simp only [quadText, List.forall_mem_append, List.forall_mem_cons]
  exact ⟨hdigits h.1, hdot, hdigits h.2.1, hdot, hdigits h.2.2.1, hdot, hdigits h.2.2.2⟩

theorem quad_ip (ip : Ipv4) : Quad T (BTagent.digits ip.a) (BTagent.digits ip.b)
    (BTagent.digits ip.c) (BTagent.digits ip.d) :=
  ⟨digits_of_fin, digits_of_fin, digits_of_fin, digits_of_fin⟩

theorem not_digit_of_not_word (h : rest.head?.any T.isWord = false) :
    rest.head?.any T.isDigit = false := by
  cases rest with
  | nil => rfl
  | cons c rest =>
      have hword : T.isWord c = false := by simpa using h
      have hdigit : T.isDigit c = false := by
        by_contra hd
        rw [T.word_of_digit c (by simpa using hd)] at hword
        cases hword
      simpa using hdigit

theorem boundary_quad {a b c d : List Char} (h : Quad T a b c d)
    (hprev : prev.any T.isWord = false) :
    Matches T.isWord boundary prev [] (quadText a b c d ++ rest) := by
  obtain ⟨x, hhead, hx⟩ := quad_head rest h
  refine matches_boundary.mpr ⟨rfl, atBoundary_start hprev ?_⟩
  rw [hhead]
  exact T.word_of_digit x hx

end Quad

section Ip

theorem ip_match (h : Matches T.isWord (IP_PATTERN T) prev w rest) :
    ∃ a b c d, w = quadText a b c d ∧ Quad T a b c d ∧ rest.head?.any T.isWord = false := by
  obtain ⟨_, _, rfl, hstart, h⟩ := matches_seq.mp h
  obtain ⟨rfl, -⟩ := matches_boundary.mp hstart
  obtain ⟨_, _, rfl, hquad, hend⟩ := matches_seq.mp h
  obtain ⟨a, b, c, d, rfl, hq⟩ := quad_match hquad
  obtain ⟨rfl, hbound⟩ := matches_boundary.mp hend
  refine ⟨a, b, c, d, by simp, hq, ?_⟩
  exact (atBoundary_end (quad_last hq)).mp hbound

theorem ip_kind (h : Matches T.isWord (IP_PATTERN T) prev w rest) :
    (∀ c ∈ w, isQuadChar T c = true) ∧ ∀ c ∈ w.head?, T.isDigit c = true := by
  obtain ⟨a, b, c, d, rfl, hq, -⟩ := ip_match h
  refine ⟨quad_chars hq, ?_⟩
  obtain ⟨x, hhead, hx⟩ := quad_head [] hq
  rw [List.append_nil] at hhead
  rw [hhead]
  rintro _ ⟨⟩
  exact hx

theorem chars_ne_nil (ip : Ipv4) : ip.chars ≠ [] := by
  simp [Ipv4.chars]

theorem ip_at (ip : Ipv4) (hprev : prev.any T.isWord = false)
    (hpost : post.head?.any T.isWord = false) :
    Matches T.isWord (IP_PATTERN T) prev ip.chars post := by
  refine matches_seq.mpr ⟨[], ip.chars, rfl, boundary_quad (quad_ip ip) hprev, ?_⟩
  refine matches_seq.mpr ⟨ip.chars, [], by simp, quad_of_ip ip, ?_⟩
  exact matches_boundary.mpr ⟨rfl, (atBoundary_end (quad_last (quad_ip ip))).mpr hpost⟩

theorem ip_found (ip : Ipv4) (h : Standing T (isQuadChar T) T.isDigit pre post) :
    ip.text ∈ found T (IP_PATTERN T) (pre ++ (ip.chars ++ post)) := by
  have hmem : ip.chars ∈ finditer T.isWord (IP_PATTERN T) (pre ++ (ip.chars ++ post)) := by
    apply mem_finditer
    · exact chars_ne_nil ip
    · apply head?_of_unique (ip_at ip h.before h.after)
      intro w' rest' hw'
      obtain ⟨a, b, c, d, rfl, hq, hrest⟩ := ip_match (matches_of_mem hw')
      exact (quad_unique hq (quad_ip ip) (not_digit_of_not_word hrest)
        (not_digit_of_not_word h.after) (sound_splits hw').symm).1
    · exact h.detached.noneAcross ip_kind
  exact List.mem_map.mpr ⟨_, hmem, rfl⟩

end Ip

section Cidr

theorem cidr_match (h : Matches T.isWord (CIDR_PATTERN T) prev w rest) :
    ∃ a b c d n, w = quadText a b c d ++ '/' :: n ∧ Quad T a b c d ∧ Digits T n ∧ n.length ≤ 2 ∧
      rest.head?.any T.isWord = false := by
  obtain ⟨_, _, rfl, hstart, h⟩ := matches_seq.mp h
  obtain ⟨rfl, -⟩ := matches_boundary.mp hstart
  obtain ⟨_, _, rfl, hquad, h⟩ := matches_seq.mp h
  obtain ⟨a, b, c, d, rfl, hq⟩ := quad_match hquad
  obtain ⟨_, _, rfl, hslash, h⟩ := matches_seq.mp h
  obtain rfl := matches_char.mp hslash
  obtain ⟨_, _, rfl, hfirst, h⟩ := matches_seq.mp h
  obtain ⟨x, rfl, hx⟩ := matches_set.mp hfirst
  obtain ⟨y, _, rfl, hsecond, hend⟩ := matches_seq.mp h
  obtain ⟨rfl, hbound⟩ := matches_boundary.mp hend
  have hdigits : Digits T (x :: y) ∧ y.length ≤ 1 := by
    rcases matches_opt.mp hsecond with rfl | hsecond
    · exact ⟨⟨List.cons_ne_nil _ _, by simpa using hx⟩, Nat.zero_le _⟩
    · obtain ⟨z, rfl, hz⟩ := matches_set.mp hsecond
      exact ⟨⟨List.cons_ne_nil _ _, by simp [hx, hz]⟩, Nat.le_refl _⟩
  refine ⟨a, b, c, d, x :: y, by simp, hq, hdigits.1, by simpa using hdigits.2, ?_⟩
  have hlast : lastOf (lastOf (lastOf (lastOf (lastOf prev []) (quadText a b c d)) ['/']) [x]) y =
      lastOf prev (quadText a b c d ++ '/' :: x :: y) := by
    simp [← lastOf_append]
  rw [hlast] at hbound
  have hword := digits_last (u := quadText a b c d ++ ['/']) hdigits.1
  rw [List.append_assoc] at hword
  exact (atBoundary_end hword).mp hbound

theorem cidr_kind (h : Matches T.isWord (CIDR_PATTERN T) prev w rest) :
    (∀ c ∈ w, isCidrChar T c = true) ∧ ∀ c ∈ w.head?, T.isDigit c = true := by
  obtain ⟨a, b, c, d, n, rfl, hq, hn, -⟩ := cidr_match h
  constructor
  · simp only [List.forall_mem_append, List.forall_mem_cons]
    refine ⟨fun x hx => ?_, ?_, fun x hx => ?_⟩
    · simp [isCidrChar, quad_chars hq x hx]
    · simp [isCidrChar]
    · simp [isCidrChar, isQuadChar, hn.2 x hx]
  · obtain ⟨x, hhead, hx⟩ := quad_head ('/' :: n) hq
    rw [hhead]
    rintro _ ⟨⟩
    exact hx

theorem cidr_at {n : List Char} (ip : Ipv4) (hn : Digits T n) (hlen : n.length ≤ 2)
    (hprev : prev.any T.isWord = false) (hpost : post.head?.any T.isWord = false) :
    Matches T.isWord (CIDR_PATTERN T) prev (ip.chars ++ '/' :: n) post := by
  obtain ⟨x, y, rfl⟩ := List.exists_cons_of_ne_nil hn.1
  have hx : T.isDigit x = true := hn.2 x List.mem_cons_self
  have hstart : Matches T.isWord boundary prev [] (ip.chars ++ '/' :: x :: y ++ post) := by
    rw [List.append_assoc]
    exact boundary_quad (quad_ip ip) hprev
  refine matches_seq.mpr ⟨[], ip.chars ++ '/' :: x :: y, rfl, hstart, ?_⟩
  refine matches_seq.mpr ⟨ip.chars, '/' :: x :: y, rfl, quad_of_ip ip, ?_⟩
  refine matches_seq.mpr ⟨['/'], x :: y, rfl, matches_char.mpr rfl, ?_⟩
  refine matches_seq.mpr ⟨[x], y, rfl, matches_set.mpr ⟨x, rfl, hx⟩, ?_⟩
  refine matches_seq.mpr ⟨y, [], by simp, matches_opt.mpr ?_, matches_boundary.mpr ⟨rfl, ?_⟩⟩
  · cases y with
    | nil => exact Or.inl rfl
    | cons z y =>
        obtain rfl : y = [] := List.length_eq_zero_iff.mp (by simpa using hlen)
        exact Or.inr (matches_set.mpr ⟨z, rfl, hn.2 z (by simp)⟩)
  · rw [← lastOf_append]
    have hword := digits_last (u := []) hn
    simpa using (atBoundary_end hword).mpr hpost

theorem cidr_found {n : List Char} (ip : Ipv4) (hn : Digits T n) (hlen : n.length ≤ 2)
    (h : Standing T (isCidrChar T) T.isDigit pre post) :
    String.ofList (ip.chars ++ '/' :: n) ∈
      found T (CIDR_PATTERN T) (pre ++ ((ip.chars ++ '/' :: n) ++ post)) := by
  have hmem : ip.chars ++ '/' :: n ∈
      finditer T.isWord (CIDR_PATTERN T) (pre ++ ((ip.chars ++ '/' :: n) ++ post)) := by
    apply mem_finditer
    · simp
    · apply head?_of_unique (cidr_at ip hn hlen h.before h.after)
      intro w' rest' hw'
      obtain ⟨a, b, c, d, m, rfl, hq, hm, -, hrest⟩ := cidr_match (matches_of_mem hw')
      have hslash : ∀ {zs : List Char}, ('/' :: zs).head?.any T.isDigit = false := by
        simp [not_isDigit_slash]
      have heq := sound_splits hw'
      rw [List.append_assoc, List.append_assoc, List.cons_append, List.cons_append] at heq
      obtain ⟨hquad, heq⟩ := quad_unique (quad_ip ip) hq hslash hslash heq
      obtain ⟨rfl, -⟩ := run_unique hn.2 hm.2 (not_digit_of_not_word h.after)
        (not_digit_of_not_word hrest) (List.cons.inj heq).2
      rw [← hquad]
      rfl
    · exact h.detached.noneAcross cidr_kind
  exact List.mem_map.mpr ⟨_, hmem, rfl⟩

end Cidr


end Scope

end BTagent
