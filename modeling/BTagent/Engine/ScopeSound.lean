import BTagent.Engine.ScopeDomains

namespace BTagent

namespace Scope
open Regex

-- A string value inside `n` containers.
inductive StringAt (s : String) : ℕ → Json → Prop where
  | here : StringAt s 0 (.str s)
  | item {n : ℕ} {x : Json} {xs : List Json} :
      x ∈ xs → StringAt s n x → StringAt s (n + 1) (.arr xs)
  | field {n : ℕ} {k : String} {v : Json} {kvs : List (String × Json)} :
      (k, v) ∈ kvs → StringAt s n v → StringAt s (n + 1) (.obj kvs)

def IpAllowed (scope : InvestigationScope) (ip : Ipv4) : Prop :=
  ip.text ∉ scope.blockedIps ∧
    ((scope.allowedIps = [] ∧ scope.allowedCidrs = []) ∨ ip.text ∈ scope.allowedIps ∨
      ∃ cidr ∈ scope.allowedCidrs, ∃ net, Ipv4Network.parse cidr.toList = some net ∧
        net.Contains ip)

def DomainAllowed (T : CharTable) (scope : InvestigationScope) (domain : String) : Prop :=
  (∀ blocked ∈ scope.blockedDomains, ¬ Under (normalize T domain) (normalize T blocked)) ∧
    (scope.allowedDomains = [] ∨
      ∃ allowed ∈ scope.allowedDomains, Under (normalize T domain) (normalize T allowed))

-- The address stands somewhere in the text before the prefix length of a network.
def WrittenAsCidr (T : CharTable) (text : List Char) (ip : Ipv4) : Prop :=
  ∃ pre n post, text = pre ++ ((ip.chars ++ '/' :: n) ++ post) ∧ Digits T n ∧ n.length ≤ 2 ∧
    post.head?.any T.isWord = false

variable {T : CharTable} {scope : InvestigationScope} {nodeId : String} {input : Json}
  {s : String} {n depth : ℕ} {pre post pre' post' text d : List Char} {p q : Char → Bool}

section Flatten

theorem walkItems_eq (xs : List Json) : walkItems depth xs = xs.flatMap (walk depth) := by
  induction xs with
  | nil => rfl
  | cons x xs ih => simp [walkItems, ih]

theorem walkFields_eq (kvs : List (String × Json)) :
    walkFields depth kvs = kvs.flatMap fun kv => walk depth kv.2 := by
  induction kvs with
  | nil => rfl
  | cons kv kvs ih => simp [walkFields, ih]

theorem mem_walk {x : Json} (h : StringAt s n x) (hdepth : depth + n ≤ 12) : s ∈ walk depth x := by
  induction h generalizing depth with
  | here =>
      have hlt : ¬ 12 < depth := by omega
      simp [walk, hlt]
  | @item n x xs hx _ ih =>
      have hlt : ¬ 12 < depth := by omega
      rw [walk, if_neg hlt, walkItems_eq]
      exact List.mem_flatMap.mpr ⟨x, hx, ih (by omega)⟩
  | @field n k v kvs hv _ ih =>
      have hlt : ¬ 12 < depth := by omega
      rw [walk, if_neg hlt, walkFields_eq]
      exact List.mem_flatMap.mpr ⟨(k, v), hv, ih (by omega)⟩

theorem joinLines_part {parts : List String} (h : s ∈ parts) :
    ∃ pre post, joinLines parts = pre ++ (s.toList ++ post) ∧
      (∀ c ∈ pre.getLast?, c = '\n') ∧ ∀ c ∈ post.head?, c = '\n' := by
  induction parts with
  | nil => cases h
  | cons part parts ih =>
      cases parts with
      | nil =>
          obtain rfl := List.mem_singleton.mp h
          exact ⟨[], [], by simp [joinLines], by simp, by simp⟩
      | cons next parts =>
          rcases List.mem_cons.mp h with rfl | h
          · exact ⟨[], '\n' :: joinLines (next :: parts), by simp [joinLines], by simp, by simp⟩
          · obtain ⟨pre, post, hjoin, hpre, hpost⟩ := ih h
            refine ⟨part.toList ++ '\n' :: pre, post, by simp [joinLines, hjoin], ?_, hpost⟩
            intro c hc
            rw [List.getLast?_append, List.getLast?_cons] at hc
            cases hlast : pre.getLast? with
            | none => simpa [hlast] using hc.symm
            | some e =>
                obtain rfl : e = c := by simpa [hlast] using hc
                exact hpre e (by simp [hlast])

theorem rtakeWhile_lines (hp : p '\n' = false) (hpre : ∀ c ∈ pre'.getLast?, c = '\n') :
    (pre' ++ pre).rtakeWhile p = pre.rtakeWhile p := by
  induction pre using List.reverseRecOn with
  | nil =>
      cases pre' using List.reverseRecOn with
      | nil => rfl
      | append_singleton pre' c _ =>
          obtain rfl := hpre c (by simp)
          simp [hp]
  | append_singleton pre c ih =>
      rw [← List.append_assoc, List.rtakeWhile_concat, List.rtakeWhile_concat, ih]

theorem Standing.lines (h : Standing T p q pre post) (hp : p '\n' = false)
    (hpre : ∀ c ∈ pre'.getLast?, c = '\n') (hpost : ∀ c ∈ post'.head?, c = '\n') :
    Standing T p q (pre' ++ pre) (post ++ post') := by
  refine ⟨?_, ?_, ?_⟩
  · rw [Detached, rtakeWhile_lines hp hpre]
    exact h.detached
  · rw [List.getLast?_append]
    cases hlast : pre.getLast? with
    | some c => simpa [hlast] using h.before
    | none =>
        cases hlast' : pre'.getLast? with
        | none => rfl
        | some c => simp [hpre c (by simp [hlast']), T.isWord_newline]
  · rw [List.head?_append]
    cases hhead : post.head? with
    | some c => simpa [hhead] using h.after
    | none =>
        cases hhead' : post'.head? with
        | none => rfl
        | some c => simp [hpost c (by simp [hhead']), T.isWord_newline]

theorem body_chars (h : DomainBody d) : ∀ c ∈ d, isDomainChar c = true := by
  induction h with
  | tld ht =>
      intro c hc
      simp [isDomainChar, isLabelChar, Char.isAlphanum, ht.2 c hc]
  | label hl _ ih =>
      simp only [List.forall_mem_append, List.forall_mem_cons]
      refine ⟨fun c hc => ?_, by decide, ih⟩
      simp [isDomainChar, hl.chars c hc]

theorem Longest.lines (h : Longest T d post) (hpost : ∀ c ∈ post'.head?, c = '\n') :
    Longest T d (post ++ post') := by
  intro e rest heq hrest hbody
  rcases List.append_eq_append_iff.mp heq with ⟨u, rfl, hpost'⟩ | ⟨u, rfl, hu⟩
  · cases u with
    | nil => simpa using h post [] (by simp) rfl (by simpa using hbody)
    | cons c u =>
        obtain rfl := hpost c (by simp [hpost'])
        have hline := body_chars hbody '\n' (by simp)
        cases hline
  · apply h e u rfl _ hbody
    cases u with
    | nil => rfl
    | cons c u => simpa [hu] using hrest

end Flatten

section Extract

theorem mem_addNew {xs acc : List String} {x : String} :
    x ∈ xs.foldl addNew acc ↔ x ∈ acc ∨ x ∈ xs := by
  induction xs generalizing acc with
  | nil => simp
  | cons y xs ih =>
      rw [List.foldl_cons, ih, addNew]
      split
      · next hy =>
          constructor
          · rintro (h | h)
            · exact Or.inl h
            · exact Or.inr (List.mem_cons_of_mem _ h)
          · rintro (h | h)
            · exact Or.inl h
            · rcases List.mem_cons.mp h with rfl | h
              · exact Or.inl hy
              · exact Or.inr h
      · simp [or_assoc]

theorem mem_cidrs {cidr : String} :
    cidr ∈ (extractTargets T text).cidrs ↔ cidr ∈ found T (CIDR_PATTERN T) text := by
  simp [extractTargets, mem_addNew]

theorem mem_ips {ip : String} : ip ∈ (extractTargets T text).ips ↔
    ip ∈ found T (IP_PATTERN T) text ∧ ip ∉ (extractTargets T text).cidrs.map cidrBase := by
  simp [extractTargets, mem_addNew]

theorem mem_domains {domain : String} : domain ∈ (extractTargets T text).domains ↔
    domain ∈ found T DOMAIN_PATTERN text ∧
      fullmatch T.isWord (IP_PATTERN T) domain.toList = false := by
  simp [extractTargets, mem_addNew]

theorem quad_no_slash {a b c d : List Char} (h : Quad T a b c d) : '/' ∉ quadText a b c d := by
  intro hmem
  have hquad := quad_chars h _ hmem
  simp [isQuadChar, not_isDigit_slash] at hquad

theorem cidrBase_quad {a b c d m : List Char} (h : Quad T a b c d) :
    cidrBase (String.ofList (quadText a b c d ++ '/' :: m)) = String.ofList (quadText a b c d) := by
  have hrun : ∀ x ∈ quadText a b c d, decide (x ≠ '/') = true := by
    intro x hx
    rw [decide_eq_true_eq]
    rintro rfl
    exact quad_no_slash h hx
  rw [cidrBase, String.toList_ofList, List.takeWhile_append_of_pos hrun]
  simp

theorem base_written {ip : Ipv4} (h : ip.text ∈ (extractTargets T text).cidrs.map cidrBase) :
    WrittenAsCidr T text ip := by
  obtain ⟨cidr, hcidr, hbase⟩ := List.mem_map.mp h
  obtain ⟨w, hw, rfl⟩ := List.mem_map.mp (mem_cidrs.mp hcidr)
  obtain ⟨pre, post, prev, htext, hm⟩ := of_mem_finditer hw
  obtain ⟨a, b, c, d, m, rfl, hq, hm, hlen, hpost⟩ := cidr_match hm
  rw [cidrBase_quad hq] at hbase
  have hquad : quadText a b c d = ip.chars := String.ofList_injective hbase
  rw [hquad] at htext
  exact ⟨pre, m, post, htext, hm, hlen, hpost⟩

end Extract

section Allowed

theorem ipAllowed_of {ip : Ipv4} (h : isIpAllowed scope ip.text = true) : IpAllowed scope ip := by
  unfold isIpAllowed at h
  split at h
  · cases h
  · next hblocked =>
      refine ⟨hblocked, ?_⟩
      split at h
      · next hnone => exact Or.inl hnone
      · split at h
        · next hin => exact Or.inr (Or.inl hin)
        · have hparse : Ipv4.parse ip.text.toList = some ip := by
            simpa [Ipv4.text] using Ipv4.parse_chars ip
          rw [hparse] at h
          obtain ⟨net, hnet, hin⟩ := List.any_eq_true.mp h
          obtain ⟨cidr, hcidr, hcidrNet⟩ := List.mem_filterMap.mp hnet
          exact Or.inr (Or.inr ⟨cidr, hcidr, net, hcidrNet, of_decide_eq_true hin⟩)

theorem domainAllowed_of {domain : String} (h : isDomainAllowed T scope domain = true) :
    DomainAllowed T scope domain := by
  simp only [isDomainAllowed] at h
  split at h
  · cases h
  · next hblocked =>
      refine ⟨fun b hb hunder => hblocked ⟨b, hb, hunder⟩, ?_⟩
      split at h
      · next hnone => exact Or.inl hnone
      · exact Or.inr (of_decide_eq_true h)

theorem violations_of_ok (h : beforeRun T scope nodeId input = .ok ()) :
    violations T scope (extractTargets T (flattenStrings input)) = [] := by
  unfold beforeRun at h
  split at h
  · next hnone => exact hnone
  · cases h

variable {targets : Targets}

theorem ip_allowed (h : violations T scope targets = []) {ip : String} (hip : ip ∈ targets.ips) :
    isIpAllowed scope ip = true := by
  have hnone := (List.append_eq_nil_iff.mp (List.append_eq_nil_iff.mp h).1).1
  have hfilter := List.filter_eq_nil_iff.mp (List.map_eq_nil_iff.mp hnone) ip hip
  simpa using hfilter

theorem domain_allowed (h : violations T scope targets = []) {domain : String}
    (hdomain : domain ∈ targets.domains) : isDomainAllowed T scope domain = true := by
  have hnone := (List.append_eq_nil_iff.mp (List.append_eq_nil_iff.mp h).1).2
  have hfilter := List.filter_eq_nil_iff.mp (List.map_eq_nil_iff.mp hnone) domain hdomain
  simpa using hfilter

theorem cidr_allowed (h : violations T scope targets = []) {cidr : String}
    (hcidr : cidr ∈ targets.cidrs) : ∃ net, Ipv4Network.parse cidr.toList = some net ∧
      isIpAllowed scope net.address.text = true := by
  have hnone := List.filterMap_eq_nil_iff.mp (List.append_eq_nil_iff.mp h).2 cidr hcidr
  unfold cidrViolation at hnone
  split at hnone
  · next net hnet =>
      split at hnone
      · next hallowed => exact ⟨net, hnet, hallowed⟩
      · cases hnone
  · cases hnone

theorem parse_cidr {ip : Ipv4} {m : List Char} (hm : ∀ c ∈ m, c.isDigit = true)
    {net : Ipv4Network} (h : Ipv4Network.parse (ip.chars ++ '/' :: m) = some net) :
    ∃ hlt : decimal m < 33, net.address = Ipv4Network.networkAddress ip ⟨decimal m, hlt⟩ := by
  have hslash : '/' ∉ m := fun hmem => absurd (hm _ hmem) (by decide)
  have hsplit : (ip.chars ++ '/' :: m).splitOn '/' = [ip.chars, m] := by
    have hjoin : ip.chars ++ '/' :: m = ['/'].intercalate [ip.chars, m] := by
      simp [List.intercalate]
    rw [hjoin]
    apply List.splitOn_intercalate
    · intro l hl
      rcases List.mem_pair.mp hl with rfl | rfl
      · exact quad_no_slash (quad_ip (T := CharTable.ascii) ip)
      · exact hslash
    · exact List.cons_ne_nil _ _
  have hdots : Ipv4.parse m = none := by
    have hdot : '.' ∉ m := fun hmem => absurd (hm _ hmem) (by decide)
    have hone : m.splitOn '.' = [m] := by
      have hjoin : m = ['.'].intercalate [m] := by simp [List.intercalate]
      conv_lhs => rw [hjoin]
      apply List.splitOn_intercalate
      · intro l hl
        obtain rfl := List.mem_singleton.mp hl
        exact hdot
      · exact List.cons_ne_nil _ _
    simp [Ipv4.parse, hone]
  simp only [Ipv4Network.parse, hsplit, Ipv4.parse_chars, Ipv4Network.parsePrefix, hdots] at h
  split at h
  · next hvalid =>
      cases h
      exact ⟨hvalid.2.2, rfl⟩
  · cases h

end Allowed

section Sound
variable {ip : Ipv4} {m : List Char}

theorem quadChar_newline : isQuadChar T '\n' = false := by
  rw [isQuadChar, T.digit_ascii _ (by decide)]
  decide

theorem cidrChar_newline : isCidrChar T '\n' = false := by
  rw [isCidrChar, quadChar_newline]
  decide

theorem standing_text (hs : StringAt s n input) (hdepth : n ≤ 12) (heq : s.toList = pre ++ (d ++ post))
    (hp : p '\n' = false) (h : Standing T p q pre post) :
    ∃ pre' post', flattenStrings input = pre' ++ (d ++ post') ∧ Standing T p q pre' post' ∧
      (Longest T d post → Longest T d post') := by
  have hwalk : s ∈ walk 0 input := mem_walk hs (by omega)
  obtain ⟨before, after, hjoin, hbefore, hafter⟩ := joinLines_part hwalk
  refine ⟨before ++ pre, post ++ after, ?_, h.lines hp hbefore hafter, fun hl => hl.lines hafter⟩
  rw [flattenStrings, hjoin, heq]
  simp

variable (hrun : beforeRun T scope nodeId input = .ok ()) (hs : StringAt s n input) (hdepth : n ≤ 12)
include hrun hs hdepth

theorem ip_sound (heq : s.toList = pre ++ (ip.chars ++ post))
    (h : Standing T (isQuadChar T) T.isDigit pre post)
    (hbase : ¬ WrittenAsCidr T (flattenStrings input) ip) : IpAllowed scope ip := by
  obtain ⟨pre', post', htext, hstand, -⟩ := standing_text hs hdepth heq quadChar_newline h
  have hfound := ip_found ip hstand
  rw [← htext] at hfound
  have hip := mem_ips.mpr ⟨hfound, fun hmem => hbase (base_written hmem)⟩
  exact ipAllowed_of (ip_allowed (violations_of_ok hrun) hip)

theorem domain_sound (heq : s.toList = pre ++ (d ++ post)) (hd : IsDomain d)
    (h : Standing T isDomainChar Char.isAlphanum pre post) (hlong : Longest T d post) :
    DomainAllowed T scope (String.ofList d) := by
  obtain ⟨pre', post', htext, hstand, hlong'⟩ := standing_text hs hdepth heq (by decide) h
  have hfound := domain_found hd hstand (hlong' hlong)
  rw [← htext] at hfound
  have hdomain := mem_domains.mpr ⟨hfound, by
    rw [String.toList_ofList]
    exact domain_not_ip hd⟩
  exact domainAllowed_of (domain_allowed (violations_of_ok hrun) hdomain)

theorem cidr_sound (heq : s.toList = pre ++ ((ip.chars ++ '/' :: m) ++ post)) (hne : m ≠ [])
    (hlen : m.length ≤ 2) (hm : ∀ c ∈ m, c.isDigit = true)
    (h : Standing T (isCidrChar T) T.isDigit pre post) :
    ∃ hlt : decimal m < 33,
      IpAllowed scope (Ipv4Network.networkAddress ip ⟨decimal m, hlt⟩) := by
  obtain ⟨pre', post', htext, hstand, -⟩ := standing_text hs hdepth heq cidrChar_newline h
  have hdigits : Digits T m := ⟨hne, fun c hc => T.isDigit_of_ascii (hm c hc)⟩
  have hfound := cidr_found ip hdigits hlen hstand
  rw [← htext] at hfound
  obtain ⟨net, hnet, hallowed⟩ := cidr_allowed (violations_of_ok hrun) (mem_cidrs.mpr hfound)
  rw [String.toList_ofList] at hnet
  obtain ⟨hlt, haddr⟩ := parse_cidr hm hnet
  exact ⟨hlt, haddr ▸ ipAllowed_of hallowed⟩

theorem scope_sound :
    (∀ pre ip post, s.toList = pre ++ (Ipv4.chars ip ++ post) →
      Standing T (isQuadChar T) T.isDigit pre post →
      ¬ WrittenAsCidr T (flattenStrings input) ip → IpAllowed scope ip) ∧
    (∀ pre d post, s.toList = pre ++ (d ++ post) → IsDomain d →
      Standing T isDomainChar Char.isAlphanum pre post → Longest T d post →
      DomainAllowed T scope (String.ofList d)) ∧
    (∀ pre ip m post, s.toList = pre ++ ((Ipv4.chars ip ++ '/' :: m) ++ post) → m ≠ [] →
      m.length ≤ 2 → (∀ c ∈ m, c.isDigit = true) →
      Standing T (isCidrChar T) T.isDigit pre post →
      ∃ hlt : decimal m < 33,
        IpAllowed scope (Ipv4Network.networkAddress ip ⟨decimal m, hlt⟩)) := by
  refine ⟨?_, ?_, ?_⟩
  · intro pre ip post heq h hbase
    exact ip_sound hrun hs hdepth heq h hbase
  · intro pre d post heq hd h hlong
    exact domain_sound hrun hs hdepth heq hd h hlong
  · intro pre ip m post heq hne hlen hm h
    exact cidr_sound hrun hs hdepth heq hne hlen hm h

end Sound

def unrestricted : InvestigationScope := ⟨[], [], [], [], []⟩

section Example

def lab : InvestigationScope :=
  { unrestricted with allowedCidrs := ["10.0.0.0/8"], blockedDomains := ["evil.example"] }

def sweep : String := "scan 10.1.2.3, then 10.2.0.0/16 of www.example.org"

theorem example_domain : IsDomain "www.example.org".toList := by
  refine ⟨"www".toList, "example.org".toList, rfl, ?_, ?_⟩
  · exact ⟨by decide, by decide, by decide, by decide⟩
  · have hbody : DomainBody ("example".toList ++ '.' :: "org".toList) :=
      .label ⟨by decide, by decide, by decide, by decide⟩ (.tld ⟨by decide, by decide⟩)
    exact hbody

theorem scope_sound_sweep :
    beforeRun .ascii lab "sweep" (.obj [("target", .str sweep)]) = .ok () ∧
      IpAllowed lab ⟨10, 1, 2, 3⟩ ∧ DomainAllowed .ascii lab "www.example.org" ∧
      IpAllowed lab ⟨10, 2, 0, 0⟩ := by
  have hrun : beforeRun .ascii lab "sweep" (.obj [("target", .str sweep)]) = .ok () := by
    decide +kernel
  have hs : StringAt sweep 1 (.obj [("target", .str sweep)]) :=
    .field List.mem_cons_self .here
  obtain ⟨hip, hdomain, hcidr⟩ := scope_sound hrun hs (by decide)
  refine ⟨hrun, ?_, ?_, ?_⟩
  · apply hip "scan ".toList ⟨10, 1, 2, 3⟩ ", then 10.2.0.0/16 of www.example.org".toList
    · decide +kernel
    · exact ⟨by unfold Detached; decide +kernel, by decide +kernel, by decide +kernel⟩
    · rintro ⟨pre, n, post, htext, -⟩
      have hsub : (Ipv4.chars ⟨10, 1, 2, 3⟩ ++ ['/']) <:+: flattenStrings
          (.obj [("target", .str sweep)]) := ⟨pre, n ++ post, by simp [htext]⟩
      exact absurd hsub (by decide +kernel)
  · have hd := hdomain "scan 10.1.2.3, then 10.2.0.0/16 of ".toList "www.example.org".toList []
      (by decide +kernel) example_domain
      ⟨by unfold Detached; decide +kernel, by decide +kernel, rfl⟩
      (fun e rest heq _ _ => (List.append_eq_nil_iff.mp heq.symm).1)
    exact hd
  · obtain ⟨hlt, hnet⟩ := hcidr "scan 10.1.2.3, then ".toList ⟨10, 2, 0, 0⟩ "16".toList
      " of www.example.org".toList (by decide +kernel) (by decide) (by decide) (by decide)
      ⟨by unfold Detached; decide +kernel, by decide +kernel, by decide +kernel⟩
    have hbase : ∀ h : decimal "16".toList < 33,
        Ipv4Network.networkAddress ⟨10, 2, 0, 0⟩ ⟨decimal "16".toList, h⟩ = ⟨10, 2, 0, 0⟩ := by
      decide +kernel
    rwa [hbase] at hnet

def nested : ℕ → Json → Json
  | 0, x => x
  | n + 1, x => .arr [nested n x]

def blocking : InvestigationScope := { unrestricted with blockedIps := ["10.0.0.5"] }

-- A string thirteen levels deep, a key and an address glued to a word are not searched; of a
-- network only the base is looked at, and an address that is written as a base is passed over.
theorem scope_misses :
    (beforeRun .ascii blocking "node" (nested 13 (.str "10.0.0.5")) = .ok () ∧
      beforeRun .ascii blocking "node" (.obj [("10.0.0.5", .str "down")]) = .ok () ∧
      beforeRun .ascii blocking "node" (.obj [("host", .str "db_10.0.0.5")]) = .ok () ∧
      ¬ IpAllowed blocking ⟨10, 0, 0, 5⟩) ∧
    (beforeRun .ascii { unrestricted with allowedCidrs := ["10.0.0.0/24"] } "node"
        (.obj [("range", .str "10.0.0.0/8")]) = .ok () ∧
      ¬ IpAllowed { unrestricted with allowedCidrs := ["10.0.0.0/24"] } ⟨10, 9, 9, 9⟩) ∧
    (beforeRun .ascii { unrestricted with allowedIps := ["10.0.0.0"] } "node"
        (.obj [("range", .str "10.0.0.5/24"), ("host", .str "10.0.0.5")]) = .ok () ∧
      ¬ IpAllowed { unrestricted with allowedIps := ["10.0.0.0"] } ⟨10, 0, 0, 5⟩) := by
  have hblocked : ¬ IpAllowed blocking ⟨10, 0, 0, 5⟩ := fun h => h.1 (by decide +kernel)
  refine ⟨⟨by decide +kernel, by decide +kernel, by decide +kernel, hblocked⟩,
    ⟨by decide +kernel, ?_⟩, ⟨by decide +kernel, ?_⟩⟩
  · rintro ⟨-, ⟨-, hnone⟩ | hin | ⟨cidr, hcidr, net, hparse, hnet⟩⟩
    · cases hnone
    · cases hin
    · obtain rfl := List.mem_singleton.mp hcidr
      have hnet' : Ipv4Network.parse "10.0.0.0/24".toList = some ⟨⟨10, 0, 0, 0⟩, 24⟩ := by
        decide +kernel
      rw [hnet'] at hparse
      cases hparse
      exact absurd hnet (by decide +kernel)
  · rintro ⟨-, ⟨hnone, -⟩ | hin | ⟨cidr, hcidr, -⟩⟩
    · cases hnone
    · exact absurd hin (by decide +kernel)
    · cases hcidr

end Example

end Scope

end BTagent
