import BTagent.Lib.Lines
import BTagent.Response.Safelist

namespace BTagent

namespace IpAddress

-- An IPv4-mapped address is the IPv4 address.
def canonical : IpAddress → IpAddress
  | v4 ip => v4 ip
  | v6 ip =>
      match Ipv6.ipv4Mapped ip with
      | some mapped => v4 mapped
      | none => v6 ip

def isNonPublic (ip : IpAddress) : Bool :=
  ip.isPrivate || ip.isLoopback || ip.isReserved || ip.isLinkLocal || ip.isMulticast

theorem isNonPublic_canonical (ip : IpAddress) : ip.canonical.isNonPublic = ip.isNonPublic := by
  cases ip with
  | v4 ip => rfl
  | v6 ip =>
      cases hmapped : Ipv6.ipv4Mapped ip with
      | none => simp only [canonical, hmapped]
      | some mapped =>
          simp only [canonical, hmapped, isNonPublic, isPrivate, isLoopback, isReserved,
            isLinkLocal, isMulticast, Ipv6.isPrivate, Ipv6.isLoopback, Ipv6.isReserved,
            Ipv6.isLinkLocal, Ipv6.isMulticast]

end IpAddress

namespace Safelist

def Graphic (c : Char) : Prop := 33 ≤ c.toNat ∧ c.toNat < 127

instance (c : Char) : Decidable (Graphic c) := inferInstanceAs (Decidable (_ ∧ _))

def endsAuthority (c : Char) : Bool := c == '/' || c == '?' || c == '#'

def Bracketed (cs : List Char) : Prop := ∃ inner, cs = '[' :: (inner ++ [']'])

structure HttpUrl where
  scheme : List Char
  userinfo : Option (List Char)
  host : List Char
  port : Option (List Char)
  tail : List Char
  scheme_http : scheme.map Char.toLower = "http".toList ∨ scheme.map Char.toLower = "https".toList
  userinfo_chars : ∀ cs ∈ userinfo, ∀ c ∈ cs, Graphic c ∧ endsAuthority c = false
  host_chars : ∀ c ∈ host, Graphic c ∧ endsAuthority c = false ∧ c ≠ '@'
  host_ne : host ≠ []
  host_colon : ':' ∈ host → Bracketed host
  port_digits : ∀ cs ∈ port, ∀ c ∈ cs, c.isDigit = true
  tail_head : ∀ c ∈ tail.head?, endsAuthority c = true

namespace HttpUrl

variable (u : HttpUrl)

def authority : List Char :=
  (u.userinfo.elim [] fun cs => cs ++ ['@']) ++ (u.host ++ u.port.elim [] fun cs => ':' :: cs)

def text : String :=
  String.ofList (u.scheme ++ ("://".toList ++ (u.authority ++ u.tail)))

end HttpUrl

-- Case and the dots at the end do not matter to a host.
def normal (cs : List Char) : List Char := (cs.map Char.toLower).rdropWhile (· == '.')

def unbracket (cs : List Char) : List Char :=
  if cs.head? = some '[' ∧ cs.getLast? = some ']' then cs.tail.dropLast else cs

variable (T : CharTable)

-- The address, and the zone that an IPv6 text may name.
def denoted (value : String) : Option (IpAddress × List Char) :=
  (IpAddress.parse (T.strip value).toList).map fun ip =>
    (ip.canonical, (T.strip value).toList.dropWhile (· != '%'))

def SameAddress (a b : String) : Prop :=
  ∃ target, denoted T a = some target ∧ denoted T b = some target

theorem isStructurallyReservedIp_eq (value : String) : isStructurallyReservedIp T value =
    (denoted T value).any fun target => target.1.isNonPublic := by
  unfold isStructurallyReservedIp denoted
  cases IpAddress.parse (T.strip value).toList with
  | none => rfl
  | some ip => exact ip.isNonPublic_canonical.symm

variable {T} in
theorem reserved_of_same {a b : String} (h : SameAddress T a b) :
    isStructurallyReservedIp T a = isStructurallyReservedIp T b := by
  obtain ⟨target, ha, hb⟩ := h
  rw [isStructurallyReservedIp_eq, isStructurallyReservedIp_eq, ha, hb]

section Text
variable {T} {cs tail rest : List Char} {c d : Char}

theorem hostPart_append (hcs : ∀ c ∈ cs, endsAuthority c = false)
    (htail : ∀ c ∈ tail.head?, endsAuthority c = true) : hostPart (cs ++ tail) = cs := by
  have hpart : ∀ text : List Char, hostPart text = text.takeWhile fun c => !endsAuthority c := by
    intro text
    simp only [hostPart, List.takeWhile_takeWhile]
    congr 1
    funext c
    simp only [endsAuthority, Bool.not_or]
    grind
  rw [hpart, List.takeWhile_append_of_pos (by simpa using hcs)]
  cases tail with
  | nil => simp
  | cons d tail =>
      have hd : endsAuthority d = true := htail d rfl
      simp [hd]

theorem strip_graphic (hcs : ∀ c ∈ cs, Graphic c) : T.strip (String.ofList cs) = String.ofList cs := by
  have hspace : ∀ c ∈ cs, T.isSpace c = false := fun c hc => T.isSpace_of_graphic (hcs c hc)
  have hleft : cs.dropWhile T.isSpace = cs := by
    rw [List.dropWhile_eq_self_iff]
    intro hpos
    simp [hspace cs[0] (List.getElem_mem hpos)]
  have hright : cs.rdropWhile T.isSpace = cs := by
    rw [List.rdropWhile_eq_self_iff]
    intro hne
    simp [hspace _ (List.getLast_mem hne)]
  rw [CharTable.strip, String.toList_ofList, hleft, hright]

theorem lower_graphic (hcs : ∀ c ∈ cs, Graphic c) :
    T.lower (String.ofList cs) = String.ofList (cs.map Char.toLower) := by
  rw [T.lower_ascii]
  · apply String.toList_injective
    simp
  · intro c hc
    rw [String.toList_ofList] at hc
    exact (hcs c hc).2.trans (by decide)

theorem rstrip_lower (hcs : ∀ c ∈ cs, Graphic c) :
    rstrip '.' (T.lower (T.strip (String.ofList cs))) = String.ofList (normal cs) := by
  rw [strip_graphic hcs, lower_graphic hcs, rstrip, String.toList_ofList]
  rfl

theorem graphic_of_lower (h : Graphic c.toLower) : Graphic c := by
  unfold Char.toLower at h
  split at h
  · next hc =>
      have hge : 65 ≤ c.toNat := UInt32.le_iff_toNat_le.mp hc.1
      have hle : c.toNat ≤ 90 := UInt32.le_iff_toNat_le.mp hc.2
      exact ⟨by omega, by omega⟩
  · exact h

theorem sameLetter_of_lower (hd : Graphic d) (h : c.toLower = d) (hlow : d.toLower = d) :
    T.sameLetter d c = true := by
  have hc : Graphic c := graphic_of_lower (h ▸ hd)
  rw [T.letter_ascii d c (hd.2.trans (by decide)) (hc.2.trans (by decide)), h, hlow]
  exact beq_self_eq_true d

theorem splitScheme_http (hscheme : cs.map Char.toLower = "http".toList ∨
    cs.map Char.toLower = "https".toList) :
    splitScheme T (cs ++ ("://".toList ++ rest)) = (cs ++ "://".toList, rest) := by
  have hcolon : T.sameLetter 's' ':' = false := by
    rw [T.letter_ascii _ _ (by decide) (by decide)]
    decide
  have hletters : ∀ d ∈ "https".toList, ∀ c : Char, c.toLower = d → T.sameLetter d c = true := by
    intro d hd c hc
    have hall : ∀ d ∈ "https".toList, Graphic d ∧ d.toLower = d := by decide
    exact sameLetter_of_lower (hall d hd).1 hc (hall d hd).2
  have hchars : "https".toList = ['h', 't', 't', 'p', 's'] := rfl
  simp only [hchars, List.forall_mem_cons] at hletters
  obtain ⟨hh, ht, -, hp, hs', -⟩ := hletters
  rcases hscheme with h | h
  · have h : cs.map Char.toLower = ['h', 't', 't', 'p'] := h
    simp only [List.map_eq_cons_iff, List.map_eq_nil_iff] at h
    obtain ⟨a, _, rfl, ha, b, _, rfl, hb, c, _, rfl, hc, d, _, rfl, hd, rfl⟩ := h
    simp [splitScheme, scheme, Regex.splits, Regex.sets, Regex.chain, Regex.repeated, Regex.opt,
      hh a ha, ht b hb, ht c hc, hp d hd, hcolon]
  · have h : cs.map Char.toLower = ['h', 't', 't', 'p', 's'] := h
    simp only [List.map_eq_cons_iff, List.map_eq_nil_iff] at h
    obtain ⟨a, _, rfl, ha, b, _, rfl, hb, c, _, rfl, hc, d, _, rfl, hd, e, _, rfl, he, rfl⟩ := h
    simp [splitScheme, scheme, Regex.splits, Regex.sets, Regex.chain, Regex.repeated, Regex.opt,
      hh a ha, ht b hb, ht c hc, hp d hd, hs' e he]
end Text

namespace HttpUrl

variable {T} (u : HttpUrl)

theorem digit_graphic {c : Char} (h : c.isDigit = true) :
    Graphic c ∧ endsAuthority c = false ∧ c ≠ '.' := by
  have hrange : 48 ≤ c.toNat ∧ c.toNat ≤ 57 := Char.isDigit_iff_toNat.mp h
  have hne : ∀ d : Char, d.isDigit = false → c ≠ d := by
    rintro d hd rfl
    rw [hd] at h
    cases h
  refine ⟨⟨by omega, by omega⟩, ?_, hne '.' (by decide)⟩
  simp [endsAuthority, hne '/' (by decide), hne '?' (by decide), hne '#' (by decide)]

theorem authority_chars : ∀ c ∈ u.authority, Graphic c ∧ endsAuthority c = false := by
  intro c hc
  simp only [authority, List.mem_append] at hc
  rcases hc with hc | hc | hc
  · cases huser : u.userinfo with
    | none => simp [huser] at hc
    | some cs =>
        simp only [huser, Option.elim_some, List.mem_append, List.mem_singleton] at hc
        rcases hc with hc | rfl
        · exact u.userinfo_chars cs huser c hc
        · exact ⟨⟨by decide, by decide⟩, by decide⟩
  · exact ⟨(u.host_chars c hc).1, (u.host_chars c hc).2.1⟩
  · cases hport : u.port with
    | none => simp [hport] at hc
    | some cs =>
        simp only [hport, Option.elim_some, List.mem_cons] at hc
        rcases hc with rfl | hc
        · exact ⟨⟨by decide, by decide⟩, by decide⟩
        · have hd := digit_graphic (u.port_digits cs hport c hc)
          exact ⟨hd.1, hd.2.1⟩

theorem authority_ne : u.authority ≠ [] := by
  simp [authority, u.host_ne]

theorem scheme_head : ∃ c cs, u.scheme = c :: cs ∧ T.isSpace c = false := by
  obtain ⟨c, cs, hscheme⟩ : ∃ c cs, u.scheme = c :: cs := by
    apply List.exists_cons_of_ne_nil
    intro hnil
    rcases u.scheme_http with h | h <;> simp [hnil] at h
  refine ⟨c, cs, hscheme, T.isSpace_of_graphic ?_⟩
  have hlower : c.toLower = 'h' := by
    rcases u.scheme_http with h | h <;> exact (List.cons.inj (hscheme ▸ h)).1
  exact graphic_of_lower (hlower ▸ by decide)

theorem strip_text : ∃ tail, (∀ c ∈ tail.head?, endsAuthority c = true) ∧
    (T.strip u.text).toList = u.scheme ++ ("://".toList ++ (u.authority ++ tail)) := by
  obtain ⟨init, last, hauth⟩ := (List.eq_nil_or_concat u.authority).resolve_left u.authority_ne
  have hlast : T.isSpace last = false := by
    apply T.isSpace_of_graphic
    exact (u.authority_chars last (by simp [hauth])).1
  have hright := Lines.rdropWhile_append_solid hlast (u.scheme ++ ("://".toList ++ init)) u.tail
  have hleft : (u.scheme ++ ("://".toList ++ (u.authority ++ u.tail))).dropWhile T.isSpace =
      u.scheme ++ ("://".toList ++ (u.authority ++ u.tail)) := by
    obtain ⟨c, cs, hscheme, hspace⟩ := u.scheme_head (T := T)
    rw [hscheme, List.cons_append, List.dropWhile_cons_of_neg (by simp [hspace])]
  refine ⟨u.tail.rdropWhile T.isSpace, ?_, ?_⟩
  · intro c hc
    apply u.tail_head
    obtain ⟨t, ht⟩ := List.rdropWhile_prefix T.isSpace (l := u.tail)
    rw [← ht, List.head?_append, hc]
    rfl
  · rw [text, CharTable.strip, String.toList_ofList, String.toList_ofList, hleft, hauth]
    simpa using hright

theorem domainFromUrl_text : domainFromUrl T u.text = String.ofList u.authority := by
  obtain ⟨tail, htail, hstrip⟩ := u.strip_text (T := T)
  rw [domainFromUrl, hstrip, splitScheme_http u.scheme_http,
    hostPart_append (fun c hc => (u.authority_chars c hc).2) htail]

end HttpUrl

end Safelist

namespace SafelistPolicy
open Safelist

variable (T : CharTable) (policy : SafelistPolicy)

-- An entry stands for itself and for what is under it.
def Covers (entry : String) (host : List Char) : Prop :=
  host = entry.toList ∨ '.' :: entry.toList <:+ host

instance (entry : String) (host : List Char) : Decidable (Covers entry host) :=
  inferInstanceAs (Decidable (_ ∨ _))

-- The host of a URL is a safelisted domain, or the address of a host that may not be blocked.
def Protected (u : HttpUrl) : Prop :=
  policy.domainSafelisted T (String.ofList u.host) = true ∨
    ∃ value, SameAddress T value (String.ofList (unbracket (normal u.host))) ∧
      policy.ipSafelisted T value = true

-- An entry that names a user or a port covers an authority that does.
def Listed (u : HttpUrl) : Prop :=
  (u.port = none ∧
    ((u.userinfo = none ∧ policy.domainSafelisted T (String.ofList u.host) = true) ∨
      ∃ s ∈ policy.domainSuffixes, '.' :: s.toList <:+ normal u.host)) ∨
  ∃ s ∈ policy.domainSuffixes, ('@' ∈ s.toList ∨ ':' ∈ s.toList) ∧ Covers s (normal u.authority)

variable {T policy} {u : HttpUrl} {cs a b : List Char} {s : String} {c : Char}

theorem endsWith_dot : EndsWith (String.ofList cs) ("." ++ s) ↔ '.' :: s.toList <:+ cs := by
  simp [EndsWith]

theorem domainSafelisted_iff (hcs : ∀ c ∈ cs, Graphic c) :
    policy.domainSafelisted T (String.ofList cs) = true ↔
      normal cs ≠ [] ∧ ∃ s ∈ policy.domainSuffixes, Covers s (normal cs) := by
  have hne : String.ofList (normal cs) ≠ "" ↔ normal cs ≠ [] := by
    simp
  have heq : ∀ s : String, String.ofList (normal cs) = s ↔ normal cs = s.toList := by
    intro s
    rw [← String.toList_inj, String.toList_ofList]
  simp only [domainSafelisted, rstrip_lower hcs, Bool.and_eq_true, List.any_eq_true,
    decide_eq_true_eq, Bool.or_eq_true, hne, heq, endsWith_dot, Covers]

theorem normal_append (hlower : c.toLower = c) (hdot : c ≠ '.') :
    normal (a ++ c :: b) = a.map Char.toLower ++ c :: normal b := by
  rw [normal, List.map_append, List.map_cons, hlower]
  exact Lines.rdropWhile_append_solid (by simpa using hdot) _ _

theorem suffix_marked {x : List Char} (h : x <:+ a ++ c :: b) : c ∈ x ∨ x <:+ b := by
  rcases List.suffix_or_suffix_of_suffix h (List.suffix_append a (c :: b)) with h | h
  · rcases List.suffix_cons_iff.mp h with rfl | h
    · exact Or.inl List.mem_cons_self
    · exact Or.inr h
  · exact Or.inl (h.mem List.mem_cons_self)

theorem covers_marked (hdot : c ≠ '.') (h : Covers s (a ++ c :: b)) :
    c ∈ s.toList ∨ '.' :: s.toList <:+ b := by
  rcases h with h | h
  · exact Or.inl (h ▸ by simp)
  · rcases suffix_marked h with h | h
    · exact Or.inl ((List.mem_cons.mp h).resolve_left hdot)
    · exact Or.inr h

theorem no_dot_in_port (hcs : ∀ c ∈ cs, c.isDigit = true) : '.' ∉ normal cs := by
  intro h
  obtain ⟨c, hc, hlow⟩ := List.mem_map.mp ((List.rdropWhile_prefix _ _).mem h)
  have hrange : 48 ≤ c.toNat ∧ c.toNat ≤ 57 := Char.isDigit_iff_toNat.mp (hcs c hc)
  unfold Char.toLower at hlow
  split at hlow
  · next hup =>
      have hge : 65 ≤ c.toNat := UInt32.le_iff_toNat_le.mp hup.1
      omega
  · subst hlow
    exact absurd hrange.1 (by decide)

theorem authority_no_port (hport : u.port = none) (huser : u.userinfo = none) :
    u.authority = u.host := by
  simp [HttpUrl.authority, hport, huser]

theorem host_suffix (hport : u.port = none) : normal u.host <:+ normal u.authority := by
  cases huser : u.userinfo with
  | none => rw [authority_no_port hport huser]
  | some cs =>
      have hauth : u.authority = cs ++ '@' :: u.host := by simp [HttpUrl.authority, hport, huser]
      rw [hauth, normal_append (by decide) (by decide), List.append_cons]
      exact List.suffix_append _ _

theorem covers_authority : Covers s (normal u.authority) ↔
    (u.port = none ∧ u.userinfo = none ∧ Covers s (normal u.host)) ∨
      (u.port = none ∧ '.' :: s.toList <:+ normal u.host) ∨
      (('@' ∈ s.toList ∨ ':' ∈ s.toList) ∧ Covers s (normal u.authority)) := by
  constructor
  · intro h
    cases hport : u.port with
    | some cs =>
        have hauth : u.authority =
            ((u.userinfo.elim [] fun cs => cs ++ ['@']) ++ u.host) ++ ':' :: cs := by
          simp [HttpUrl.authority, hport]
        have hmark := h
        rw [hauth, normal_append (by decide) (by decide)] at hmark
        rcases covers_marked (by decide) hmark with hmark | hdot
        · exact Or.inr (Or.inr ⟨Or.inr hmark, h⟩)
        · exact absurd (hdot.mem List.mem_cons_self) (no_dot_in_port (u.port_digits cs hport))
    | none =>
        cases huser : u.userinfo with
        | none => exact Or.inl ⟨rfl, rfl, authority_no_port hport huser ▸ h⟩
        | some cs =>
            have hauth : u.authority = cs ++ '@' :: u.host := by
              simp [HttpUrl.authority, hport, huser]
            have hmark := h
            rw [hauth, normal_append (by decide) (by decide)] at hmark
            rcases covers_marked (by decide) hmark with hmark | hsuffix
            · exact Or.inr (Or.inr ⟨Or.inl hmark, h⟩)
            · exact Or.inr (Or.inl ⟨rfl, hsuffix⟩)
  · rintro (⟨hport, huser, h⟩ | ⟨hport, h⟩ | ⟨-, h⟩)
    · rwa [authority_no_port hport huser]
    · exact Or.inr (h.trans (host_suffix hport))
    · exact h

theorem urlSafelisted_iff : policy.urlSafelisted T u.text = true ↔ policy.Listed T u := by
  have hhost : policy.domainSafelisted T (String.ofList u.host) = true ↔
      normal u.host ≠ [] ∧ ∃ s ∈ policy.domainSuffixes, Covers s (normal u.host) :=
    domainSafelisted_iff fun c hc => (u.host_chars c hc).1
  rw [urlSafelisted, u.domainFromUrl_text, domainSafelisted_iff fun c hc => (u.authority_chars c hc).1]
  constructor
  · rintro ⟨hne, s, hs, h⟩
    rcases covers_authority.mp h with ⟨hport, huser, h⟩ | ⟨hport, h⟩ | ⟨hmark, h⟩
    · rw [authority_no_port hport huser] at hne
      exact Or.inl ⟨hport, Or.inl ⟨huser, hhost.mpr ⟨hne, s, hs, h⟩⟩⟩
    · exact Or.inl ⟨hport, Or.inr ⟨s, hs, h⟩⟩
    · exact Or.inr ⟨s, hs, hmark, h⟩
  · rintro (⟨hport, ⟨huser, h⟩ | ⟨s, hs, h⟩⟩ | ⟨s, hs, hmark, h⟩)
    · rw [authority_no_port hport huser]
      exact hhost.mp h
    · have hsuffix := h.trans (host_suffix hport)
      exact ⟨List.ne_nil_of_mem (hsuffix.mem List.mem_cons_self), s, hs, Or.inr hsuffix⟩
    · refine ⟨?_, s, hs, h⟩
      intro hnil
      rw [hnil] at h
      rcases h with h | h
      · simp [← h] at hmark
      · simp at h

theorem depends_on_target_iff (T : CharTable) (policy : SafelistPolicy) (u : HttpUrl)
    (first second : String) :
    ((policy.Protected T u → policy.urlSafelisted T u.text = true) ↔
      (policy.Protected T u → policy.Listed T u)) ∧
    ((SameAddress T first second →
        policy.ipSafelisted T first = policy.ipSafelisted T second) ↔
      (SameAddress T first second → isStructurallyReservedIp T first = true ∨
        (T.strip first ∈ policy.ips ↔ T.strip second ∈ policy.ips))) := by
  constructor
  · rw [urlSafelisted_iff]
  · apply imp_congr_right
    intro hsame
    have hreserved := reserved_of_same hsame
    have heq : ∀ value, policy.ipSafelisted T value =
        (isStructurallyReservedIp T value || policy.ips.contains (T.strip value)) := by
      intro value
      simp only [ipSafelisted, isStructurallyReservedIp, T.strip_strip]
    rw [heq, heq, ← hreserved]
    cases isStructurallyReservedIp T first with
    | true => simp
    | false =>
        rw [Bool.eq_iff_iff, Bool.false_or, Bool.false_or, List.contains_iff_mem,
          List.contains_iff_mem]
        simp

def withPort : HttpUrl where
  scheme := "https".toList
  userinfo := none
  host := "www.google.com".toList
  port := some "443".toList
  tail := "/".toList
  scheme_http := by decide
  userinfo_chars := by decide
  host_chars := by decide
  host_ne := by decide
  host_colon h := absurd h (by decide)
  port_digits := by decide
  tail_head := by decide

def ofAddress : HttpUrl where
  scheme := "http".toList
  userinfo := none
  host := "8.8.8.8".toList
  port := none
  tail := []
  scheme_http := by decide
  userinfo_chars := by decide
  host_chars := by decide
  host_ne := by decide
  host_colon h := absurd h (by decide)
  port_digits := by decide
  tail_head := by decide

theorem spelling_evades :
    let T := CharTable.ascii
    let policy := BASELINE_SAFELIST T
    (policy.Protected T withPort ∧ policy.urlSafelisted T withPort.text = false) ∧
    (policy.Protected T ofAddress ∧ policy.urlSafelisted T ofAddress.text = false) ∧
    SameAddress T "8.8.8.8" "::ffff:8.8.8.8" ∧
    policy.ipSafelisted T "8.8.8.8" = true ∧ policy.ipSafelisted T "::ffff:8.8.8.8" = false := by
  have hdenoted : denoted CharTable.ascii "8.8.8.8" = some (.v4 ⟨8, 8, 8, 8⟩, []) := by
    decide
  have hmapped : denoted CharTable.ascii "::ffff:8.8.8.8" = some (.v4 ⟨8, 8, 8, 8⟩, []) := by
    decide +kernel
  refine ⟨⟨Or.inl ?_, ?_⟩, ⟨Or.inr ⟨"8.8.8.8", ⟨_, hdenoted, ?_⟩, ?_⟩, ?_⟩,
    ⟨_, hdenoted, hmapped⟩, ?_, ?_⟩ <;> decide +kernel

end SafelistPolicy

end BTagent
