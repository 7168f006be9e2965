import BTagent.Hunt.Triage
import BTagent.Lib.Lines
import Mathlib.Data.List.Sort

namespace BTagent

namespace Triage

-- The entity kinds and the observable types that a finding shows.
def kinds (f : HuntFinding) : List String := f.entities.map (·.kind)

def types (f : HuntFinding) : List String := f.observables.map (·.type)

def SameMembers (xs ys : List String) : Prop := ∀ x, x ∈ xs ↔ x ∈ ys

structure SamePattern (f g : HuntFinding) : Prop where
  domain : f.domain = g.domain
  techniques : SameMembers f.techniqueIds g.techniqueIds
  kinds : SameMembers (kinds f) (kinds g)
  types : SameMembers (types f) (types g)

-- A text that can be told apart from its neighbours in a signature.
structure Legible (s : String) : Prop where
  nonempty : s.toList ≠ []
  comma : ',' ∉ s.toList
  bar : '|' ∉ s.toList

def LegibleFinding (f : HuntFinding) : Prop :=
  ∀ s ∈ f.techniqueIds ++ (kinds f ++ types f), Legible s

-- Equal patterns repeat their techniques alike, and different ones of a domain are legible.
structure Readable (f g : HuntFinding) : Prop where
  same : SamePattern f g → f.techniqueIds.Perm g.techniqueIds
  different : ¬ SamePattern f g → f.domain = g.domain → LegibleFinding f ∧ LegibleFinding g

section Lists
variable {xs ys : List String}

theorem sorted_perm : (sorted xs).Perm xs := List.perm_insertionSort _ _

theorem sorted_eq_iff : sorted xs = sorted ys ↔ xs.Perm ys := by
  constructor
  · intro h
    exact sorted_perm.symm.trans (h ▸ sorted_perm)
  · intro h
    exact (sorted_perm.trans (h.trans sorted_perm.symm)).eq_of_pairwise
      (fun _ _ _ _ hab hba => le_antisymm hab hba) (List.pairwise_insertionSort _ _)
      (List.pairwise_insertionSort _ _)

theorem sorted_dedup_eq_iff : sorted xs.dedup = sorted ys.dedup ↔ SameMembers xs ys := by
  rw [sorted_eq_iff, List.perm_ext_iff_of_nodup xs.nodup_dedup ys.nodup_dedup]
  simp only [List.mem_dedup, SameMembers]

theorem commaJoined_toList : (commaJoined xs).toList = [','].intercalate (xs.map String.toList) := by
  rw [commaJoined, String.toList_intercalate]
  rfl

theorem commaJoined_nil_iff (h : ∀ x ∈ xs, Legible x) : (commaJoined xs).toList = [] ↔ xs = [] := by
  rw [commaJoined_toList]
  cases xs with
  | nil => exact iff_of_true rfl rfl
  | cons x xs =>
      refine iff_of_false ?_ (List.cons_ne_nil x xs)
      intro hnil
      cases xs with
      | nil => exact (h x List.mem_cons_self).nonempty (by simpa using hnil)
      | cons y ys =>
          rw [List.map_cons, List.map_cons, List.intercalate_cons_cons, List.append_assoc] at hnil
          exact (h x List.mem_cons_self).nonempty (List.append_eq_nil_iff.mp hnil).1

theorem commaJoined_inj (hx : ∀ x ∈ xs, Legible x) (hy : ∀ y ∈ ys, Legible y)
    (h : commaJoined xs = commaJoined ys) : xs = ys := by
  by_cases hnil : xs = []
  · have hempty := (commaJoined_nil_iff hx).mpr hnil
    rw [h, commaJoined_nil_iff hy] at hempty
    rw [hnil, hempty]
  · have hnil' : ys ≠ [] := by
      intro hys
      have hempty := (commaJoined_nil_iff hy).mpr hys
      rw [← h, commaJoined_nil_iff hx] at hempty
      exact hnil hempty
    have hsplit : ∀ {zs : List String}, (∀ z ∈ zs, Legible z) → zs ≠ [] →
        (commaJoined zs).toList.splitOn ',' = zs.map String.toList := by
      intro zs hz hne
      rw [commaJoined_toList]
      refine List.splitOn_intercalate ',' ?_ (by simpa using hne)
      rintro l hl
      obtain ⟨z, hmem, rfl⟩ := List.mem_map.mp hl
      exact (hz z hmem).comma
    have hmap : xs.map String.toList = ys.map String.toList := by
      rw [← hsplit hx hnil, ← hsplit hy hnil', h]
    exact List.map_injective_iff.mpr (fun _ _ => String.toList_injective) hmap

theorem bar_commaJoined (h : ∀ x ∈ xs, Legible x) : '|' ∉ (commaJoined xs).toList := by
  rw [commaJoined_toList]
  induction xs with
  | nil => exact List.not_mem_nil
  | cons x xs ih =>
      have hx := (h x List.mem_cons_self).bar
      have hrest := ih fun y hy => h y (List.mem_cons_of_mem _ hy)
      cases xs with
      | nil => simpa using hx
      | cons y ys =>
          rw [List.map_cons, List.map_cons, List.intercalate_cons_cons, List.append_assoc,
            List.mem_append, List.mem_append, not_or, not_or]
          exact ⟨hx, by decide, hrest⟩

end Lists

section Signatures
variable {f g : HuntFinding}

def techniqueText (f : HuntFinding) : String := commaJoined (sorted f.techniqueIds)

def kindText (f : HuntFinding) : String := commaJoined (sorted (kinds f).dedup)

def typeText (f : HuntFinding) : String := commaJoined (sorted (types f).dedup)

theorem signature_toList : (findingSignature f).toList =
    f.domain.value.toList ++ '|' :: ((techniqueText f).toList ++ '|' ::
      ((kindText f).toList ++ '|' :: (typeText f).toList)) := by
  simp only [findingSignature, String.toList_append, List.append_assoc]
  rfl

theorem domain_bar (d : HuntDomain) : '|' ∉ d.value.toList := by
  cases d <;> decide

theorem domain_value_inj {d e : HuntDomain} (h : d.value = e.value) : d = e := by
  revert h
  cases d <;> cases e <;> decide

theorem split_bar {a b s t : List Char} (ha : '|' ∉ a) (hb : '|' ∉ b)
    (h : a ++ '|' :: s = b ++ '|' :: t) : a = b ∧ s = t := by
  have hsplit := congrArg (List.splitOn '|') h
  rw [List.splitOn_append_cons_self, List.splitOn_append_cons_self, List.splitOn_eq_singleton ha,
    List.splitOn_eq_singleton hb] at hsplit
  obtain rfl := (List.cons.inj hsplit).1
  exact ⟨rfl, (List.cons.inj (List.append_cancel_left h)).2⟩

theorem domain_of_signature (h : findingSignature f = findingSignature g) : f.domain = g.domain := by
  have htext := congrArg String.toList h
  rw [signature_toList, signature_toList] at htext
  exact domain_value_inj (String.toList_injective (split_bar (domain_bar _) (domain_bar _) htext).1)

theorem LegibleFinding.sorted_techniques (h : LegibleFinding f) :
    ∀ s ∈ sorted f.techniqueIds, Legible s := by
  intro s hs
  exact h s (List.mem_append_left _ (sorted_perm.mem_iff.mp hs))

theorem LegibleFinding.sorted_kinds (h : LegibleFinding f) :
    ∀ s ∈ sorted (kinds f).dedup, Legible s := by
  intro s hs
  have hmem := List.mem_dedup.mp (sorted_perm.mem_iff.mp hs)
  exact h s (List.mem_append_right _ (List.mem_append_left _ hmem))

theorem LegibleFinding.sorted_types (h : LegibleFinding f) :
    ∀ s ∈ sorted (types f).dedup, Legible s := by
  intro s hs
  have hmem := List.mem_dedup.mp (sorted_perm.mem_iff.mp hs)
  exact h s (List.mem_append_right _ (List.mem_append_right _ hmem))

theorem signature_of_same (h : SamePattern f g) (hperm : f.techniqueIds.Perm g.techniqueIds) :
    findingSignature f = findingSignature g := by
  apply String.toList_injective
  rw [signature_toList, signature_toList, h.domain, techniqueText, sorted_eq_iff.mpr hperm, kindText,
    sorted_dedup_eq_iff.mpr h.kinds, typeText, sorted_dedup_eq_iff.mpr h.types]
  rfl

theorem pattern_of_signature (hf : LegibleFinding f) (hg : LegibleFinding g)
    (h : findingSignature f = findingSignature g) :
    SamePattern f g ∧ f.techniqueIds.Perm g.techniqueIds := by
  have htext := congrArg String.toList h
  rw [signature_toList, signature_toList] at htext
  obtain ⟨-, htext⟩ := split_bar (domain_bar _) (domain_bar _) htext
  obtain ⟨htechniques, htext⟩ := split_bar (bar_commaJoined hf.sorted_techniques)
    (bar_commaJoined hg.sorted_techniques) htext
  obtain ⟨hkinds, htypes⟩ := split_bar (bar_commaJoined hf.sorted_kinds)
    (bar_commaJoined hg.sorted_kinds) htext
  have hperm := sorted_eq_iff.mp
    (commaJoined_inj hf.sorted_techniques hg.sorted_techniques (String.toList_injective htechniques))
  refine ⟨⟨domain_of_signature h, fun _ => hperm.mem_iff, ?_, ?_⟩, hperm⟩
  · exact sorted_dedup_eq_iff.mp
      (commaJoined_inj hf.sorted_kinds hg.sorted_kinds (String.toList_injective hkinds))
  · exact sorted_dedup_eq_iff.mp
      (commaJoined_inj hf.sorted_types hg.sorted_types (String.toList_injective htypes))

end Signatures

section Example

def techniqueFinding (techniqueIds : List String) : HuntFinding :=
  ⟨.HUNT_PACK, .SIGMA, "", .LOW, techniqueIds, [], [], .empty⟩

end Example

end Triage

namespace Triage

variable {cluster : List HuntFinding} {f m : HuntFinding}

-- The rule hides every member, and only findings that share the domain and a technique with it.
structure Narrow (cluster : List HuntFinding) : Prop where
  members : ∀ m ∈ cluster, suppressionMatches (matchForCluster cluster) m = true
  domain : ∀ f, suppressionMatches (matchForCluster cluster) f = true →
    ∀ m ∈ cluster, f.domain = m.domain
  technique : ∀ f, suppressionMatches (matchForCluster cluster) f = true →
    ∃ m ∈ cluster, ∃ t ∈ m.techniqueIds, t ∈ f.techniqueIds

theorem mem_unionTechniques {t : String} :
    t ∈ unionTechniques cluster ↔ ∃ m ∈ cluster, t ∈ m.techniqueIds := by
  rw [unionTechniques, sorted_perm.mem_iff, List.mem_dedup, List.mem_flatMap]

theorem overlaps_iff {wanted found : List String} :
    overlaps wanted found = true ↔ ∃ t ∈ wanted, t ∈ found := by
  simp [overlaps]

theorem unionTechniques_nil :
    (unionTechniques cluster).isEmpty = true ↔ ∀ m ∈ cluster, m.techniqueIds = [] := by
  rw [List.isEmpty_iff, List.eq_nil_iff_forall_not_mem]
  constructor
  · intro h m hm
    rw [List.eq_nil_iff_forall_not_mem]
    exact fun t ht => h t (mem_unionTechniques.mpr ⟨m, hm, ht⟩)
  · intro h t ht
    obtain ⟨m, hm, hmem⟩ := mem_unionTechniques.mp ht
    rw [h m hm] at hmem
    cases hmem

-- The derived rule asks for the first member's domain and for a technique of some member, or for
-- the domain alone where no member names a technique.
theorem matchForCluster_matches (hm : m ∈ cluster)
    (hsame : ∀ m ∈ cluster, ∀ n ∈ cluster, m.domain = n.domain) :
    suppressionMatches (matchForCluster cluster) f = true ↔ f.domain = m.domain ∧
      ((∀ m ∈ cluster, m.techniqueIds = []) ∨
        ∃ m ∈ cluster, ∃ t ∈ m.techniqueIds, t ∈ f.techniqueIds) := by
  obtain ⟨first, rest, rfl⟩ := List.exists_cons_of_ne_nil (List.ne_nil_of_mem hm)
  have hfirst : first.domain = m.domain := hsame first List.mem_cons_self m hm
  have hoverlap : overlaps (unionTechniques (first :: rest)) f.techniqueIds = true ↔
      ∃ m ∈ first :: rest, ∃ t ∈ m.techniqueIds, t ∈ f.techniqueIds := by
    rw [overlaps_iff]
    constructor
    · rintro ⟨t, ht, hf⟩
      obtain ⟨m, hm, hmem⟩ := mem_unionTechniques.mp ht
      exact ⟨m, hm, t, hmem, hf⟩
    · rintro ⟨m, hm, t, ht, hf⟩
      exact ⟨t, mem_unionTechniques.mpr ⟨m, hm, ht⟩, hf⟩
  simp only [suppressionMatches, matchForCluster, Option.all_none, Option.all_some, Bool.true_and,
    List.isEmpty_nil, Bool.true_or, Bool.and_true, Bool.and_eq_true, decide_eq_true_eq,
    Bool.or_eq_true, unionTechniques_nil, hoverlap, hfirst]

section Example

end Example

end Triage

end BTagent
