import Mathlib.Data.List.Basic
import Mathlib.Tactic.Cases

-- A text from which stretches are cut out, each with a partner that may stand behind it. The cuts
-- are made one after another, from the place where the last one ended.
namespace Cuttings

inductive Part where
  | copy (start stop : ℕ)
  | hole
  | partner
  deriving DecidableEq

def Part.positions : Part → List ℕ
  | .copy start stop => List.range' start (stop - start)
  | .hole => []
  | .partner => []

def copied (ps : List Part) : List ℕ := ps.flatMap Part.positions

variable (len : ℕ) (partner : ℕ × ℕ → Option (ℕ × ℕ))

def parts : ℕ → List (ℕ × ℕ) → List Part
  | pos, [] => [.copy pos len]
  | pos, m :: ms =>
      .copy pos m.1 :: .hole ::
        match partner m with
        | none => parts m.2 ms
        | some p => .copy m.2 p.1 :: .partner :: parts p.2 ms

structure Arranged (ms : List (ℕ × ℕ)) : Prop where
  apart : ms.Pairwise fun m m' => m.2 ≤ m'.1
  holes : ∀ m ∈ ms, m.1 < m.2
  partners : ∀ m ∈ ms, ∀ p, partner m = some p → m.2 < p.1 ∧ p.1 ≤ p.2 ∧ p.2 ≤ len

-- Every place is copied once at most, in order, and none of a stretch or of its partner.
structure LeftToRight (ms : List (ℕ × ℕ)) (ps : List Part) : Prop where
  ordered : (copied ps).Pairwise (· < ·)
  holes : ∀ c ∈ copied ps, ∀ m ∈ ms, ¬(m.1 ≤ c ∧ c < m.2)
  partners : ∀ c ∈ copied ps, ∀ m ∈ ms, ∀ p, partner m = some p → ¬(p.1 ≤ c ∧ c < p.2)

-- No stretch begins between another and its partner, and one that begins in the partner ends no
-- earlier than the partner does or where the next stretch begins.
def Clear (ms : List (ℕ × ℕ)) : Prop :=
  ∀ m ∈ ms, ∀ p, partner m = some p → ∀ m' ∈ ms, m.2 ≤ m'.1 →
    p.1 ≤ m'.1 ∧ (m'.2 < p.2 → ∃ m'' ∈ ms, m''.1 = m'.2)

section
variable {len} {partner} {m : ℕ × ℕ} {ms : List (ℕ × ℕ)} {ps qs : List Part} {pos bound c : ℕ}

theorem mem_copy {start stop : ℕ} : c ∈ (Part.copy start stop).positions ↔ start ≤ c ∧ c < stop := by
  rw [Part.positions, List.mem_range'_1]
  omega

theorem copy_ordered {start stop : ℕ} : (Part.copy start stop).positions.Pairwise (· < ·) :=
  List.pairwise_lt_range' 1 Nat.one_pos

theorem copied_none (h : partner m = none) : copied (parts len partner pos (m :: ms)) =
    (Part.copy pos m.1).positions ++ copied (parts len partner m.2 ms) := by
  rw [parts, h]
  rfl

theorem copied_some {p : ℕ × ℕ} (h : partner m = some p) :
    copied (parts len partner pos (m :: ms)) = (Part.copy pos m.1).positions ++
      ((Part.copy m.2 p.1).positions ++ copied (parts len partner p.2 ms)) := by
  rw [parts, h]
  rfl

-- What is copied from a stretch on.
theorem mem_copied_cons : c ∈ copied (parts len partner pos (m :: ms)) ↔
    (pos ≤ c ∧ c < m.1) ∨
      (partner m = none ∧ c ∈ copied (parts len partner m.2 ms)) ∨
      ∃ p, partner m = some p ∧
        ((m.2 ≤ c ∧ c < p.1) ∨ c ∈ copied (parts len partner p.2 ms)) := by
  cases hpartner : partner m with
  | none => simp [copied_none hpartner, mem_copy]
  | some p => simp [copied_some hpartner, mem_copy]

theorem mem_copied_nil : c ∈ copied (parts len partner pos []) ↔ pos ≤ c ∧ c < len := by
  rw [← mem_copy]
  simp [parts, copied]

theorem Arranged.tail (h : Arranged len partner (m :: ms)) : Arranged len partner ms where
  apart := h.apart.of_cons
  holes m' hm' := h.holes m' (List.mem_cons_of_mem m hm')
  partners m' hm' := h.partners m' (List.mem_cons_of_mem m hm')

theorem Arranged.later (h : Arranged len partner (m :: ms)) {m' : ℕ × ℕ} (hm' : m' ∈ ms) :
    m.2 ≤ m'.1 := List.rel_of_pairwise_cons h.apart hm'

theorem Clear.tail (h : Clear partner (m :: ms)) (harranged : Arranged len partner (m :: ms)) :
    Clear partner ms := by
  intro a ha p hp b hb hab
  obtain ⟨hstart, hstop⟩ := h a (List.mem_cons_of_mem m ha) p hp b (List.mem_cons_of_mem m hb) hab
  refine ⟨hstart, ?_⟩
  intro hlt
  obtain ⟨d, hd, hbegin⟩ := hstop hlt
  rcases List.mem_cons.mp hd with rfl | hd
  · -- the first stretch begins before any other ends
    have hlong := harranged.holes b (List.mem_cons_of_mem _ hb)
    have hfirst := harranged.holes d List.mem_cons_self
    have hlater := harranged.later hb
    omega
  · exact ⟨d, hd, hbegin⟩

theorem copied_ge (harranged : Arranged len partner ms) (hpos : bound ≤ pos)
    (hms : ∀ m ∈ ms, bound ≤ m.1) (hc : c ∈ copied (parts len partner pos ms)) : bound ≤ c := by
  induction ms generalizing pos with
  | nil =>
      have hle := (mem_copied_nil.mp hc).1
      omega
  | cons m ms ih =>
      have hm := hms m List.mem_cons_self
      have hlong := harranged.holes m List.mem_cons_self
      have hrest : ∀ m' ∈ ms, bound ≤ m'.1 := fun m' hm' => hms m' (List.mem_cons_of_mem m hm')
      rcases mem_copied_cons.mp hc with hcut | ⟨-, hc⟩ | ⟨p, hp, hcut | hc⟩
      · omega
      · exact ih harranged.tail (by omega) hrest hc
      · omega
      · have hpair := harranged.partners m List.mem_cons_self p hp
        exact ih harranged.tail (by omega) hrest hc

theorem copied_ordered (harranged : Arranged len partner ms) (hclear : Clear partner ms) :
    (copied (parts len partner pos ms)).Pairwise (· < ·) := by
  induction ms generalizing pos with
  | nil => simpa [parts, copied, Part.positions] using List.pairwise_lt_range'
  | cons m ms ih =>
      have hlong := harranged.holes m List.mem_cons_self
      have hrest : ∀ {pos}, (copied (parts len partner pos ms)).Pairwise (· < ·) :=
        ih harranged.tail (hclear.tail harranged)
      have hfirst : ∀ {pos' c}, m.1 ≤ pos' → c ∈ copied (parts len partner pos' ms) → m.1 ≤ c :=
        fun hle hc => copied_ge harranged.tail hle
          (fun m' hm' => Nat.le_trans (Nat.le_of_lt hlong) (harranged.later hm')) hc
      cases hpartner : partner m with
      | none =>
          rw [copied_none hpartner]
          refine List.pairwise_append.mpr ⟨copy_ordered, hrest, ?_⟩
          intro c hc d hd
          have hbefore := (mem_copy.mp hc).2
          have hafter := hfirst (Nat.le_of_lt hlong) hd
          omega
      | some p =>
          obtain ⟨hbehind, hgrow, -⟩ := harranged.partners m List.mem_cons_self p hpartner
          have hnext : ∀ c ∈ copied (parts len partner p.2 ms), p.1 ≤ c := by
            intro c hc
            refine copied_ge harranged.tail hgrow ?_ hc
            intro m' hm'
            exact (hclear m List.mem_cons_self p hpartner m' (List.mem_cons_of_mem m hm')
              (harranged.later hm')).1
          rw [copied_some hpartner]
          refine List.pairwise_append.mpr ⟨copy_ordered, ?_, ?_⟩
          · refine List.pairwise_append.mpr ⟨copy_ordered, hrest, ?_⟩
            intro c hc d hd
            have hbefore := (mem_copy.mp hc).2
            have hafter := hnext d hd
            omega
          · intro c hc d hd
            have hbefore := (mem_copy.mp hc).2
            rcases List.mem_append.mp hd with hd | hd
            · have hafter := (mem_copy.mp hd).1
              omega
            · have hafter := hnext d hd
              omega

-- No place of a partner is copied from its end on, nor from where the next stretch begins in it.
theorem copied_beyond {stop : ℕ} (harranged : Arranged len partner ms)
    (hclear : Clear partner ms)
    (hms : ∀ m ∈ ms, m.2 < stop → ∃ m' ∈ ms, m'.1 = m.2)
    (hpos : stop ≤ pos ∨ ∃ m ∈ ms.head?, m.1 = pos)
    (hc : c ∈ copied (parts len partner pos ms)) : stop ≤ c := by
  induction ms generalizing pos with
  | nil =>
      have hle := (mem_copied_nil.mp hc).1
      rcases hpos with hpos | ⟨m, hm, -⟩
      · omega
      · cases hm
  | cons m ms ih =>
      have hlong := harranged.holes m List.mem_cons_self
      have hrest : ∀ m' ∈ ms, m'.2 < stop → ∃ m'' ∈ ms, m''.1 = m'.2 := by
        intro m' hm' hlt
        obtain ⟨d, hd, hbegin⟩ := hms m' (List.mem_cons_of_mem m hm') hlt
        rcases List.mem_cons.mp hd with rfl | hd
        · have hlong' := harranged.holes m' (List.mem_cons_of_mem _ hm')
          have hlater := harranged.later hm'
          omega
        · exact ⟨d, hd, hbegin⟩
      have hnext : m.2 < stop → ∃ m' ∈ ms.head?, m'.1 = m.2 := by
        intro hlt
        obtain ⟨d, hd, hbegin⟩ := hms m List.mem_cons_self hlt
        rcases List.mem_cons.mp hd with rfl | hd
        · omega
        · cases ms with
          | nil => cases hd
          | cons m' ms =>
              refine ⟨m', rfl, ?_⟩
              have hlater : m.2 ≤ m'.1 := harranged.later List.mem_cons_self
              rcases List.mem_cons.mp hd with rfl | hd
              · exact hbegin
              · have hlong' := harranged.holes m' (by simp)
                have hlater' := harranged.tail.later hd
                omega
      rcases mem_copied_cons.mp hc with hcut | ⟨-, hc⟩ | ⟨p, hp, hcut⟩
      · rcases hpos with hpos | ⟨d, hd, hbegin⟩
        · omega
        · obtain rfl := Option.some.inj hd
          omega
      · refine ih harranged.tail (hclear.tail harranged) hrest ?_ hc
        rcases Nat.lt_or_ge m.2 stop with hlt | hge
        · exact Or.inr (hnext hlt)
        · exact Or.inl hge
      · have hpair := harranged.partners m List.mem_cons_self p hp
        have hge : stop ≤ m.2 := by
          by_contra hlt
          obtain ⟨d, hd, hbegin⟩ := hnext (by omega)
          have hd := List.mem_of_mem_head? hd
          have hstart := (hclear m List.mem_cons_self p hp d (List.mem_cons_of_mem m hd)
            (Nat.le_of_eq hbegin.symm)).1
          omega
        rcases hcut with hcut | hc
        · omega
        · exact ih harranged.tail (hclear.tail harranged) hrest (Or.inl (by omega)) hc

theorem copied_holes (harranged : Arranged len partner ms) (hclear : Clear partner ms)
    (hc : c ∈ copied (parts len partner pos ms)) (hm : m ∈ ms) : ¬(m.1 ≤ c ∧ c < m.2) := by
  induction ms generalizing pos with
  | nil => cases hm
  | cons d ms ih =>
      have hlong := harranged.holes d List.mem_cons_self
      have hpast : ∀ {pos'}, d.2 ≤ pos' → c ∈ copied (parts len partner pos' ms) → d.2 ≤ c :=
        fun hle => copied_ge harranged.tail hle fun m' => harranged.later
      rcases List.mem_cons.mp hm with rfl | hm
      · rcases mem_copied_cons.mp hc with hcut | ⟨-, hc⟩ | ⟨p, hp, hcut | hc⟩
        · omega
        · have hafter := hpast (Nat.le_refl _) hc
          omega
        · omega
        · have hpair := harranged.partners m List.mem_cons_self p hp
          have hafter := hpast (by omega) hc
          omega
      · have hlater := harranged.later hm
        rcases mem_copied_cons.mp hc with hcut | ⟨-, hc⟩ | ⟨p, hp, hcut | hc⟩
        · omega
        · exact ih harranged.tail (hclear.tail harranged) hc hm
        · have hstart := (hclear d List.mem_cons_self p hp m (List.mem_cons_of_mem d hm) hlater).1
          omega
        · exact ih harranged.tail (hclear.tail harranged) hc hm

theorem copied_partners {p : ℕ × ℕ} (harranged : Arranged len partner ms)
    (hclear : Clear partner ms) (hc : c ∈ copied (parts len partner pos ms)) (hm : m ∈ ms)
    (hp : partner m = some p) : ¬(p.1 ≤ c ∧ c < p.2) := by
  induction ms generalizing pos with
  | nil => cases hm
  | cons d ms ih =>
      have hpair := harranged.partners m hm p hp
      have hlong := harranged.holes m hm
      rcases List.mem_cons.mp hm with rfl | hm
      · rcases mem_copied_cons.mp hc with hcut | ⟨hnone, -⟩ | ⟨q, hq, hcut⟩
        · omega
        · rw [hp] at hnone
          cases hnone
        · obtain rfl := Option.some.inj (hp.symm.trans hq)
          rcases hcut with hcut | hc
          · omega
          · have hbeyond := copied_beyond harranged.tail (hclear.tail harranged) ?_
              (Or.inl (Nat.le_refl _)) hc
            · omega
            · intro m' hm' hlt
              have hlater := harranged.later hm'
              obtain ⟨b, hb, hbegin⟩ := (hclear m List.mem_cons_self p hp m'
                (List.mem_cons_of_mem m hm') hlater).2 hlt
              rcases List.mem_cons.mp hb with rfl | hb
              · have hlong' := harranged.holes m' (List.mem_cons_of_mem _ hm')
                omega
              · exact ⟨b, hb, hbegin⟩
      · have hlater := harranged.later hm
        have hfirst := harranged.holes d List.mem_cons_self
        rcases mem_copied_cons.mp hc with hcut | ⟨-, hc⟩ | ⟨q, hq, hcut | hc⟩
        · omega
        · exact ih harranged.tail (hclear.tail harranged) hc hm
        · have hstart := (hclear d List.mem_cons_self q hq m (List.mem_cons_of_mem d hm) hlater).1
          omega
        · exact ih harranged.tail (hclear.tail harranged) hc hm

theorem copied_gap {p : ℕ × ℕ} (hm : m ∈ ms) (hp : partner m = some p) (hafter : m.2 ≤ c)
    (hbefore : c < p.1) : c ∈ copied (parts len partner pos ms) := by
  induction ms generalizing pos with
  | nil => cases hm
  | cons d ms ih =>
      rw [mem_copied_cons]
      rcases List.mem_cons.mp hm with rfl | hm
      · exact Or.inr (Or.inr ⟨p, hp, Or.inl ⟨hafter, hbefore⟩⟩)
      · cases hd : partner d with
        | none => exact Or.inr (Or.inl ⟨rfl, ih hm⟩)
        | some q => exact Or.inr (Or.inr ⟨q, rfl, Or.inr (ih hm)⟩)

-- What stands behind a stretch is copied, unless another stretch begins there.
theorem copied_after (harranged : Arranged len partner ms) (hm : m ∈ ms) (hlen : m.2 < len)
    (hfree : ∀ m' ∈ ms, m'.1 ≠ m.2) : m.2 ∈ copied (parts len partner pos ms) := by
  induction ms generalizing pos with
  | nil => cases hm
  | cons d ms ih =>
      rw [mem_copied_cons]
      have hfree' : ∀ m' ∈ ms, m'.1 ≠ m.2 := fun m' hm' => hfree m' (List.mem_cons_of_mem d hm')
      rcases List.mem_cons.mp hm with rfl | hm
      · cases hd : partner m with
        | none =>
            refine Or.inr (Or.inl ⟨rfl, ?_⟩)
            cases ms with
            | nil => exact mem_copied_nil.mpr ⟨Nat.le_refl _, hlen⟩
            | cons m' ms =>
                have hlater : m.2 ≤ m'.1 := harranged.later List.mem_cons_self
                have hne := hfree' m' List.mem_cons_self
                exact mem_copied_cons.mpr (Or.inl (by omega))
        | some p =>
            have hpair := harranged.partners m List.mem_cons_self p hd
            exact Or.inr (Or.inr ⟨p, rfl, Or.inl ⟨Nat.le_refl _, hpair.1⟩⟩)
      · cases hd : partner d with
        | none => exact Or.inr (Or.inl ⟨rfl, ih harranged.tail hm hfree'⟩)
        | some q => exact Or.inr (Or.inr ⟨q, rfl, Or.inr (ih harranged.tail hm hfree')⟩)

theorem leftToRight_iff (harranged : Arranged len partner ms) :
    LeftToRight partner ms (parts len partner pos ms) ↔ Clear partner ms := by
  constructor
  · intro h m hm p hp m' hm' hlater
    have hlong := harranged.holes m' hm'
    have hpair := harranged.partners m hm p hp
    have hstart : p.1 ≤ m'.1 := by
      by_contra hlt
      have hcopied : m'.1 ∈ copied (parts len partner pos ms) := copied_gap hm hp hlater (by omega)
      exact h.holes _ hcopied m' hm' ⟨Nat.le_refl _, hlong⟩
    refine ⟨hstart, ?_⟩
    intro hlt
    by_contra hfree
    have hcopied : m'.2 ∈ copied (parts len partner pos ms) :=
      copied_after harranged hm' (by omega) fun b hb heq => hfree ⟨b, hb, heq⟩
    exact h.partners _ hcopied m hm p hp ⟨by omega, hlt⟩
  · intro hclear
    exact ⟨copied_ordered harranged hclear, fun _ hc _ => copied_holes harranged hclear hc,
      fun _ hc _ hm _ => copied_partners harranged hclear hc hm⟩

end

end Cuttings
