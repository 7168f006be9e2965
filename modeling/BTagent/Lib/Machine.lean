import Mathlib.Data.List.Basic
import Mathlib.Logic.Function.Basic

-- An event is either refused in a state or leads to one next state.
structure Machine (σ ε : Type*) where
  step : σ → ε → Option σ

namespace Machine

variable {σ ε : Type*} (M : Machine σ ε)

def run (s : σ) : List ε → Option σ
  | [] => some s
  | e :: es =>
      match M.step s e with
      | none => none
      | some s' => run s' es

def Along (G : σ → ε → Prop) (s : σ) : List ε → Prop
  | [] => True
  | e :: es => G s e ∧
      match M.step s e with
      | none => True
      | some s' => Along G s' es

instance decidableAlong (G : σ → ε → Prop) [∀ s e, Decidable (G s e)] :
    ∀ s es, Decidable (M.Along G s es)
  | _, [] => isTrue trivial
  | s, e :: es =>
      match h : M.step s e with
      | none => decidable_of_iff (G s e) (by simp [Along, h])
      | some s' =>
          have := decidableAlong G s' es
          decidable_of_iff (G s e ∧ M.Along G s' es) (by simp [Along, h])

@[simp] theorem run_nil (s : σ) : M.run s [] = some s := rfl

theorem run_cons {s : σ} {e : ε} {es : List ε} {t : σ} :
    M.run s (e :: es) = some t ↔ ∃ s', M.step s e = some s' ∧ M.run s' es = some t := by
  simp only [run]
  cases M.step s e <;> simp

theorem run_append {s : σ} {es fs : List ε} {t : σ} :
    M.run s (es ++ fs) = some t ↔ ∃ s', M.run s es = some s' ∧ M.run s' fs = some t := by
  induction es generalizing s with
  | nil => simp
  | cons e es ih =>
      simp only [List.cons_append, run_cons, ih]
      constructor
      · rintro ⟨u, hu, v, hv, ht⟩
        exact ⟨v, ⟨u, hu, hv⟩, ht⟩
      · rintro ⟨v, ⟨u, hu, hv⟩, ht⟩
        exact ⟨u, hu, v, hv, ht⟩

theorem invariant_of_step {I : σ → Prop}
    (hstep : ∀ {s e s'}, I s → M.step s e = some s' → I s')
    {s t : σ} {es : List ε} (hs : I s) (h : M.run s es = some t) : I t := by
  induction es generalizing s with
  | nil => cases h; exact hs
  | cons e es ih =>
      obtain ⟨s', he, ht⟩ := (M.run_cons).mp h
      exact ih (hstep hs he) ht

theorem invariant_along {I : σ → Prop} {G : σ → ε → Prop}
    (hstep : ∀ {s e s'}, I s → G s e → M.step s e = some s' → I s')
    {s t : σ} {es : List ε} (hs : I s) (hg : M.Along G s es) (h : M.run s es = some t) : I t := by
  induction es generalizing s with
  | nil => cases h; exact hs
  | cons e es ih =>
      obtain ⟨s', he, ht⟩ := (M.run_cons).mp h
      simp only [Along, he] at hg
      exact ih (hstep hs hg.1 he) hg.2 ht

theorem along_of_forall {G : σ → ε → Prop} {s : σ} {es : List ε}
    (h : ∀ s, ∀ e ∈ es, G s e) : M.Along G s es := by
  induction es generalizing s with
  | nil => trivial
  | cons e es ih =>
      simp only [Along]
      refine ⟨h s e List.mem_cons_self, ?_⟩
      cases M.step s e with
      | none => trivial
      | some s' => exact ih fun s e he => h s e (List.mem_cons_of_mem _ he)

theorem along_iff_forall {G : ε → Prop} {s t : σ} {es : List ε} (h : M.run s es = some t) :
    M.Along (fun _ e => G e) s es ↔ ∀ e ∈ es, G e := by
  induction es generalizing s with
  | nil => simp [Along]
  | cons e es ih =>
      obtain ⟨s', he, ht⟩ := M.run_cons.mp h
      simp only [Along, he, ih ht, List.forall_mem_cons]

theorem along_and {G H : σ → ε → Prop} {s : σ} {es : List ε} :
    M.Along (fun s e => G s e ∧ H s e) s es ↔ M.Along G s es ∧ M.Along H s es := by
  induction es generalizing s with
  | nil => simp [Along]
  | cons e es ih =>
      simp only [Along]
      cases M.step s e with
      | none => simp
      | some s' => simp only [ih]; tauto

theorem along_mono {G H : σ → ε → Prop} (hGH : ∀ s e, G s e → H s e) {s : σ} {es : List ε}
    (h : M.Along G s es) : M.Along H s es := by
  induction es generalizing s with
  | nil => trivial
  | cons e es ih =>
      simp only [Along] at h ⊢
      refine ⟨hGH s e h.1, ?_⟩
      cases hs : M.step s e with
      | none => trivial
      | some s' =>
          rw [hs] at h
          exact ih h.2

theorem reached_iff {I P : σ → Prop} {G : σ → ε → Prop} (hP : ∀ {s}, I s → P s)
    (hkeep : ∀ {s e s'}, I s → G s e → M.step s e = some s' → I s')
    (hbreak : ∀ {s e s'}, I s → ¬ G s e → M.step s e = some s' → ¬ P s')
    {s t : σ} {es : List ε} (hs : I s) (h : M.run s es = some t) :
    (∀ fs gs, es = fs ++ gs → ∀ u, M.run s fs = some u → P u) ↔ M.Along G s es := by
  induction es generalizing s with
  | nil =>
      simp only [Along, iff_true]
      intro fs gs hsplit u hu
      obtain ⟨rfl, rfl⟩ := List.append_eq_nil_iff.mp hsplit.symm
      cases hu
      exact hP hs
  | cons e es ih =>
      obtain ⟨s', he, ht⟩ := M.run_cons.mp h
      simp only [Along, he]
      constructor
      · intro hall
        have hg : G s e := by
          by_contra hnot
          apply hbreak hs hnot he
          exact hall [e] es rfl s' (M.run_cons.mpr ⟨s', he, rfl⟩)
        refine ⟨hg, (ih (hkeep hs hg he) ht).mp ?_⟩
        intro fs gs hsplit u hu
        exact hall (e :: fs) gs (by rw [hsplit]; rfl) u (M.run_cons.mpr ⟨s', he, hu⟩)
      · rintro ⟨hg, hrest⟩ fs gs hsplit u hu
        cases fs with
        | nil => cases hu; exact hP hs
        | cons f fs =>
            obtain ⟨rfl, htail⟩ := List.cons.inj hsplit
            obtain ⟨s'', he', hu⟩ := M.run_cons.mp hu
            rw [he] at he'
            cases he'
            exact (ih (hkeep hs hg he) ht).mpr hrest fs gs htail u hu

section Family
variable {ι : Type*} [DecidableEq ι]

-- One copy of a machine for every index; an event moves the copy that it names.
def family (ι : Type*) [DecidableEq ι] : Machine (ι → σ) (ι × ε) where
  step s e := (M.step (s e.1) e.2).map (Function.update s e.1)

theorem family_step {s t : ι → σ} {e : ι × ε} :
    (M.family ι).step s e = some t ↔
      ∃ x, M.step (s e.1) e.2 = some x ∧ t = Function.update s e.1 x := by
  simp only [family, Option.map_eq_some_iff]
  constructor <;> rintro ⟨x, hx, rfl⟩ <;> exact ⟨x, hx, rfl⟩

theorem family_invariant_along {I : σ → Prop} {G : σ → ε → Prop}
    (hstep : ∀ {s e s'}, I s → G s e → M.step s e = some s' → I s')
    {s t : ι → σ} {es : List (ι × ε)} (hs : ∀ i, I (s i))
    (hg : (M.family ι).Along (fun s e => G (s e.1) e.2) s es)
    (h : (M.family ι).run s es = some t) : ∀ i, I (t i) := by
  apply (M.family ι).invariant_along (I := fun s => ∀ i, I (s i)) _ hs hg h
  intro s e s' hs hg hnext i
  obtain ⟨x, hx, rfl⟩ := M.family_step.mp hnext
  rcases eq_or_ne i e.1 with rfl | hne
  · rw [Function.update_self]
    exact hstep (hs e.1) hg hx
  · rw [Function.update_of_ne hne]
    exact hs i

end Family

end Machine
