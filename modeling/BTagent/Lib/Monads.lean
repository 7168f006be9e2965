import Mathlib.Data.List.Forall2

universe u v

theorem Except.bind_ok_iff {ε : Type u} {α β : Type v} {x : Except ε α} {f : α → Except ε β}
    {b : β} : (x >>= f) = .ok b ↔ ∃ a, x = .ok a ∧ f a = .ok b := by
  cases x with
  | error e => simp [bind, Except.bind]
  | ok a => simp [bind, Except.bind]

theorem Except.bind_error_iff {ε : Type u} {α β : Type v} {x : Except ε α} {f : α → Except ε β}
    {e : ε} : (x >>= f) = .error e ↔ x = .error e ∨ ∃ a, x = .ok a ∧ f a = .error e := by
  cases x with
  | error e' => simp [bind, Except.bind]
  | ok a => simp [bind, Except.bind]

theorem Except.mapM_error_iff {ε : Type u} {α β : Type v} {f : α → Except ε β} {xs : List α}
    {e : ε} : xs.mapM f = .error e ↔ ∃ pre x post, xs = pre ++ x :: post ∧
      (∀ y ∈ pre, ∃ b, f y = .ok b) ∧ f x = .error e := by
  induction xs with
  | nil =>
      constructor
      · intro h
        cases h
      · rintro ⟨pre, x, post, h, -⟩
        simp at h
  | cons a xs ih =>
      rw [List.mapM_cons]
      constructor
      · intro h
        rcases Except.bind_error_iff.mp h with h | ⟨b, hb, h⟩
        · exact ⟨[], a, xs, rfl, by simp, h⟩
        · rcases Except.bind_error_iff.mp h with h | ⟨bs, -, h⟩
          · obtain ⟨pre, x, post, rfl, hpre, hx⟩ := ih.mp h
            exact ⟨a :: pre, x, post, rfl, List.forall_mem_cons.mpr ⟨⟨b, hb⟩, hpre⟩, hx⟩
          · cases h
      · rintro ⟨pre, x, post, heq, hpre, hx⟩
        cases pre with
        | nil =>
            obtain ⟨rfl, rfl⟩ := List.cons.inj heq
            exact Except.bind_error_iff.mpr (Or.inl hx)
        | cons c pre =>
            obtain ⟨rfl, rfl⟩ := List.cons.inj heq
            obtain ⟨⟨b, hb⟩, hpre⟩ := List.forall_mem_cons.mp hpre
            have hrest := ih.mpr ⟨pre, x, post, rfl, hpre, hx⟩
            exact Except.bind_error_iff.mpr
              (Or.inr ⟨b, hb, Except.bind_error_iff.mpr (Or.inl hrest)⟩)

theorem Except.mapM_ok_iff {ε : Type u} {α β : Type v} {f : α → Except ε β} {xs : List α}
    {bs : List β} : xs.mapM f = .ok bs ↔ List.Forall₂ (fun x b => f x = .ok b) xs bs := by
  induction xs generalizing bs with
  | nil =>
      rw [List.forall₂_nil_left_iff]
      constructor
      · intro h
        cases h
        rfl
      · rintro rfl
        rfl
  | cons a xs ih =>
      rw [List.mapM_cons, Except.bind_ok_iff, List.forall₂_cons_left_iff]
      constructor
      · rintro ⟨b, hb, h⟩
        obtain ⟨bs', hbs, h⟩ := Except.bind_ok_iff.mp h
        cases h
        exact ⟨b, bs', hb, ih.mp hbs, rfl⟩
      · rintro ⟨b, bs', hb, hbs, rfl⟩
        exact ⟨b, hb, Except.bind_ok_iff.mpr ⟨bs', ih.mpr hbs, rfl⟩⟩

theorem Except.bind_succeeds {ε : Type u} {α β : Type v} {x : Except ε α} {f : α → Except ε β} :
    (∃ b, (x >>= f) = .ok b) ↔ ∃ a, x = .ok a ∧ ∃ b, f a = .ok b := by
  simp only [Except.bind_ok_iff]
  exact ⟨fun ⟨b, a, ha, hb⟩ => ⟨a, ha, b, hb⟩, fun ⟨a, ha, b, hb⟩ => ⟨b, a, ha, hb⟩⟩

theorem Except.mapM_succeeds {ε : Type u} {α β : Type v} {f : α → Except ε β} {xs : List α} :
    (∃ bs, xs.mapM f = .ok bs) ↔ ∀ x ∈ xs, ∃ b, f x = .ok b := by
  induction xs with
  | nil => exact ⟨fun _ x hx => absurd hx List.not_mem_nil, fun _ => ⟨[], rfl⟩⟩
  | cons a xs ih =>
      rw [List.mapM_cons, Except.bind_succeeds, List.forall_mem_cons, ← ih]
      constructor
      · rintro ⟨b, hb, bs, h⟩
        obtain ⟨bs, hbs, -⟩ := Except.bind_ok_iff.mp h
        exact ⟨⟨b, hb⟩, bs, hbs⟩
      · rintro ⟨⟨b, hb⟩, bs, hbs⟩
        exact ⟨b, hb, b :: bs, Except.bind_ok_iff.mpr ⟨bs, hbs, rfl⟩⟩

theorem Except.ite_bind {ε : Type u} {α β : Type v} {c : Prop} [Decidable c] {x y : Except ε α}
    {f : α → Except ε β} :
    (if c then x >>= f else y >>= f) = (if c then x else y) >>= f := by
  split <;> rfl

theorem Option.mapM_eq_map {α β : Type u} {f : α → Option β} {g : α → β} {xs : List α}
    (h : ∀ x ∈ xs, f x = some (g x)) : xs.mapM f = some (xs.map g) := by
  induction xs with
  | nil => rfl
  | cons x xs ih =>
      obtain ⟨hx, hrest⟩ := List.forall_mem_cons.mp h
      rw [List.mapM_cons, hx, ih hrest]
      rfl

theorem Option.exists_of_mem_mapM {α β : Type u} {f : α → Option β} {xs : List α} {ys : List β}
    {y : β} (h : xs.mapM f = some ys) (hy : y ∈ ys) : ∃ x ∈ xs, f x = some y := by
  induction xs generalizing ys with
  | nil =>
      cases h
      cases hy
  | cons x xs ih =>
      simp only [List.mapM_cons, Option.bind_eq_bind, Option.bind_eq_some_iff] at h
      obtain ⟨z, hz, zs, hzs, heq⟩ := h
      cases heq
      rcases List.mem_cons.mp hy with rfl | hy
      · exact ⟨x, by simp, hz⟩
      · obtain ⟨x', hx', hf⟩ := ih hzs hy
        exact ⟨x', List.mem_cons_of_mem _ hx', hf⟩

theorem Option.isSome_of_mem_mapM {α β : Type u} {f : α → Option β} {xs : List α} {ys : List β}
    {x : α} (h : xs.mapM f = some ys) (hx : x ∈ xs) : (f x).isSome := by
  induction xs generalizing ys with
  | nil => cases hx
  | cons a xs ih =>
      simp only [List.mapM_cons, Option.bind_eq_bind, Option.bind_eq_some_iff] at h
      obtain ⟨z, hz, zs, hzs, -⟩ := h
      rcases List.mem_cons.mp hx with rfl | hx
      · rw [hz]
        rfl
      · exact ih hzs hx
