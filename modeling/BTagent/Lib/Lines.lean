import Mathlib.Data.List.DropRight
import Mathlib.Data.List.Basic

-- A text as the list of its lines, for any separator, and what is left of a line without the
-- blanks at its ends.
namespace Lines

variable {α : Type*}

section Split
variable [DecidableEq α] {sep : α} {a l : List α} {ls : List (List α)}

theorem not_mem_of_mem_splitOn (h : l ∈ a.splitOn sep) : sep ∉ l := by
  induction a generalizing l with
  | nil =>
      rw [List.splitOn_nil, List.mem_singleton] at h
      simp [h]
  | cons c cs ih =>
      rw [List.splitOn_cons_eq_if_modifyHead] at h
      split at h
      · rcases List.mem_cons.mp h with rfl | hrest
        · simp
        · exact ih hrest
      · rename_i hne
        cases hcs : cs.splitOn sep with
        | nil => exact absurd hcs (List.splitOn_ne_nil sep cs)
        | cons first rest =>
            rw [hcs, List.modifyHead_cons] at h
            rcases List.mem_cons.mp h with rfl | hrest
            · rw [List.mem_cons, not_or]
              refine ⟨?_, ih (hcs ▸ List.mem_cons_self)⟩
              rintro rfl
              simp at hne
            · exact ih (hcs ▸ List.mem_cons_of_mem _ hrest)

theorem mem_of_mem_splitOn {x : α} (h : l ∈ a.splitOn sep) (hx : x ∈ l) : x ∈ a := by
  induction a generalizing l with
  | nil =>
      rw [List.splitOn_nil, List.mem_singleton] at h
      rwa [h] at hx
  | cons c cs ih =>
      rw [List.splitOn_cons_eq_if_modifyHead] at h
      split at h
      · rcases List.mem_cons.mp h with rfl | hrest
        · exact absurd hx List.not_mem_nil
        · exact List.mem_cons_of_mem c (ih hrest hx)
      · cases hcs : cs.splitOn sep with
        | nil => exact absurd hcs (List.splitOn_ne_nil sep cs)
        | cons first rest =>
            rw [hcs, List.modifyHead_cons] at h
            rcases List.mem_cons.mp h with rfl | hrest
            · rcases List.mem_cons.mp hx with rfl | hx
              · exact List.mem_cons_self
              · exact List.mem_cons_of_mem c (ih (hcs ▸ List.mem_cons_self) hx)
            · exact List.mem_cons_of_mem c (ih (hcs ▸ List.mem_cons_of_mem _ hrest) hx)

theorem exists_mem_splitOn {x : α} (hx : x ∈ a) (hne : x ≠ sep) :
    ∃ l ∈ a.splitOn sep, x ∈ l := by
  induction a with
  | nil => cases hx
  | cons c cs ih =>
      rw [List.splitOn_cons_eq_if_modifyHead]
      split
      · next hsep =>
          have htail : x ∈ cs := (List.mem_cons.mp hx).resolve_left fun heq =>
            hne (heq.trans (beq_iff_eq.mp hsep))
          obtain ⟨l, hl, hxl⟩ := ih htail
          exact ⟨l, List.mem_cons_of_mem _ hl, hxl⟩
      · cases hcs : cs.splitOn sep with
        | nil => exact absurd hcs (List.splitOn_ne_nil sep cs)
        | cons first rest =>
            rw [List.modifyHead_cons]
            rcases List.mem_cons.mp hx with rfl | hx
            · exact ⟨_, List.mem_cons_self, List.mem_cons_self⟩
            · obtain ⟨l, hl, hxl⟩ := ih hx
              rw [hcs] at hl
              rcases List.mem_cons.mp hl with rfl | hl
              · exact ⟨_, List.mem_cons_self, List.mem_cons_of_mem _ hxl⟩
              · exact ⟨l, List.mem_cons_of_mem _ hl, hxl⟩

theorem splitOn_intercalate (h : ls ≠ []) :
    ([sep].intercalate ls).splitOn sep = ls.flatMap fun l => l.splitOn sep := by
  induction ls with
  | nil => exact absurd rfl h
  | cons l ls ih =>
      cases ls with
      | nil => simp
      | cons l' ls =>
          rw [List.intercalate_cons_cons, List.append_assoc, List.singleton_append,
            List.splitOn_append_cons_self, ih (List.cons_ne_nil l' ls), ← List.flatMap_cons]

theorem flatMap_splitOn (h : ∀ l ∈ ls, sep ∉ l) : (ls.flatMap fun l => l.splitOn sep) = ls := by
  induction ls with
  | nil => rfl
  | cons l ls ih =>
      rw [List.flatMap_cons, List.splitOn_eq_singleton (h l List.mem_cons_self),
        ih fun l hl => h l (List.mem_cons_of_mem _ hl)]
      rfl

theorem splitOn_append_free (h : sep ∉ a) (l : List α) :
    (a ++ l).splitOn sep = (l.splitOn sep).modifyHead (a ++ ·) := by
  induction a with
  | nil => cases hl : l.splitOn sep <;> simp [hl]
  | cons c cs ih =>
      rw [List.mem_cons, not_or] at h
      obtain ⟨hc, hcs⟩ := h
      rw [List.cons_append, List.splitOn_cons_eq_if_modifyHead, if_neg (by simpa using Ne.symm hc),
        ih hcs, List.modifyHead_modifyHead]
      rfl

theorem splitOn_flatMap {β : Type*} [DecidableEq β] {mark : β} {f : β → List α}
    (hmark : f mark = [sep]) (hfree : ∀ x, x ≠ mark → sep ∉ f x) (xs : List β) :
    (xs.flatMap f).splitOn sep = (xs.splitOn mark).map fun part => part.flatMap f := by
  induction xs with
  | nil => rw [List.flatMap_nil, List.splitOn_nil, List.splitOn_nil]; rfl
  | cons x xs ih =>
      rw [List.flatMap_cons, List.splitOn_cons_eq_if_modifyHead]
      by_cases hx : x = mark
      · rw [hx, hmark, List.singleton_append, List.splitOn_cons_eq_if_modifyHead,
          if_pos (beq_self_eq_true sep), if_pos (beq_self_eq_true mark), ih]
        rfl
      · rw [splitOn_append_free (hfree x hx), if_neg (by simpa using hx), ih]
        cases xs.splitOn mark with
        | nil => rfl
        | cons part parts => simp

end Split

section Trim
variable (p : α → Bool)

def trim (cs : List α) : List α := (cs.dropWhile p).rdropWhile p

variable {p} {c : α} {cs ds : List α}

theorem rdropWhile_cons (c : α) (cs : List α) :
    (c :: cs).rdropWhile p =
      if (cs.rdropWhile p).isEmpty then [c].rdropWhile p else c :: cs.rdropWhile p := by
  simp only [List.rdropWhile, List.reverse_cons, List.dropWhile_append, List.reverse_nil,
    List.nil_append, List.isEmpty_reverse]
  split
  · rfl
  · rw [List.reverse_append]
    rfl

theorem rdropWhile_cons_solid (h : p c = false) (cs : List α) :
    (c :: cs).rdropWhile p = c :: cs.rdropWhile p := by
  rw [rdropWhile_cons]
  split
  · rename_i hnil
    rw [List.isEmpty_iff.mp hnil]
    simp [List.rdropWhile, h]
  · rfl

theorem trim_cons_blank (h : p c = true) (cs : List α) : trim p (c :: cs) = trim p cs := by
  rw [trim, List.dropWhile_cons_of_pos h, trim]

theorem trim_rdropWhile (cs : List α) : trim p (cs.rdropWhile p) = trim p cs := by
  induction cs with
  | nil => rfl
  | cons c cs ih =>
      cases hc : p c with
      | false =>
          have hcons := rdropWhile_cons_solid hc cs
          rw [hcons, trim, trim, List.dropWhile_cons_of_neg (by simp [hc]),
            List.dropWhile_cons_of_neg (by simp [hc])]
          rw [← hcons, List.rdropWhile_idempotent]
      | true =>
          rw [trim_cons_blank hc, rdropWhile_cons]
          split
          · rename_i hnil
            rw [← ih, List.isEmpty_iff.mp hnil]
            simp [trim, List.rdropWhile, hc]
          · rw [trim_cons_blank hc, ih]

theorem trim_append_cons (hleft : ∀ x ∈ cs, p x = true) (hc : p c = false) (ds : List α) :
    trim p (cs ++ c :: ds) = c :: ds.rdropWhile p := by
  have hdrop : (cs ++ c :: ds).dropWhile p = c :: ds := by
    rw [List.dropWhile_append_of_pos hleft, List.dropWhile_cons_of_neg (by simp [hc])]
  rw [trim, hdrop]
  exact rdropWhile_cons_solid hc ds

theorem head_trim (h : (trim p cs).head? = some c) : p c = false := by
  cases hcs : cs.dropWhile p with
  | nil => simp [trim, hcs] at h
  | cons d ds =>
      have hd : p d = false := by
        have hnot := List.head_dropWhile_not p (hcs ▸ List.cons_ne_nil d ds)
        simpa [hcs] using hnot
      rw [trim, hcs, rdropWhile_cons_solid hd, List.head?_cons, Option.some_inj] at h
      rwa [← h]

theorem last_trim (h : (trim p cs).getLast? = some c) : p c = false := by
  have hne : trim p cs ≠ [] := by
    intro hnil
    simp [hnil] at h
  have hlast := List.rdropWhile_last_not p (cs.dropWhile p) hne
  rw [List.getLast?_eq_some_getLast hne, Option.some_inj] at h
  rw [← h]
  exact eq_false_of_ne_true hlast

theorem rdropWhile_append_solid (hc : p c = false) (cs ds : List α) :
    (cs ++ c :: ds).rdropWhile p = cs ++ c :: ds.rdropWhile p := by
  induction cs with
  | nil => exact rdropWhile_cons_solid hc ds
  | cons d cs ih =>
      rw [List.cons_append, rdropWhile_cons, ih]
      simp

end Trim

end Lines
