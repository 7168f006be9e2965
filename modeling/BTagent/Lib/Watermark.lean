import Mathlib.Data.List.Basic
import Mathlib.Order.Basic
import Mathlib.Order.Lattice

-- Items carry a key, and a watermark says up to which key all of them were seen.
namespace Watermark

variable {α τ : Type*} [LinearOrder τ] {key : α → τ} {mark mark' : Option τ}
  {items seen read rest : List α}

def beyond (key : α → τ) (mark : Option τ) (x : α) : Bool :=
  mark.all fun m => decide (m < key x)

def Covers (key : α → τ) (mark : Option τ) (items seen : List α) : Prop :=
  ∀ m ∈ mark, ∀ x ∈ items, key x ≤ m → x ∈ seen

theorem covers_none : Covers key none items seen := by
  intro m hm
  cases hm

theorem Covers.mono (h : Covers key mark items seen) (hseen : ∀ x ∈ seen, x ∈ read) :
    Covers key mark items read :=
  fun m hm x hx hkey => hseen x (h m hm x hx hkey)

theorem Covers.add (h : Covers key mark items seen) {x : α} (hx : beyond key mark x = true) :
    Covers key mark (items ++ [x]) seen := by
  intro m hm y hy hkey
  rcases List.mem_append.mp hy with hy | hy
  · exact h m hm y hy hkey
  · obtain rfl := List.mem_singleton.mp hy
    have hlt : m < key y := by
      rw [beyond, Option.mem_def.mp hm] at hx
      simpa using hx
    exact absurd hkey (not_le.mpr hlt)

theorem Covers.advance (h : Covers key mark items seen)
    (hsplit : items.filter (beyond key mark) = read ++ rest)
    (hrest : ∀ x ∈ rest, beyond key mark' x = true) : Covers key mark' items (seen ++ read) := by
  intro m hm x hx hkey
  by_cases hbeyond : beyond key mark x = true
  · have hmem : x ∈ read ++ rest := hsplit ▸ List.mem_filter.mpr ⟨hx, hbeyond⟩
    rcases List.mem_append.mp hmem with hread | hleft
    · exact List.mem_append_right _ hread
    · have hlt : m < key x := by
        have hmark := hrest x hleft
        rw [beyond, Option.mem_def.mp hm] at hmark
        simpa using hmark
      exact absurd hkey (not_le.mpr hlt)
  · cases mark with
    | none => exact absurd rfl hbeyond
    | some old =>
        have hle : key x ≤ old := by simpa [beyond] using hbeyond
        exact List.mem_append_left _ (h old rfl x hx hle)

end Watermark
