import BTagent.Lib.Lines
import BTagent.Lib.OrderedDict
import BTagent.Lib.Regex
import BTagent.Lib.UrlPath

namespace BTagent

namespace RenderPath
open Regex UrlPath

def isTokenChar (c : Char) : Bool := c.isAlphanum || c = '_' || c = '-'

def PATH_TOKEN_RE : Regex := seq (char '\x7b') (seq (plus (set isTokenChar)) (char '\x7d'))

-- The expression has no word boundary in it.
def pieces (path : List Char) : List Piece := scan (fun _ => false) PATH_TOKEN_RE path

-- `match.group(1)`
def token (found : List Char) : String := String.ofList found.tail.dropLast

def tokens (path : List Char) : List String := (pieces path).filterMap fun p => p.match?.map token

-- What `render_path` reads of a routing spec, with what its validator checks of that.
structure PathSpec where
  path : List Char
  pathParams : List String
  slash : ['/'] <+: path
  well_formed : ∀ c, Piece.between c ∈ pieces path → c ≠ '\x7b' ∧ c ≠ '\x7d'
  declared : ∀ name ∈ tokens path, name ∈ pathParams
  used : ∀ name ∈ pathParams, name ∈ tokens path

variable {V : Type*} (str : V → List Char) (spec : PathSpec) (values : OrderedDict String (Option V))

-- A token without a value, or with None for it, raises.
def textOf (found : List Char) : Option (List Char) :=
  match values.get? (token found) with
  | some (some v) => some (str v)
  | _ => none

def renderPiece : Piece → Option (List Char)
  | .between c => some [c]
  | .found w => (textOf str values w).map quote

def renderPath : Option (List Char) :=
  ((pieces spec.path).mapM (renderPiece str values)).map List.flatten

section Path

def endsPath (c : Char) : Bool := c = '?' || c = '#'

-- The path of a URL goes up to its query or its fragment.
def pathOf (text : List Char) : List Char := text.takeWhile fun c => !endsPath c

def inPath : Piece → Bool
  | .between c => !endsPath c
  | .found _ => true

def templatePath : List Piece := (pieces spec.path).takeWhile inPath

def templateSegments : List (List Piece) := (templatePath spec).tail.splitOn (.between '/')

-- The text of a piece before it is encoded.
def plainPiece : Piece → List Char
  | .between c => [c]
  | .found w => (textOf str values w).getD []

def reads (segment : List Piece) : List Char := segment.flatMap (plainPiece str values)

-- A segment with the literal characters of the template's and, for each token, a text that
-- decodes to its value.
inductive Carries : List Piece → List Char → Prop where
  | nil : Carries [] []
  | between (c : Char) {ps : List Piece} {s : List Char} (h : Carries ps s) :
      Carries (.between c :: ps) (c :: s)
  | found {w v t : List Char} {ps : List Piece} {s : List Char} (hvalue : textOf str values w = some v)
      (hdecode : percentDecode t = utf8 v) (h : Carries ps s) : Carries (.found w :: ps) (t ++ s)

def Preserves (path : List Char) : Prop :=
  List.Forall₂ (Carries str values) (templateSegments spec) (removeDotSegments (segments (pathOf path)))

end Path

section Rendered
variable {str spec values} {ps segment : List Piece} {text : List Char} {path : List Char}
  {p : Piece} {cs : List Char}

theorem carries_literal : Carries str values (cs.map .between) text ↔ text = cs := by
  induction cs generalizing text with
  | nil =>
      constructor
      · rintro ⟨⟩
        rfl
      · rintro rfl
        exact .nil
  | cons c cs ih =>
      constructor
      · intro h
        cases h with
        | between _ h => rw [ih.mp h]
      · rintro rfl
        exact .between c (ih.mpr rfl)

theorem carries_placeholder {w v : List Char} (hvalue : textOf str values w = some v) :
    Carries str values [.found w] text ↔ percentDecode text = utf8 v := by
  constructor
  · intro h
    cases h with
    | found hvalue' hdecode h =>
        obtain rfl := Option.some.inj (hvalue.symm.trans hvalue')
        cases h
        rw [List.append_nil]
        exact hdecode
  · intro hdecode
    rw [← List.append_nil text]
    exact .found hvalue hdecode .nil

def encoded (str : V → List Char) (values : OrderedDict String (Option V)) : Piece → List Char
  | .between c => [c]
  | .found w => quote ((textOf str values w).getD [])

theorem renderPiece_some (h : renderPiece str values p = some text) : text = encoded str values p := by
  cases p with
  | between c => exact (Option.some.inj h).symm
  | found w =>
      obtain ⟨v, hv, rfl⟩ := Option.map_eq_some_iff.mp h
      rw [encoded, hv]
      rfl

theorem mapM_renderPiece {texts : List (List Char)} (h : ps.mapM (renderPiece str values) = some texts) :
    texts = ps.map (encoded str values) ∧ ∀ p ∈ ps, (renderPiece str values p).isSome = true := by
  induction ps generalizing texts with
  | nil =>
      obtain rfl := Option.some.inj h
      exact ⟨rfl, fun p hp => absurd hp List.not_mem_nil⟩
  | cons p ps ih =>
      rw [List.mapM_cons] at h
      obtain ⟨t, ht, h⟩ := Option.bind_eq_some_iff.mp h
      obtain ⟨ts, hts, h⟩ := Option.bind_eq_some_iff.mp h
      obtain rfl := Option.some.inj h
      obtain ⟨hmap, hall⟩ := ih hts
      rw [renderPiece_some ht, hmap]
      refine ⟨rfl, List.forall_mem_cons.mpr ⟨?_, hall⟩⟩
      rw [ht]
      rfl

theorem textOf_some {w : List Char} (h : (renderPiece str values (.found w)).isSome = true) :
    ∃ v, textOf str values w = some v := by
  obtain ⟨t, ht⟩ := Option.isSome_iff_exists.mp h
  obtain ⟨v, hv, -⟩ := Option.map_eq_some_iff.mp ht
  exact ⟨v, hv⟩

-- What stands in for a token has no character that ends a segment or a path.
theorem quote_plain {c : Char} (h : c ∈ quote text) : c ≠ '/' ∧ endsPath c = false := by
  rcases mem_quote h with hunreserved | rfl
  · constructor
    · rintro rfl
      exact absurd hunreserved (by decide)
    · by_contra hends
      rw [Bool.not_eq_false, endsPath, Bool.or_eq_true, decide_eq_true_eq, decide_eq_true_eq] at hends
      rcases hends with rfl | rfl <;> exact absurd hunreserved (by decide)
  · decide

theorem pathOf_flatMap (ps : List Piece) :
    pathOf (ps.flatMap (encoded str values)) = (ps.takeWhile inPath).flatMap (encoded str values) := by
  induction ps with
  | nil => rfl
  | cons p ps ih =>
      cases p with
      | between c =>
          rw [List.flatMap_cons, List.takeWhile_cons]
          change pathOf (c :: ps.flatMap (encoded str values)) = _
          rw [pathOf, List.takeWhile_cons, inPath]
          cases endsPath c with
          | true => rfl
          | false => exact congrArg (List.cons c) ih
      | found w =>
          have hall : ∀ c ∈ encoded str values (.found w), (!endsPath c) = true := by
            intro c hc
            rw [(quote_plain hc).2]
            rfl
          rw [List.flatMap_cons, pathOf, List.takeWhile_append_of_pos hall, List.takeWhile_cons,
            inPath, if_pos rfl, List.flatMap_cons]
          exact congrArg _ ih

theorem pieces_slash (spec : PathSpec) : ∃ ps, pieces spec.path = .between '/' :: ps := by
  obtain ⟨rest, hrest⟩ := spec.slash
  rw [pieces, ← hrest]
  exact ⟨_, rfl⟩

theorem segments_rendered (h : renderPath str spec values = some path) :
    segments (pathOf path) =
      (templateSegments spec).map fun segment => segment.flatMap (encoded str values) := by
  obtain ⟨texts, htexts, rfl⟩ := Option.map_eq_some_iff.mp h
  obtain ⟨rfl, -⟩ := mapM_renderPiece htexts
  obtain ⟨ps, hps⟩ := pieces_slash spec
  have hfree : ∀ p, p ≠ Piece.between '/' → '/' ∉ encoded str values p := by
    intro p hp
    cases p with
    | between c =>
        rw [encoded, List.mem_singleton]
        rintro rfl
        exact hp rfl
    | found w => exact fun hc => (quote_plain hc).1 rfl
  have hslash : templatePath spec = .between '/' :: ps.takeWhile inPath := by
    rw [templatePath, hps]
    rfl
  have hmark : encoded str values (.between '/') = ['/'] := rfl
  rw [← List.flatMap_def, pathOf_flatMap, segments, templateSegments, ← templatePath, hslash]
  exact Lines.splitOn_flatMap hmark hfree (ps.takeWhile inPath)

theorem carries_encoded (h : ∀ p ∈ ps, (renderPiece str values p).isSome = true) :
    Carries str values ps (ps.flatMap (encoded str values)) := by
  induction ps with
  | nil => exact .nil
  | cons p ps ih =>
      have hrest := ih fun q hq => h q (List.mem_cons_of_mem p hq)
      cases p with
      | between c => exact .between c hrest
      | found w =>
          obtain ⟨v, hv⟩ := textOf_some (h _ List.mem_cons_self)
          refine .found hv ?_ hrest
          rw [encoded, hv]
          exact percentDecode_quote v

theorem reads_nil (h : Carries str values ps []) : reads str values ps = [] := by
  generalize hs : ([] : List Char) = s at h
  induction h with
  | nil => rfl
  | between c h ih => cases hs
  | @found w v t ps s hvalue hdecode h ih =>
      obtain ⟨rfl, rfl⟩ := List.append_eq_nil_iff.mp hs.symm
      have hv : v = [] := utf8_eq_nil hdecode.symm
      rw [reads, List.flatMap_cons, plainPiece, hvalue, hv]
      exact ih rfl

theorem encoded_without_percent (h : '%' ∉ ps.flatMap (encoded str values)) :
    ps.flatMap (encoded str values) = reads str values ps := by
  induction ps with
  | nil => rfl
  | cons p ps ih =>
      rw [List.flatMap_cons, List.mem_append, not_or] at h
      rw [reads, List.flatMap_cons, List.flatMap_cons, ih h.2]
      cases p with
      | between c => rfl
      | found w => exact congrArg (· ++ _) (quote_without_percent h.1)

theorem encoded_unreserved (h : ∀ c ∈ reads str values ps, isUnreserved c = true) :
    ps.flatMap (encoded str values) = reads str values ps := by
  induction ps with
  | nil => rfl
  | cons p ps ih =>
      rw [reads, List.flatMap_cons] at h ⊢
      rw [List.flatMap_cons, ih fun c hc => h c (List.mem_append_right _ hc)]
      cases p with
      | between c => rfl
      | found w =>
          have hquote := quote_unreserved fun c hc => h c (List.mem_append_left _ hc)
          exact congrArg (· ++ _) hquote

-- Encoding neither makes a dot segment nor hides one.
theorem isDot_encoded : IsDot (ps.flatMap (encoded str values)) ↔ IsDot (reads str values ps) := by
  constructor
  · intro h
    have hpercent : '%' ∉ ps.flatMap (encoded str values) := by
      rcases h with h | h <;> rw [h] <;> decide
    rwa [encoded_without_percent hpercent] at h
  · intro h
    have hdots : ∀ c ∈ reads str values ps, isUnreserved c = true := by
      rcases h with h | h <;> rw [h] <;> decide
    rwa [encoded_unreserved hdots]

theorem mem_pieces (h : segment ∈ templateSegments spec) (hp : p ∈ segment) :
    p ∈ pieces spec.path :=
  (List.takeWhile_prefix inPath).subset (List.mem_of_mem_tail (Lines.mem_of_mem_splitOn h hp))

theorem render_path_preserves_iff (h : renderPath str spec values = some path) :
    Preserves str spec values path ↔
      ∀ segment ∈ templateSegments spec, ¬ IsDot (reads str values segment) := by
  rw [Preserves, segments_rendered h]
  constructor
  · intro hcarries segment hsegment hdot
    have hlength : (removeFrom [] ((templateSegments spec).map fun segment =>
        segment.flatMap (encoded str values))).length =
          ([] : List Segment).length + ((templateSegments spec).map fun segment =>
            segment.flatMap (encoded str values)).length := by
      rw [List.length_nil, Nat.zero_add, List.length_map]
      exact hcarries.length_eq.symm
    rcases kept_or_emptied hlength with hkept | ⟨init, s, ss', hlast, hs, hremove⟩
    · exact hkept _ (List.mem_map_of_mem hsegment) (isDot_encoded.mpr hdot)
    · -- The last segment was a dot segment and is empty now, which no value of its tokens explains.
      obtain ⟨before, final, hsplit, rfl, hfinal⟩ := List.map_eq_append_iff.mp hlast
      obtain ⟨t, rest, rfl, rfl, hrest⟩ := List.map_eq_cons_iff.mp hfinal
      obtain rfl := List.map_eq_nil_iff.mp hrest
      rw [removeDotSegments, hremove, hsplit, ← List.forall₂_reverse_iff, List.reverse_append,
        List.reverse_append] at hcarries
      have hempty : Carries str values t [] := (List.forall₂_cons.mp hcarries).1
      have hreads := isDot_encoded.mp hs
      rw [reads_nil hempty] at hreads
      exact absurd hreads (by decide)
  · intro hnone
    have hkept : ∀ s ∈ (templateSegments spec).map fun segment =>
        segment.flatMap (encoded str values), ¬ IsDot s := by
      intro s hs hdot
      obtain ⟨segment, hsegment, rfl⟩ := List.mem_map.mp hs
      exact hnone segment hsegment (isDot_encoded.mp hdot)
    obtain ⟨texts, htexts, -⟩ := Option.map_eq_some_iff.mp h
    obtain ⟨-, hsome⟩ := mapM_renderPiece htexts
    rw [removeDotSegments, removeFrom_kept hkept, List.reverse_nil, List.nil_append,
      List.forall₂_map_right_iff, List.forall₂_same]
    exact fun segment hsegment =>
      carries_encoded fun p hp => hsome p (mem_pieces hsegment hp)

end Rendered

section Example

def thingsSpec : PathSpec where
  path := "/things/\x7bthing_id\x7d".toList
  pathParams := ["thing_id"]
  slash := by decide +kernel
  well_formed := by
    have hliteral : ∀ p ∈ pieces "/things/\x7bthing_id\x7d".toList,
        p ≠ .between '\x7b' ∧ p ≠ .between '\x7d' := by decide +kernel
    intro c hc
    obtain ⟨hopen, hclose⟩ := hliteral _ hc
    exact ⟨fun h => hopen (congrArg _ h), fun h => hclose (congrArg _ h)⟩
  declared := by decide +kernel
  used := by decide +kernel

def thingId (value : String) : OrderedDict String (Option String) :=
  OrderedDict.empty.set "thing_id" (some value)

theorem traversal_escaped : Preserves String.toList thingsSpec (thingId "x/../users")
    "/things/x%2F..%2Fusers".toList :=
  (render_path_preserves_iff (by decide +kernel)).mpr (by decide +kernel)

-- The template's segment before it is gone with the parameter's.
theorem parent_not_escaped :
    renderPath String.toList thingsSpec (thingId "..") = some "/things/..".toList ∧
      ¬ Preserves String.toList thingsSpec (thingId "..") "/things/..".toList := by
  refine ⟨by decide +kernel, fun h => ?_⟩
  have hlength := h.length_eq
  revert hlength
  decide +kernel

end Example

end RenderPath

end BTagent
