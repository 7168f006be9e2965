import BTagent.Frontend.ReadSteps
import BTagent.Frontend.SchemaForm
import BTagent.Lib.Monads
import BTagent.Lib.Quoted

namespace BTagent

namespace SchemaForm

open PlaybookGraph (trim isSpace digit_solid)

section Validity
variable {N : JsNumbers}

def HasType (type : String) : JsJson N → Prop
  | .null => type = "null"
  | .bool _ => type = "boolean"
  | .num n => type = "number" ∨ type = "integer" ∧ N.integer n = true
  | .str _ => type = "string"
  | .arr _ => type = "array"
  | .obj _ => type = "object"

variable (root : JsonSchemaObject N) (elsewhere : String → JsJson N → Prop)
  (keywords : OrderedDict String (JsJson N) → JsJson N → Prop)

mutual

-- The values a schema allows: `elsewhere` says it for a reference to no definition of the root, and
-- `keywords` for the keywords that the form does not read.
inductive Valid : JsonSchemaProperty N → JsJson N → Prop
  | intro {prop v} : (∀ type ∈ prop.type, HasType type v) → (∀ vs ∈ prop.enum, v ∈ vs) →
      ValidAny prop.anyOf v → ValidRef prop.ref v → keywords prop.others v → Valid prop v

inductive ValidAny : Option (List (JsonSchemaProperty N)) → JsJson N → Prop
  | absent {v} : ValidAny none v
  | branch {branches branch v} : branch ∈ branches → Valid branch v → ValidAny (some branches) v

inductive ValidRef : Option String → JsJson N → Prop
  | absent {v} : ValidRef none v
  | definition {ref prop v} : definition root ref = some prop → Valid prop v →
      ValidRef (some ref) v
  | elsewhere {ref v} : definition root ref = none → elsewhere ref v → ValidRef (some ref) v

end

-- What the kind of a field is read off.
structure Meets (prop : JsonSchemaProperty N) (v : JsJson N) : Prop where
  type : ∀ type ∈ prop.type, HasType type v
  enum : ∀ vs ∈ prop.enum, v ∈ vs

section Resolve
variable {root elsewhere keywords} {prop inner outer : JsonSchemaProperty N} {v : JsJson N}

theorem forall_mem_or {α : Type} {o o' : Option α} {P : α → Prop} (h : ∀ a ∈ o, P a)
    (h' : ∀ a ∈ o', P a) : ∀ a ∈ o.or o', P a := by
  cases o with
  | none => exact h'
  | some a => exact h

theorem Meets.spread (hinner : Meets inner v) (houter : Meets outer v) :
    Meets (spread inner outer) v :=
  ⟨forall_mem_or houter.type hinner.type, forall_mem_or houter.enum hinner.enum⟩

theorem ValidAny.spread (hinner : ValidAny root elsewhere keywords inner.anyOf v)
    (houter : ValidAny root elsewhere keywords outer.anyOf v) :
    ValidAny root elsewhere keywords (SchemaForm.spread inner outer).anyOf v := by
  rw [SchemaForm.spread]
  cases h : outer.anyOf with
  | none => exact hinner
  | some branches =>
      rw [h] at houter
      exact houter

theorem resolveRef_meets (h : Valid root elsewhere keywords prop v) :
    Meets (resolveRef root prop) v ∧
      ValidAny root elsewhere keywords (resolveRef root prop).anyOf v := by
  obtain ⟨htype, henum, hany, href, -⟩ := h
  have hprop : Meets prop v := ⟨htype, henum⟩
  rw [resolveRef]
  cases hr : prop.ref with
  | none => exact ⟨hprop, hany⟩
  | some ref =>
      simp only
      split
      · exact ⟨hprop, hany⟩
      · rw [hr] at href
        cases href with
        | definition hdef hvalid =>
            obtain ⟨htype', henum', hany', -, -⟩ := hvalid
            rw [hdef]
            have hinner : Meets _ v := ⟨htype', henum'⟩
            have houter : Meets (stripRef prop) v := ⟨htype, henum⟩
            have houterAny : ValidAny root elsewhere keywords (stripRef prop).anyOf v := hany
            exact ⟨hinner.spread houter, ValidAny.spread hany' houterAny⟩
        | elsewhere hdef _ =>
            rw [hdef]
            exact ⟨⟨htype, henum⟩, hany⟩

-- A null stays a null; any other value is one of the branch that is left.
theorem collapse_meets (h : Meets prop v) (hany : ValidAny root elsewhere keywords prop.anyOf v) :
    v = .null ∨ Meets (collapseNullableUnion root prop) v := by
  rw [collapseNullableUnion]
  cases hb : prop.anyOf with
  | none => exact Or.inr h
  | some branches =>
      rw [hb] at hany
      obtain ⟨branch, hmem, hvalid⟩ : ∃ branch ∈ branches,
          Valid root elsewhere keywords branch v := by
        cases hany with
        | branch hmem hvalid => exact ⟨_, hmem, hvalid⟩
      simp only
      split
      · next only honly =>
          by_cases hnull : branch.type = some "null"
          · left
            have htype : HasType "null" v := by
              cases hvalid with
              | intro htype => exact htype _ hnull
            cases v <;> simp_all [HasType]
          · have hfilter : branch ∈ branches.filter fun b => b.type ≠ some "null" :=
              List.mem_filter.mpr ⟨hmem, by simpa using hnull⟩
            rw [honly, List.mem_singleton] at hfilter
            have honlyMeets := (resolveRef_meets (hfilter ▸ hvalid)).1
            have houter : Meets { prop with anyOf := none } v := ⟨h.type, h.enum⟩
            exact Or.inr (honlyMeets.spread houter)
      · exact Or.inr h

end Resolve

end Validity

section Shown
variable {N : JsNumbers} {kind : FieldKind} {v : JsJson N} {c : Char} {s : String}

def Blank : JsJson N → Prop
  | .str s => trim s.toList = []
  | _ => False

-- What stands in a field of a kind as itself.
def Shown (kind : FieldKind) : JsJson N → Prop
  | .str s =>
      match kind with
      | .integer | .number => isNumeric (trim s.toList) = false
      | .boolean => trim s.toList ≠ "true".toList ∧ trim s.toList ≠ "false".toList
      | _ => True
  | .num _ => kind = .json ∨ kind = .integer ∨ kind = .number
  | .bool _ => kind = .json ∨ kind = .boolean
  | _ => kind = .json

theorem opens_visible (h : JsJson.Opens c) : isSpace c = false := by
  rcases h with h | h
  · have hall : ∀ c ∈ ['n', 't', 'f', '\x22', '[', '\x7b', '-'], isSpace c = false := by decide
    exact hall c h
  · exact digit_solid h

theorem closes_visible (h : JsJson.Closes c) : isSpace c = false := by
  rcases h with h | h
  · have hall : ∀ c ∈ ['l', 'e', '\x22', ']', '\x7d'], isSpace c = false := by decide
    exact hall c h
  · exact digit_solid h

theorem trim_stringify (gap : ℕ) (v : JsJson N) :
    trim (v.stringify gap 0) = v.stringify gap 0 := by
  apply Quoted.stripBy_of_tight
  constructor
  · intro c hc
    obtain ⟨d, cs, hcs, hd⟩ := JsJson.stringify_opens gap 0 v
    rw [hcs] at hc
    cases hc
    exact opens_visible hd
  · exact fun c hc => closes_visible (JsJson.stringify_closes gap 0 v c hc)

theorem stringify_ne_nil (gap : ℕ) (v : JsJson N) : v.stringify gap 0 ≠ [] := by
  obtain ⟨c, cs, hcs, -⟩ := JsJson.stringify_opens gap 0 v
  rw [hcs]
  exact List.cons_ne_nil c cs

theorem matches_digits {prev : Option Char} {ds rest : List Char} (h : JsonText.Digits ds) :
    Regex.Matches (fun _ => false) (.plus digit) prev ds rest := by
  obtain ⟨hne, hall⟩ := h
  obtain ⟨d, ds, rfl⟩ := List.exists_cons_of_ne_nil hne
  have hfirst : Regex.Matches (fun _ => false) digit prev [d] (ds ++ rest) :=
    Regex.matches_set.mpr ⟨d, rfl, hall d List.mem_cons_self⟩
  have hmore : Regex.Matches (fun _ => false) (.star digit) (Regex.lastOf prev [d]) ds rest :=
    Regex.matches_star_set.mpr fun c hc => hall c (List.mem_cons_of_mem d hc)
  exact Regex.matches_seq.mpr ⟨[d], ds, rfl, hfirst, hmore⟩

theorem numeric_text (t : JsonText.NumberText) : isNumeric t.chars = true := by
  have hmatch : Regex.Matches (fun _ => false) NUMERIC_RE none t.chars [] := by
    refine Regex.matches_seq.mpr ⟨t.sign, t.whole ++ t.frac ++ t.power, ?_, ?_, ?_⟩
    · simp [JsonText.NumberText.chars]
    · refine Regex.matches_opt.mpr (t.signed.imp_right fun h => ?_)
      rw [h]
      exact Regex.matches_char.mpr rfl
    refine Regex.matches_seq.mpr ⟨t.whole ++ t.frac, t.power, rfl, ?_, ?_⟩
    · refine Regex.matches_alt.mpr (Or.inl ?_)
      refine Regex.matches_seq.mpr ⟨t.whole, t.frac, rfl, matches_digits t.digits, ?_⟩
      rcases t.fraction with h | ⟨ds, hds, h⟩
      · refine Regex.matches_seq.mpr ⟨[], [], h, Regex.matches_opt.mpr (Or.inl rfl), ?_⟩
        exact Regex.matches_star_set.mpr (by simp)
      · refine Regex.matches_seq.mpr ⟨['.'], ds, h, ?_, Regex.matches_star_set.mpr hds.2⟩
        exact Regex.matches_opt.mpr (Or.inr (Regex.matches_char.mpr rfl))
    · refine Regex.matches_opt.mpr (t.exponent.imp_right ?_)
      rintro ⟨sign, ds, hsign, hds, h⟩
      refine Regex.matches_seq.mpr ⟨['e'], sign :: ds, h, Regex.matches_set.mpr ⟨'e', rfl, rfl⟩, ?_⟩
      refine Regex.matches_seq.mpr ⟨[sign], ds, rfl, ?_, matches_digits hds⟩
      refine Regex.matches_opt.mpr (Or.inr (Regex.matches_set.mpr ⟨sign, rfl, ?_⟩))
      simpa using hsign
  rw [Regex.Matches, List.append_nil] at hmatch
  exact List.any_eq_true.mpr ⟨_, hmatch, rfl⟩

theorem coerceInput_str (hkind : kind ≠ .json) (hblank : trim s.toList ≠ []) :
    coerceInput kind s.toList = .value (JsJson.str s : JsJson N) ↔
      Shown kind (JsJson.str s : JsJson N) := by
  cases kind with
  | string => simp [coerceInput, hblank, Shown]
  | enum => simp [coerceInput, hblank, Shown]
  | integer => by_cases h : isNumeric (trim s.toList) <;> simp [coerceInput, hblank, Shown, h]
  | number => by_cases h : isNumeric (trim s.toList) <;> simp [coerceInput, hblank, Shown, h]
  | boolean =>
      rw [coerceInput, if_neg hblank]
      simp only [Shown, String.ofList_toList]
      split
      · next htrue => simp [htrue]
      split
      · next hfalse => simp [hfalse]
      · next htrue hfalse => exact iff_of_true rfl ⟨htrue, hfalse⟩
  | json => exact absurd rfl hkind

theorem coerceInput_json (hv : v.WellFormed) :
    coerceInput .json (v.stringify 2 0) = .value v := by
  rw [coerceInput, trim_stringify, if_neg (stringify_ne_nil 2 v), JsJson.parse_stringify hv]

theorem coerceInput_scalar {raw : List Char} (hkind : kind ≠ .json)
    (h : coerceInput kind raw = .value v) : (∃ s, v = .str s) ∨
      (∃ n, v = .num n ∧ (kind = .integer ∨ kind = .number)) ∨
      ∃ b, v = .bool b ∧ kind = .boolean := by
  rw [coerceInput.eq_def] at h
  simp only at h
  split at h
  · cases h
  cases kind with
  | string | enum =>
      cases h
      exact Or.inl ⟨_, rfl⟩
  | integer | number =>
      simp only at h
      split at h
      · cases h
        exact Or.inr (Or.inl ⟨_, rfl, by simp⟩)
      · cases h
        exact Or.inl ⟨_, rfl⟩
  | boolean =>
      simp only at h
      split at h
      · cases h
        exact Or.inr (Or.inr ⟨true, rfl, rfl⟩)
      split at h
      · cases h
        exact Or.inr (Or.inr ⟨false, rfl, rfl⟩)
      · cases h
        exact Or.inl ⟨_, rfl⟩
  | json => exact absurd rfl hkind

theorem coerceInput_num {n : N.Num} (hv : N.finite n = true)
    (hkind : kind = .integer ∨ kind = .number) :
    coerceInput kind ((JsJson.num n).stringify 0 0) = .value (.num n) := by
  have hnumeric : isNumeric (N.text n) = true := by
    obtain ⟨t, ht⟩ := N.literal n hv
    rw [ht, numeric_text]
  rw [coerceInput.eq_def, trim_stringify, if_neg (stringify_ne_nil 0 _), JsJson.stringify,
    if_pos hv]
  rcases hkind with rfl | rfl <;> simp only [hnumeric, if_true, N.number_text n hv]

theorem coerceInput_bool (b : Bool) :
    coerceInput .boolean ((JsJson.bool b : JsJson N).stringify 0 0) =
      .value (JsJson.bool b : JsJson N) := by
  rw [coerceInput.eq_def, trim_stringify, if_neg (stringify_ne_nil 0 _)]
  cases b <;> rfl

theorem coerceInput_stringify (hkind : kind ≠ .json) (hv : v.WellFormed)
    (hstr : ∀ s, v ≠ .str s) : coerceInput kind (v.stringify 0 0) = .value v ↔ Shown kind v := by
  constructor
  · intro h
    rcases coerceInput_scalar hkind h with ⟨s, hs⟩ | ⟨n, rfl, hn⟩ | ⟨b, rfl, hb⟩
    · exact absurd hs (hstr s)
    · exact Or.inr hn
    · exact Or.inr hb
  · intro h
    cases v with
    | str s => exact absurd rfl (hstr s)
    | num n => exact coerceInput_num hv (h.resolve_left hkind)
    | bool b =>
        have hb : kind = .boolean := h.resolve_left hkind
        rw [hb]
        exact coerceInput_bool b
    | _ => exact absurd h hkind

theorem valueToInput_json (v : JsJson N) : valueToInput (some v) .json = v.stringify 2 0 := by
  cases v <;> rfl

theorem valueToInput_stringify (hkind : kind ≠ .json) (hstr : ∀ s, v ≠ .str s) :
    valueToInput (some v) kind = v.stringify 0 0 := by
  cases v with
  | str s => exact absurd rfl (hstr s)
  | _ => exact if_neg hkind

theorem coerceInput_shown (hv : v.WellFormed) (hblank : ¬ Blank v) :
    coerceInput kind (valueToInput (some v) kind) = .value v ↔ Shown kind v := by
  by_cases hkind : kind = .json
  · subst hkind
    have hshown : Shown .json v := by cases v <;> simp [Shown]
    rw [valueToInput_json]
    exact iff_of_true (coerceInput_json hv) hshown
  by_cases hstr : ∃ s, v = .str s
  · obtain ⟨s, rfl⟩ := hstr
    rw [valueToInput, if_neg hkind]
    exact coerceInput_str hkind hblank
  · have hother : ∀ s, v ≠ .str s := fun s hs => hstr ⟨s, hs⟩
    rw [valueToInput_stringify hkind hother]
    exact coerceInput_stringify hkind hv hother

end Shown

section Resubmit
variable {N : JsNumbers} {root : JsonSchemaObject N} {elsewhere : String → JsJson N → Prop}
  {keywords : OrderedDict String (JsJson N) → JsJson N → Prop}
  {props : OrderedDict String (JsonSchemaProperty N)} {prop : JsonSchemaProperty N}
  {fields : List (SchemaField N)} {field : SchemaField N} {v : JsJson N}

-- The values a field of a kind gives back.
def Kept (kind : FieldKind) (v : JsJson N) : Prop :=
  kind = .json ∨ (kind = .enum ∧ ∃ s, v = .str s) ∨ (kind ≠ .json ∧ kind ≠ .enum ∧ v ≠ .null)

theorem kindOf_type (prop : JsonSchemaProperty N) : kindOf prop = .enum ∨ kindOf prop = .json ∨
    (kindOf prop = .string ∧ prop.type = some "string") ∨
    (kindOf prop = .integer ∧ prop.type = some "integer") ∨
    (kindOf prop = .number ∧ prop.type = some "number") ∨
    (kindOf prop = .boolean ∧ prop.type = some "boolean") := by
  unfold kindOf
  split_ifs <;> simp_all

theorem shown_iff_kept (h : v = .null ∨ Meets prop v) :
    Shown (kindOf prop) v ↔ Kept (kindOf prop) v := by
  rcases kindOf_type prop with hk | hk | ⟨hk, ht⟩ | ⟨hk, ht⟩ | ⟨hk, ht⟩ | ⟨hk, ht⟩
  · rw [hk]
    cases v <;> simp [Shown, Kept]
  · rw [hk]
    cases v <;> simp [Shown, Kept]
  all_goals
    rw [hk]
    rcases h with rfl | h
    · simp [Shown, Kept]
    · have htype := h.type _ ht
      cases v <;> simp_all [HasType, Shown, Kept]

theorem fieldOf_kind {name : String} (h : fieldOf root name prop = some field) :
    field.name = name ∧
      field.kind = kindOf (collapseNullableUnion root (resolveRef root prop)) := by
  rw [fieldOf] at h
  obtain ⟨examples, -, h⟩ := Option.bind_eq_some_iff.mp h
  obtain ⟨enumOptions, -, h⟩ := Option.bind_eq_some_iff.mp h
  rw [← Option.some.inj h]
  exact ⟨rfl, rfl⟩

theorem shown_field (hprops : root.properties = some props)
    (hfields : extractFields (some root) = some fields) (hfield : field ∈ fields)
    (hprop : props.get? field.name = some prop) (hvalid : Valid root elsewhere keywords prop v) :
    Shown field.kind v ↔ Kept field.kind v := by
  have hmap : props.entries.mapM (fun kv => fieldOf root kv.1 kv.2) = some fields := by
    rw [extractFields, hprops] at hfields
    exact hfields
  obtain ⟨kv, hmem, hkv⟩ := Option.exists_of_mem_mapM hmap hfield
  obtain ⟨hname, hkind⟩ := fieldOf_kind hkv
  have hget : props.get? field.name = some kv.2 :=
    OrderedDict.mem_entries_iff.mp (hname ▸ hmem)
  obtain rfl : kv.2 = prop := Option.some.inj (hget.symm.trans hprop)
  obtain ⟨hmeets, hany⟩ := resolveRef_meets hvalid
  rw [hkind]
  exact shown_iff_kept (collapse_meets hmeets hany)

-- A field is shown and submitted again.
theorem applyFieldInput_iff {config : OrderedDict String (JsJson N)} {raw : List Char}
    (hconfig : config.get? field.name = some v) 
    (hblank : coerceInput field.kind raw ≠ (.remove : CoerceResult N)) :
    applyFieldInput config field raw = some config ↔ coerceInput field.kind raw = .value v := by
  rw [applyFieldInput]
  split
  · next herror => simp [herror]
  · next hremove => exact absurd hremove hblank
  · next w hw =>
      rw [hw, Option.some_inj, CoerceResult.value.injEq]
      constructor
      · intro h
        have hget : (config.set field.name w).get? field.name = some w :=
          OrderedDict.get?_set_self config field.name w
        rw [h, hconfig] at hget
        exact (Option.some.inj hget).symm
      · rintro rfl
        exact OrderedDict.set_of_get? hconfig


theorem coerceInput_visible {kind : FieldKind} (hblank : ¬ Blank v) :
    coerceInput kind (valueToInput (some v) kind) ≠ (.remove : CoerceResult N) := by
  have htext : trim (valueToInput (some v) kind) ≠ [] := by
    by_cases hjson : kind = .json
    · rw [hjson, valueToInput_json, trim_stringify]
      exact stringify_ne_nil 2 v
    by_cases hstr : ∃ s, v = .str s
    · obtain ⟨s, rfl⟩ := hstr
      rw [valueToInput, if_neg hjson]
      exact hblank
    · rw [valueToInput_stringify hjson fun s hs => hstr ⟨s, hs⟩, trim_stringify]
      exact stringify_ne_nil 0 v
  rw [coerceInput.eq_def, if_neg htext]
  cases kind <;> simp only <;> (try split_ifs) <;> (try split) <;> simp

theorem resubmitted_iff (hprops : root.properties = some props)
    (hfields : extractFields (some root) = some fields) (hfield : field ∈ fields)
    (hprop : props.get? field.name = some prop) (hvalid : Valid root elsewhere keywords prop v)
    (hv : v.WellFormed) (hblank : ¬ Blank v) :
    (coerceInput field.kind (valueToInput (some v) field.kind) = .value v ↔ Kept field.kind v) ∧
    ∀ config : OrderedDict String (JsJson N), config.get? field.name = some v →
      (applyFieldInput config field (valueToInput (config.get? field.name) field.kind) =
        some config ↔ Kept field.kind v) := by
  have hshown := shown_field hprops hfields hfield hprop hvalid
  have hcoerce : coerceInput field.kind (valueToInput (some v) field.kind) = .value v ↔
      Kept field.kind v := (coerceInput_shown hv hblank).trans hshown
  refine ⟨hcoerce, fun config hconfig => ?_⟩
  rw [hconfig]
  exact (applyFieldInput_iff hconfig (coerceInput_visible hblank)).trans hcoerce

end Resubmit

section Levels

def digitNumbers : JsNumbers where
  Num := Fin 10
  finite _ := true
  integer _ := true
  text n := [Nat.digitChar n]
  number cs := Fin.ofNat 10 (BTagent.decimal cs)
  literal n _ := by
    have hdigit : (Nat.digitChar n).isDigit = true := by revert n; decide
    exact
      ⟨{ sign := []
         whole := [Nat.digitChar n]
         frac := []
         power := []
         signed := Or.inl rfl
         digits := ⟨by simp, by simp [hdigit]⟩
         unpadded := by simp
         fraction := Or.inl rfl
         exponent := Or.inl rfl }, rfl⟩
  number_text := by decide

def number (n : Fin 10) : JsJson digitNumbers := .num n

def oneOrTwo : JsonSchemaProperty digitNumbers where
  type := none
  title := none
  description := none
  default := none
  examples := none
  enum := some [number 1, number 2]
  ref := none
  anyOf := none
  others := .empty

def levelSchema : JsonSchemaObject digitNumbers where
  properties := some ⟨[("level", oneOrTwo)], by decide⟩
  required := none
  defs := none

def levelField : SchemaField digitNumbers where
  name := "level"
  label := "level"
  description := ""
  required := false
  kind := .enum
  enumOptions := some [['1'], ['2']]
  defaultValue := none
  example? := none

theorem level_fields : extractFields (some levelSchema) = some [levelField] := rfl

theorem level_valid :
    Valid levelSchema (fun _ _ => False) (fun _ _ => True) oneOrTwo (number 1) := by
  refine .intro ?_ ?_ .absent .absent trivial
  · rintro type ⟨⟩
  · rintro vs ⟨⟩
    exact List.mem_cons_self

theorem number_becomes_text : ¬ ∀ (N : JsNumbers) (root : JsonSchemaObject N)
    (elsewhere : String → JsJson N → Prop)
    (keywords : OrderedDict String (JsJson N) → JsJson N → Prop)
    (props : OrderedDict String (JsonSchemaProperty N)) (prop : JsonSchemaProperty N)
    (fields : List (SchemaField N)) (field : SchemaField N) (v : JsJson N),
    root.properties = some props → extractFields (some root) = some fields → field ∈ fields →
    props.get? field.name = some prop → Valid root elsewhere keywords prop v → v.WellFormed →
    ¬ Blank v → coerceInput field.kind (valueToInput (some v) field.kind) = .value v := by
  intro h
  have hone := h digitNumbers levelSchema _ _ _ oneOrTwo [levelField] levelField (number 1) rfl
    level_fields List.mem_cons_self rfl level_valid rfl id
  have htext : coerceInput (N := digitNumbers) .enum ['1'] = .value (.str "1") := rfl
  exact absurd (htext.symm.trans hone) (by simp [number])

theorem level_resubmitted :
    coerceInput .enum (valueToInput (some (number 1)) .enum) = .value (number 1) ↔
      Kept .enum (number 1) := by
  have hmem : levelField ∈ [levelField] := List.mem_cons_self
  exact (resubmitted_iff rfl level_fields hmem rfl level_valid rfl id).1

end Levels

end SchemaForm

end BTagent
