import BTagent.Hunt.IdentityGrants
import Mathlib.Data.List.Basic

namespace BTagent

namespace IdentityGrants

-- The columns of a grant that an observation is about.
structure GrantView where
  appDisplayName : String
  scopes : List String
  consentType : String
  grantedAt : ℤ
  lastUsed : Option ℤ
  revokedAt : Option ℤ
  deriving DecidableEq

def view (row : OAuthGrantRow) : GrantView :=
  ⟨row.appDisplayName, row.scopes, row.consentType, row.grantedAt, row.lastUsed, row.revokedAt⟩

section Converge

variable (fromisoformat : String → Option ℤ)

def fieldsOf (f : GrantFinding) : Option GrantFields :=
  grantFieldsFromEvidence fromisoformat f.evidence .OKTA

def About (k : GrantTuple) (f : GrantFinding) : Prop :=
  ∃ fields, fieldsOf fromisoformat f = some fields ∧ tuple f fields = k

-- What the newer finding leaves out, the older one has not told either; a row that no finding
-- dates is dated by the finding that made it.
structure Covers (newer : GrantFinding) (fields old : GrantFields) : Prop where
  name : fields.appDisplayName = "" → old.appDisplayName = ""
  scopes : fields.scopes = [] → old.scopes = []
  granted : fields.grantedAt = none → old.grantedAt = some newer.createdAt
  last : fields.lastUsed = none → old.lastUsed = none

def Supersedes (newer older : GrantFinding) : Prop :=
  ∀ fields ∈ fieldsOf fromisoformat newer, ∀ old ∈ fieldsOf fromisoformat older,
    Covers newer fields old

-- The row of the tuple that all findings are about.
def stepRow (row : Option OAuthGrantRow) (f : String × GrantFinding) : Option OAuthGrantRow :=
  match fieldsOf fromisoformat f.2 with
  | none => row
  | some fields => (merged f.1 f.2 fields row).or row

variable {fromisoformat} {k : GrantTuple} {grants : GrantTable} {f newest : GrantFinding}
  {fs : List GrantFinding} {gs hs : List (String × GrantFinding)} {row : OAuthGrantRow}
  {fields old : GrantFields} {id : String}

theorem get_upsert (h : About fromisoformat k f) :
    (upsertGrantFromFinding fromisoformat grants id f).get? k =
      stepRow fromisoformat (grants.get? k) (id, f) := by
  obtain ⟨fields, hfields, rfl⟩ := h
  rw [upsertGrantFromFinding, stepRow, hfields]
  rw [fieldsOf] at hfields
  rw [hfields]
  simp only
  cases merged id f fields (grants.get? (tuple f fields)) with
  | none => rfl
  | some row => exact OrderedDict.get?_set_self grants _ row

theorem get_ingest (h : ∀ f ∈ gs, About fromisoformat k f.2) :
    (ingest fromisoformat grants gs).get? k =
      gs.foldl (stepRow fromisoformat) (grants.get? k) := by
  induction gs generalizing grants with
  | nil => rfl
  | cons f gs ih =>
      have hrest := @ih (upsertGrantFromFinding fromisoformat grants f.1 f.2)
        fun g hg => h g (List.mem_cons_of_mem f hg)
      rw [get_upsert (h f List.mem_cons_self)] at hrest
      exact hrest

theorem step_new (h : fieldsOf fromisoformat f = some fields) :
    stepRow fromisoformat none (id, f) = some (newGrant id f fields) := by
  simp only [stepRow, h, merged, Option.some_or]

theorem step_stale (h : f.createdAt < row.observedAt) :
    stepRow fromisoformat (some row) (id, f) = some row := by
  rw [stepRow]
  split
  · rfl
  · rw [merged, if_pos h, Option.none_or]

theorem step_refresh (h : fieldsOf fromisoformat f = some fields)
    (hnewer : row.observedAt ≤ f.createdAt) :
    stepRow fromisoformat (some row) (id, f) = some (refresh f fields row) := by
  simp only [stepRow, h, merged, if_neg (not_lt.mpr hnewer), Option.some_or]

theorem foldl_stale (h : ∀ f ∈ gs, f.2.createdAt < row.observedAt) :
    gs.foldl (stepRow fromisoformat) (some row) = some row := by
  induction gs with
  | nil => rfl
  | cons f gs ih =>
      rw [List.foldl_cons, step_stale (h f List.mem_cons_self)]
      exact ih fun g hg => h g (List.mem_cons_of_mem f hg)

-- Every column that is kept comes from a finding.
structure Told (fromisoformat : String → Option ℤ) (fs : List GrantFinding) (row : OAuthGrantRow) :
    Prop where
  observed : ∃ f ∈ fs, row.observedAt = f.createdAt
  name : ∃ f ∈ fs, ∃ old ∈ fieldsOf fromisoformat f, row.appDisplayName = old.appDisplayName
  scopes : ∃ f ∈ fs, ∃ old ∈ fieldsOf fromisoformat f, row.scopes = old.scopes
  granted : ∃ f ∈ fs, ∃ old ∈ fieldsOf fromisoformat f,
    row.grantedAt = old.grantedAt.getD f.createdAt
  last : ∃ f ∈ fs, ∃ old ∈ fieldsOf fromisoformat f, row.lastUsed = old.lastUsed

theorem told_new (h : fieldsOf fromisoformat f = some fields) :
    Told fromisoformat [f] (newGrant id f fields) where
  observed := ⟨f, List.mem_cons_self, rfl⟩
  name := ⟨f, List.mem_cons_self, fields, h, rfl⟩
  scopes := ⟨f, List.mem_cons_self, fields, h, rfl⟩
  granted := ⟨f, List.mem_cons_self, fields, h, rfl⟩
  last := ⟨f, List.mem_cons_self, fields, h, rfl⟩

theorem Told.mono (h : Told fromisoformat fs row) (f : GrantFinding) :
    Told fromisoformat (fs ++ [f]) row where
  observed := h.observed.imp fun _ hg => ⟨List.mem_append_left _ hg.1, hg.2⟩
  name := h.name.imp fun _ hg => ⟨List.mem_append_left _ hg.1, hg.2⟩
  scopes := h.scopes.imp fun _ hg => ⟨List.mem_append_left _ hg.1, hg.2⟩
  granted := h.granted.imp fun _ hg => ⟨List.mem_append_left _ hg.1, hg.2⟩
  last := h.last.imp fun _ hg => ⟨List.mem_append_left _ hg.1, hg.2⟩

theorem Told.refresh (h : Told fromisoformat fs row) (hfields : fieldsOf fromisoformat f = some fields) :
    Told fromisoformat (fs ++ [f]) (refresh f fields row) := by
  have hmem : f ∈ fs ++ [f] := List.mem_append_right fs List.mem_cons_self
  have hkept := h.mono f
  refine ⟨⟨f, hmem, rfl⟩, ?_, ?_, ?_, ?_⟩
  · by_cases hname : fields.appDisplayName = ""
    · simpa only [IdentityGrants.refresh, if_pos hname] using hkept.name
    · exact ⟨f, hmem, fields, hfields, if_neg hname⟩
  · by_cases hscopes : fields.scopes = []
    · simpa only [IdentityGrants.refresh, if_pos hscopes] using hkept.scopes
    · exact ⟨f, hmem, fields, hfields, if_neg hscopes⟩
  · cases hgranted : fields.grantedAt with
    | none => simpa only [IdentityGrants.refresh, hgranted, Option.getD_none] using hkept.granted
    | some t =>
        refine ⟨f, hmem, fields, hfields, ?_⟩
        simp only [IdentityGrants.refresh, hgranted, Option.getD_some]
  · cases hlast : fields.lastUsed with
    | none => simpa only [IdentityGrants.refresh, hlast, Option.none_or] using hkept.last
    | some t =>
        refine ⟨f, hmem, fields, hfields, ?_⟩
        simp only [IdentityGrants.refresh, hlast, Option.some_or]

theorem ingest_told (h : ∀ f ∈ gs, About fromisoformat k f.2) (hne : gs ≠ []) :
    ∃ row, gs.foldl (stepRow fromisoformat) none = some row ∧
      Told fromisoformat (gs.map Prod.snd) row := by
  induction gs using List.reverseRecOn with
  | nil => exact absurd rfl hne
  | append_singleton gs f ih =>
      obtain ⟨fields, hfields, -⟩ := h f (List.mem_append_right gs List.mem_cons_self)
      rw [List.foldl_append, List.foldl_cons, List.foldl_nil, List.map_append]
      by_cases hnil : gs = []
      · rw [hnil]
        exact ⟨_, step_new hfields, told_new hfields⟩
      · obtain ⟨row, hrow, htold⟩ := ih (fun g hg => h g (List.mem_append_left _ hg)) hnil
        rw [hrow]
        by_cases hstale : f.2.createdAt < row.observedAt
        · exact ⟨row, step_stale hstale, htold.mono f.2⟩
        · exact ⟨_, step_refresh hfields (not_lt.mp hstale), htold.refresh hfields⟩

theorem newest_or_covered (hfields : fieldsOf fromisoformat newest = some fields)
    (hcovers : ∀ f ∈ fs, f ≠ newest → Supersedes fromisoformat newest f) (hf : f ∈ fs)
    (hold : old ∈ fieldsOf fromisoformat f) :
    f = newest ∧ old = fields ∨ Covers newest fields old := by
  by_cases hsame : f = newest
  · subst hsame
    exact Or.inl ⟨rfl, Option.some.inj (hold.symm.trans hfields)⟩
  · exact Or.inr (hcovers f hf hsame fields hfields old hold)

theorem view_refresh (hfields : fieldsOf fromisoformat newest = some fields)
    (htold : Told fromisoformat fs row)
    (hcovers : ∀ f ∈ fs, f ≠ newest → Supersedes fromisoformat newest f) :
    view (refresh newest fields row) = view (newGrant id newest fields) := by
  have hname : fields.appDisplayName = "" → row.appDisplayName = "" := by
    intro hempty
    obtain ⟨f, hf, old, hold, heq⟩ := htold.name
    rcases newest_or_covered hfields hcovers hf hold with ⟨-, rfl⟩ | hcovered
    · exact heq.trans hempty
    · exact heq.trans (hcovered.name hempty)
  have hscopes : fields.scopes = [] → row.scopes = [] := by
    intro hempty
    obtain ⟨f, hf, old, hold, heq⟩ := htold.scopes
    rcases newest_or_covered hfields hcovers hf hold with ⟨-, rfl⟩ | hcovered
    · exact heq.trans hempty
    · exact heq.trans (hcovered.scopes hempty)
  have hgranted : fields.grantedAt = none → row.grantedAt = newest.createdAt := by
    intro hempty
    obtain ⟨f, hf, old, hold, heq⟩ := htold.granted
    rcases newest_or_covered hfields hcovers hf hold with ⟨rfl, rfl⟩ | hcovered
    · rw [heq, hempty, Option.getD_none]
    · rw [heq, hcovered.granted hempty, Option.getD_some]
  have hlast : fields.lastUsed = none → row.lastUsed = none := by
    intro hempty
    obtain ⟨f, hf, old, hold, heq⟩ := htold.last
    rcases newest_or_covered hfields hcovers hf hold with ⟨-, rfl⟩ | hcovered
    · exact heq.trans hempty
    · exact heq.trans (hcovered.last hempty)
  simp only [view, refresh, newGrant, GrantView.mk.injEq, true_and, and_true]
  refine ⟨?_, ?_, ?_, ?_⟩
  · split
    · next hempty => rw [hname hempty, hempty]
    · rfl
  · split
    · next hempty => rw [hscopes hempty, hempty]
    · rfl
  · cases hg : fields.grantedAt with
    | none => rw [Option.getD_none, Option.getD_none, hgranted hg]
    | some t => rfl
  · cases hl : fields.lastUsed with
    | none => rw [Option.none_or, hlast hl]
    | some t => rfl

-- Once the newest finding is in, the row reads as if there were no other.
theorem ingest_newest (h : ∀ f ∈ gs, About fromisoformat k f.2)
    (hnewest : newest ∈ gs.map Prod.snd) (hfields : fieldsOf fromisoformat newest = some fields)
    (holder : ∀ f ∈ gs, f.2 ≠ newest → f.2.createdAt < newest.createdAt)
    (hcovers : ∀ f ∈ gs, f.2 ≠ newest → Supersedes fromisoformat newest f.2) (id : String) :
    ∃ row, gs.foldl (stepRow fromisoformat) none = some row ∧
      row.observedAt = newest.createdAt ∧ view row = view (newGrant id newest fields) := by
  induction gs using List.reverseRecOn with
  | nil => exact absurd hnewest List.not_mem_nil
  | append_singleton gs f ih =>
      have hgs : ∀ g ∈ gs, g ∈ gs ++ [f] := fun g hg => List.mem_append_left _ hg
      rw [List.foldl_append, List.foldl_cons, List.foldl_nil]
      by_cases hsame : f.2 = newest
      · obtain ⟨fid, finding⟩ := f
        obtain rfl : finding = newest := hsame
        by_cases hnil : gs = []
        · rw [hnil, List.foldl_nil, step_new hfields]
          exact ⟨_, rfl, rfl, rfl⟩
        · obtain ⟨row, hrow, htold⟩ := ingest_told (fun g hg => h g (hgs g hg)) hnil
          have hnewer : row.observedAt ≤ finding.createdAt := by
            obtain ⟨_, hmem, heq⟩ := htold.observed
            obtain ⟨g, hg, rfl⟩ := List.mem_map.mp hmem
            rw [heq]
            by_cases hne : g.2 = finding
            · rw [hne]
            · exact (holder g (hgs g hg) hne).le
          rw [hrow, step_refresh hfields hnewer]
          refine ⟨_, rfl, rfl, view_refresh hfields htold fun _ hmem hne => ?_⟩
          obtain ⟨g, hg, rfl⟩ := List.mem_map.mp hmem
          exact hcovers g (hgs g hg) hne
      · rw [List.map_append, List.mem_append] at hnewest
        have hmem : newest ∈ gs.map Prod.snd := by
          refine hnewest.resolve_right fun hlast => hsame ?_
          exact (List.mem_singleton.mp hlast).symm
        obtain ⟨row, hrow, hobserved, hview⟩ := ih (fun g hg => h g (hgs g hg)) hmem
          (fun g hg => holder g (hgs g hg)) (fun g hg => hcovers g (hgs g hg))
        have hstale : f.2.createdAt < row.observedAt := by
          rw [hobserved]
          exact holder f (List.mem_append_right gs List.mem_cons_self) hsame
        rw [hrow, step_stale hstale]
        exact ⟨row, rfl, hobserved, hview⟩

-- Where only the newest finding follows another one, the two have to read as the newest alone.
theorem covers_of_view (hdiff : f.createdAt ≠ newest.createdAt)
    (h : view (refresh newest fields (newGrant id f old)) = view (newGrant id newest fields)) :
    Covers newest fields old := by
  simp only [view, refresh, newGrant, GrantView.mk.injEq, true_and, and_true] at h
  obtain ⟨hname, hscopes, hgranted, hlast⟩ := h
  refine ⟨fun hempty => ?_, fun hempty => ?_, fun hempty => ?_, fun hempty => ?_⟩
  · rwa [if_pos hempty, hempty] at hname
  · rwa [if_pos hempty, hempty] at hscopes
  · rw [hempty, Option.getD_none, Option.getD_none] at hgranted
    cases hold : old.grantedAt with
    | none =>
        rw [hold, Option.getD_none] at hgranted
        exact absurd hgranted hdiff
    | some t =>
        rw [hold, Option.getD_some] at hgranted
        rw [hgranted]
  · rwa [hempty, Option.none_or] at hlast

theorem foldl_newest (hfields : fieldsOf fromisoformat newest = some fields)
    (hrest : ∀ g ∈ gs, g.2.createdAt < newest.createdAt) :
    ((id, newest) :: gs).foldl (stepRow fromisoformat) none = some (newGrant id newest fields) := by
  rw [List.foldl_cons, step_new hfields]
  exact foldl_stale hrest

theorem foldl_second (hfields : fieldsOf fromisoformat newest = some fields)
    (hold : fieldsOf fromisoformat f = some old) (holder : f.createdAt < newest.createdAt)
    (hrest : ∀ g ∈ gs, g.2.createdAt < newest.createdAt) :
    ((id, f) :: (id, newest) :: gs).foldl (stepRow fromisoformat) none =
      some (refresh newest fields (newGrant id f old)) := by
  rw [List.foldl_cons, List.foldl_cons, step_new hold, step_refresh hfields holder.le]
  exact foldl_stale hrest

-- Findings with an id that no column of the view shows.
def plain (fs : List GrantFinding) : List (String × GrantFinding) := fs.map fun f => ("", f)

theorem plain_cons : plain (f :: fs) = ("", f) :: plain fs := rfl

theorem map_plain (fs : List GrantFinding) : (plain fs).map Prod.snd = fs := by
  rw [plain, List.map_map]
  exact List.map_id fs

def grantView (fromisoformat : String → Option ℤ) (grants : GrantTable) (k : GrantTuple)
    (gs : List (String × GrantFinding)) : Option GrantView :=
  ((ingest fromisoformat grants gs).get? k).map view

theorem grantView_eq (hnone : grants.get? k = none) (h : ∀ f ∈ gs, About fromisoformat k f.2) :
    grantView fromisoformat grants k gs = (gs.foldl (stepRow fromisoformat) none).map view := by
  rw [grantView, get_ingest h, hnone]

-- Whatever the order, the row reads as it does in the order of `created_at`.
def Converges (fromisoformat : String → Option ℤ) (grants : GrantTable) (k : GrantTuple)
    (fs : List GrantFinding) : Prop :=
  ∀ gs hs, (gs.map Prod.snd).Perm fs → hs.map Prod.snd = fs →
    grantView fromisoformat grants k gs = grantView fromisoformat grants k hs

theorem about_perm (habout : ∀ f ∈ fs, About fromisoformat k f) (hperm : (gs.map Prod.snd).Perm fs) :
    ∀ g ∈ gs, About fromisoformat k g.2 :=
  fun _ hg => habout _ (hperm.mem_iff.mp (List.mem_map_of_mem hg))

theorem Converges.supersedes {older : List GrantFinding}
    (hconverges : Converges fromisoformat grants k (older ++ [newest]))
    (hnone : grants.get? k = none) (habout : ∀ f ∈ older ++ [newest], About fromisoformat k f)
    (holder : ∀ f ∈ older, f.createdAt < newest.createdAt) (hf : f ∈ older) :
    Supersedes fromisoformat newest f := by
  obtain ⟨before, after, rfl⟩ := List.append_of_mem hf
  intro fields hfields old hold
  have hperm : ∀ {es : List GrantFinding}, es.Perm (before ++ f :: after ++ [newest]) →
      ((plain es).map Prod.snd).Perm (before ++ f :: after ++ [newest]) := by
    intro es hes
    rwa [map_plain]
  -- The newest one first, and the newest one right after `f`.
  have hfirst : (newest :: (before ++ f :: after)).Perm (before ++ f :: after ++ [newest]) :=
    (List.perm_append_singleton newest _).symm
  have hsecond : (f :: newest :: (before ++ after)).Perm (before ++ f :: after ++ [newest]) :=
    ((List.Perm.swap newest f _).trans (List.perm_middle.symm.cons newest)).trans hfirst
  have hsorted := map_plain (before ++ f :: after ++ [newest])
  have heq := (hconverges _ _ (hperm hfirst) hsorted).trans
    (hconverges _ _ (hperm hsecond) hsorted).symm
  have hrest : ∀ {es : List GrantFinding}, es ⊆ before ++ f :: after →
      ∀ g ∈ plain es, g.2.createdAt < newest.createdAt := by
    intro es hes g hg
    obtain ⟨e, he, rfl⟩ := List.mem_map.mp hg
    exact holder e (hes he)
  have hothers : before ++ after ⊆ before ++ f :: after :=
    ((List.sublist_cons_self f after).append_left before).subset
  rw [grantView_eq hnone (about_perm habout (hperm hfirst)),
    grantView_eq hnone (about_perm habout (hperm hsecond)), plain_cons, plain_cons, plain_cons,
    foldl_newest hfields (hrest (List.Subset.refl _)),
    foldl_second hfields hold (holder f hf) (hrest hothers), Option.map_some, Option.map_some,
    Option.some_inj] at heq
  exact covers_of_view (holder f hf).ne heq.symm

theorem grantView_newest {older : List GrantFinding} (hnone : grants.get? k = none)
    (habout : ∀ f ∈ older ++ [newest], About fromisoformat k f)
    (hfields : fieldsOf fromisoformat newest = some fields)
    (holder : ∀ f ∈ older, f.createdAt < newest.createdAt)
    (hcovers : ∀ f ∈ older ++ [newest], f ≠ newest → Supersedes fromisoformat newest f)
    (hperm : (gs.map Prod.snd).Perm (older ++ [newest])) :
    grantView fromisoformat grants k gs = some (view (newGrant "" newest fields)) := by
  have hmem : ∀ g ∈ gs, g.2 ∈ older ++ [newest] := fun g hg =>
    hperm.mem_iff.mp (List.mem_map_of_mem hg)
  have hnewest : newest ∈ gs.map Prod.snd :=
    hperm.mem_iff.mpr (List.mem_append_right older List.mem_cons_self)
  have hearlier : ∀ g ∈ gs, g.2 ≠ newest → g.2.createdAt < newest.createdAt := by
    intro g hg hne
    rcases List.mem_append.mp (hmem g hg) with hold | hlast
    · exact holder g.2 hold
    · exact absurd (List.mem_singleton.mp hlast) hne
  obtain ⟨row, hrow, -, hview⟩ := ingest_newest (about_perm habout hperm) hnewest hfields hearlier
    (fun g hg hne => hcovers g.2 (hmem g hg) hne) ""
  rw [grantView_eq hnone (about_perm habout hperm), hrow, Option.map_some, hview]

theorem grants_converge_iff (hnone : grants.get? k = none)
    (habout : ∀ f ∈ fs, About fromisoformat k f)
    (horder : fs.Pairwise fun f g => f.createdAt < g.createdAt) :
    Converges fromisoformat grants k fs ↔
      ∀ newest ∈ fs.getLast?, ∀ f ∈ fs, f ≠ newest → Supersedes fromisoformat newest f := by
  cases fs using List.reverseRecOn with
  | nil =>
      refine iff_of_true (fun gs hs hperm hsame => ?_) fun newest h => by cases h
      rw [List.map_eq_nil_iff.mp hperm.eq_nil, List.map_eq_nil_iff.mp hsame]
  | append_singleton older newest =>
      have holder : ∀ f ∈ older, f.createdAt < newest.createdAt := fun f hf =>
        (List.pairwise_append.mp horder).2.2 f hf newest List.mem_cons_self
      obtain ⟨fields, hfields, -⟩ := habout newest (List.mem_append_right older List.mem_cons_self)
      rw [List.getLast?_concat]
      constructor
      · intro hconverges _ hnewest f hf hne
        obtain rfl := Option.some.inj hnewest
        rcases List.mem_append.mp hf with hold | hlast
        · exact hconverges.supersedes hnone habout holder hold
        · exact absurd (List.mem_singleton.mp hlast) hne
      · intro hcovers gs hs hperm hsame
        have hread := hcovers newest rfl
        rw [grantView_newest hnone habout hfields holder hread hperm,
          grantView_newest hnone habout hfields holder hread (hsame ▸ List.Perm.refl _)]

end Converge

section Example

def instants (text : String) : Option ℤ :=
  if text = "2026-06-01T00:00:00+00:00" then some 1780272000000000 else none

def slackFinding (id : String) (scopes : List Json) (createdAt : ℤ) : GrantFinding where
  id := id
  orgId := "org_1"
  evidence := ⟨[("principal_id", .str "alice"), ("app_id", .str "slack"), ("scopes", .arr scopes),
    ("granted_at", .str "2026-06-01T00:00:00+00:00")], by simp⟩
  createdAt := createdAt

def slackFields (scopes : List String) : GrantFields where
  provider := "okta"
  principalId := "alice"
  appId := "slack"
  appDisplayName := ""
  scopes := scopes
  consentType := "unknown"
  grantedAt := some 1780272000000000
  lastUsed := none
  revokedAt := none

def slackTuple : GrantTuple := ⟨"org_1", "okta", "alice", "slack"⟩

theorem scopes_last_converge : Converges instants .empty slackTuple
    [slackFinding "hfnd_1" [] 1, slackFinding "hfnd_2" [.str "files:read"] 2] := by
  have hfirst : fieldsOf instants (slackFinding "hfnd_1" [] 1) = some (slackFields []) := by
    decide
  have hsecond : fieldsOf instants (slackFinding "hfnd_2" [.str "files:read"] 2) =
      some (slackFields ["files:read"]) := by
    decide
  refine (grants_converge_iff rfl ?_ ?_).mpr ?_
  · intro f hf
    rcases List.mem_pair.mp hf with rfl | rfl
    · exact ⟨_, hfirst, rfl⟩
    · exact ⟨_, hsecond, rfl⟩
  · simp [slackFinding]
  · intro newest hnewest f hf hne
    obtain rfl := Option.some.inj hnewest
    rcases List.mem_pair.mp hf with rfl | rfl
    · intro fields hfields old hold
      obtain rfl := Option.some.inj (hsecond.symm.trans hfields)
      obtain rfl := Option.some.inj (hfirst.symm.trans hold)
      exact ⟨fun _ => rfl, (nomatch ·), (nomatch ·), fun _ => rfl⟩
    · exact absurd rfl hne

-- The newer finding comes without scopes; after it the older one's scopes are stale.
theorem scopes_first_diverge : ¬ Converges instants .empty slackTuple
    [slackFinding "hfnd_1" [.str "files:read"] 1, slackFinding "hfnd_2" [] 2] := by
  intro hconverges
  have hsame := hconverges
    [("oag_1", slackFinding "hfnd_2" [] 2), ("oag_2", slackFinding "hfnd_1" [.str "files:read"] 1)]
    [("oag_1", slackFinding "hfnd_1" [.str "files:read"] 1), ("oag_2", slackFinding "hfnd_2" [] 2)]
    (List.Perm.swap _ _ []) rfl
  revert hsame
  decide

end Example

end IdentityGrants

end BTagent
