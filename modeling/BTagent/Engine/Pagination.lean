import BTagent.Engine.Declarative

namespace BTagent

namespace Declarative

def Success (spec : RoutingSpec) (r : HTTPResponse) : Prop :=
  r.statusCode ∉ spec.response.notFoundStatuses ∧ 200 ≤ r.statusCode ∧ r.statusCode < 300

-- The pages that are served from call `n` on until the pagination ends. A not-found status ends it
-- at a page number or an offset; where a page has handed out a cursor there is one more page.
inductive Follows (spec : RoutingSpec) (send : Server) : ℕ → Dict → List Json → Prop
  | absent {n query r} : send n query = .ok r → r.statusCode ∈ spec.response.notFoundStatuses →
      n = 0 ∨ spec.pagination.style ≠ .CURSOR → Follows spec send n query []
  | last {n query r} : send n query = .ok r → Success spec r →
      nextQuery spec.pagination query r.jsonBody = none → Follows spec send n query [r.jsonBody]
  | next {n query query' r bodies} : send n query = .ok r → Success spec r →
      nextQuery spec.pagination query r.jsonBody = some query' →
      Follows spec send (n + 1) query' bodies → Follows spec send n query (r.jsonBody :: bodies)

def Complete (spec : RoutingSpec) (send : Server) (output : Dict) : Prop :=
  ∃ bodies, Follows spec send 0 (firstQuery spec.pagination) bodies ∧
    (bodies = [] → output = spec.response.notFoundOutput) ∧
    (bodies ≠ [] → output.get? spec.pagination.itemsKey =
      some (.arr (bodies.flatMap (itemsOf spec.pagination))))

-- `_pagination.truncated`
def Marked (output : Dict) : Prop :=
  ∃ kvs, output.get? "_pagination" = some (.obj kvs) ∧
    OrderedDict.find "truncated" kvs = some (.bool true)

-- No call after the first `maxPages` is made.
def CallsWithin (spec : RoutingSpec) (send : Server) : Prop :=
  ∀ send' : Server, (∀ n < spec.pagination.maxPages, send' n = send n) →
    ∀ fuel, run spec send' fuel = run spec send fuel

def PaginationComplete (spec : RoutingSpec) (send : Server) : Prop :=
  CallsWithin spec send ∧ ∃ outcome,
    (∃ bound, ∀ fuel, bound ≤ fuel → run spec send fuel = some outcome) ∧
      ∀ output, outcome = .ok output → ¬Marked output → Complete spec send output

-- Call `n` is made with the query; `first` is the first body that is not null.
inductive Reaches (spec : RoutingSpec) (send : Server) : ℕ → Dict → Json → Prop
  | start : clash spec = [] → Reaches spec send 0 (firstQuery spec.pagination) .null
  | next {n query query' first r} : Reaches spec send n query first → send n query = .ok r →
      Success spec r → n + 1 < spec.pagination.maxPages →
      nextQuery spec.pagination query r.jsonBody = some query' →
      Reaches spec send (n + 1) query' (if isNone first then r.jsonBody else first)

-- No cursor that is followed is answered not found, unless the mapping sets the marker anyway.
def CursorsServed (spec : RoutingSpec) (send : Server) : Prop :=
  spec.pagination.style = .CURSOR → ∀ n query first r, Reaches spec send (n + 1) query first →
    send (n + 1) query = .ok r → r.statusCode ∈ spec.response.notFoundStatuses →
      spec.pagination.itemsKey ≠ "_pagination" ∧ Marked (apply spec.response first)

variable {spec : RoutingSpec} {send : Server} {s : PageState} {r : HTTPResponse} {n fuel : ℕ}
  {query query' : Dict} {first : Json} {bodies : List Json}

section Iteration

theorem pageLoop_error {e : ConnectorError} (h : send s.pages s.extraQuery = .error e) :
    pageLoop spec send (fuel + 1) s = some (.error e) := by
  rw [pageLoop, h]

theorem pageLoop_absent (h : send s.pages s.extraQuery = .ok r)
    (habsent : r.statusCode ∈ spec.response.notFoundStatuses) :
    pageLoop spec send (fuel + 1) s = some (.ok (if s.pages = 0 then none else some s)) := by
  simp only [pageLoop, h, if_pos habsent]

theorem pageLoop_http (h : send s.pages s.extraQuery = .ok r)
    (hfound : r.statusCode ∉ spec.response.notFoundStatuses)
    (hbad : ¬(200 ≤ r.statusCode ∧ r.statusCode < 300)) :
    pageLoop spec send (fuel + 1) s = some (.error (.http r.statusCode)) := by
  simp only [pageLoop, h, if_neg hfound, if_pos hbad]

theorem moreAtCap_eq (hpaged : spec.pagination.style ≠ .NONE) (query : Dict) (body : Json) :
    moreAtCap spec.pagination body = (nextQuery spec.pagination query body).isSome := by
  unfold nextQuery moreAtCap
  cases hstyle : spec.pagination.style with
  | NONE => exact absurd hstyle hpaged
  | CURSOR =>
      by_cases hcursor : Python.truth (extractPath body (nameOf spec.pagination.cursorPath))
      · simp [hcursor]
      · simp [hcursor]
  | PAGE =>
      by_cases hitems : itemsOf spec.pagination body = []
      · simp [hitems]
      · simp [hitems]
  | OFFSET =>
      by_cases hitems : itemsOf spec.pagination body = []
      · simp [hitems]
      · simp [hitems]

-- At the page cap the marker is set exactly where the pagination would go on.
theorem pageLoop_capped (hpaged : spec.pagination.style ≠ .NONE)
    (h : send s.pages s.extraQuery = .ok r) (hr : Success spec r)
    (hcap : spec.pagination.maxPages ≤ s.pages + 1) :
    pageLoop spec send (fuel + 1) s = some (.ok (some { fetched spec.pagination s r.jsonBody with
      truncated := (nextQuery spec.pagination s.extraQuery r.jsonBody).isSome })) := by
  have hpages : spec.pagination.maxPages ≤ (fetched spec.pagination s r.jsonBody).pages := hcap
  simp only [pageLoop, h, if_neg hr.1, if_neg (not_not_intro hr.2), if_neg hpaged, if_pos hpages]
  rw [moreAtCap_eq hpaged s.extraQuery]

theorem pageLoop_last (hpaged : spec.pagination.style ≠ .NONE)
    (h : send s.pages s.extraQuery = .ok r) (hr : Success spec r)
    (hcap : s.pages + 1 < spec.pagination.maxPages)
    (hnext : nextQuery spec.pagination s.extraQuery r.jsonBody = none) :
    pageLoop spec send (fuel + 1) s =
      some (.ok (some (fetched spec.pagination s r.jsonBody))) := by
  have hpages : ¬spec.pagination.maxPages ≤ (fetched spec.pagination s r.jsonBody).pages :=
    Nat.not_le_of_lt hcap
  have hnext' : nextQuery spec.pagination (fetched spec.pagination s r.jsonBody).extraQuery
      r.jsonBody = none := hnext
  simp only [pageLoop, h, if_neg hr.1, if_neg (not_not_intro hr.2), if_neg hpaged, if_neg hpages,
    hnext']

theorem pageLoop_next (hpaged : spec.pagination.style ≠ .NONE)
    (h : send s.pages s.extraQuery = .ok r) (hr : Success spec r)
    (hcap : s.pages + 1 < spec.pagination.maxPages)
    (hnext : nextQuery spec.pagination s.extraQuery r.jsonBody = some query') :
    pageLoop spec send (fuel + 1) s = pageLoop spec send fuel
      { fetched spec.pagination s r.jsonBody with extraQuery := query' } := by
  have hpages : ¬spec.pagination.maxPages ≤ (fetched spec.pagination s r.jsonBody).pages :=
    Nat.not_le_of_lt hcap
  have hnext' : nextQuery spec.pagination (fetched spec.pagination s r.jsonBody).extraQuery
      r.jsonBody = some query' := hnext
  simp only [pageLoop, h, if_neg hr.1, if_neg (not_not_intro hr.2), if_neg hpaged, if_neg hpages,
    hnext']

theorem collected_fetched (hpaged : spec.pagination.style ≠ .NONE) (body : Json) :
    (fetched spec.pagination s body).collected = s.collected ++ itemsOf spec.pagination body :=
  if_neg hpaged

end Iteration

section Calls

theorem pageLoop_calls {send' : Server}
    (h : ∀ n < spec.pagination.maxPages, send' n = send n)
    (hpages : s.pages < spec.pagination.maxPages) :
    pageLoop spec send' fuel s = pageLoop spec send fuel s := by
  induction fuel generalizing s with
  | zero => rfl
  | succ fuel ih =>
      simp only [pageLoop, h s.pages hpages]
      cases send s.pages s.extraQuery with
      | error e => rfl
      | ok r =>
          simp only
          repeat' split
          all_goals try rfl
          next hcap _ query hnext => exact ih (Nat.lt_of_not_le hcap)

theorem calls_within (spec : RoutingSpec) (send : Server) : CallsWithin spec send := by
  intro send' h fuel
  have hpages : (PageState.initial spec.pagination).pages < spec.pagination.maxPages :=
    spec.pagination.maxPages_pos
  unfold run
  rw [pageLoop_calls h hpages]

end Calls

section Runs

-- How the loop stops: the last page is there, or it is the cap, or the next page was not found.
inductive Stopped (spec : RoutingSpec) (send : Server) (s : PageState) :
    Except ConnectorError (Option PageState) → Prop
  | raised {e} : Stopped spec send s (.error e)
  | absent : Follows spec send 0 (firstQuery spec.pagination) [] → Stopped spec send s (.ok none)
  | capped {s'} : s'.truncated = true → Stopped spec send s (.ok (some s'))
  | ended {s' bodies} : Follows spec send s.pages s.extraQuery bodies →
      0 < s.pages + bodies.length →
      s'.collected = s.collected ++ bodies.flatMap (itemsOf spec.pagination) →
      s'.truncated = false → Stopped spec send s (.ok (some s'))
  | lost {s' n query r} : spec.pagination.style = .CURSOR → s'.truncated = false →
      Reaches spec send (n + 1) query s'.firstBody → send (n + 1) query = .ok r →
      r.statusCode ∈ spec.response.notFoundStatuses → Stopped spec send s (.ok (some s'))

theorem stopped_absent (hreach : Reaches spec send s.pages s.extraQuery s.firstBody)
    (hs : s.truncated = false) (hfirst : s.pages = 0 → s.extraQuery = firstQuery spec.pagination)
    (hsend : send s.pages s.extraQuery = .ok r)
    (habsent : r.statusCode ∈ spec.response.notFoundStatuses) :
    Stopped spec send s (.ok (if s.pages = 0 then none else some s)) := by
  by_cases hzero : s.pages = 0
  · rw [if_pos hzero]
    rw [hzero, hfirst hzero] at hsend
    exact .absent (.absent hsend habsent (Or.inl rfl))
  · rw [if_neg hzero]
    by_cases hstyle : spec.pagination.style = .CURSOR
    · obtain ⟨n, hn⟩ := Nat.exists_eq_succ_of_ne_zero hzero
      rw [hn] at hsend hreach
      exact .lost hstyle hs hreach hsend habsent
    · have hfollows : Follows spec send s.pages s.extraQuery [] :=
        .absent hsend habsent (Or.inr hstyle)
      exact .ended hfollows (Nat.pos_of_ne_zero hzero) (List.append_nil _).symm hs

theorem stopped_page {s' : PageState} (hpaged : spec.pagination.style ≠ .NONE)
    (hsend : send s.pages s.extraQuery = .ok r) (hr : Success spec r)
    (hnext : nextQuery spec.pagination s.extraQuery r.jsonBody = none)
    (hcollected : s'.collected = (fetched spec.pagination s r.jsonBody).collected)
    (hs : s'.truncated = false) : Stopped spec send s (.ok (some s')) := by
  refine .ended (.last hsend hr hnext) (Nat.succ_pos _) ?_ hs
  rw [hcollected, collected_fetched hpaged, List.flatMap_singleton]

theorem stopped_next {outcome : Except ConnectorError (Option PageState)}
    (hpaged : spec.pagination.style ≠ .NONE)
    (hsend : send s.pages s.extraQuery = .ok r) (hr : Success spec r)
    (hnext : nextQuery spec.pagination s.extraQuery r.jsonBody = some query)
    (h : Stopped spec send { fetched spec.pagination s r.jsonBody with extraQuery := query } outcome) :
    Stopped spec send s outcome := by
  cases h with
  | raised => exact .raised
  | absent hfollows => exact .absent hfollows
  | capped htruncated => exact .capped htruncated
  | ended hfollows _ hcollected htruncated =>
      refine .ended (.next hsend hr hnext hfollows) (Nat.succ_pos _) ?_ htruncated
      rw [hcollected, collected_fetched hpaged, List.flatMap_cons, List.append_assoc]
  | lost hstyle htruncated hreach hlost habsent =>
      exact .lost hstyle htruncated hreach hlost habsent

theorem loop_stops (hpaged : spec.pagination.style ≠ .NONE)
    (hreach : Reaches spec send s.pages s.extraQuery s.firstBody) (hs : s.truncated = false)
    (hpages : s.pages < spec.pagination.maxPages)
    (hfirst : s.pages = 0 → s.extraQuery = firstQuery spec.pagination) :
    ∃ outcome, (∀ fuel, spec.pagination.maxPages ≤ s.pages + fuel →
      pageLoop spec send fuel s = some outcome) ∧ Stopped spec send s outcome := by
  generalize hleft : spec.pagination.maxPages - s.pages = left
  induction left generalizing s with
  | zero => omega
  | succ left ih =>
      have hfuel : ∀ {fuel outcome},
          (∀ fuel, pageLoop spec send (fuel + 1) s = some outcome) →
          spec.pagination.maxPages ≤ s.pages + fuel → pageLoop spec send fuel s = some outcome := by
        intro fuel outcome hloop hle
        obtain ⟨fuel, rfl⟩ : ∃ fuel', fuel = fuel' + 1 := ⟨fuel - 1, by omega⟩
        exact hloop fuel
      cases hsend : send s.pages s.extraQuery with
      | error e => exact ⟨_, fun _ => hfuel fun _ => pageLoop_error hsend, .raised⟩
      | ok r =>
          by_cases habsent : r.statusCode ∈ spec.response.notFoundStatuses
          · refine ⟨_, fun _ => hfuel fun _ => pageLoop_absent hsend habsent, ?_⟩
            exact stopped_absent hreach hs hfirst hsend habsent
          by_cases hstatus : 200 ≤ r.statusCode ∧ r.statusCode < 300
          swap
          · exact ⟨_, fun _ => hfuel fun _ => pageLoop_http hsend habsent hstatus, .raised⟩
          have hr : Success spec r := ⟨habsent, hstatus⟩
          by_cases hcap : spec.pagination.maxPages ≤ s.pages + 1
          · refine ⟨_, fun _ => hfuel fun _ => pageLoop_capped hpaged hsend hr hcap, ?_⟩
            cases hnext : nextQuery spec.pagination s.extraQuery r.jsonBody with
            | none => exact stopped_page hpaged hsend hr hnext rfl rfl
            | some query => exact .capped rfl
          · cases hnext : nextQuery spec.pagination s.extraQuery r.jsonBody with
            | none =>
                refine ⟨_, fun _ => hfuel fun _ =>
                  pageLoop_last hpaged hsend hr (Nat.lt_of_not_le hcap) hnext, ?_⟩
                exact stopped_page hpaged hsend hr hnext rfl hs
            | some query =>
                have hlt : s.pages + 1 < spec.pagination.maxPages := Nat.lt_of_not_le hcap
                have hreach' : Reaches spec send (s.pages + 1) query
                    (fetched spec.pagination s r.jsonBody).firstBody :=
                  .next hreach hsend hr hlt hnext
                have hleft' : spec.pagination.maxPages - (s.pages + 1) = left := by omega
                obtain ⟨outcome, hloop, hstopped⟩ :=
                  ih (s := { fetched spec.pagination s r.jsonBody with extraQuery := query }) hreach' hs hlt
                    (fun hzero => absurd hzero (Nat.succ_ne_zero _)) hleft'
                refine ⟨outcome, ?_, stopped_next hpaged hsend hr hnext hstopped⟩
                intro fuel hle
                obtain ⟨fuel, rfl⟩ : ∃ fuel', fuel = fuel' + 1 := ⟨fuel - 1, by omega⟩
                rw [pageLoop_next hpaged hsend hr hlt hnext]
                apply hloop
                have hpages : (fetched spec.pagination s r.jsonBody).pages = s.pages + 1 := rfl
                simp only [hpages]
                omega

theorem reaches_run (hpaged : spec.pagination.style ≠ .NONE)
    (h : Reaches spec send n query first) :
    ∃ s : PageState, s.pages = n ∧ s.extraQuery = query ∧ s.firstBody = first ∧
      s.truncated = false ∧ ∀ fuel, pageLoop spec send (fuel + n) (.initial spec.pagination) =
        pageLoop spec send fuel s := by
  induction h with
  | start => exact ⟨_, rfl, rfl, rfl, rfl, fun fuel => rfl⟩
  | @next n query query' first r _ hsend hr hcap hnext ih =>
      obtain ⟨s, rfl, rfl, rfl, hs, hloop⟩ := ih
      refine ⟨{ fetched spec.pagination s r.jsonBody with extraQuery := query' },
        rfl, rfl, rfl, hs, ?_⟩
      intro fuel
      have hshift : fuel + (s.pages + 1) = fuel + 1 + s.pages := by omega
      rw [hshift, hloop, pageLoop_next hpaged hsend hr hcap hnext]

theorem reaches_clash (h : Reaches spec send n query first) : clash spec = [] := by
  induction h with
  | start hclash => exact hclash
  | next _ _ _ _ _ ih => exact ih

theorem follows_reached (h : Reaches spec send n query first)
    (hfollows : Follows spec send 0 (firstQuery spec.pagination) bodies) :
    ∃ rest, Follows spec send n query rest := by
  induction h with
  | start => exact ⟨bodies, hfollows⟩
  | next _ hsend hr _ hnext ih =>
      obtain ⟨rest, hrest⟩ := ih
      cases hrest with
      | absent hsend' habsent _ =>
          rw [hsend] at hsend'
          cases hsend'
          exact absurd habsent hr.1
      | last hsend' _ hlast =>
          rw [hsend] at hsend'
          cases hsend'
          rw [hnext] at hlast
          cases hlast
      | next hsend' _ hnext' hrest' =>
          rw [hsend] at hsend'
          cases hsend'
          rw [hnext] at hnext'
          cases hnext'
          exact ⟨_, hrest'⟩

end Runs

section Marker
variable {output : Dict} {key : String} {xs : List Json}

theorem marked_set : Marked (output.set key (.arr xs)) ↔ key ≠ "_pagination" ∧ Marked output := by
  unfold Marked
  by_cases hkey : key = "_pagination"
  · subst hkey
    simp
  · have hget : (output.set key (.arr xs)).get? "_pagination" = output.get? "_pagination" :=
      OrderedDict.get?_set_ne output (.arr xs) fun heq => hkey heq.symm
    simp only [hget, ne_eq, hkey, not_false_eq_true, true_and]

theorem marked_markTruncated {output' : Dict} (h : markTruncated output = .ok output') :
    Marked output' := by
  unfold markTruncated at h
  split at h
  · cases h
    exact ⟨_, OrderedDict.get?_set_self _ _ _, rfl⟩
  · cases h
    exact ⟨_, OrderedDict.get?_set_self _ _ _, OrderedDict.find_put_self⟩
  · cases h

theorem mapOutput_paged (hpaged : spec.pagination.style ≠ .NONE) :
    mapOutput spec s = if s.truncated then
        markTruncated ((apply spec.response s.firstBody).set spec.pagination.itemsKey
          (.arr s.collected))
      else .ok ((apply spec.response s.firstBody).set spec.pagination.itemsKey
        (.arr s.collected)) := if_neg hpaged

end Marker

section Exact

theorem run_of_loop {outcome : Except ConnectorError (Option PageState)} (hclash : clash spec = [])
    (h : pageLoop spec send fuel (.initial spec.pagination) = some outcome) :
    run spec send fuel = some (outputOf spec outcome) := by
  unfold run
  rw [if_neg (not_not_intro hclash), h]
  rfl

theorem served_of_complete (hpaged : spec.pagination.style ≠ .NONE)
    (h : PaginationComplete spec send) : CursorsServed spec send := by
  intro hstyle n query first r hreach hsend habsent
  obtain ⟨-, outcome, ⟨bound, hrun⟩, hcomplete⟩ := h
  obtain ⟨s, hpages, rfl, rfl, hs, hloop⟩ := reaches_run hpaged hreach
  have hclash : clash spec = [] := reaches_clash hreach
  have hstop : pageLoop spec send (bound + 1 + (n + 1)) (.initial spec.pagination) =
      some (.ok (some s)) := by
    rw [hloop, pageLoop_absent (hpages ▸ hsend) habsent, hpages]
    rfl
  have hout := run_of_loop hclash hstop
  rw [hrun _ (by omega)] at hout
  simp only [outputOf, mapOutput_paged hpaged, hs] at hout
  by_contra hunmarked
  obtain ⟨bodies, hfollows, -⟩ := hcomplete _ (Option.some.inj hout)
    (fun hmarked => hunmarked (marked_set.mp hmarked))
  obtain ⟨rest, hrest⟩ := follows_reached hreach hfollows
  cases hrest with
  | absent _ _ hor => exact hor.elim (Nat.succ_ne_zero n) (fun hne => hne hstyle)
  | last hsend' hr _ =>
      rw [hsend] at hsend'
      cases hsend'
      exact hr.1 habsent
  | next hsend' hr _ _ =>
      rw [hsend] at hsend'
      cases hsend'
      exact hr.1 habsent

theorem complete_of_served (hpaged : spec.pagination.style ≠ .NONE)
    (h : CursorsServed spec send) : PaginationComplete spec send := by
  refine ⟨calls_within spec send, ?_⟩
  by_cases hclash : clash spec = []
  swap
  · refine ⟨_, ⟨0, fun fuel _ => if_pos hclash⟩, ?_⟩
    intro output hout
    cases hout
  have hreach : Reaches spec send 0 (firstQuery spec.pagination) .null := .start hclash
  obtain ⟨outcome, hloop, hstopped⟩ := loop_stops (s := .initial spec.pagination) hpaged hreach rfl
    spec.pagination.maxPages_pos fun _ => rfl
  refine ⟨_, ⟨spec.pagination.maxPages, fun fuel hle => run_of_loop hclash (hloop fuel ?_)⟩, ?_⟩
  · rw [PageState.initial, Nat.zero_add]
    exact hle
  intro output hout hunmarked
  cases hstopped with
  | raised => cases hout
  | absent hfollows =>
      cases hout
      exact ⟨[], hfollows, fun _ => rfl, fun hne => absurd rfl hne⟩
  | capped htruncated =>
      simp only [outputOf, mapOutput_paged hpaged, htruncated] at hout
      exact absurd (marked_markTruncated hout) hunmarked
  | @ended s' bodies hfollows hpages hcollected htruncated =>
      simp only [outputOf, mapOutput_paged hpaged, htruncated] at hout
      cases hout
      refine ⟨bodies, hfollows, ?_, ?_⟩
      · rintro rfl
        exact absurd hpages (Nat.lt_irrefl 0)
      · intro _
        rw [OrderedDict.get?_set_self, hcollected]
        rfl
  | lost hstyle htruncated hreach' hsend habsent =>
      simp only [outputOf, mapOutput_paged hpaged, htruncated] at hout
      cases hout
      exact absurd (marked_set.mpr (h hstyle _ _ _ _ hreach' hsend habsent)) hunmarked

def cursorSpec : RoutingSpec where
  queryParams := []
  pagination :=
    { style := .CURSOR, itemsPath := some "data", itemsKey := "items", cursorParam := some "cursor"
      cursorPath := some "meta.cursor", pageParam := none, offsetParam := none, limitParam := none
      pageSize := none, startPage := 1, maxPages := 10, maxPages_pos := by decide }
  response :=
    { root := none, fields := .empty, constants := OrderedDict.empty.set "ok" (.bool true)
      notFoundStatuses := [404], notFoundOutput := .empty }

def expiringServer : Server
  | 0, _ => .ok ⟨200, .obj [("data", .arr [.int 1]), ("meta", .obj [("cursor", .str "c1")])]⟩
  | _, _ => .ok ⟨404, .null⟩

end Exact

end Declarative

end BTagent
