import BTagent.Response.ContainmentExecute

namespace BTagent

namespace ContainmentExecute

inductive Request where
  | responseAction (req : ResponseActionRequest)
  | bulkBlock (req : BulkBlockRequest)

namespace Request

def approved : Request → Bool
  | responseAction req => req.approved
  | bulkBlock req => req.approved

def actorId : Request → String
  | responseAction req => req.actorId
  | bulkBlock req => req.actorId

def orgId : Request → String
  | responseAction req => req.orgId
  | bulkBlock req => req.orgId

def action : Request → String
  | responseAction req => "execute:" ++ req.actionType
  | bulkBlock _ => "execute:block_ioc"

def resource : Request → String
  | responseAction req => "response_action:" ++ req.actionId
  | bulkBlock req => "mitigation_action:" ++ req.actionId

def target : Request → Dispatch
  | responseAction req => ⟨req.actionType, req.connector, req.target⟩
  | bulkBlock req => ⟨"block_ioc", req.tool, req.iocValue⟩

variable (T : CharTable) (S : Services) (rows : List ResponseSafelistRow)

def safelisted : Request → Bool
  | responseAction req => targetSafelisted T (loadPolicy T rows req.orgId) req.actionType req.target
  | bulkBlock req => iocSafelisted T (loadPolicy T rows req.orgId) req.iocType req.iocValue

def execute : Request → Execution
  | responseAction req => executeResponseAction T S rows req
  | bulkBlock req => executeBulkBlock T S rows req

def reply (req : Request) : Option (Except ToolError Response) :=
  if req.approved ∧ ¬ req.safelisted T rows then
    some (dispatch S req.target.actionType req.target.connector req.target.target)
  else none

def outcomeOf : Option (Except ToolError Response) → AuditOutcome
  | some (.ok toolResponse) => outcomeFor T toolResponse
  | some (.error _) => .DENIED
  | none => .DENIED

-- The row is about this request, its target and what came of it.
structure DescribedBy (req : Request) (row : AuditEntry) : Prop where
  actor : row.actor = req.actorId
  orgId : row.orgId = req.orgId
  action : row.action = req.action
  resource : row.resource = req.resource
  outcome : row.outcome = outcomeOf T (req.reply T S rows)
  target : ∃ d, row.details = some d ∧ (d.get? "target" = some (.str req.target.target) ∨
    d.get? "ioc_value" = some (.str req.target.target))

structure Audited (req : Request) : Prop where
  guarded : ∀ d ∈ (req.execute T S rows).dispatched,
    d = req.target ∧ req.approved = true ∧ req.safelisted T rows = false
  oneRow : ∃ row, (req.execute T S rows).rows = [row] ∧ req.DescribedBy T S rows row

def Escapes (req : Request) : Prop := ∃ message, req.reply T S rows = some (.error (.other message))

-- An approved isolation reaches a server, and the call raises something other than the two
-- refusals that the service knows.
def ToolRaises (req : Request) : Prop :=
  req.approved = true ∧ S.mockConnectors = true ∧ req.target.actionType = "isolate_host" ∧
    ∃ route, ISOLATION_ROUTES req.target.connector = some route ∧ ∃ message,
      S.guardDispatch route.method = .error (.other message) ∨
        (S.guardDispatch route.method = .ok () ∧
          S.call route req.target.target = .error (.other message))

end Request

variable {T : CharTable} {S : Services} {rows : List ResponseSafelistRow}

theorem screened_of_safelisted {policy : SafelistPolicy} {actionType target : String}
    (h : targetSafelisted T policy actionType target = true) :
    actionType ∈ SAFELIST_SCREENED_ACTION_TYPES := by
  simp only [targetSafelisted] at h
  split at h
  · next heq =>
      rw [heq]
      decide
  · split at h
    · next heq =>
        rw [heq]
        decide
    · split at h
      · next hmem => exact List.mem_append_right _ hmem
      · cases h

theorem dispatch_block_ioc {tool value : String} {e : ToolError}
    (h : dispatch S "block_ioc" tool value = .error e) :
    ∃ message, e = .liveDispatchDisabled message := by
  have hroute : ¬ "block_ioc" = "isolate_host" := by decide
  simp only [dispatch, if_neg hroute] at h
  split at h
  · exact ⟨_, (Except.error.inj h).symm⟩
  · cases h

section Rows

@[simp] theorem get?_set (r : Response) (k j : String) (v : Json)
    (hv : v.Throughout Json.DistinctKeys) :
    (r.set k v hv).fields.get? j = if j = k then some v else r.fields.get? j :=
  OrderedDict.get?_set _ _ _ _

@[simp] theorem get?_setText (r : Response) (k j v : String) :
    (r.setText k v).fields.get? j = if j = k then some (.str v) else r.fields.get? j :=
  OrderedDict.get?_set _ _ _ _

@[simp] theorem get?_setBool (r : Response) (k j : String) (b : Bool) :
    (r.setBool k b).fields.get? j = if j = k then some (.bool b) else r.fields.get? j :=
  OrderedDict.get?_set _ _ _ _

@[simp] theorem get?_setResponse (r v : Response) (k j : String) :
    (r.setResponse k v).fields.get? j =
      if j = k then some (.obj v.fields.entries) else r.fields.get? j :=
  OrderedDict.get?_set _ _ _ _

theorem denial_described {req : Request} {tool reason : String} {extra : Response → Response}
    {dispatched : List Dispatch} (hout : Request.outcomeOf T (req.reply T S rows) = .DENIED)
    (hextra : ∀ d, (extra d).fields.get? "target" = d.fields.get? "target") :
    ∃ row, (recordDenial S req.actorId req.orgId req.action req.resource req.target.target tool
      reason extra dispatched).rows = [row] ∧ req.DescribedBy T S rows row := by
  refine ⟨_, rfl, rfl, rfl, rfl, rfl, hout.symm, _, rfl, Or.inl ?_⟩
  simp [hextra]

end Rows

section Execute

-- What a call leaves behind, by what its tool call comes to.
structure Leaves (T : CharTable) (S : Services) (rows : List ResponseSafelistRow) (req : Request)
    (x : Execution) : Prop where
  refused : req.reply T S rows = none → x.dispatched = []
  dispatched : ∀ d ∈ x.dispatched, d = req.target
  escaped : req.Escapes T S rows → x.rows = []
  row : ¬ req.Escapes T S rows → ∃ row, x.rows = [row] ∧ req.DescribedBy T S rows row

theorem leaves_denial {req : Request} {tool reason : String} {extra : Response → Response}
    {dispatched : List Dispatch}
    (hout : Request.outcomeOf T (req.reply T S rows) = .DENIED)
    (hextra : ∀ d, (extra d).fields.get? "target" = d.fields.get? "target")
    (hesc : ¬ req.Escapes T S rows) (hnone : req.reply T S rows = none → dispatched = [])
    (htarget : ∀ d ∈ dispatched, d = req.target) :
    Leaves T S rows req (recordDenial S req.actorId req.orgId req.action req.resource
      req.target.target tool reason extra dispatched) where
  refused := hnone
  dispatched := htarget
  escaped h := absurd h hesc
  row _ := denial_described hout hextra

theorem reply_none {req : Request} (h : ¬ (req.approved = true ∧ ¬ req.safelisted T rows = true)) :
    req.reply T S rows = none := if_neg h

theorem reply_some {req : Request} (happroved : req.approved = true)
    (hsafe : ¬ req.safelisted T rows = true) : req.reply T S rows =
      some (dispatch S req.target.actionType req.target.connector req.target.target) :=
  if_pos ⟨happroved, hsafe⟩

theorem leaves_refused {req : Request} {tool reason : String} {extra : Response → Response}
    (h : req.reply T S rows = none)
    (hextra : ∀ d, (extra d).fields.get? "target" = d.fields.get? "target") :
    Leaves T S rows req (recordDenial S req.actorId req.orgId req.action req.resource
      req.target.target tool reason extra []) := by
  apply leaves_denial _ hextra
  · rintro ⟨message, hmessage⟩
    cases h.symm.trans hmessage
  · exact fun _ => rfl
  · exact fun d hd => absurd hd List.not_mem_nil
  · rw [h]
    rfl

theorem leaves_error {req : Request} {tool reason : String} {extra : Response → Response}
    {e : ToolError} (h : req.reply T S rows = some (.error e)) (he : ∀ message, e ≠ .other message)
    (hextra : ∀ d, (extra d).fields.get? "target" = d.fields.get? "target") :
    Leaves T S rows req (recordDenial S req.actorId req.orgId req.action req.resource
      req.target.target tool reason extra [req.target]) := by
  apply leaves_denial _ hextra
  · rintro ⟨message, hmessage⟩
    exact he message (Except.error.inj (Option.some.inj (h.symm.trans hmessage)))
  · intro hnone
    cases h.symm.trans hnone
  · exact fun d hd => List.mem_singleton.mp hd
  · rw [h]
    rfl

theorem leaves_escape {req : Request} {message : String} {x : Execution}
    (h : req.reply T S rows = some (.error (.other message))) (hrows : x.rows = [])
    (hdispatched : x.dispatched = [req.target]) : Leaves T S rows req x := by
  constructor
  · intro hnone
    cases h.symm.trans hnone
  · rw [hdispatched]
    exact fun d hd => List.mem_singleton.mp hd
  · exact fun _ => hrows
  · exact fun hesc => absurd ⟨message, h⟩ hesc

theorem leaves_response {req : Request} {toolResponse details : Response} {x : Execution}
    (h : req.reply T S rows = some (.ok toolResponse))
    (hrows : x.rows = [auditRow req.actorId req.orgId req.action req.resource
      (outcomeFor T toolResponse) details]) (hdispatched : x.dispatched = [req.target])
    (htarget : details.fields.get? "target" = some (.str req.target.target) ∨
      details.fields.get? "ioc_value" = some (.str req.target.target)) :
    Leaves T S rows req x := by
  constructor
  · intro hnone
    cases h.symm.trans hnone
  · rw [hdispatched]
    exact fun d hd => List.mem_singleton.mp hd
  · rintro ⟨message, hmessage⟩
    cases h.symm.trans hmessage
  · intro _
    refine ⟨_, hrows, rfl, rfl, rfl, rfl, ?_, _, rfl, htarget⟩
    rw [h]
    rfl

theorem leaves_responseAction (req : ResponseActionRequest) :
    Leaves T S rows (.responseAction req) (executeResponseAction T S rows req) := by
  simp only [executeResponseAction]
  split
  · next happroved => exact leaves_refused (reply_none fun h => happroved h.1) fun _ => rfl
  · next happroved =>
      split
      · next hlisted => exact leaves_refused (reply_none fun h => h.2 hlisted.2) fun _ => rfl
      · next hlisted =>
          have hsafe : ¬ Request.safelisted T rows (.responseAction req) = true :=
            fun h => hlisted ⟨screened_of_safelisted h, h⟩
          have hreply : Request.reply T S rows (.responseAction req) =
              some (dispatch S req.actionType req.connector req.target) :=
            reply_some (not_not.mp happroved) hsafe
          split
          · next heq =>
              rw [heq] at hreply
              exact leaves_error hreply (by simp) (by simp)
          · next heq =>
              rw [heq] at hreply
              exact leaves_error hreply (by simp) (by simp)
          · next heq =>
              rw [heq] at hreply
              exact leaves_escape hreply rfl rfl
          · next heq =>
              rw [heq] at hreply
              exact leaves_response hreply rfl rfl (Or.inl (by simp [Request.target]))

theorem leaves_bulkBlock (req : BulkBlockRequest) :
    Leaves T S rows (.bulkBlock req) (executeBulkBlock T S rows req) := by
  simp only [executeBulkBlock]
  split
  · next happroved =>
      exact leaves_refused (reply_none fun h => happroved h.1) (by simp)
  · next happroved =>
      split
      · next hlisted => exact leaves_refused (reply_none fun h => h.2 hlisted) (by simp)
      · next hlisted =>
          have hreply : Request.reply T S rows (.bulkBlock req) =
              some (dispatch S "block_ioc" req.tool req.iocValue) :=
            reply_some (not_not.mp happroved) hlisted
          split
          · next heq =>
              rw [heq] at hreply
              exact leaves_error hreply (by simp) (by simp)
          · next hnot heq =>
              obtain ⟨message, rfl⟩ := dispatch_block_ioc heq
              exact absurd rfl (hnot message)
          · next heq =>
              rw [heq] at hreply
              exact leaves_response hreply rfl rfl (Or.inr (by simp [Request.target]))

theorem leaves_execute (req : Request) : Leaves T S rows req (req.execute T S rows) := by
  cases req with
  | responseAction req => exact leaves_responseAction req
  | bulkBlock req => exact leaves_bulkBlock req

theorem dispatch_raises {actionType connector target message : String} :
    dispatch S actionType connector target = .error (.other message) ↔
      S.mockConnectors = true ∧ actionType = "isolate_host" ∧ ∃ route,
        ISOLATION_ROUTES connector = some route ∧
          (S.guardDispatch route.method = .error (.other message) ∨
            (S.guardDispatch route.method = .ok () ∧
              S.call route target = .error (.other message))) := by
  simp only [dispatch]
  split
  · next hmock => simp [hmock]
  · next hmock =>
      split
      · next route hroute =>
          split at hroute
          · next hisolate =>
              rw [hroute]
              cases hguard : S.guardDispatch route.method <;>
                simp_all [bind, Except.bind]
          · cases hroute
      · next hroute =>
          constructor
          · intro h
            cases h
          · rintro ⟨_, rfl, route, hsome, _⟩
            rw [if_pos rfl] at hroute
            cases hroute.symm.trans hsome

theorem isolation_not_safelisted {req : Request} (h : req.target.actionType = "isolate_host") :
    ¬ req.safelisted T rows = true := by
  cases req with
  | responseAction req =>
      intro hlisted
      have hmem := screened_of_safelisted hlisted
      rw [show req.actionType = "isolate_host" from h] at hmem
      revert hmem
      decide
  | bulkBlock req => exact absurd h (by simp [Request.target])

theorem escapes_iff (req : Request) : req.Escapes T S rows ↔ req.ToolRaises S := by
  constructor
  · rintro ⟨message, h⟩
    simp only [Request.reply] at h
    split at h
    · next hgate =>
        obtain ⟨hmock, hisolate, route, hroute, hraises⟩ :=
          dispatch_raises.mp (Option.some.inj h)
        exact ⟨hgate.1, hmock, hisolate, route, hroute, message, hraises⟩
    · cases h
  · rintro ⟨happroved, hmock, hisolate, route, hroute, message, hraises⟩
    refine ⟨message, ?_⟩
    rw [reply_some happroved (isolation_not_safelisted hisolate)]
    exact congrArg some (dispatch_raises.mpr ⟨hmock, hisolate, route, hroute, hraises⟩)

end Execute

theorem execute_audited_iff (T : CharTable) (S : Services) (rows : List ResponseSafelistRow)
    (req : Request) : req.Audited T S rows ↔ ¬ req.ToolRaises S := by
  have hleaves : Leaves T S rows req (req.execute T S rows) := leaves_execute req
  have hiff : req.Escapes T S rows ↔ req.ToolRaises S := escapes_iff req
  rw [← hiff]
  constructor
  · intro h hesc
    obtain ⟨row, hrow, _⟩ := h.oneRow
    cases (hleaves.escaped hesc).symm.trans hrow
  · intro hesc
    refine ⟨fun d hd => ?_, hleaves.row hesc⟩
    by_cases hgate : req.approved = true ∧ ¬ req.safelisted T rows = true
    · exact ⟨hleaves.dispatched d hd, hgate.1, Bool.not_eq_true _ ▸ hgate.2⟩
    · rw [hleaves.refused (reply_none hgate)] at hd
      cases hd

-- A server whose connection is lost, after the host may already have been isolated.
def lostConnection : Services where
  mockConnectors := true
  guardDispatch _ := .ok ()
  call _ _ := .error (.other "connection reset")
  createSecurityIncident _ := .ok none
  auditId := "aud_1"

def isolateHost : Request := .responseAction {
  actorId := "usr_1"
  orgId := "org_1"
  actionId := "act_1"
  actionType := "isolate_host"
  connector := "crowdstrike"
  target := "WKS-042"
  description := ""
  approved := true }

theorem isolation_unrecorded :
    (isolateHost.execute .ascii lostConnection []).dispatched =
        [⟨"isolate_host", "crowdstrike", "WKS-042"⟩] ∧
      (isolateHost.execute .ascii lostConnection []).rows = [] ∧
      ¬ isolateHost.Audited .ascii lostConnection [] := by
  have hreply : isolateHost.reply .ascii lostConnection [] =
      some (.error (.other "connection reset")) := rfl
  have hrows : (isolateHost.execute .ascii lostConnection []).rows = [] :=
    (leaves_execute isolateHost).escaped ⟨_, hreply⟩
  refine ⟨rfl, hrows, fun h => ?_⟩
  obtain ⟨row, hrow, _⟩ := h.oneRow
  cases hrows.symm.trans hrow

end ContainmentExecute

end BTagent
