import Coroserver.Redfish.Proxy

/-! A forwarded request has the method, the target and the body of the one that
came in, but only the fields that the client sets by itself. Requests follow
each other by way of a refreshed token unless an answer is lost, and a response
keeps its status if that has a name. -/

namespace Coroserver.Redfish

open List

def Excluded (field : Field) : Prop :=
  sameName field.1 "Host" ∨ sameName field.1 "Authorization" ∨ sameName field.1 "X-Auth-Token"
deriving Decidable

def Carries (fields : List Field) (field : Field) : Prop :=
  ∃ other ∈ fields, sameName other.1 field.1 ∧ other.2 = field.2
deriving Decidable

structure Copies (req request : HttpRequest) : Prop where
  method : request.method = req.method
  target : request.target = req.target
  body : request.body = req.body
  fields : ∀ field ∈ req.fields, ¬ Excluded field → Carries request.fields field

def Exchange.isSent : Exchange → Bool
  | .sent _ => true
  | .answered _ | .refreshed => false

def renewed (before : List Exchange) : Bool :=
  match before.reverse with
  | .refreshed :: .answered response :: _ => response.status == unauthorized
  | _ => false

def Spaced (exchanges : List Exchange) : Prop :=
  ∀ before request after, exchanges = before ++ .sent request :: after →
    before = [] ∨ renewed before = true

structure Forwards (req : HttpRequest) (exchanges : List Exchange) (response : ProxyResponse) :
    Prop where
  copied : ∀ request, .sent request ∈ exchanges → Copies req request
  few : exchanges.countP Exchange.isSent ≤ 3
  spaced : Spaced exchanges
  returned : ∀ answer, .answered answer ∈ exchanges → answer.status ≠ unauthorized →
    response.status = answer.status ∧ response.body = .forwarded answer.body

def HttpRequest.announces (req : HttpRequest) : Prop :=
  0 < req.body.length ∨ req.method ∈ [Verb.options, .put, .post]
deriving Decidable

def SetByClient (req : HttpRequest) (field : Field) : Prop :=
  sameName field.1 "Content-Type" ∧ field.2 = "application/json" ∨
    sameName field.1 "Content-Length" ∧ field.2 = toString req.body.length ∧ req.announces

def HttpRequest.Sendable (req : HttpRequest) : Prop :=
  req.method ≠ .unknown ∧ ¬ (req.method = .trace ∧ 0 < req.body.length)
deriving Decidable

def Attempt.reaches : Attempt → Bool
  | .receiveFailed _ | .answered _ => true
  | .acquireFailed _ | .sendFailed _ => false

/-- The answer to a request is lost, and another attempt is made that reaches
the target. -/
def repeated : List Attempt → Bool
  | [] => false
  | .acquireFailed _ :: rest | .sendFailed _ :: rest => repeated rest
  | .receiveFailed _ :: rest => rest.any Attempt.reaches
  | .answered _ :: _ => false

def firstAnswer : List Attempt → Option HttpResponse
  | [] => none
  | .answered response :: _ => some response
  | .acquireFailed _ :: rest | .sendFailed _ :: rest | .receiveFailed _ :: rest =>
    firstAnswer rest

/-- In the rounds that are made no request is repeated for a lost answer, and
the status of the last answer has a name. -/
def OneByOne (statuses : StatusTable) : Nat → List Round → Prop
  | 0, _ | _ + 1, [] => True
  | left + 1, round :: rest =>
    repeated (round.attempts.take maxTries) = false ∧
      match firstAnswer (round.attempts.take maxTries), round.refresh with
      | none, _ => True
      | some answer, .refreshed _ =>
        if answer.status = unauthorized then OneByOne statuses left rest
        else statuses.intToStatus answer.status = answer.status
      | some answer, _ =>
        answer.status ≠ unauthorized → statuses.intToStatus answer.status = answer.status

def reachesTarget (upstream : List Round) : Bool :=
  upstream.head?.any fun round => (round.attempts.take maxTries).any Attempt.reaches

structure ForwardsWhen (statuses : StatusTable) (req : HttpRequest) (upstream : List Round) :
    Prop where
  fields : reachesTarget upstream = true → ∀ field ∈ req.fields, Excluded field ∨
    SetByClient req field
  oneByOne : OneByOne statuses 3 upstream

/-! ## Requests -/

section Built

variable {req request : HttpRequest} {host token : String}

theorem sameName_comm (left right : String) : sameName left right = sameName right left :=
  Bool.eq_iff_iff.mpr (by simp only [sameName, beq_iff_eq]; exact eq_comm)

private theorem clientNames_ne : sameName "Host" "Content-Type" = false ∧
    sameName "Host" "X-Auth-Token" = false ∧ sameName "Content-Type" "X-Auth-Token" = false ∧
    sameName "Host" "Content-Length" = false ∧ sameName "Content-Type" "Content-Length" = false ∧
    sameName "X-Auth-Token" "Content-Length" = false := by
  decide +kernel

theorem buildRequest_eq (req : HttpRequest) (host token : String) :
    buildRequest req.method req.target host (clientHeaders token) req.body =
      if req.method = .unknown then .error "unknown method"
      else if req.method = .trace ∧ 0 < req.body.length then .error "invalid request body"
      else .ok { req with
        fields := [("Host", host), ("Content-Type", "application/json"), ("X-Auth-Token", token)] ++
          if req.announces then [("Content-Length", toString req.body.length)] else [] } := by
  obtain ⟨hostType, hostToken, typeToken, hostLength, typeLength, tokenLength⟩ := clientNames_ne
  have fields : (clientHeaders token).foldl setField (setField [] ("Host", host)) =
      [("Host", host), ("Content-Type", "application/json"), ("X-Auth-Token", token)] := by
    simp [clientHeaders, setField, hostType, hostToken, typeToken]
  simp only [buildRequest, fields, HttpRequest.preparePayload]
  by_cases unknown : req.method = .unknown
  · rw [if_pos unknown, if_pos unknown]
  · rw [if_neg unknown, if_neg unknown]
    by_cases traced : req.method = .trace ∧ 0 < req.body.length
    · simp [if_pos traced]
    · by_cases announced : req.announces
      · have size : 0 < req.body.length ∨ req.method ∈ [Verb.options, .put, .post] := announced
        simp only [if_neg traced, if_pos size, if_pos announced]
        simp [setField, hostLength, typeLength, tokenLength]
      · have size : ¬ (0 < req.body.length ∨ req.method ∈ [Verb.options, .put, .post]) := announced
        simp only [if_neg traced, if_neg size, if_neg announced, append_nil]

theorem buildRequest_of_sendable (sendable : req.Sendable) (host token : String) :
    buildRequest req.method req.target host (clientHeaders token) req.body =
      .ok { req with
        fields := [("Host", host), ("Content-Type", "application/json"), ("X-Auth-Token", token)] ++
          if req.announces then [("Content-Length", toString req.body.length)] else [] } := by
  rw [buildRequest_eq, if_neg sendable.1, if_neg sendable.2]

theorem exists_buildRequest_error (refused : ¬ req.Sendable) (host token : String) :
    ∃ what, buildRequest req.method req.target host (clientHeaders token) req.body =
      .error what := by
  rw [buildRequest_eq]
  by_cases unknown : req.method = .unknown
  · exact ⟨_, if_pos unknown⟩
  · rw [if_neg unknown, if_pos (Decidable.not_not.mp (fun other => refused ⟨unknown, other⟩))]
    exact ⟨_, rfl⟩

theorem sendable_of_built (built : buildRequest req.method req.target host (clientHeaders token)
      req.body = .ok request) : req.Sendable := by
  by_contra refused
  obtain ⟨what, error⟩ := exists_buildRequest_error refused host token
  rw [built] at error
  cases error

private theorem carries_iff {field : Field} (included : ¬ Excluded field)
    (built : buildRequest req.method req.target host (clientHeaders token) req.body =
      .ok request) : Carries request.fields field ↔ SetByClient req field := by
  rw [buildRequest_of_sendable (sendable_of_built built)] at built
  obtain rfl := Except.ok.inj built
  obtain ⟨notHost, -, notToken⟩ := not_or.mp included |>.imp_right not_or.mp
  rw [sameName_comm] at notHost notToken
  simp only [Carries, SetByClient, sameName_comm field.1]
  by_cases announced : req.announces
  · simp [announced, notHost, notToken, @eq_comm _ _ field.2]
  · simp [announced, notHost, notToken, @eq_comm _ _ field.2]

theorem copies_iff (built : buildRequest req.method req.target host (clientHeaders token)
      req.body = .ok request) :
    Copies req request ↔ ∀ field ∈ req.fields, Excluded field ∨ SetByClient req field := by
  constructor
  · intro copies field member
    by_cases excluded : Excluded field
    · exact .inl excluded
    · exact .inr ((carries_iff excluded built).mp (copies.fields field member excluded))
  · intro covered
    have carried : ∀ field ∈ req.fields, ¬ Excluded field → Carries request.fields field :=
      fun field member included =>
        (carries_iff included built).mpr ((covered field member).resolve_left included)
    rw [buildRequest_of_sendable (sendable_of_built built)] at built
    obtain rfl := Except.ok.inj built
    exact ⟨rfl, rfl, rfl, carried⟩

end Built

/-! ## Attempts -/

section Attempts

variable {request : HttpRequest} {attempts : List Attempt} {answer : HttpResponse}

def attemptsLog (request : HttpRequest) : List Attempt → List Exchange
  | [] => []
  | .acquireFailed _ :: rest | .sendFailed _ :: rest => attemptsLog request rest
  | .receiveFailed _ :: rest => .sent request :: attemptsLog request rest
  | .answered response :: _ => [.sent request, .answered response]

theorem executeAttempts_eq (request : HttpRequest) (left : Nat) (lastEc : String)
    (attempts : List Attempt) :
    ∃ message, executeAttempts request left lastEc attempts =
      (attemptsLog request (attempts.take left),
        match firstAnswer (attempts.take left) with
        | some response => .ok response
        | none => .error message) := by
  induction left generalizing lastEc attempts with
  | zero => exact ⟨lastEc, rfl⟩
  | succ left ih =>
    cases attempts with
    | nil => exact ⟨_, rfl⟩
    | cons attempt rest =>
      cases attempt with
      | acquireFailed message | sendFailed message => exact ih message rest
      | receiveFailed message =>
        obtain ⟨last, result⟩ := ih message rest
        refine ⟨last, ?_⟩
        simp [executeAttempts, result, attemptsLog, firstAnswer]
      | answered => exact ⟨"", rfl⟩

def sends : List Attempt → Nat
  | [] => 0
  | .acquireFailed _ :: rest | .sendFailed _ :: rest => sends rest
  | .receiveFailed _ :: rest => sends rest + 1
  | .answered _ :: _ => 1

theorem attemptsLog_eq (request : HttpRequest) (attempts : List Attempt) :
    attemptsLog request attempts = replicate (sends attempts) (.sent request) ++
      (firstAnswer attempts).toList.map .answered := by
  induction attempts with
  | nil => rfl
  | cons attempt rest ih =>
    cases attempt with
    | acquireFailed | sendFailed => exact ih
    | receiveFailed => exact congrArg _ ih
    | answered => rfl

theorem any_reaches_iff : attempts.any Attempt.reaches = true ↔ 0 < sends attempts := by
  induction attempts with
  | nil => simp [sends]
  | cons attempt => cases attempt <;> simp_all [sends, Attempt.reaches]

theorem repeated_iff : repeated attempts = true ↔ 1 < sends attempts := by
  induction attempts with
  | nil => simp [repeated, sends]
  | cons attempt rest ih =>
    cases attempt with
    | acquireFailed | sendFailed => exact ih
    | receiveFailed => exact any_reaches_iff.trans Nat.succ_lt_succ_iff.symm
    | answered => simp [repeated, sends]

theorem sends_pos (answered : firstAnswer attempts = some answer) : 0 < sends attempts := by
  induction attempts with
  | nil => cases answered
  | cons attempt => cases attempt <;> simp_all [firstAnswer, sends]

theorem sent_mem_attemptsLog_iff {other : HttpRequest} :
    .sent other ∈ attemptsLog request attempts ↔ 0 < sends attempts ∧ other = request := by
  simp [attemptsLog_eq, mem_replicate, Nat.pos_iff_ne_zero]

theorem answered_mem_attemptsLog_iff :
    .answered answer ∈ attemptsLog request attempts ↔ firstAnswer attempts = some answer := by
  simp [attemptsLog_eq, mem_replicate]

theorem sends_le (once : repeated attempts = false) : sends attempts ≤ 1 := by
  rw [← Nat.not_lt, ← repeated_iff, once]
  exact Bool.false_ne_true

end Attempts

section Spacing

variable {exchanges later : List Exchange} {request : HttpRequest} {answer : HttpResponse}

theorem spaced_of_tail (single : ∀ request, .sent request ∉ exchanges.tail) : Spaced exchanges := by
  intro before request after shape
  cases before with
  | nil => exact .inl rfl
  | cons =>
    rw [shape] at single
    exact absurd (by simp) (single request)

private theorem not_spaced_of_repeated (first second : HttpRequest) :
    ¬ Spaced (.sent first :: .sent second :: later) := by
  intro spaced
  obtain empty | renews := spaced [.sent first] second later rfl
  · cases empty
  · cases renews

theorem not_spaced_attemptsLog {attempts : List Attempt} (again : repeated attempts = true)
    (request : HttpRequest) (later : List Exchange) :
    ¬ Spaced (attemptsLog request attempts ++ later) := by
  obtain ⟨more, count⟩ := Nat.exists_eq_add_of_le' (repeated_iff.mp again)
  rw [attemptsLog_eq, count]
  exact not_spaced_of_repeated request request

theorem renewed_append (earlier : List Exchange) {before : List Exchange} (nonempty : before ≠ []) :
    renewed (earlier ++ .refreshed :: before) = renewed before := by
  have reversed : (earlier ++ .refreshed :: before).reverse =
      before.reverse ++ .refreshed :: earlier.reverse := by simp
  rw [renewed, renewed, reversed]
  match shape : before.reverse with
  | [] => exact absurd (reverse_eq_nil_iff.mp shape) nonempty
  | [.refreshed] | [.answered _] | [.sent _] => rfl
  | last :: previous :: _ => cases last <;> cases previous <;> rfl

theorem spaced_renewed_iff (status : answer.status = unauthorized) :
    Spaced ([.sent request, .answered answer] ++ .refreshed :: later) ↔ Spaced later := by
  constructor
  · rintro spaced before other after rfl
    obtain empty | renews := spaced ([.sent request, .answered answer] ++ .refreshed :: before)
      other after (by simp)
    · cases empty
    · by_cases first : before = []
      · exact .inl first
      · exact .inr (renewed_append _ first ▸ renews)
  · intro spaced before other after shape
    match before, shape with
    | [], _ => exact .inl rfl
    | [_], shape | [_, _], shape => cases shape
    | _ :: _ :: _ :: before, shape =>
      cases shape
      refine .inr ?_
      by_cases first : before = []
      · subst first
        exact beq_iff_eq.mpr status
      · obtain empty | renews := spaced before other after rfl
        · exact absurd empty first
        · exact (renewed_append [.sent request, .answered answer] first).trans renews

end Spacing

/-! ## Rounds -/

section Rounds

variable {statuses : StatusTable} {req : HttpRequest} {host : String}

theorem StatusTable.intToStatus_eq_unauthorized_iff (statuses : StatusTable) (status : Nat) :
    statuses.intToStatus status = unauthorized ↔ status = unauthorized := by
  constructor
  · intro same
    rw [intToStatus] at same
    split at same
    · exact same
    · cases same
  · rintro rfl
    exact if_pos (statuses.knownErrors unauthorized rfl)

def Built (req : HttpRequest) (host : String) (request : HttpRequest) : Prop :=
  ∃ token, buildRequest req.method req.target host (clientHeaders token) req.body = .ok request

inductive Traced (req : HttpRequest) (host : String) :
    Nat → List Round → List Exchange → Executed → Prop where
  | exhausted {rounds message} :
      Traced req host 0 rounds [] (.failed message)
  | missing {left message} :
      Traced req host (left + 1) [] [] (.failed message)
  | unanswered {left round rest request message} :
      Built req host request → firstAnswer (round.attempts.take maxTries) = none →
      Traced req host (left + 1) (round :: rest)
        (attemptsLog request (round.attempts.take maxTries)) (.failed message)
  | passed {left round rest request answer} :
      Built req host request → firstAnswer (round.attempts.take maxTries) = some answer →
      answer.status ≠ unauthorized →
      Traced req host (left + 1) (round :: rest)
        (attemptsLog request (round.attempts.take maxTries)) (.response answer)
  | denied {left round rest request answer result} :
      Built req host request → firstAnswer (round.attempts.take maxTries) = some answer →
      answer.status = unauthorized → (∀ token, round.refresh ≠ .refreshed token) →
      Traced req host (left + 1) (round :: rest)
        (attemptsLog request (round.attempts.take maxTries)) result
  | renewed {left round rest request answer token later result} :
      Built req host request → firstAnswer (round.attempts.take maxTries) = some answer →
      answer.status = unauthorized → round.refresh = .refreshed token →
      Traced req host left rest later result →
      Traced req host (left + 1) (round :: rest)
        (attemptsLog request (round.attempts.take maxTries) ++ .refreshed :: later) result

theorem traced_executeRounds (sendable : req.Sendable) (left : Nat) (token : String)
    (rounds : List Round) :
    Traced req host left rounds
      (executeRounds statuses host (prepareRequest req) left token rounds).1
      (executeRounds statuses host (prepareRequest req) left token rounds).2 := by
  induction left generalizing token rounds with
  | zero => exact .exhausted
  | succ left ih =>
    obtain ⟨request, building⟩ : ∃ request, buildRequest req.method req.target host
        (clientHeaders token) req.body = .ok request :=
      ⟨_, buildRequest_of_sendable sendable host token⟩
    have built : Built req host request := ⟨token, building⟩
    cases rounds with
    | nil =>
      simp only [executeRounds, prepareRequest, building, head?_nil, Option.getD_none]
      exact .missing
    | cons round rest =>
      simp only [executeRounds, prepareRequest, building, head?_cons, Option.getD_some,
        tail_cons]
      obtain ⟨_, attempted⟩ := executeAttempts_eq request maxTries "Success" round.attempts
      rw [attempted]
      cases answered : firstAnswer (round.attempts.take maxTries) with
      | none => exact .unanswered built answered
      | some answer =>
        simp only [statuses.intToStatus_eq_unauthorized_iff]
        by_cases status : answer.status = unauthorized
        · simp only [if_pos status]
          cases refresh : round.refresh with
          | failed | threw => exact .denied built answered status (by simp [refresh])
          | refreshed newToken =>
            exact .renewed built answered status refresh (ih newToken rest)
        · simp only [if_neg status]
          exact .passed built answered status

namespace Traced

variable {left : Nat} {rounds : List Round} {exchanges : List Exchange} {result : Executed}

theorem built (traced : Traced req host left rounds exchanges result) {request : HttpRequest}
    (member : .sent request ∈ exchanges) : Built req host request := by
  induction traced with
  | exhausted | missing => cases member
  | unanswered built | passed built | denied built =>
    exact (sent_mem_attemptsLog_iff.mp member).2 ▸ built
  | renewed built _ _ _ _ ih =>
    obtain first | later := mem_append.mp member
    · exact (sent_mem_attemptsLog_iff.mp first).2 ▸ built
    · exact ih (by simpa using later)

theorem result_eq (traced : Traced req host left rounds exchanges result)
    {answer : HttpResponse} (member : .answered answer ∈ exchanges)
    (other : answer.status ≠ unauthorized) : result = .response answer := by
  induction traced with
  | exhausted | missing => cases member
  | unanswered _ unanswered =>
    rw [answered_mem_attemptsLog_iff.mp member] at unanswered
    cases unanswered
  | passed _ answered =>
    rw [answered_mem_attemptsLog_iff.mp member] at answered
    rw [Option.some.inj answered]
  | denied _ answered status =>
    rw [answered_mem_attemptsLog_iff.mp member] at answered
    exact absurd (Option.some.inj answered ▸ status) other
  | renewed _ answered status _ _ ih =>
    obtain first | later := mem_append.mp member
    · rw [answered_mem_attemptsLog_iff.mp first] at answered
      exact absurd (Option.some.inj answered ▸ status) other
    · exact ih (by simpa using later)

theorem sent_iff (traced : Traced req host (left + 1) rounds exchanges result) :
    (∃ request, .sent request ∈ exchanges) ↔ reachesTarget rounds = true := by
  cases traced with
  | missing => simp [reachesTarget]
  | unanswered | passed | denied =>
    rw [reachesTarget, head?_cons, Option.any_some, any_reaches_iff]
    simp [sent_mem_attemptsLog_iff]
  | renewed _ answered =>
    have reached := sends_pos answered
    refine iff_of_true ⟨_, mem_append_left _ (sent_mem_attemptsLog_iff.mpr ⟨reached, rfl⟩)⟩ ?_
    exact any_reaches_iff.mpr reached

end Traced

def Named (statuses : StatusTable) (exchanges : List Exchange) : Prop :=
  ∀ answer, .answered answer ∈ exchanges → answer.status ≠ unauthorized →
    statuses.intToStatus answer.status = answer.status

theorem spaced_attemptsLog_iff (request : HttpRequest) (attempts : List Attempt) :
    Spaced (attemptsLog request attempts) ∧ Named statuses (attemptsLog request attempts) ↔
      repeated attempts = false ∧ ∀ answer, firstAnswer attempts = some answer →
        answer.status ≠ unauthorized → statuses.intToStatus answer.status = answer.status := by
  cases again : repeated attempts with
  | true =>
    have mixed := not_spaced_attemptsLog again request []
    rw [append_nil] at mixed
    simp [mixed]
  | false =>
    have spaced : Spaced (attemptsLog request attempts) := by
      refine spaced_of_tail fun other => ?_
      rw [attemptsLog_eq]
      obtain none | one := Nat.le_one_iff_eq_zero_or_eq_one.mp (sends_le again)
      · cases firstAnswer attempts <;> simp [none]
      · simp [one]
    simp [spaced, Named, answered_mem_attemptsLog_iff]

namespace Traced

variable {left : Nat} {rounds : List Round} {exchanges : List Exchange} {result : Executed}

theorem spaced_iff (traced : Traced req host left rounds exchanges result) :
    Spaced exchanges ∧ Named statuses exchanges ↔ OneByOne statuses left rounds := by
  have nothing : Spaced [] ∧ Named statuses [] :=
    ⟨spaced_of_tail (by simp), fun _ member => (by cases member)⟩
  induction traced with
  | exhausted | missing => exact ⟨fun _ => trivial, fun _ => nothing⟩
  | unanswered _ unanswered =>
    rw [spaced_attemptsLog_iff, OneByOne, unanswered]
    simp
  | @passed _ round _ _ _ _ answered other =>
    rw [spaced_attemptsLog_iff, OneByOne, answered]
    cases round.refresh <;> simp [other]
  | @denied _ round _ _ _ _ _ answered status denied =>
    rw [spaced_attemptsLog_iff, OneByOne, answered]
    cases refresh : round.refresh with
    | refreshed token => exact absurd refresh (denied token)
    | failed | threw => simp [status]
  | @renewed _ round _ request answer _ later _ _ answered status refresh _ ih =>
    rw [OneByOne, answered, refresh]
    simp only [if_pos status, ← ih]
    cases again : repeated (round.attempts.take maxTries) with
    | true => simp [not_spaced_attemptsLog again]
    | false =>
      have shape := attemptsLog_eq request (round.attempts.take maxTries)
      rw [Nat.le_antisymm (sends_le again) (sends_pos answered), answered] at shape
      have named : Named statuses ([.sent request, .answered answer] ++ .refreshed :: later) ↔
            Named statuses later := by
        simp [Named, status]
      rw [shape]
      exact (and_congr (spaced_renewed_iff status) named).trans (by simp)

theorem countP_le (traced : Traced req host left rounds exchanges result)
    (oneByOne : OneByOne statuses left rounds) : exchanges.countP Exchange.isSent ≤ left := by
  have single : ∀ {request : HttpRequest} {attempts : List Attempt}, repeated attempts = false →
        (attemptsLog request attempts).countP Exchange.isSent ≤ 1 := by
    intro _ _ once
    rw [attemptsLog_eq, countP_append, countP_replicate, countP_map]
    simpa [Exchange.isSent, Function.comp_def] using sends_le once
  induction traced with
  | exhausted => exact Nat.le_refl _
  | missing => exact Nat.zero_le _
  | unanswered | passed | denied =>
    exact Nat.le_trans (single oneByOne.1) (Nat.le_add_left 1 _)
  | @renewed _ _ _ request _ _ _ _ _ answered status refresh _ ih =>
    obtain ⟨once, others⟩ := oneByOne
    simp only [answered, refresh, if_pos status] at others
    rw [countP_append, countP_cons]
    have first := @single request _ once
    have later := ih others
    simp only [Exchange.isSent, Bool.false_eq_true, if_false]
    omega

end Traced

end Rounds

def ProxyState.ready (client : RedfishClient) (host : String) : ProxyState where
  client := some client
  host
  configured := true

theorem forwardResponse_eq (statuses : StatusTable) (response : HttpResponse) :
    (forwardResponse statuses response).status = statuses.intToStatus response.status ∧
      (forwardResponse statuses response).body = .forwarded response.body := by
  have allowed : ¬ (bodiless (statuses.intToStatus response.status) = true ∧
      response.body ≠ []) := by
    rintro ⟨without, nonempty⟩
    refine nonempty (response.bodyAllowed ?_)
    rw [StatusTable.intToStatus] at without
    split at without
    · exact without
    · cases without
  rw [forwardResponse]
  simp [if_neg allowed]

/-! ## The proxy -/

section Proxy

variable {statuses : StatusTable} {client : RedfishClient} {host : String} {req : HttpRequest}
  {upstream : List Round}

theorem handleProxyRequest_exchanges :
    (handleProxyRequest statuses (.ready client host) req upstream).1 =
      (executeRounds statuses host (prepareRequest req) 3 client.token upstream).1 := by
  simp only [handleProxyRequest, ProxyState.ready]
  generalize executeRounds statuses host (prepareRequest req) 3 client.token upstream = executed
  obtain ⟨_, result⟩ := executed
  cases result <;> rfl

theorem handleProxyRequest_response {answer : HttpResponse}
    (answered : (executeRounds statuses host (prepareRequest req) 3 client.token upstream).2 =
      .response answer) :
    (handleProxyRequest statuses (.ready client host) req upstream).2 =
      forwardResponse statuses answer := by
  simp only [handleProxyRequest, ProxyState.ready]
  generalize executeRounds statuses host (prepareRequest req) 3 client.token upstream = executed
    at answered
  obtain ⟨_, result⟩ := executed
  obtain rfl : result = .response answer := answered
  rfl

private theorem executeRounds_of_not_sendable (refused : ¬ req.Sendable) (token : String) :
    (executeRounds statuses host (prepareRequest req) 3 token upstream).1 = [] := by
  obtain ⟨what, error⟩ := exists_buildRequest_error refused host token
  simp [executeRounds, prepareRequest, error]

/-- A request is forwarded faithfully exactly if Beast refuses it, or it has no
fields but those that the client sets by itself, no lost answer makes the client
repeat it, and the status of the response has a name. -/
theorem handleProxyRequest_forwards_iff (statuses : StatusTable) (client : RedfishClient)
    (host : String) (req : HttpRequest) (upstream : List Round) :
    Forwards req (handleProxyRequest statuses (.ready client host) req upstream).1
        (handleProxyRequest statuses (.ready client host) req upstream).2 ↔
      (req.Sendable → ForwardsWhen statuses req upstream) := by
  rw [handleProxyRequest_exchanges]
  by_cases sendable : req.Sendable
  · have traced := @traced_executeRounds statuses req host sendable 3 client.token upstream
    have passedOn : ∀ {answer : HttpResponse}, .answered answer ∈
          (executeRounds statuses host (prepareRequest req) 3 client.token upstream).1 →
        answer.status ≠ unauthorized →
        (handleProxyRequest statuses (.ready client host) req upstream).2.status =
            statuses.intToStatus answer.status ∧
          (handleProxyRequest statuses (.ready client host) req upstream).2.body =
            .forwarded answer.body := by
      intro answer member other
      rw [handleProxyRequest_response (traced.result_eq member other)]
      exact forwardResponse_eq statuses answer
    constructor
    · rintro ⟨copied, -, spaced, returned⟩ -
      refine ⟨fun reached => ?_, ?_⟩
      · obtain ⟨request, member⟩ := traced.sent_iff.mpr reached
        obtain ⟨token, building⟩ := traced.built member
        exact (copies_iff building).mp (copied request member)
      · refine traced.spaced_iff.mp ⟨spaced, fun answer member other => ?_⟩
        rw [← (passedOn member other).1]
        exact (returned answer member other).1
    · intro holds
      obtain ⟨fields, oneByOne⟩ := holds sendable
      obtain ⟨spaced, named⟩ := traced.spaced_iff.mpr oneByOne
      refine ⟨fun request member => ?_, traced.countP_le oneByOne, spaced, ?_⟩
      · obtain ⟨token, building⟩ := traced.built member
        exact (copies_iff building).mpr (fields (traced.sent_iff.mp ⟨request, member⟩))
      · intro answer member other
        obtain ⟨status, body⟩ := passedOn member other
        exact ⟨status.trans (named answer member other), body⟩
  · rw [executeRounds_of_not_sendable sendable]
    refine ⟨fun _ possible => absurd possible sendable, fun _ => ⟨?_, ?_, ?_, ?_⟩⟩
    · exact fun _ member => (by cases member)
    · exact Nat.zero_le _
    · exact spaced_of_tail (by simp)
    · exact fun _ member => (by cases member)

end Proxy

def beastStatuses : StatusTable where
  known := fun status => status ∈ [100, 101, 102, 103, 200, 201, 202, 203, 204, 205, 206, 207, 208,
    226, 300, 301, 302, 303, 304, 305, 307, 308, 400, 401, 402, 403, 404, 405, 406, 407, 408, 409,
    410, 411, 412, 413, 414, 415, 416, 417, 418, 421, 422, 423, 424, 425, 426, 428, 429, 431, 451,
    500, 501, 502, 503, 504, 505, 506, 507, 508, 510, 511]
  knownErrors := by
    intro status named
    rw [httpErrorToString.eq_def] at named
    split at named
    · rfl
    · rfl
    · rfl
    · cases named

/-- A precondition is not passed on, a POST whose answers are lost reaches the
target four times, and a status without a name becomes 0. -/
theorem forwards_unfaithfully :
    (∃ request, .sent request ∈ (handleProxyRequest beastStatuses (.ready {} "bmc")
        { method := .patch, target := [47], fields := [("If-Match", "1")], body := [123, 125] }
        [{ attempts := [.answered { status := 200, bodyAllowed := by decide }] }]).1 ∧
      ¬ Carries request.fields ("If-Match", "1")) ∧
    ((handleProxyRequest beastStatuses (.ready {} "bmc") { method := .post, target := [47] }
        [{ attempts := [.receiveFailed "End of file", .receiveFailed "End of file",
            .answered { status := 401, bodyAllowed := by decide }],
           refresh := .refreshed "token" },
          { attempts := [.answered { status := 200, bodyAllowed := by decide }] }]).1.countP
      Exchange.isSent = 4) ∧
    (handleProxyRequest beastStatuses (.ready {} "bmc") { method := .get, target := [47] }
      [{ attempts := [.answered { status := 299, bodyAllowed := by decide }] }]).2.status = 0 := by
  refine ⟨⟨_, mem_cons_self, ?_⟩, ?_, ?_⟩
  · decide +kernel
  · decide +kernel
  · decide +kernel

end Coroserver.Redfish
