/-
What a user who polls for a compute request is told.

# The way there and back

The request and the response come in any number of reads. The server hears
what the client said (`serve_within`), and the client what the server
answered (`readResponse_within`), so a poll comes to what the node knows of
the request then (`told`).

# By whom

The node is the requester of an exchange with any number of providers
(`Exchange`). What it knows at a poll is what the run up to there has made
of the request: an output is of an execution by the provider that the
request was submitted to, and a quote is that provider's.
-/
import StaticNet.Api.Client
import StaticNet.Api.Sessions
import StaticNet.Compute.Exchanged

namespace StaticNet.Api

open Exchange (AllFair Sound AnsweredBy)

variable {P : Prims} {rs : ErasureCode} {json : Json} {api : ApiJson}
  {texts : ApiTexts} {client : ClientJson} {token : Option String}
  {id : RequestId}

-- ============ a call

/-- A poll: the node and what else the server meets, what the server reads,
and the client's side of the connection. -/
structure Poll where
  node : ApiNode
  world : ApiWorld
  reads : List SocketRead
  line : Line

/-- The node's requests, as the poll finds them. -/
def Poll.look (poll : Poll) : Look := ⟨poll.node.compute, poll.world.later⟩

/-- The client reads these bytes, cut in some way, until the end. -/
def Receives (line : Line) (bytes : List UInt8) : Prop :=
  ∃ segs : List (List UInt8), (∀ seg ∈ segs, seg ≠ [])
    ∧ line.reads = segs.map .ok ++ [.ok []] ∧ segs.flatten = bytes

/-- The server reads these bytes, cut in some way, and then nothing. -/
def Hears (reads : List SocketRead) (bytes : List UInt8) : Prop :=
  ∃ segs rest, segs ≠ [] ∧ (∀ seg ∈ segs, seg ≠ []) ∧ Quiet rest
    ∧ reads = segs.map .data ++ rest ∧ segs.flatten = bytes

section Calls

variable (P : Prims) (rs : ErasureCode) (json : Json) (api : ApiJson)
  (texts : ApiTexts) (client : ClientJson) (token : Option String)

/-- Both sides of the connection hold, whatever the cuts. -/
structure Poll.Carried (request : ApiRequest) (poll : Poll) : Prop where
  connected : poll.line.connect = none
  written : poll.line.write = none
  heard : ∃ bytes, client.toVec request = .ok bytes
    ∧ Hears poll.reads bytes
  received : ∀ resp, (serve P rs json api texts token poll.reads poll.world
      poll.node).response = some resp →
    Receives poll.line (serializeResponse api resp)

end Calls

/-- A response is read to the end, unless it is too large. -/
theorem readResponse_within {segs : List (List UInt8)}
    (hsegs : ∀ seg ∈ segs, seg ≠ []) {buf : List UInt8}
    (hbuf : buf.length ≤ MAX_RESPONSE_BYTES) :
    readResponse buf (segs.map .ok ++ [.ok []])
      = if MAX_RESPONSE_BYTES < (buf ++ segs.flatten).length then
          .error .tooLarge
        else .ok (buf ++ segs.flatten) := by
  induction segs generalizing buf with
  | nil =>
      rw [List.flatten_nil, List.append_nil, if_neg (Nat.not_lt.2 hbuf)]
      rfl
  | cons seg segs ih =>
      obtain ⟨b, bytes, rfl⟩ :=
        List.exists_cons_of_ne_nil (hsegs seg List.mem_cons_self)
      have hall : buf ++ ((b :: bytes) :: segs).flatten
          = (buf ++ b :: bytes) ++ segs.flatten := by
        rw [List.flatten_cons, List.append_assoc]
      rw [hall, List.map_cons, List.cons_append, readResponse]
      by_cases hroom : MAX_RESPONSE_BYTES
          < buf.length + (b :: bytes).length
      · have hover : MAX_RESPONSE_BYTES
            < (buf ++ b :: bytes ++ segs.flatten).length := by
          rw [List.length_append, List.length_append]
          omega
        rw [if_pos hroom, if_pos hover]
      · rw [if_neg hroom]
        refine ih (fun s hs => hsegs s (List.mem_cons_of_mem _ hs)) ?_
        rw [List.length_append]
        exact Nat.not_lt.1 hroom

/-- What a response comes to when it is received. -/
def taken (api : ApiJson) (resp : ApiResponse) :
    Except CallError ApiResponse :=
  if MAX_RESPONSE_BYTES < (serializeResponse api resp).length then
    .error .tooLarge
  else .ok resp

/-- A call that gets through returns the response. -/
theorem sendApiRequest_receives {line : Line} {request : ApiRequest}
    {bytes : List UInt8} {resp : ApiResponse}
    (hconnect : line.connect = none) (hwrite : line.write = none)
    (hvec : client.toVec request = .ok bytes)
    (hreceives : Receives line (serializeResponse api resp))
    (hback : client.fromSlice (serializeResponse api resp) = .ok resp) :
    sendApiRequest client line request = taken api resp := by
  obtain ⟨segs, hsegs, hreads, hflat⟩ := hreceives
  have hread : readResponse [] (segs.map .ok ++ [.ok []]) = _ :=
    readResponse_within hsegs (Nat.zero_le _)
  rw [List.nil_append, hflat] at hread
  unfold sendApiRequest taken
  rw [hconnect, hvec, hwrite, hreads]
  dsimp only
  rw [hread]
  by_cases hlarge : MAX_RESPONSE_BYTES
      < (serializeResponse api resp).length
  · rw [if_pos hlarge, if_pos hlarge]
    rfl
  · rw [if_neg hlarge, if_neg hlarge]
    show (client.fromSlice _).mapError CallError.response = .ok resp
    rw [hback]
    rfl

-- ============ a poll

/-- An id that was printed is read back. -/
theorem parseRequestId_hexEncode (id : RequestId) :
    parseRequestId (hexEncode id.toList) = .ok id := by
  unfold parseRequestId
  rw [hexDecode_hexEncode]
  exact dif_pos id.2

/-- A token passes its own check. -/
theorem verifyToken_self (token : Option String) :
    verifyToken token token = true := by
  cases token with
  | none => rfl
  | some token => exact (verifyToken_iff token token).2 (.inl rfl)

/-- A poll is answered by what the node knows. -/
theorem handleRequest_poll (w : ApiWorld) (node : ApiNode) :
    handleRequest P rs json texts w
        (pollRequest (hexEncode id.toList) token) node token
      = node.answers (pollResponse ⟨node.compute, w.later⟩ id) := by
  have haction : handleRequest P rs json texts w
      (pollRequest (hexEncode id.toList) token) node token
      = computeResultAction w
        (pollRequest (hexEncode id.toList) token) node := by
    have hverify : ¬ (!verifyToken (pollRequest (hexEncode id.toList)
        token).token token) = true := by
      rw [Bool.not_eq_true', Bool.not_eq_false]
      exact verifyToken_self token
    unfold handleRequest
    rw [if_neg hverify]
    rfl
  rw [haction]
  unfold computeResultAction
  rw [show (pollRequest (hexEncode id.toList) token).data.getD ""
    = hexEncode id.toList from rfl, parseRequestId_hexEncode]

/-- The polling request gets through to the server. -/
def Understood (api : ApiJson) (client : ClientJson)
    (request : ApiRequest) : Prop :=
  ∀ bytes, client.toVec request = .ok bytes →
    bytes.length ≤ MAX_API_REQUEST_BYTES ∧ api.fromSlice bytes = .ok request

/-- The node answers a poll by what it knows of the request. -/
theorem serve_poll {reads : List SocketRead} (w : ApiWorld) (node : ApiNode)
    (hjson : BlanksBehind api)
    (hthere : Understood api client
      (pollRequest (hexEncode id.toList) token))
    {bytes : List UInt8} (hvec : client.toVec
      (pollRequest (hexEncode id.toList) token) = .ok bytes)
    (hheard : Hears reads bytes) :
    serve P rs json api texts token reads w node
      = node.answers (pollResponse ⟨node.compute, w.later⟩ id) := by
  obtain ⟨segs, rest, hsome, hsegs, hquiet, hreads, rfl⟩ := hheard
  obtain ⟨hfits, hparse⟩ := hthere _ hvec
  rw [hreads, serve_within hsome hsegs hquiet hfits
    (settled_of_blanks hjson (.inl (by rw [hparse]; rfl)))]
  unfold handleBuffer
  rw [hparse]
  exact handleRequest_poll w node

/-- A poll that is carried returns that answer. -/
theorem sendApiRequest_poll {poll : Poll} (hjson : BlanksBehind api)
    (hthere : Understood api client
      (pollRequest (hexEncode id.toList) token))
    (hback : client.fromSlice (serializeResponse api
      (pollResponse poll.look id)) = .ok (pollResponse poll.look id))
    (h : poll.Carried P rs json api texts client token
      (pollRequest (hexEncode id.toList) token)) :
    sendApiRequest client poll.line
        (pollRequest (hexEncode id.toList) token)
      = taken api (pollResponse poll.look id) := by
  obtain ⟨bytes, hvec, hheard⟩ := h.heard
  have hserve : serve P rs json api texts token _ poll.world poll.node = _ :=
    serve_poll poll.world poll.node hjson hthere hvec hheard
  exact sendApiRequest_receives h.connected h.written hvec
    (h.received _ (by rw [hserve]; rfl)) hback

-- ====== what is told

def resultLine (resp : ComputeResponse) : Printed :=
  if resp.success then .output (hexEncode resp.outputData)
  else .executionFailed (resp.error.getD "unknown error")

def quoteLine (q : PaymentRequest) : Printed :=
  .payment q.amount (currencyAsStr q.currency) q.address

/-- What the polls print, by what the look knows at each: the first result
that it has, behind the first quote that it has before. -/
def told (api : ApiJson) (id : RequestId) : Bool → List Look →
    List Printed
  | announced, [] => [if announced then .unconfirmed else .notReady]
  | announced, look :: looks =>
      if MAX_RESPONSE_BYTES
          < (serializeResponse api (pollResponse look id)).length then
        [.pollFailed .tooLarge]
      else
        match look.first.computeResult id,
          look.later.pendingPayment id with
        | some resp, _ => [resultLine resp]
        | none, some q =>
            if announced then told api id true looks
            else quoteLine q :: told api id true looks
        | none, none => told api id announced looks

/-- The line says whether it failed. -/
theorem saysFailed_result (success : Bool) :
    saysFailed (if success = true then "Compute complete" else "failed")
      = !success := by
  cases success <;> decide

/-- A result ends the polling. -/
theorem pollComputeResult_result {look : Look} {resp : ComputeResponse}
    (h : look.first.computeResult id = some resp) (announced : Bool)
    (polls : List (Except CallError ApiResponse)) :
    pollComputeResult announced (.ok (pollResponse look id) :: polls)
      = [resultLine resp] := by
  unfold pollComputeResult pollResponse resultLine
  rw [h]
  dsimp only
  rw [if_pos rfl]
  simp only [saysFailed_result]
  cases resp.success <;> rfl

/-- A quote is printed the first time. -/
theorem pollComputeResult_quote {look : Look} {q : PaymentRequest}
    (h : look.first.computeResult id = none)
    (hq : look.later.pendingPayment id = some q) (announced : Bool)
    (polls : List (Except CallError ApiResponse)) :
    pollComputeResult announced (.ok (pollResponse look id) :: polls)
      = if announced then pollComputeResult true polls
        else quoteLine q :: pollComputeResult true polls := by
  rw [pollComputeResult]
  unfold pollResponse
  rw [h, hq]
  dsimp only
  rw [if_neg (show ¬ "pending" = "ok" by decide), if_pos rfl]
  cases announced with
  | true => rfl
  | false => rfl

/-- With nothing to tell the polling goes on. -/
theorem pollComputeResult_nothing {look : Look}
    (h : look.first.computeResult id = none)
    (hq : look.later.pendingPayment id = none) (announced : Bool)
    (polls : List (Except CallError ApiResponse)) :
    pollComputeResult announced (.ok (pollResponse look id) :: polls)
      = pollComputeResult announced polls := by
  rw [pollComputeResult]
  unfold pollResponse
  rw [h, hq]
  dsimp only
  rw [if_neg (show ¬ "pending" = "ok" by decide), if_pos rfl, Bool.false_and]
  rfl

/-- The client prints what there is to tell. -/
theorem pollComputeResult_told (announced : Bool) (looks : List Look) :
    pollComputeResult announced
        (looks.map fun look => taken api (pollResponse look id))
      = told api id announced looks := by
  induction looks generalizing announced with
  | nil => rfl
  | cons look looks ih =>
      rw [List.map_cons, told]
      unfold taken
      split
      · rfl
      · cases hresult : look.first.computeResult id with
        | some resp => exact pollComputeResult_result hresult announced _
        | none =>
            cases hquote : look.later.pendingPayment id with
            | some q =>
                rw [pollComputeResult_quote hresult hquote]
                exact congrArg₂ (fun a b => if announced = true then a
                  else quoteLine q :: b) (ih true) (ih true)
            | none =>
                rw [pollComputeResult_nothing hresult hquote]
                exact ih announced

/-- What is told ends with one line. At most one quote is told before it,
and none when one was told before. -/
structure Report (api : ApiJson) (id : RequestId) (announced : Bool)
    (looks : List Look) (quotes : List Printed) (line : Printed) :
    Prop where
  once : quotes.length ≤ 1
  fresh : announced = true → quotes = []
  quoted : ∀ x ∈ quotes, ∃ look ∈ looks, ∃ q,
    look.later.pendingPayment id = some q ∧ x = quoteLine q
  last : (∃ look ∈ looks, ∃ resp,
      look.first.computeResult id = some resp ∧ line = resultLine resp)
    ∨ (line = .pollFailed .tooLarge ∧ ∃ look ∈ looks, MAX_RESPONSE_BYTES
        < (serializeResponse api (pollResponse look id)).length)
    ∨ ((line = .unconfirmed ∨ line = .notReady)
      ∧ ∀ look ∈ looks, look.first.computeResult id = none)

/-- One more poll before, which has no result. -/
theorem Report.later {announced told : Bool} {look : Look}
    {looks : List Look} {quotes : List Printed} {line : Printed}
    (h : Report api id told looks quotes line)
    (htold : announced = true → told = true)
    (hnone : look.first.computeResult id = none) :
    Report api id announced (look :: looks) quotes line where
  once := h.once
  fresh := fun ha => h.fresh (htold ha)
  quoted := fun x hx => by
    obtain ⟨n, hn, hq⟩ := h.quoted x hx
    exact ⟨n, List.mem_cons_of_mem _ hn, hq⟩
  last := by
    rcases h.last with ⟨n, hn, hr⟩ | ⟨hline, n, hn, hlarge⟩ | ⟨hline, hall⟩
    · exact .inl ⟨n, List.mem_cons_of_mem _ hn, hr⟩
    · exact .inr (.inl ⟨hline, n, List.mem_cons_of_mem _ hn, hlarge⟩)
    · refine .inr (.inr ⟨hline, fun n hn => ?_⟩)
      rcases List.mem_cons.1 hn with rfl | hn
      · exact hnone
      · exact hall n hn

/-- That is some quotes and one last line. -/
theorem told_report (announced : Bool) (looks : List Look) :
    ∃ quotes line, told api id announced looks = quotes ++ [line]
      ∧ Report api id announced looks quotes line := by
  induction looks generalizing announced with
  | nil =>
      refine ⟨[], _, rfl, Nat.zero_le _, fun _ => rfl, nofun,
        .inr (.inr ⟨?_, nofun⟩)⟩
      cases announced with
      | true => exact .inl rfl
      | false => exact .inr rfl
  | cons look looks ih =>
      rw [told]
      split
      · rename_i hlarge
        exact ⟨[], _, rfl, Nat.zero_le _, fun _ => rfl, nofun,
          .inr (.inl ⟨rfl, look, List.mem_cons_self, hlarge⟩)⟩
      · cases hresult : look.first.computeResult id with
        | some resp =>
            exact ⟨[], _, rfl, Nat.zero_le _, fun _ => rfl, nofun,
              .inl ⟨look, List.mem_cons_self, resp, hresult, rfl⟩⟩
        | none =>
            cases hquote : look.later.pendingPayment id with
            | none =>
                obtain ⟨quotes, line, htold, h⟩ := ih announced
                exact ⟨quotes, line, htold, h.later (fun ha => ha) hresult⟩
            | some q =>
                obtain ⟨quotes, line, htold, h⟩ := ih true
                cases announced with
                | true =>
                    exact ⟨quotes, line, htold,
                      h.later (fun ha => ha) hresult⟩
                | false =>
                    have hlater :
                        Report api id false (look :: looks) quotes line :=
                      h.later nofun hresult
                    obtain rfl := h.fresh rfl
                    refine ⟨[quoteLine q], line, ?_, ⟨le_rfl, nofun,
                      fun x hx => ?_, hlater.last⟩⟩
                    · exact congrArg (quoteLine q :: ·) htold
                    · rw [List.mem_singleton] at hx
                      exact ⟨look, List.mem_cons_self, q, hquote, hx⟩

-- =========== the run

/-- A run is fair up to any move. -/
theorem allFair_take {cfg : NodeId → ComputeConfig} {me : NodeId}
    {mine : Set RequestId} {net : Exchange} {moves : List ExchangeMove}
    (h : AllFair cfg me mine net moves) (k : Nat) :
    AllFair cfg me mine net (moves.take k) := by
  induction moves generalizing net k with
  | nil =>
      rw [List.take_nil]
      trivial
  | cons mv moves ih =>
      cases k with
      | zero => trivial
      | succ k => exact ⟨h.1, ih h.2 k⟩

/-- The exchange after the first moves of a run. -/
def after (cfg : NodeId → ComputeConfig) (me : NodeId)
    (moves : List ExchangeMove) (k : Nat) : Exchange :=
  Exchange.start.run cfg me (moves.take k)

/-- What is told about a request is what the exchange has made of it at one
of the polls. -/
structure Truthful (cfg : NodeId → ComputeConfig) (me : NodeId)
    (moves : List ExchangeMove) (id : RequestId) (quotes : List Printed)
    (line : Printed) : Prop where
  once : quotes.length ≤ 1
  /-- a quote is by the provider that the request was submitted to -/
  quoted : ∀ x ∈ quotes, ∃ k p r q,
    (p, r) ∈ (after cfg me moves k).submitted ∧ r.requestId = id
      ∧ Exchange.Genuine cfg (after cfg me moves k) p r q ∧ x = quoteLine q
  /-- an output is of an execution by that provider -/
  output : ∀ hex, line = .output hex → ∃ k p r bytes out time memory,
    (p, r) ∈ (after cfg me moves k).submitted ∧ r.requestId = id
      ∧ ⟨p, r, bytes, .ok (out, time, memory)⟩
        ∈ (after cfg me moves k).executed
      ∧ hex = hexEncode out
  /-- and a reason is what that provider gives -/
  failed : ∀ reason, line = .executionFailed reason → ∃ k p r resp,
    (p, r) ∈ (after cfg me moves k).submitted ∧ r.requestId = id
      ∧ Exchange.Answers (after cfg me moves k).executed p r resp
      ∧ resp.success = false
      ∧ reason = resp.error.getD "unknown error"

/-- A result came from a provider that was asked. -/
theorem answeredBy_result {cfg : NodeId → ComputeConfig} {me : NodeId}
    {mine : Set RequestId} {net : Exchange} (h : Sound cfg me mine net)
    {resp : ComputeResponse}
    (hresult : net.requester.computeResult id = some resp) :
    ∃ p r, (p, r) ∈ net.submitted ∧ r.requestId = id
      ∧ Exchange.Answers net.executed p r resp := by
  obtain ⟨rfl, hmem⟩ := (h.results id resp).1 hresult
  have hrecorded := List.mem_of_mem_drop hmem
  exact h.taken resp (List.mem_append_right _ hrecorded)

/-- A request that succeeded was executed. -/
theorem executed_of_success {executed : List Executed} {p : NodeId}
    {r : ComputeRequest} {resp : ComputeResponse}
    (h : Exchange.Answers executed p r resp) (hsuccess : resp.success = true) :
    ∃ bytes out time memory,
      ⟨p, r, bytes, .ok (out, time, memory)⟩ ∈ executed
        ∧ resp.outputData = out := by
  cases h with
  | refused _ => cases hsuccess
  | expired _ => cases hsuccess
  | ended bytes outcome hmem =>
      cases outcome with
      | error e => cases hsuccess
      | ok out =>
          obtain ⟨out, time, memory⟩ := out
          exact ⟨bytes, out, time, memory, hmem, rfl⟩

/-- In a fair run the last line is true. -/
theorem Report.truthful {cfg : NodeId → ComputeConfig} {me : NodeId}
    {mine : Set RequestId} {moves : List ExchangeMove}
    (hall : AllFair cfg me mine Exchange.start moves)
    {looks : List Look} (hfirst : ∀ look ∈ looks, ∃ k,
      look.first = (after cfg me moves k).requester)
    (hlater : ∀ look ∈ looks, ∃ k,
      look.later = (after cfg me moves k).requester)
    {quotes : List Printed} {line : Printed}
    (h : Report api id false looks quotes line) :
    Truthful cfg me moves id quotes line := by
  have hsound : ∀ k, Sound cfg me mine (after cfg me moves k) :=
    fun k => Exchange.sound_start.run (allFair_take hall k)
  -- where a line about a result comes from
  have hresult : (∃ hex, line = .output hex)
      ∨ (∃ reason, line = .executionFailed reason) →
        ∃ k resp p r, line = resultLine resp
          ∧ (p, r) ∈ (after cfg me moves k).submitted ∧ r.requestId = id
          ∧ Exchange.Answers (after cfg me moves k).executed p r resp := by
    intro hline
    rcases h.last with ⟨look, hlook, resp, hget, rfl⟩ | ⟨rfl, -⟩ |
      ⟨rfl | rfl, -⟩
    · obtain ⟨k, hk⟩ := hfirst look hlook
      rw [hk] at hget
      obtain ⟨p, r, hsub, hid, hanswers⟩ :=
        answeredBy_result (hsound k) hget
      exact ⟨k, resp, p, r, rfl, hsub, hid, hanswers⟩
    all_goals rcases hline with ⟨_, hline⟩ | ⟨_, hline⟩ <;> cases hline
  refine ⟨h.once, fun x hx => ?_, fun hex hline => ?_,
    fun reason hline => ?_⟩
  · obtain ⟨look, hlook, q, hq, rfl⟩ := h.quoted x hx
    obtain ⟨k, hk⟩ := hlater look hlook
    rw [hk] at hq
    obtain ⟨entry, hget, hpay⟩ := Option.bind_eq_some_iff.1 hq
    obtain ⟨r, hsub, hid, hgenuine⟩ := (hsound k).pendingQuote hget hpay
    exact ⟨k, entry.provider, r, q, hsub, hid, hgenuine, rfl⟩
  · obtain ⟨k, resp, p, r, hresp, hsub, hid, hanswers⟩ :=
      hresult (.inl ⟨hex, hline⟩)
    rw [hline, resultLine] at hresp
    split at hresp
    · rename_i hsuccess
      obtain ⟨bytes, out, time, memory, hmem, rfl⟩ :=
        executed_of_success hanswers hsuccess
      exact ⟨k, p, r, bytes, _, time, memory, hsub, hid, hmem,
        Printed.output.inj hresp⟩
    · cases hresp
  · obtain ⟨k, resp, p, r, hresp, hsub, hid, hanswers⟩ :=
      hresult (.inr ⟨reason, hline⟩)
    rw [hline, resultLine] at hresp
    split at hresp
    · cases hresp
    · rename_i hsuccess
      exact ⟨k, p, r, resp, hsub, hid, hanswers,
        Bool.not_eq_true _ ▸ hsuccess, Printed.executionFailed.inj hresp⟩

/-- A user who polls for a request, while the node and any number of
providers go on with whatever they do and the bytes of the polls come in any
pieces, is told the truth: at most one quote, which is the provider's, and
one line at the end. What that line says of the request the provider has
answered, an output it has computed; and where a poll finds a result, the
line is a result. -/
theorem results_told (P : Prims) (rs : ErasureCode) (json : Json)
    (api : ApiJson) (hjson : BlanksBehind api) (texts : ApiTexts)
    (client : ClientJson) (token : Option String)
    (cfg : NodeId → ComputeConfig) (me : NodeId) (mine : Set RequestId)
    (moves : List ExchangeMove)
    (hall : AllFair cfg me mine Exchange.start moves) (id : RequestId)
    (polls : List (Nat × Poll))
    (hnode : ∀ x ∈ polls,
      x.2.node.compute = (after cfg me moves x.1).requester)
    (hlater : ∀ x ∈ polls, ∃ k, x.1 ≤ k
      ∧ x.2.world.later = (after cfg me moves k).requester)
    (hthere : Understood api client
      (pollRequest (hexEncode id.toList) token))
    (hback : ∀ x ∈ polls, client.fromSlice (serializeResponse api
      (pollResponse x.2.look id)) = .ok (pollResponse x.2.look id))
    (hcarried : ∀ x ∈ polls, x.2.Carried P rs json api texts client token
      (pollRequest (hexEncode id.toList) token)) :
    ∃ quotes line, pollComputeResult false (polls.map fun x =>
        sendApiRequest client x.2.line
          (pollRequest (hexEncode id.toList) token))
        = quotes ++ [line]
      ∧ Truthful cfg me moves id quotes line
      ∧ ((∃ x ∈ polls, x.2.node.compute.computeResult id ≠ none) →
        (∀ x ∈ polls, (serializeResponse api
          (pollResponse x.2.look id)).length ≤ MAX_RESPONSE_BYTES) →
        ∃ x ∈ polls, ∃ resp, x.2.node.compute.computeResult id = some resp
          ∧ line = resultLine resp) := by
  have hpolls : (polls.map fun x => sendApiRequest client x.2.line
      (pollRequest (hexEncode id.toList) token))
      = (polls.map fun x => x.2.look).map
        fun look => taken api (pollResponse look id) := by
    rw [List.map_map]
    exact List.map_congr_left fun x hx => sendApiRequest_poll hjson hthere
      (hback x hx) (hcarried x hx)
  obtain ⟨quotes, line, htold, h⟩ : ∃ quotes line,
      told api id false (polls.map fun x => x.2.look) = quotes ++ [line]
        ∧ Report api id false (polls.map fun x => x.2.look) quotes line :=
    told_report false _
  refine ⟨quotes, line, ?_, h.truthful hall ?_ ?_, ?_⟩
  · rw [hpolls, pollComputeResult_told, htold]
  · intro look hmem
    obtain ⟨x, hx, rfl⟩ := List.mem_map.1 hmem
    exact ⟨x.1, hnode x hx⟩
  · intro look hmem
    obtain ⟨x, hx, rfl⟩ := List.mem_map.1 hmem
    obtain ⟨k, -, hk⟩ := hlater x hx
    exact ⟨k, hk⟩
  · rintro ⟨x, hx, hsome⟩ hfits
    rcases h.last with ⟨look, hmem, resp, hget, hline⟩ |
      ⟨-, look, hmem, hlarge⟩ | ⟨-, hnone⟩
    · obtain ⟨y, hy, rfl⟩ := List.mem_map.1 hmem
      exact ⟨y, hy, resp, hget, hline⟩
    · obtain ⟨y, hy, rfl⟩ := List.mem_map.1 hmem
      exact absurd hlarge (Nat.not_lt.2 (hfits y hy))
    · exact absurd (hnone _ (List.mem_map.2 ⟨x, hx, rfl⟩)) hsome

-- ========= two polls

def polledId : RequestId := Bytes.ofList 32 [1]

def polledHex : String :=
  "01000000000000000000000000000000"
    ++ "00000000000000000000000000000000"

/-- The request, and the answers before and after the result is there. -/
def pollText : List UInt8 :=
  asBytes ("\x7b\"action\":\"compute_result\",\"data\":\"" ++ polledHex
    ++ "\",\"content_pub_key\":null,\"compute_currency\":null,"
    ++ "\"request_id\":null,\"tx_hash\":null,\"token\":null\x7d")

def pendingText : List UInt8 :=
  asBytes ("\x7b\"status\":\"pending\",\"message\":\"Result not ready\","
    ++ "\"request_id\":\"" ++ polledHex
    ++ "\",\"payment_required\":false\x7d")

def resultText : List UInt8 :=
  asBytes ("\x7b\"status\":\"ok\",\"message\":\"Compute complete\","
    ++ "\"data\":\"02\",\"request_id\":\"" ++ polledHex
    ++ "\",\"payment_required\":false\x7d")

/-- The node of one exchange, after these moves. -/
def polledNode (k : Nat) : ApiNode :=
  { aloneNode with
    compute := (after (fun _ => Provider.freeSlot) (Bytes.zero 16)
      Exchange.oneResult k).requester }

/-- Both lock sections find the same. -/
def polledWorld (k : Nat) : ApiWorld :=
  { aloneWorld with later := (polledNode k).compute }

def polledResponse (k : Nat) : ApiResponse :=
  pollResponse ⟨(polledNode k).compute, (polledWorld k).later⟩ polledId

/-- The conversions of these texts. -/
def polledJson : ApiJson :=
  onlyJson pollText (pollRequest (hexEncode polledId.toList) none)
    fun resp => some
      (if resp.status = "ok" then resultText else pendingText)

def polledClient : ClientJson where
  toVec := fun _ => .ok pollText
  fromSlice := fun bytes =>
    .ok (polledResponse (if bytes = resultText then 10 else 0))

/-- A poll after these moves, whose request comes in two reads. -/
def polledAt (k : Nat) (text : List UInt8) : Poll where
  node := polledNode k
  world := polledWorld k
  reads := [.data (pollText.take 9), .data (pollText.drop 9)]
  line := ⟨none, none, [.ok text, .ok []]⟩

set_option maxRecDepth 4096 in
/-- The text is the poll, -/
theorem pollText_parses : polledJson.fromSlice pollText
    = .ok (pollRequest (hexEncode polledId.toList) none) := by
  have hfilter : pollText.filter (!isBlank ·) = pollText := by decide
  unfold polledJson onlyJson
  dsimp only
  rw [if_pos hfilter]

set_option maxRecDepth 4096 in
/-- and both sides read it alike. -/
theorem polled_understood : Understood polledJson polledClient
    (pollRequest (hexEncode polledId.toList) none) := by
  rintro _ ⟨⟩
  exact ⟨by decide, pollText_parses⟩

set_option maxRecDepth 4096 in
/-- It arrives in two reads. -/
theorem pollText_heard :
    Hears [.data (pollText.take 9), .data (pollText.drop 9)] pollText := by
  refine ⟨[pollText.take 9, pollText.drop 9], [], by decide, by decide,
    trivial, rfl, ?_⟩
  rw [List.flatten_cons, List.flatten_singleton, List.take_append_drop]

/-- The line carries the poll and the answer. -/
theorem polled_carried (k : Nat) {text : List UInt8} (hne : text ≠ [])
    (htext : serializeResponse polledJson (polledResponse k) = text) :
    (polledAt k text).Carried .plain mirrorCode unaryJson polledJson noTexts
      polledClient none (pollRequest (hexEncode polledId.toList) none) where
  connected := rfl
  written := rfl
  heard := ⟨pollText, rfl, pollText_heard⟩
  received := fun resp hresp => by
    have hserve : serve .plain mirrorCode unaryJson polledJson noTexts none _
        (polledWorld k) (polledNode k) = _ :=
      serve_poll (polledWorld k) (polledNode k) (onlyJson_blanks _ _ _)
        polled_understood rfl pollText_heard
    have hanswer : some (polledResponse k) = some resp := by
      rw [← hresp]
      exact (congrArg ApiOutcome.response hserve).symm
    rw [← Option.some.inj hanswer, htext]
    refine ⟨[text], ?_, rfl, List.flatten_singleton⟩
    intro seg hseg
    rw [List.mem_singleton.1 hseg]
    exact hne

/-- Before the run the answer is `pending`. -/
theorem polledResponse_zero :
    serializeResponse polledJson (polledResponse 0) = pendingText := rfl

/-- After it, the result. -/
theorem polledResponse_ten :
    serializeResponse polledJson (polledResponse 10) = resultText := rfl

set_option maxRecDepth 4096 in
/-- So are the two answers. -/
theorem pendingText_ne : pendingText ≠ resultText ∧ pendingText ≠ []
    ∧ resultText ≠ [] := by
  decide

set_option maxRecDepth 4096 in
/-- Both answers are small enough. -/
theorem polledTexts_fit : pendingText.length ≤ MAX_RESPONSE_BYTES
    ∧ resultText.length ≤ MAX_RESPONSE_BYTES := by
  decide

/-- The client reads back what the node wrote. -/
theorem polled_back {k : Nat} {text : List UInt8}
    (htext : serializeResponse polledJson (polledResponse k) = text)
    (hk : (if text = resultText then 10 else 0) = k) :
    polledClient.fromSlice (serializeResponse polledJson
        (pollResponse (polledAt k text).look polledId))
      = .ok (pollResponse (polledAt k text).look polledId) := by
  show Except.ok (polledResponse (if serializeResponse polledJson
    (polledResponse k) = resultText then 10 else 0)) = .ok (polledResponse k)
  rw [htext, hk]

/-- The first poll is too early, the second one has the result. -/
theorem results_told_second :
    ∃ quotes line, pollComputeResult false
        ([(0, polledAt 0 pendingText), (10, polledAt 10 resultText)].map
          fun x => sendApiRequest polledClient x.2.line
            (pollRequest (hexEncode polledId.toList) none))
        = quotes ++ [line]
      ∧ Truthful (fun _ => Provider.freeSlot) (Bytes.zero 16)
        Exchange.oneResult polledId quotes line
      ∧ line = .output (hexEncode [2]) := by
  have hall : AllFair (fun _ => Provider.freeSlot) (Bytes.zero 16)
      {polledId} Exchange.start Exchange.oneResult :=
    ⟨⟨rfl, nofun, rfl⟩, trivial, trivial, trivial, trivial, trivial, trivial,
      trivial, trivial, trivial, trivial⟩
  obtain ⟨hne, hpending, hresult⟩ := pendingText_ne
  have hfits := polledTexts_fit
  have hzero : (polledNode 0).compute.computeResult polledId = none := rfl
  have hten : (polledNode 10).compute.computeResult polledId
      = some (succeeded polledId [2] 3 4) := rfl
  obtain ⟨quotes, line, hprinted, htruthful, hline⟩ := results_told .plain
    mirrorCode unaryJson polledJson (onlyJson_blanks _ _ _) noTexts
    polledClient none (fun _ => Provider.freeSlot) (Bytes.zero 16)
    {polledId} Exchange.oneResult hall polledId
    [(0, polledAt 0 pendingText), (10, polledAt 10 resultText)]
    (fun x hx => by
      rcases List.mem_pair.1 hx with rfl | rfl
      · rfl
      · rfl)
    (fun x hx => by
      rcases List.mem_pair.1 hx with rfl | rfl
      · exact ⟨0, Nat.le_refl 0, rfl⟩
      · exact ⟨10, Nat.le_refl 10, rfl⟩)
    polled_understood
    (fun x hx => by
      rcases List.mem_pair.1 hx with rfl | rfl
      · exact polled_back polledResponse_zero (if_neg hne)
      · exact polled_back polledResponse_ten (if_pos rfl))
    (fun x hx => by
      rcases List.mem_pair.1 hx with rfl | rfl
      · exact polled_carried 0 hpending polledResponse_zero
      · exact polled_carried 10 hresult polledResponse_ten)
  refine ⟨quotes, line, hprinted, htruthful, ?_⟩
  obtain ⟨x, hx, resp, hget, rfl⟩ := hline
    ⟨_, List.mem_cons_of_mem _ List.mem_cons_self, by
      rw [show (polledAt 10 resultText).node = polledNode 10 from rfl, hten]
      exact Option.some_ne_none _⟩
    (fun x hx => by
      rcases List.mem_pair.1 hx with rfl | rfl
      · exact polledResponse_zero ▸ hfits.1
      · exact polledResponse_ten ▸ hfits.2)
  rcases List.mem_pair.1 hx with rfl | rfl
  · exact absurd (hzero.symm.trans hget) nofun
  · rw [← Option.some.inj (hten.symm.trans hget)]
    rfl

end StaticNet.Api
