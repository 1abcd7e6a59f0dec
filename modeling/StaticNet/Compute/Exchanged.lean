/-
Requests and their results, from one end to the other
(`static-node/src/runner.rs`, `submit_compute_request` to
`compute_result`).

# Once

A request is pending until one response takes it out; whatever else comes
for it, from a provider that ran it twice or was asked twice, finds nothing
(`Tickets`). So every request is answered once, and the table of
results, which is cleared when it is full, has the last block of the
answers (`FMap.puts_eq`).

# By whom

A provider's reply is about a request it was sent (`Provider.Holds`), and a
request of ours was sent to one provider. That nobody else comes up with an
id of ours is the one assumption (`ExchangeMove.Fair`).

# At all

A provider that is enabled works on a request until it has answered it
(`Provider.step_works`). When nothing is on its way and nothing is worked
on, every request that was sent has its result (`Exchanged.complete`).
-/
import StaticNet.Compute.Answered
import StaticNet.Lib.Tickets

namespace StaticNet

namespace Exchange

variable {cfg : NodeId → ComputeConfig} {me : NodeId}
  {mine : Set RequestId} {net net' : Exchange}

-- ==== what may be answered

/-- A request of ours that a provider has was sent to it. -/
def Ours (mine : Set RequestId) (net : Exchange) (p : NodeId)
    (r : ComputeRequest) : Prop :=
  r.requestId ∈ mine → (p, r) ∈ net.submitted

/-- What a provider can answer to a request: that it is refused, that its
payment timed out, or what its execution came to. -/
inductive Answers (executed : List Executed) (p : NodeId)
    (r : ComputeRequest) : ComputeResponse → Prop
  | refused {error : ComputeError} (h : Provider.Refusal error) :
      Answers executed p r (failed r.requestId error false none)
  | expired (payment : PaymentRequest) :
      Answers executed p r (failed r.requestId (.payment "payment timeout")
        true (some payment))
  | ended (bytes : List UInt8)
      (outcome : Except ComputeError (List UInt8 × UInt64 × UInt64))
      (h : ⟨p, r, bytes, outcome⟩ ∈ executed) :
      Answers executed p r (outcomeResponse r.requestId outcome)

/-- A response to a request that was submitted, by the provider it was
submitted to. -/
def AnsweredBy (net : Exchange) (resp : ComputeResponse) : Prop :=
  ∃ p r, (p, r) ∈ net.submitted ∧ r.requestId = resp.requestId
    ∧ Answers net.executed p r resp

/-- The quote that the provider made for the request, with an address that
was generated for it. -/
def Genuine (cfg : NodeId → ComputeConfig) (net : Exchange) (p : NodeId)
    (r : ComputeRequest) (q : PaymentRequest) : Prop :=
  ∃ currency address,
    (r, currency, address) ∈ (net.providers p).log.generated
      ∧ q = Provider.quote (cfg p) r currency address

/-- What stands behind a letter. -/
def Vouched (cfg : NodeId → ComputeConfig) (mine : Set RequestId)
    (net : Exchange) (letter : ComputeLetter) : Prop :=
  match letter.msg with
  | .request r => (letter.receiver, r) ∈ net.submitted
  | .confirmation _ => True
  | .quote q => q.requestId ∈ mine → ∃ p r, (p, r) ∈ net.submitted
      ∧ r.requestId = q.requestId ∧ Genuine cfg net p r q
  | .response resp => resp.requestId ∈ mine → AnsweredBy net resp

/-- A response to the request is on its way, or was. -/
def Replied (me : NodeId) (net : Exchange) (r : ComputeRequest) : Prop :=
  ∃ resp, ⟨me, .response resp⟩ ∈ net.sent ∧ resp.requestId = r.requestId

/-- The ids that have a response. -/
def answered (net : Exchange) : List RequestId :=
  (net.requester.recording ++ net.recorded).map ComputeResponse.requestId

-- ======== what grows

/-- Records and letters stay. -/
structure Grows (net net' : Exchange) : Prop where
  submitted : net.submitted ⊆ net'.submitted
  executed : net.executed ⊆ net'.executed
  generated : ∀ p, (net.providers p).log.generated
    ⊆ (net'.providers p).log.generated
  sent : net.sent <+: net'.sent

theorem Answers.mono (h : Grows net net') {p : NodeId} {r : ComputeRequest}
    {resp : ComputeResponse} (ha : Answers net.executed p r resp) :
    Answers net'.executed p r resp := by
  cases ha with
  | refused h => exact .refused h
  | expired payment => exact .expired payment
  | ended bytes outcome hx => exact .ended bytes outcome (h.executed hx)

theorem AnsweredBy.mono (h : Grows net net') {resp : ComputeResponse}
    (ha : AnsweredBy net resp) : AnsweredBy net' resp := by
  obtain ⟨p, r, hsub, hid, ha⟩ := ha
  exact ⟨p, r, h.submitted hsub, hid, ha.mono h⟩

theorem Genuine.mono (h : Grows net net') {p : NodeId} {r : ComputeRequest}
    {q : PaymentRequest} (hq : Genuine cfg net p r q) :
    Genuine cfg net' p r q := by
  obtain ⟨currency, address, hg, hq⟩ := hq
  exact ⟨currency, address, h.generated p hg, hq⟩

theorem Vouched.mono (h : Grows net net') {letter : ComputeLetter}
    (hv : Vouched cfg mine net letter) : Vouched cfg mine net' letter := by
  obtain ⟨receiver, msg⟩ := letter
  cases msg with
  | request r => exact h.submitted hv
  | confirmation c => trivial
  | quote q =>
      intro hmine
      obtain ⟨p, r, hsub, hid, hq⟩ := hv hmine
      exact ⟨p, r, h.submitted hsub, hid, hq.mono h⟩
  | response resp => exact fun hmine => (hv hmine).mono h

theorem Replied.mono (h : Grows net net') {r : ComputeRequest}
    (hr : Replied me net r) : Replied me net' r := by
  obtain ⟨resp, hmem, hid⟩ := hr
  exact ⟨resp, h.sent.subset hmem, hid⟩

-- ===== the invariant

structure Sound (cfg : NodeId → ComputeConfig) (me : NodeId)
    (mine : Set RequestId) (net : Exchange) : Prop where
  tickets : Tickets net.ids net.requester.pendingRequests.keys net.answered
  drawn : ∀ x ∈ net.submitted,
    x.2.requestId ∈ mine ∧ x.2.returnRoute.destination = me
  taken : ∀ resp ∈ net.requester.recording ++ net.recorded,
    AnsweredBy net resp
  table : net.requester.completedResults
    = FMap.puts MAX_COMPLETED_COMPUTE_RESULTS
      (net.recorded.map fun resp => (resp.requestId, resp))
  pending : ∀ id entry,
    net.requester.pendingRequests.get id = some entry →
      ∃ r, (entry.provider, r) ∈ net.submitted ∧ r.requestId = id
        ∧ ∀ q ∈ entry.payment, Genuine cfg net entry.provider r q
  providers : ∀ p, (net.providers p).Holds (Ours mine net p)
  letters : ∀ letter ∈ net.sent, Vouched cfg mine net letter
  bound : ∀ i ∈ net.delivered, i < net.sent.length
  responded : ∀ i ∈ net.delivered, ∀ resp,
    net.sent[i]? = some ⟨me, .response resp⟩ →
      resp.requestId ∉ net.requester.pendingRequests.keys
  requested : ∀ i ∈ net.delivered, ∀ p r,
    net.sent[i]? = some ⟨p, .request r⟩ → (cfg p).enabled = true →
      Replied me net r ∨ (net.providers p).Works r.requestId

theorem sound_start : Sound cfg me mine start := by
  refine ⟨.start, nofun, nofun, rfl, ?_, fun p => Provider.holds_start, nofun,
    nofun, nofun, nofun⟩
  intro id entry h
  cases h

section Sound

variable (h : Sound cfg me mine net)

include h

/-- An id stands for one request and its provider. -/
theorem Sound.same {p p' : NodeId} {r r' : ComputeRequest}
    (hr : (p, r) ∈ net.submitted) (hr' : (p', r') ∈ net.submitted)
    (hid : r.requestId = r'.requestId) : p = p' ∧ r = r' :=
  Prod.mk.inj (List.inj_on_of_nodup_map h.tickets.fresh hr hr' hid)

theorem Sound.id_mine {id : RequestId} (hid : id ∈ net.ids) :
    id ∈ mine := by
  obtain ⟨x, hx, rfl⟩ := List.mem_map.1 hid
  exact (h.drawn x hx).1

/-- A letter that was there is where it was. -/
theorem Sound.letter_kept (hsent : net.sent <+: net'.sent) {i : Nat}
    (hi : i ∈ net.delivered) : net'.sent[i]? = net.sent[i]? := by
  obtain ⟨more, hmore⟩ := hsent
  rw [← hmore, List.getElem?_append_left (h.bound i hi)]

end Sound

-- ======== a provider

theorem generated_ticks {c : ComputeConfig} {s s' : Provider}
    {e : ComputeEvent} (h : Provider.Ticks c s e s') :
    s.log.generated ⊆ s'.log.generated := by
  cases h <;> exact List.Subset.refl _

theorem generated_step (s : Provider) (e : ComputeEvent) (p : NodeId) :
    s.log.generated ⊆ (s.step (cfg p) e).log.generated := by
  cases e with
  | address i address =>
      have h := Provider.addressed_addresses (cfg p) s i address
      show _ ⊆ (Provider.addressed (cfg p) s i address).log.generated
      generalize Provider.addressed (cfg p) s i address = s' at h
      cases h with
      | quotes r currency address _ _ => exact List.subset_append_left _ _
      | _ => exact List.Subset.refl _
  | request r =>
      have h := Provider.handleComputeRequest_admits (cfg p) s r
      show _ ⊆ (Provider.handleComputeRequest (cfg p) s r).log.generated
      generalize Provider.handleComputeRequest (cfg p) s r = s' at h
      cases h <;> exact List.Subset.refl _
  | run i input order =>
      have h := Provider.runStep_payments s i input order
      show _ ⊆ (s.runStep i input order).log.generated
      rw [h.generated]
      exact List.Subset.refl _
  | confirmation c => exact List.Subset.refl _
  | wait secs => exact List.Subset.refl _
  | tick order => exact generated_ticks (Provider.startTick_ticks (cfg p) s _)
  | expire order => exact generated_ticks (Provider.expire_ticks (cfg p) s _)
  | check answer => exact generated_ticks (Provider.check_ticks (cfg p) s _)
  | take => exact generated_ticks (Provider.take_ticks (cfg p) s)
  | place => exact generated_ticks (Provider.place_ticks (cfg p) s)

theorem grows_atProvider (net : Exchange) (p : NodeId) (e : ComputeEvent)
    (x : Findings) : Grows net (net.atProvider cfg p e x) := by
  refine ⟨List.Subset.refl _, List.subset_append_left _ _, fun p' => ?_,
    List.prefix_append _ _⟩
  show _ ⊆ ((Function.update net.providers p _) p').log.generated
  by_cases hp : p' = p
  · subst hp
    rw [Function.update_self]
    exact generated_step _ _ _
  · rw [Function.update_of_ne hp]
    exact List.Subset.refl _

section AtProvider

variable {p : NodeId} {e : ComputeEvent} {x : Findings}

/-- A section that ends an execution leaves it on record. -/
theorem mem_ran {s : Provider} {i : Nat} {order : IterOrder ContentId}
    {r : ComputeRequest} {bytes : List UInt8}
    (hi : s.runs[i]? = some ⟨r, .executing bytes⟩) :
    ⟨p, r, bytes, x.outcome⟩ ∈ ran p s x (.run i .executed order) := by
  unfold ran
  simp only [hi]
  exact List.mem_singleton_self _

/-- What a provider replies to a request of ours is an answer to it, or the
quote it made. -/
theorem Sound.vouched_reply (h : Sound cfg me mine net)
    (hfair : ∀ r, e = .request r → Ours mine net p r)
    {r : ComputeRequest} {msg : ComputeMsg}
    (hmem : (r, msg) ∈ (net.providers p).replies (cfg p) x e) :
    Ours mine net p r ∧ msg.about = r.requestId
      ∧ Vouched cfg mine (net.atProvider cfg p e x)
        ⟨r.returnRoute.destination, msg⟩ := by
  obtain ⟨hours, hreply⟩ := Provider.replies_spec (h.providers p) hfair hmem
  refine ⟨hours, hreply.about, ?_⟩
  cases hreply with
  | refuses herror => exact fun hmine => ⟨p, r, hours hmine, rfl, .refused herror⟩
  | expires payment => exact fun hmine => ⟨p, r, hours hmine, rfl, .expired payment⟩
  | @ends i order bytes he hi =>
      subst he
      intro hmine
      have hid := Provider.outcomeResponse_requestId r.requestId x.outcome
      refine ⟨p, r, hours (hid ▸ hmine), hid.symm, .ended bytes x.outcome ?_⟩
      exact List.mem_append_right _ (mem_ran hi)
  | @quotes currency address hg =>
      refine fun hmine => ⟨p, r, hours hmine, rfl, currency, address, ?_, rfl⟩
      show _ ∈ ((Function.update net.providers p _) p).log.generated
      rw [Function.update_self]
      exact hg

/-- A response to a request of ours goes back to us. -/
theorem Sound.replied (h : Sound cfg me mine net)
    (hfair : ∀ r, e = .request r → Ours mine net p r)
    {p' : NodeId} {r : ComputeRequest} (hr : (p', r) ∈ net.submitted)
    (hresp : Provider.Responds r.requestId
      ((net.providers p).replies (cfg p) x e)) :
    Replied me (net.atProvider cfg p e x) r := by
  obtain ⟨r', resp, hmem, hid⟩ := hresp
  obtain ⟨hours, habout, -⟩ := h.vouched_reply hfair hmem
  have hr' := hours (hid ▸ (h.drawn _ hr).1)
  obtain ⟨-, rfl⟩ := h.same hr' hr hid
  refine ⟨resp, ?_, habout⟩
  refine List.mem_append_right _ (List.mem_map.2 ⟨_, hmem, ?_⟩)
  rw [(h.drawn _ hr).2]

/-- A section of a provider. -/
theorem Sound.atProvider (h : Sound cfg me mine net)
    (hfair : ∀ r, e = .request r → Ours mine net p r) :
    Sound cfg me mine (net.atProvider cfg p e x) := by
  have hgrows : Grows net (net.atProvider cfg p e x) :=
    grows_atProvider net p e x
  refine ⟨h.tickets, h.drawn,
    fun resp hresp => (h.taken resp hresp).mono hgrows, h.table, ?_, ?_, ?_,
    ?_, ?_, ?_⟩
  · intro id entry hget
    obtain ⟨r, hsub, hid, hq⟩ := h.pending id entry hget
    exact ⟨r, hsub, hid, fun q hmem => (hq q hmem).mono hgrows⟩
  · intro p'
    show Provider.Holds _ ((Function.update net.providers p _) p')
    by_cases hp : p' = p
    · subst hp
      rw [Function.update_self]
      exact Provider.step_holds (h.providers p') hfair
    · rw [Function.update_of_ne hp]
      exact h.providers p'
  · intro letter hmem
    rcases List.mem_append.1 hmem with hmem | hmem
    · exact (h.letters letter hmem).mono hgrows
    · obtain ⟨a, ha, rfl⟩ := List.mem_map.1 hmem
      exact (h.vouched_reply hfair ha).2.2
  · intro i hi
    exact Nat.lt_of_lt_of_le (h.bound i hi) hgrows.sent.length_le
  · intro i hi resp hget
    rw [h.letter_kept hgrows.sent hi] at hget
    exact h.responded i hi resp hget
  · intro i hi p' r hget henabled
    rw [h.letter_kept hgrows.sent hi] at hget
    have hr : (p', r) ∈ net.submitted :=
      h.letters _ (List.mem_of_getElem? hget)
    rcases h.requested i hi p' r hget henabled with hdone | hworks
    · exact .inl (hdone.mono hgrows)
    · show _ ∨ ((Function.update net.providers p _) p').Works r.requestId
      by_cases hp : p' = p
      · subst hp
        rw [Function.update_self]
        have hduty : ((net.providers p').step (cfg p') e).Works r.requestId
            ∨ Provider.Responds r.requestId
              ((net.providers p').replies (cfg p') x e) :=
          Provider.step_works (h.providers p') hworks
        rcases hduty with hworks | hresp
        · exact .inr hworks
        · exact .inl (h.replied hfair hr hresp)
      · rw [Function.update_of_ne hp]
        exact .inr hworks

end AtProvider

-- ===== the requester

section AtRequester

/-- A quote or a response that reaches the requester. -/
theorem grows_atRequester (net : Exchange) (msg : ComputeMsg) :
    Grows net (net.atRequester msg) := by
  cases msg <;> exact ⟨List.Subset.refl _, List.Subset.refl _,
    fun _ => List.Subset.refl _, List.prefix_refl _⟩

/-- The first response for a pending request takes it out. -/
theorem Sound.takes (h : Sound cfg me mine net) {resp : ComputeResponse}
    (hv : resp.requestId ∈ mine → AnsweredBy net resp) :
    Sound cfg me mine (net.atRequester (.response resp)) := by
  show Sound cfg me mine
    { net with requester := net.requester.handleComputeResponse resp }
  unfold Requester.handleComputeResponse
  by_cases hpend : net.requester.pendingRequests.contains resp.requestId
      = true
  · rw [if_pos hpend]
    obtain ⟨entry, hget⟩ := (FMap.contains_eq_true _ _).1 hpend
    have hopen := FMap.mem_keys_of_get hget
    have hperm : (net.requester.recording ++ [resp] ++ net.recorded).Perm
        (resp :: (net.requester.recording ++ net.recorded)) := by
      rw [List.append_assoc, List.singleton_append]
      exact List.perm_middle
    refine ⟨h.tickets.close hopen (hperm.map ComputeResponse.requestId),
      h.drawn, ?_, h.table, ?_, h.providers, h.letters, h.bound, ?_,
      h.requested⟩
    · intro resp' hmem
      rcases List.mem_cons.1 (hperm.mem_iff.1 hmem) with rfl | hmem
      · exact hv (h.id_mine (h.tickets.open_issued hopen))
      · exact h.taken resp' hmem
    · intro id entry' hget'
      refine h.pending id entry' ?_
      rw [FMap.get_erase] at hget'
      split at hget'
      · cases hget'
      · exact hget'
    · intro i hi resp' hget'
      exact fun hmem => h.responded i hi resp' hget' (Finset.mem_of_mem_erase hmem)
  · rw [if_neg hpend]
    exact h

/-- A quote is attached to the request it was made for. -/
theorem Sound.quoted (h : Sound cfg me mine net) {q : PaymentRequest}
    (hv : Vouched cfg mine net ⟨me, .quote q⟩) :
    Sound cfg me mine (net.atRequester (.quote q)) := by
  refine ⟨h.tickets, h.drawn, h.taken, h.table, ?_, h.providers, h.letters,
    h.bound, h.responded, h.requested⟩
  intro id entry hget
  have hget : (net.requester.pendingRequests.modify q.requestId
      fun pending => { pending with payment := some q }).get id
        = some entry := hget
  rw [FMap.get_modify] at hget
  by_cases hid : id = q.requestId
  · rw [if_pos hid] at hget
    obtain ⟨old, hold, rfl⟩ := Option.map_eq_some_iff.1 hget
    obtain ⟨r, hsub, hr, -⟩ := h.pending id old hold
    have hknown := h.tickets.open_issued (FMap.mem_keys_of_get hold)
    obtain ⟨p', r', hsub', hr', hq⟩ := hv (hid ▸ h.id_mine hknown)
    obtain ⟨hp, rfl⟩ := h.same hsub' hsub (hr'.trans (hid.symm.trans hr.symm))
    refine ⟨r', hsub, hr, ?_⟩
    rintro _ ⟨⟩
    exact hp ▸ hq
  · rw [if_neg hid] at hget
    exact h.pending id entry hget

theorem Sound.atRequester (h : Sound cfg me mine net) {msg : ComputeMsg}
    (hv : Vouched cfg mine net ⟨me, msg⟩) :
    Sound cfg me mine (net.atRequester msg) := by
  cases msg with
  | request r => exact h
  | confirmation c => exact h
  | quote q => exact h.quoted hv
  | response resp => exact h.takes hv

/-- A response that was handled finds its request pending no more. -/
theorem not_pending (net : Exchange) (resp : ComputeResponse) :
    resp.requestId ∉ (net.atRequester
      (.response resp)).requester.pendingRequests.keys := by
  show resp.requestId
    ∉ (net.requester.handleComputeResponse resp).pendingRequests.keys
  unfold Requester.handleComputeResponse
  by_cases hpend : net.requester.pendingRequests.contains resp.requestId
      = true
  · rw [if_pos hpend]
    exact Finset.notMem_erase _ _
  · rw [if_neg hpend]
    exact (FMap.contains_eq_false _ _).1 (Bool.eq_false_iff.2 hpend)

end AtRequester

-- ========= the moves

theorem Sound.submits (h : Sound cfg me mine net) {p : NodeId}
    {r : ComputeRequest} {now : Nat} {sent : Bool}
    (hmine : r.requestId ∈ mine) (hnew : r.requestId ∉ net.ids)
    (hme : r.returnRoute.destination = me) :
    Sound cfg me mine (net.step cfg me (.submit p r now sent)) := by
  have hgrows : Grows net (net.step cfg me (.submit p r now sent)) :=
    ⟨List.subset_append_left _ _, List.Subset.refl _,
      fun _ => List.Subset.refl _, List.prefix_append _ _⟩
  have hids : (net.step cfg me (.submit p r now sent)).ids
      = net.ids ++ [r.requestId] := List.map_append
  refine ⟨hids ▸ h.tickets.issue hnew, ?_,
    fun resp hmem => (h.taken resp hmem).mono hgrows, h.table, ?_,
    fun p' => (h.providers p').mono fun r' hr' hm => hgrows.submitted (hr' hm),
    ?_, ?_, ?_, ?_⟩
  · intro x hx
    rcases List.mem_append.1 hx with hx | hx
    · exact h.drawn x hx
    · rw [List.mem_singleton.1 hx]
      exact ⟨hmine, hme⟩
  · intro id entry hget
    have hget : (net.requester.pendingRequests.insert r.requestId
        ⟨r.requestId, p, none, now⟩).get id = some entry := hget
    rw [FMap.get_insert] at hget
    by_cases hid : id = r.requestId
    · rw [if_pos hid] at hget
      cases hget
      exact ⟨r, List.mem_append_right _ (List.mem_singleton_self _), hid.symm,
        nofun⟩
    · rw [if_neg hid] at hget
      obtain ⟨r', hsub, hr', hq⟩ := h.pending id entry hget
      exact ⟨r', hgrows.submitted hsub, hr',
        fun q hmem => (hq q hmem).mono hgrows⟩
  · intro letter hmem
    rcases List.mem_append.1 hmem with hmem | hmem
    · exact (h.letters letter hmem).mono hgrows
    · cases sent with
      | false => cases hmem
      | true =>
          rw [List.mem_singleton.1 hmem]
          exact List.mem_append_right _ (List.mem_singleton_self _)
  · intro i hi
    exact Nat.lt_of_lt_of_le (h.bound i hi) hgrows.sent.length_le
  · intro i hi resp hget
    rw [h.letter_kept hgrows.sent hi] at hget
    show resp.requestId
      ∉ insert r.requestId net.requester.pendingRequests.keys
    rw [Finset.mem_insert, not_or]
    refine ⟨fun hid => ?_, h.responded i hi resp hget⟩
    -- nobody answered an id before it was drawn
    obtain ⟨p', r', hsub, hr', -⟩ :=
      h.letters _ (List.mem_of_getElem? hget) (hid ▸ hmine)
    exact hnew (hid ▸ hr' ▸ List.mem_map.2 ⟨_, hsub, rfl⟩)
  · intro i hi p' r' hget henabled
    rw [h.letter_kept hgrows.sent hi] at hget
    rcases h.requested i hi p' r' hget henabled with hdone | hworks
    · exact .inl (hdone.mono hgrows)
    · exact .inr hworks

theorem Sound.confirms (h : Sound cfg me mine net) {id : RequestId}
    {txHash : String} :
    Sound cfg me mine (net.step cfg me (.confirm id txHash)) := by
  unfold Exchange.step
  dsimp only
  cases net.requester.confirmation id txHash with
  | none => exact h
  | some pc =>
      obtain ⟨p, c⟩ := pc
      have hsent : net.sent <+: net.sent ++ [⟨p, .confirmation c⟩] :=
        List.prefix_append _ _
      have hgrows : Grows net
          { net with sent := net.sent ++ [⟨p, .confirmation c⟩] } :=
        ⟨List.Subset.refl _, List.Subset.refl _,
          fun _ => List.Subset.refl _, hsent⟩
      refine ⟨h.tickets, h.drawn, h.taken, h.table, h.pending, h.providers,
        ?_, ?_, ?_, ?_⟩
      · intro letter hmem
        rcases List.mem_append.1 hmem with hmem | hmem
        · exact (h.letters letter hmem).mono hgrows
        · rw [List.mem_singleton.1 hmem]
          trivial
      · intro i hi
        exact Nat.lt_of_lt_of_le (h.bound i hi) hsent.length_le
      · intro i hi resp hget
        rw [h.letter_kept hsent hi] at hget
        exact h.responded i hi resp hget
      · intro i hi p' r hget henabled
        rw [h.letter_kept hsent hi] at hget
        rcases h.requested i hi p' r hget henabled with hdone | hworks
        · exact .inl (hdone.mono hgrows)
        · exact .inr hworks

/-- One result goes into the table. -/
theorem Sound.records (h : Sound cfg me mine net) {i : Nat} :
    Sound cfg me mine (net.step cfg me (.record i)) := by
  show Sound cfg me mine
    { net with
      requester := net.requester.record i
      recorded := net.recorded ++ net.requester.recording[i]?.toList }
  unfold Requester.record
  cases hi : net.requester.recording[i]? with
  | none =>
      rw [Option.toList_none, List.append_nil]
      exact h
  | some resp =>
      rw [Option.toList_some]
      obtain ⟨hlt, rfl⟩ := List.getElem?_eq_some_iff.1 hi
      have hperm : (net.requester.recording.eraseIdx i
          ++ (net.recorded ++ [net.requester.recording[i]])).Perm
            (net.requester.recording ++ net.recorded) := by
        rw [← List.append_assoc]
        refine (List.perm_append_singleton _ _).trans ?_
        rw [← List.cons_append]
        exact (List.getElem_cons_eraseIdx_perm hlt).append_right _
      refine ⟨h.tickets.perm (hperm.map ComputeResponse.requestId), h.drawn,
        fun resp hmem => h.taken resp (hperm.mem_iff.1 hmem), ?_, h.pending,
        h.providers, h.letters, h.bound, h.responded, h.requested⟩
      show net.requester.completedResults.put _ _ _ = _
      rw [h.table, List.map_append, List.map_singleton, FMap.puts_concat]

/-- A delivery that was done is on record. -/
theorem Sound.notes (h : Sound cfg me mine net) {i : Nat}
    (hlt : i < net.sent.length)
    (hresponded : ∀ resp, net.sent[i]? = some ⟨me, .response resp⟩ →
      resp.requestId ∉ net.requester.pendingRequests.keys)
    (hrequested : ∀ p r, net.sent[i]? = some ⟨p, .request r⟩ →
      (cfg p).enabled = true →
        Replied me net r ∨ (net.providers p).Works r.requestId) :
    Sound cfg me mine { net with delivered := net.delivered ++ [i] } := by
  have hmem : ∀ {j}, j ∈ net.delivered ++ [i] → j ∈ net.delivered ∨ j = i :=
    fun hj => (List.mem_append.1 hj).imp_right List.mem_singleton.1
  refine ⟨h.tickets, h.drawn, h.taken, h.table, h.pending, h.providers,
    h.letters, fun j hj => ?_, fun j hj => ?_, fun j hj => ?_⟩
  · rcases hmem hj with hj | rfl
    · exact h.bound j hj
    · exact hlt
  · rcases hmem hj with hj | rfl
    · exact h.responded j hj
    · exact hresponded
  · rcases hmem hj with hj | rfl
    · exact h.requested j hj
    · exact hrequested

theorem Sound.delivers (h : Sound cfg me mine net) {i : Nat} :
    Sound cfg me mine (net.step cfg me (.deliver i)) := by
  unfold Exchange.step
  dsimp only
  cases hget : net.sent[i]? with
  | none => exact h
  | some letter =>
      have hv := h.letters letter (List.mem_of_getElem? hget)
      obtain ⟨hlt, -⟩ := List.getElem?_eq_some_iff.1 hget
      obtain ⟨receiver, msg⟩ := letter
      -- the letter is where it was when its delivery is noted
      have hnote : ∀ net' : Exchange, Sound cfg me mine net' →
          Grows net net' → net'.delivered = net.delivered →
          (∀ resp, receiver = me → msg = .response resp →
            resp.requestId ∉ net'.requester.pendingRequests.keys) →
          (∀ r, msg = .request r → (cfg receiver).enabled = true →
            Replied me net' r
              ∨ (net'.providers receiver).Works r.requestId) →
          Sound cfg me mine
            { net' with delivered := net.delivered ++ [i] } := by
        intro net' h' hgrows hdelivered hresponded hrequested
        have hget' : net'.sent[i]? = some ⟨receiver, msg⟩ := by
          obtain ⟨more, hmore⟩ := hgrows.sent
          rw [← hmore, List.getElem?_append_left hlt, hget]
        rw [← hdelivered]
        refine h'.notes (Nat.lt_of_lt_of_le hlt hgrows.sent.length_le) ?_ ?_
        · intro resp hresp
          rw [hget'] at hresp
          cases hresp
          exact hresponded resp rfl rfl
        · intro p r hr
          rw [hget'] at hr
          cases hr
          exact hrequested r rfl
      cases msg with
      | request r =>
          have hfair : ∀ r', ComputeEvent.request r = .request r' →
              Ours mine net receiver r' := by
            rintro r' ⟨⟩ -
            exact hv
          refine hnote _ (h.atProvider hfair) (grows_atProvider _ _ _ _) rfl
            nofun ?_
          rintro _ ⟨⟩ henabled
          have hduty := Provider.request_works
            (x := ⟨.error .sphinxError, ""⟩) henabled
            (h.providers receiver) r
          rcases hduty with hworks | hresp
          · refine .inr ?_
            show ((Function.update net.providers receiver _)
              receiver).Works r.requestId
            rw [Function.update_self]
            exact hworks
          · exact .inl (h.replied hfair hv hresp)
      | confirmation c =>
          exact hnote _ (h.atProvider nofun) (grows_atProvider _ _ _ _) rfl
            nofun nofun
      | quote q =>
          show Sound cfg me mine
            { (if receiver = me then net.atRequester (.quote q) else net) with
              delivered := net.delivered ++ [i] }
          by_cases hme : receiver = me
          · subst hme
            rw [if_pos rfl]
            exact hnote _ (h.atRequester hv) (grows_atRequester _ _) rfl nofun
              nofun
          · rw [if_neg hme]
            exact hnote _ h ⟨List.Subset.refl _, List.Subset.refl _,
              fun _ => List.Subset.refl _, List.prefix_refl _⟩ rfl nofun nofun
      | response resp =>
          show Sound cfg me mine
            { (if receiver = me then net.atRequester (.response resp)
                else net) with delivered := net.delivered ++ [i] }
          by_cases hme : receiver = me
          · subst hme
            rw [if_pos rfl]
            refine hnote _ (h.atRequester hv) (grows_atRequester _ _) rfl ?_
              nofun
            rintro _ - ⟨⟩
            exact not_pending net resp
          · rw [if_neg hme]
            refine hnote _ h ⟨List.Subset.refl _, List.Subset.refl _,
              fun _ => List.Subset.refl _, List.prefix_refl _⟩ rfl ?_ nofun
            exact fun _ heq => absurd heq hme

/-- One move. -/
theorem Sound.step (h : Sound cfg me mine net) {mv : ExchangeMove}
    (hfair : mv.Fair me mine net) : Sound cfg me mine (net.step cfg me mv) := by
  cases mv with
  | submit p r now sent => exact h.submits hfair.1 hfair.2.1 hfair.2.2
  | confirm id txHash => exact h.confirms
  | deliver i => exact h.delivers
  | record i => exact h.records
  | provider p e x =>
      refine h.atProvider ?_
      rintro r rfl hmine
      exact absurd hmine hfair
  | stray msg =>
      cases msg with
      | request r => exact h
      | confirmation c => exact h
      | quote q => exact h.quoted fun hmine => absurd hmine hfair
      | response resp => exact h.takes fun hmine => absurd hmine hfair

-- ========== the runs

/-- Every move of the run is fair. -/
def AllFair (cfg : NodeId → ComputeConfig) (me : NodeId)
    (mine : Set RequestId) : Exchange → List ExchangeMove → Prop
  | _, [] => True
  | net, mv :: moves => mv.Fair me mine net
      ∧ AllFair cfg me mine (net.step cfg me mv) moves

theorem Sound.run (h : Sound cfg me mine net) {moves : List ExchangeMove}
    (hall : AllFair cfg me mine net moves) :
    Sound cfg me mine (net.run cfg me moves) := by
  induction moves generalizing net with
  | nil => exact h
  | cons mv moves ih => exact ih (h.step hall.1) hall.2

/-- Everything that was sent was delivered, everything that was received is
recorded, and no provider works on anything. -/
structure Settled (net : Exchange) : Prop where
  delivered : ∀ i < net.sent.length, i ∈ net.delivered
  recorded : net.requester.recording = []
  idle : ∀ p id, ¬ (net.providers p).Works id

/-- What a run makes of the requests of one requester. -/
structure Answered (cfg : NodeId → ComputeConfig) (me : NodeId)
    (net : Exchange) : Prop where
  /-- a request is pending, or has one response, and one only -/
  tickets : Tickets net.ids net.requester.pendingRequests.keys net.answered
  /-- each is by the provider that the request was submitted to -/
  answers : ∀ resp ∈ net.recorded, AnsweredBy net resp
  /-- the results that can be polled are the last block of them -/
  results : ∀ id resp, net.requester.computeResult id = some resp
    ↔ resp.requestId = id ∧ resp ∈ net.recorded.drop
      (FMap.blockStart MAX_COMPLETED_COMPUTE_RESULTS net.recorded.length)
  /-- a quote that can be polled is that provider's -/
  quotes : ∀ id q, net.requester.pendingPayment id = some q →
    ∃ p r, (p, r) ∈ net.submitted ∧ r.requestId = id ∧ Genuine cfg net p r q
  /-- a claim of payment goes to the provider that made the quote -/
  claims : ∀ id txHash p c,
    net.requester.confirmation id txHash = some (p, c) →
      c.requestId = id ∧ ∃ r q, (p, r) ∈ net.submitted ∧ r.requestId = id
        ∧ Genuine cfg net p r q ∧ c.currency = q.currency
  /-- in the end every request that was sent to a provider has its result -/
  complete : net.Settled → ∀ p r, ⟨p, .request r⟩ ∈ net.sent →
    (cfg p).enabled = true →
      ∃ resp ∈ net.recorded, resp.requestId = r.requestId

theorem Sound.results (h : Sound cfg me mine net) (id : RequestId)
    (resp : ComputeResponse) :
    net.requester.computeResult id = some resp
      ↔ resp.requestId = id ∧ resp ∈ net.recorded.drop
        (FMap.blockStart MAX_COMPLETED_COMPUTE_RESULTS
          net.recorded.length) := by
  have hkeys : (net.recorded.map fun resp => (resp.requestId, resp)).map
      Prod.fst = net.recorded.map ComputeResponse.requestId := by
    rw [List.map_map]
    rfl
  have hnodup : (net.recorded.map ComputeResponse.requestId).Nodup := by
    have honce := h.tickets.once
    unfold answered at honce
    rw [List.map_append, List.nodup_append] at honce
    exact honce.2.1
  have hblock : (((net.recorded.map fun resp => (resp.requestId, resp)).drop
      (FMap.blockStart MAX_COMPLETED_COMPUTE_RESULTS
        net.recorded.length)).map Prod.fst).Nodup := by
    rw [List.map_drop, hkeys]
    exact hnodup.sublist (List.drop_sublist _ _)
  unfold Requester.computeResult
  rw [h.table, FMap.puts_eq (by decide) (hkeys ▸ hnodup), List.length_map,
    FMap.get_tableOf hblock, ← List.map_drop, List.mem_map]
  constructor
  · rintro ⟨resp', hmem, heq⟩
    obtain ⟨rfl, rfl⟩ := Prod.mk.inj heq
    exact ⟨rfl, hmem⟩
  · rintro ⟨rfl, hmem⟩
    exact ⟨resp, hmem, rfl⟩

/-- The quote of a pending request, with the request it was made for. -/
theorem Sound.pendingQuote (h : Sound cfg me mine net) {id : RequestId}
    {entry : PendingComputeRequest} {q : PaymentRequest}
    (hget : net.requester.pendingRequests.get id = some entry)
    (hq : entry.payment = some q) :
    ∃ r, (entry.provider, r) ∈ net.submitted ∧ r.requestId = id
      ∧ Genuine cfg net entry.provider r q := by
  obtain ⟨r, hsub, hid, hgenuine⟩ := h.pending id entry hget
  exact ⟨r, hsub, hid, hgenuine q hq⟩

theorem Sound.complete (h : Sound cfg me mine net) (hsettled : net.Settled)
    {p : NodeId} {r : ComputeRequest} (hsent : ⟨p, .request r⟩ ∈ net.sent)
    (henabled : (cfg p).enabled = true) :
    ∃ resp ∈ net.recorded, resp.requestId = r.requestId := by
  have hdelivered : ∀ letter ∈ net.sent,
      ∃ i ∈ net.delivered, net.sent[i]? = some letter := by
    intro letter hmem
    obtain ⟨i, hi, hget⟩ := List.mem_iff_getElem.1 hmem
    exact ⟨i, hsettled.delivered i hi, List.getElem?_eq_some_iff.2 ⟨hi, hget⟩⟩
  obtain ⟨i, hi, hget⟩ := hdelivered _ hsent
  obtain ⟨resp, hresp, hid⟩ := (h.requested i hi p r hget
    henabled).resolve_right (hsettled.idle p r.requestId)
  obtain ⟨j, hj, hget'⟩ := hdelivered _ hresp
  have hgone := h.responded j hj resp hget'
  have hknown : resp.requestId ∈ net.ids :=
    List.mem_map.2 ⟨_, h.letters _ hsent, hid.symm⟩
  have hanswered := h.tickets.closed_of_issued hknown hgone
  unfold answered at hanswered
  rw [hsettled.recorded, List.nil_append] at hanswered
  obtain ⟨done, hdone, heq⟩ := List.mem_map.1 hanswered
  exact ⟨done, hdone, heq.trans hid⟩

/-- Compute requests of one requester, with any number of providers,
whatever is delivered, late, again or never, whatever others ask of the
providers, and however the sections of all of them interleave. -/
theorem requests_answered (cfg : NodeId → ComputeConfig) (me : NodeId)
    (mine : Set RequestId) (moves : List ExchangeMove)
    (hall : AllFair cfg me mine start moves) :
    Answered cfg me (start.run cfg me moves) := by
  have h : Sound cfg me mine (start.run cfg me moves) := sound_start.run hall
  generalize start.run cfg me moves = net at h
  refine ⟨h.tickets, fun resp hmem =>
    h.taken resp (List.mem_append_right _ hmem), h.results, ?_, ?_,
    fun hsettled p r hsent henabled => h.complete hsettled hsent henabled⟩
  · intro id q hq
    obtain ⟨entry, hget, hpay⟩ := Option.bind_eq_some_iff.1 hq
    obtain ⟨r, hsub, hid, hgenuine⟩ := h.pendingQuote hget hpay
    exact ⟨entry.provider, r, hsub, hid, hgenuine⟩
  · intro id txHash p c hc
    obtain ⟨entry, hget, hmap⟩ := Option.bind_eq_some_iff.1 hc
    obtain ⟨q, hpay, heq⟩ := Option.map_eq_some_iff.1 hmap
    obtain ⟨rfl, rfl⟩ := Prod.mk.inj heq
    obtain ⟨r, hsub, hid, hgenuine⟩ := h.pendingQuote hget hpay
    exact ⟨rfl, r, q, hsub, hid, hgenuine, rfl⟩

-- ======= one request

/-- A free provider runs a module for a request, and the result is
polled. -/
def oneResult : List ExchangeMove :=
  let runs := fun input : RunInput =>
    ExchangeMove.provider (Bytes.fill 16 1) (.run 0 input .bytewise)
      ⟨.ok ([2], 3, 4), ""⟩
  [.submit (Bytes.fill 16 1) (Provider.numbered 1) 0 true, .deliver 0,
    runs .next, runs (.retrieved (some [1])), runs .next, runs .next,
    runs .executed, .deliver 1, .record 0, runs .next]

theorem requests_answered_one :
    Answered (fun _ => Provider.freeSlot) (Bytes.zero 16)
        (start.run (fun _ => Provider.freeSlot) (Bytes.zero 16) oneResult)
      ∧ (start.run (fun _ => Provider.freeSlot) (Bytes.zero 16)
          oneResult).requester.computeResult (Bytes.ofList 32 [1])
        = some (succeeded (Bytes.ofList 32 [1]) [2] 3 4) := by
  refine ⟨requests_answered _ _ {Bytes.ofList 32 [1]} oneResult ?_, ?_⟩
  · refine ⟨⟨rfl, nofun, rfl⟩, ?_⟩
    exact ⟨trivial, trivial, trivial, trivial, trivial, trivial, trivial,
      trivial, trivial, trivial⟩
  · rfl

end Exchange

end StaticNet
