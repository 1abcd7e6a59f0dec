/-
What the local API makes of a connection, and of many.

# However it is cut

A request can come in any number of reads. What is handled is the first
buffer that parses, with one more read behind it at most. Behind a value
only blanks parse, so when the whole of it is a request the cuts do not
matter (`Settled`). A request over the limit is refused wherever it is cut,
and bytes behind a request never make it another one: it is handled or
nothing is.

# Who may do what

The token is checked before anything else. A connection without the token
is answered in the same way whatever the node's state is and leaves it as
it is, so a run comes to what it comes to without these connections. With
the token, only three actions can change the node, and each only once its
arguments are decoded.
-/
import StaticNet.Api.Server

namespace StaticNet.Api

variable {P : Prims} {rs : ErasureCode} {json : Json} {api : ApiJson}
  {texts : ApiTexts} {token : Option String} {w : ApiWorld}
  {node : ApiNode} {reads rest : List SocketRead}

-- ========== the cuts

/-- Nothing more comes in at once: the peer waits for its answer, or has
closed its side. -/
def Quiet : List SocketRead → Prop
  | .data (_ :: _) :: _ => False
  | _ => True

/-- What JSON takes for blank. -/
def isBlank (b : UInt8) : Bool :=
  b == 0x20 || b == 0x09 || b == 0x0A || b == 0x0D

/-- `serde_json::from_slice` takes blanks behind a value and nothing
else. -/
def BlanksBehind (api : ApiJson) : Prop :=
  ∀ p r, api.fromSlice p = .ok r → ∀ tail,
    (tail.all isBlank = true → api.fromSlice (p ++ tail) = .ok r)
      ∧ (tail.all isBlank = false →
        (api.fromSlice (p ++ tail)).isOk = false)

/-- What follows a prefix that parses does not make it another request. -/
def Settled (api : ApiJson) (bytes : List UInt8) : Prop :=
  ∀ p q, p <+: q → q <+: bytes → ∀ r, api.fromSlice p = .ok r →
    api.fromSlice q = .ok r

/-- A whole that parses is settled, and so is one of which nothing does. -/
theorem settled_of_blanks (hjson : BlanksBehind api) {bytes : List UInt8}
    (h : (api.fromSlice bytes).isOk = true
      ∨ ∀ p, p <+: bytes → (api.fromSlice p).isOk = false) :
    Settled api bytes := by
  rintro p _ ⟨t, rfl⟩ ⟨u, rfl⟩ r hp
  rcases h with hwhole | hnone
  · rw [List.append_assoc] at hwhole
    refine (hjson p r hp t).1 ?_
    by_contra ht
    have hall : (t ++ u).all isBlank = false := by
      rw [List.all_append, Bool.eq_false_iff.2 ht, Bool.false_and]
    rw [(hjson p r hp _).2 hall] at hwhole
    cases hwhole
  · have hclosed := hnone p
      ((List.prefix_append p t).trans (List.prefix_append _ u))
    rw [hp] at hclosed
    cases hclosed

/-- Two prefixes that parse are the same request. -/
theorem same_request (hjson : BlanksBehind api) {bytes p q : List UInt8}
    (hp : p <+: bytes) (hq : q <+: bytes) {r r' : ApiRequest}
    (hr : api.fromSlice p = .ok r) (hr' : api.fromSlice q = .ok r') :
    r = r' := by
  have hone : ∀ {p q : List UInt8} {r r' : ApiRequest}, p <+: q →
      api.fromSlice p = .ok r → api.fromSlice q = .ok r' → r = r' := by
    rintro p _ r r' ⟨t, rfl⟩ hr hr'
    have hsettled := settled_of_blanks hjson (.inl (by rw [hr']; rfl)) p _
      (List.prefix_append p t) (List.prefix_refl _) r hr
    exact Except.ok.inj (hsettled.symm.trans hr')
  rcases List.prefix_or_prefix_of_prefix hp hq with h | h
  · exact hone h hr hr'
  · exact (hone h hr' hr).symm

theorem gatherFrom_quiet (h : Quiet rest) (buf : List UInt8) :
    gatherFrom api buf rest = .request buf := by
  match rest with
  | [] => rfl
  | .failed :: _ => rfl
  | .elapsed :: _ => rfl
  | .data [] :: _ => rfl
  | .data (_ :: _) :: _ => exact h.elim

/-- One more read. -/
theorem gatherFrom_data {seg : List UInt8} (hne : seg ≠ [])
    (buf : List UInt8) (reads : List SocketRead) :
    gatherFrom api buf (.data seg :: reads)
      = if MAX_API_REQUEST_BYTES < buf.length + seg.length then .tooLarge
        else if (api.fromSlice buf).isOk then .request (buf ++ seg)
        else gatherFrom api (buf ++ seg) reads := by
  cases seg with
  | nil => exact absurd rfl hne
  | cons b bytes => rfl

/-- Within the limit, what is handled parses to what all of it does. -/
theorem gatherFrom_within {segs : List (List UInt8)} (hquiet : Quiet rest)
    (hsegs : ∀ seg ∈ segs, seg ≠ []) {buf : List UInt8}
    (hfits : (buf ++ segs.flatten).length ≤ MAX_API_REQUEST_BYTES)
    (hsettled : Settled api (buf ++ segs.flatten)) :
    ∃ taken, gatherFrom api buf (segs.map .data ++ rest) = .request taken
      ∧ api.fromSlice taken = api.fromSlice (buf ++ segs.flatten) := by
  induction segs generalizing buf with
  | nil =>
      refine ⟨buf, gatherFrom_quiet hquiet buf, ?_⟩
      rw [List.flatten_nil, List.append_nil]
  | cons seg segs ih =>
      have hall : buf ++ (seg :: segs).flatten
          = (buf ++ seg) ++ segs.flatten := by
        rw [List.flatten_cons, List.append_assoc]
      rw [hall] at hfits hsettled ⊢
      have hroom : buf.length + seg.length ≤ MAX_API_REQUEST_BYTES := by
        rw [List.length_append, List.length_append] at hfits
        omega
      rw [List.map_cons, List.cons_append,
        gatherFrom_data (hsegs seg List.mem_cons_self),
        if_neg (Nat.not_lt.2 hroom)]
      cases hparse : api.fromSlice buf with
      | error e =>
          rw [if_neg (show ¬ (Except.error e : Except String
            ApiRequest).isOk = true from Bool.false_ne_true)]
          exact ih (fun s hs => hsegs s (List.mem_cons_of_mem _ hs)) hfits
            hsettled
      | ok r =>
          -- the loop stops here, one read further
          refine ⟨buf ++ seg, if_pos rfl, ?_⟩
          have hsome := hsettled buf (buf ++ seg) (List.prefix_append _ _)
            (List.prefix_append _ _) r hparse
          have hwhole := hsettled buf _ ((List.prefix_append buf seg).trans
            (List.prefix_append _ _)) (List.prefix_refl _) r hparse
          rw [hsome, hwhole]

/-- Over the limit it is refused, where nothing before parses. -/
theorem gatherFrom_over {segs : List (List UInt8)}
    (hsegs : ∀ seg ∈ segs, seg ≠ []) {buf : List UInt8}
    (hbuf : buf.length ≤ MAX_API_REQUEST_BYTES)
    (hover : MAX_API_REQUEST_BYTES < (buf ++ segs.flatten).length)
    (hnone : ∀ p, p <+: buf ++ segs.flatten →
      p.length ≤ MAX_API_REQUEST_BYTES → (api.fromSlice p).isOk = false) :
    gatherFrom api buf (segs.map .data ++ rest) = .tooLarge := by
  induction segs generalizing buf with
  | nil =>
      rw [List.flatten_nil, List.append_nil] at hover
      omega
  | cons seg segs ih =>
      have hall : buf ++ (seg :: segs).flatten
          = (buf ++ seg) ++ segs.flatten := by
        rw [List.flatten_cons, List.append_assoc]
      rw [hall] at hover hnone
      have hclosed := hnone buf ((List.prefix_append buf seg).trans
        (List.prefix_append _ _)) hbuf
      rw [List.map_cons, List.cons_append,
        gatherFrom_data (hsegs seg List.mem_cons_self), hclosed]
      by_cases hroom : MAX_API_REQUEST_BYTES < buf.length + seg.length
      · exact if_pos hroom
      · rw [if_neg hroom, if_neg Bool.false_ne_true]
        refine ih (fun s hs => hsegs s (List.mem_cons_of_mem _ hs)) ?_ hover
          hnone
        rw [List.length_append]
        omega

/-- What is handled is a part of what was sent, from its start. -/
theorem gatherFrom_prefix (api : ApiJson) {segs : List (List UInt8)}
    (hquiet : Quiet rest) (hsegs : ∀ seg ∈ segs, seg ≠ []) (buf : List UInt8) :
    gatherFrom api buf (segs.map .data ++ rest) = .tooLarge
      ∨ ∃ taken, gatherFrom api buf (segs.map .data ++ rest)
          = .request taken ∧ taken <+: buf ++ segs.flatten := by
  induction segs generalizing buf with
  | nil =>
      exact .inr ⟨buf, gatherFrom_quiet hquiet buf, List.prefix_append _ _⟩
  | cons seg segs ih =>
      rw [List.map_cons, List.cons_append,
        gatherFrom_data (hsegs seg List.mem_cons_self), List.flatten_cons,
        ← List.append_assoc]
      split
      · exact .inl rfl
      · split
        · exact .inr ⟨_, rfl, List.prefix_append _ _⟩
        · exact ih (fun s hs => hsegs s (List.mem_cons_of_mem _ hs)) _

theorem gather_cons {seg : List UInt8} (hne : seg ≠ [])
    (reads : List SocketRead) :
    gather api (.data seg :: reads)
      = if MAX_API_REQUEST_BYTES < seg.length then .tooLarge
        else gatherFrom api seg reads := by
  cases seg with
  | nil => exact absurd rfl hne
  | cons b bytes => rfl

theorem serve_data {seg : List UInt8} (hne : seg ≠ [])
    (reads : List SocketRead) :
    serve P rs json api texts token (.data seg :: reads) w node
      = if MAX_API_REQUEST_BYTES < seg.length then
          node.answers (apiError "request too large")
        else match gatherFrom api seg reads with
          | .nothing => ⟨none, node, []⟩
          | .tooLarge => node.answers (apiError "request too large")
          | .request bytes =>
              handleBuffer P rs json api texts token w node bytes := by
  unfold serve
  rw [gather_cons hne]
  by_cases hroom : MAX_API_REQUEST_BYTES < seg.length
  · rw [if_pos hroom, if_pos hroom]
  · rw [if_neg hroom]
    exact (if_neg hroom).symm

/-- Within the limit, a request does what it asks for in however many reads
it comes. -/
theorem serve_within {segs : List (List UInt8)} (hsome : segs ≠ [])
    (hsegs : ∀ seg ∈ segs, seg ≠ []) (hquiet : Quiet rest)
    (hfits : segs.flatten.length ≤ MAX_API_REQUEST_BYTES)
    (hsettled : Settled api segs.flatten) :
    serve P rs json api texts token (segs.map .data ++ rest) w node
      = handleBuffer P rs json api texts token w node segs.flatten := by
  obtain ⟨seg, segs, rfl⟩ := List.exists_cons_of_ne_nil hsome
  rw [List.flatten_cons] at hfits hsettled ⊢
  have hroom : seg.length ≤ MAX_API_REQUEST_BYTES := by
    rw [List.length_append] at hfits
    omega
  obtain ⟨taken, hgather, hparse⟩ := gatherFrom_within hquiet
    (fun s hs => hsegs s (List.mem_cons_of_mem _ hs)) hfits hsettled
  rw [List.map_cons, List.cons_append,
    serve_data (hsegs seg List.mem_cons_self), if_neg (Nat.not_lt.2 hroom),
    hgather]
  dsimp only
  unfold handleBuffer
  rw [hparse]

/-- Over it, it does nothing in however many. -/
theorem serve_over {segs : List (List UInt8)}
    (hsegs : ∀ seg ∈ segs, seg ≠ [])
    (hover : MAX_API_REQUEST_BYTES < segs.flatten.length)
    (hnone : ∀ p, p <+: segs.flatten → p.length ≤ MAX_API_REQUEST_BYTES →
      (api.fromSlice p).isOk = false) :
    serve P rs json api texts token (segs.map .data ++ rest) w node
      = node.answers (apiError "request too large") := by
  cases segs with
  | nil => exact absurd hover (Nat.not_lt_zero _)
  | cons seg segs =>
      rw [List.flatten_cons] at hover hnone
      rw [List.map_cons, List.cons_append,
        serve_data (hsegs seg List.mem_cons_self)]
      split
      · rfl
      · rename_i hroom
        rw [gatherFrom_over
          (fun s hs => hsegs s (List.mem_cons_of_mem _ hs))
          (Nat.not_lt.1 hroom) hover hnone]

/-- A request with anything behind it is handled, or nothing is. -/
theorem serve_behind {segs : List (List UInt8)}
    (hjson : BlanksBehind api) (hsome : segs ≠ [])
    (hsegs : ∀ seg ∈ segs, seg ≠ []) (hquiet : Quiet rest)
    {p : List UInt8} {r : ApiRequest} (hp : p <+: segs.flatten)
    (hr : api.fromSlice p = .ok r) :
    serve P rs json api texts token (segs.map .data ++ rest) w node
        = handleRequest P rs json texts w r node token
      ∨ ∃ words, serve P rs json api texts token
          (segs.map .data ++ rest) w node = node.answers (apiError words) := by
  obtain ⟨seg, segs, rfl⟩ := List.exists_cons_of_ne_nil hsome
  rw [List.flatten_cons] at hp
  rw [List.map_cons, List.cons_append,
    serve_data (hsegs seg List.mem_cons_self)]
  split
  · exact .inr ⟨_, rfl⟩
  · rcases gatherFrom_prefix api hquiet
      (fun s hs => hsegs s (List.mem_cons_of_mem _ hs)) seg with
      hlarge | ⟨taken, htaken, hpart⟩
    · rw [hlarge]
      exact .inr ⟨_, rfl⟩
    · rw [htaken]
      dsimp only
      unfold handleBuffer
      cases hparse : api.fromSlice taken with
      | error e => exact .inr ⟨_, rfl⟩
      | ok r' =>
          rw [same_request hjson hp hpart hr hparse]
          exact .inl rfl

/-- The cuts between the reads never decide what a request is. One that
parses as a whole, or of which nothing parses, is handled as its whole
bytes are; one that is too large before anything of it parses is refused;
and what stands behind a request does not make it another. -/
theorem request_framing (P : Prims) (rs : ErasureCode) (json : Json)
    (api : ApiJson) (hjson : BlanksBehind api) (texts : ApiTexts)
    (token : Option String) (w : ApiWorld) (node : ApiNode)
    (segs : List (List UInt8)) (hsome : segs ≠ [])
    (hsegs : ∀ seg ∈ segs, seg ≠ []) (rest : List SocketRead)
    (hquiet : Quiet rest) :
    (segs.flatten.length ≤ MAX_API_REQUEST_BYTES →
      ((api.fromSlice segs.flatten).isOk = true
        ∨ ∀ p, p <+: segs.flatten → (api.fromSlice p).isOk = false) →
        serve P rs json api texts token (segs.map .data ++ rest) w node
          = handleBuffer P rs json api texts token w node segs.flatten)
      ∧ (MAX_API_REQUEST_BYTES < segs.flatten.length →
        (∀ p, p <+: segs.flatten → p.length ≤ MAX_API_REQUEST_BYTES →
          (api.fromSlice p).isOk = false) →
        serve P rs json api texts token (segs.map .data ++ rest) w node
          = node.answers (apiError "request too large"))
      ∧ ∀ p r, p <+: segs.flatten → api.fromSlice p = .ok r →
        serve P rs json api texts token (segs.map .data ++ rest) w node
            = handleRequest P rs json texts w r node token
          ∨ ∃ words, serve P rs json api texts token
              (segs.map .data ++ rest) w node
                = node.answers (apiError words) :=
  ⟨fun hfits h => serve_within hsome hsegs hquiet hfits
      (settled_of_blanks hjson h),
    fun hover hnone => serve_over hsegs hover hnone,
    fun _ _ hp hr => serve_behind hjson hsome hsegs hquiet hp hr⟩

/-- A parser that knows one value, with blanks between its bytes. -/
def onlyJson (text : List UInt8) (request : ApiRequest)
    (toVec : ApiResponse → Option (List UInt8)) : ApiJson where
  fromSlice := fun bytes =>
    if bytes.filter (!isBlank ·) = text then .ok request
    else .error "expected value"
  toVec := toVec

theorem onlyJson_blanks (text : List UInt8) (request : ApiRequest)
    (toVec : ApiResponse → Option (List UInt8)) :
    BlanksBehind (onlyJson text request toVec) := by
  intro p r hp tail
  have htext : p.filter (!isBlank ·) = text ∧ request = r := by
    unfold onlyJson at hp
    dsimp only at hp
    split at hp
    · rename_i htext
      exact ⟨htext, Except.ok.inj hp⟩
    · cases hp
  obtain ⟨htext, rfl⟩ := htext
  have hall : (p ++ tail).filter (!isBlank ·) = text
      ↔ tail.all isBlank = true := by
    rw [List.filter_append, htext, List.append_right_eq_self,
      List.filter_eq_nil_iff, List.all_eq_true]
    refine forall₂_congr fun b _ => ?_
    rw [Bool.not_eq_true, Bool.not_eq_false']
  constructor
  · intro htail
    exact if_pos (hall.2 htail)
  · intro htail
    have hnot : ¬ (p ++ tail).filter (!isBlank ·) = text := by
      rw [hall, htail]
      exact Bool.false_ne_true
    rw [show (onlyJson text request toVec).fromSlice (p ++ tail)
      = .error "expected value" from if_neg hnot]
    rfl

/-- An object whose action is empty. -/
def noAction : List UInt8 :=
  [0x7B, 0x22, 0x61, 0x63, 0x74, 0x69, 0x6F, 0x6E, 0x22, 0x3A, 0x22, 0x22,
    0x7D]

def noActionJson : ApiJson :=
  onlyJson noAction ⟨"", none, none, none, none, none, none⟩ fun _ => none

def noTexts : ApiTexts := ⟨fun _ => "", fun _ => "", fun _ => ""⟩

/-- A node that knows nobody, and does nothing but answer. -/
def aloneNode : ApiNode := ⟨alonePublisher, ⟨∅, ∅, []⟩, false⟩

def aloneWorld : ApiWorld where
  publishEnv := aloneEnv
  publish := smallDraws
  retrieve := ⟨false, true, true, id, id, IterOrder.bytewise⟩
  routing := .new (Bytes.fill 16 1)
  order := IterOrder.bytewise
  requestId := Bytes.zero 32
  self := loneRoute
  now := 0
  turn := ⟨.new (Bytes.fill 16 1), IterOrder.bytewise, id,
    fun nodes => List.Perm.refl nodes, .new (Bytes.fill 16 1),
    fun _ => quietDraws⟩
  takes := fun _ _ => true
  later := ⟨∅, ∅, []⟩

/-- Cut in the middle of a key, with a line end behind; and a byte of blanks
too many. -/
theorem request_framing_cut :
    serve .plain mirrorCode unaryJson noActionJson noTexts none
        [.data (noAction.take 5), .data (noAction.drop 5 ++ [0x0A])]
        aloneWorld aloneNode
      = aloneNode.answers (apiError "Unknown action")
      ∧ serve .plain mirrorCode unaryJson noActionJson noTexts none
          [.data (List.replicate (1024 * 1024 + 1) 0x20)] aloneWorld aloneNode
        = aloneNode.answers (apiError "request too large") := by
  constructor
  · refine ((request_framing .plain mirrorCode unaryJson noActionJson
      (onlyJson_blanks _ _ _) noTexts none aloneWorld aloneNode
      [noAction.take 5, noAction.drop 5 ++ [0x0A]] (by decide) (by decide) []
      trivial).1 (by decide) (.inl (by decide))).trans ?_
    have hparse : noActionJson.fromSlice
        [noAction.take 5, noAction.drop 5 ++ [0x0A]].flatten
          = .ok ⟨"", none, none, none, none, none, none⟩ := by
      decide
    unfold handleBuffer
    rw [hparse]
    rfl
  · refine (request_framing .plain mirrorCode unaryJson noActionJson
      (onlyJson_blanks _ _ _) noTexts none aloneWorld aloneNode
      [List.replicate (1024 * 1024 + 1) 0x20] (List.cons_ne_nil _ _)
      (fun seg hseg => ?_) [] trivial).2.1 ?_ fun p hp _ => ?_
    · rw [List.mem_singleton] at hseg
      rw [hseg, ← List.length_pos_iff, List.length_replicate]
      decide
    · rw [List.flatten_singleton, List.length_replicate]
      decide
    · rw [List.flatten_singleton] at hp
      have hblank : p.filter (!isBlank ·) = [] := by
        rw [List.filter_eq_nil_iff]
        intro b hb
        rw [List.eq_of_mem_replicate (hp.subset hb)]
        decide
      have hclosed : noActionJson.fromSlice p = .error "expected value" := by
        refine if_neg ?_
        rw [hblank]
        decide
      rw [hclosed]
      rfl

-- ========= the token

/-- The request of a connection, when there is one that may be handled. -/
def admitted (api : ApiJson) (token : Option String)
    (reads : List SocketRead) : Option ApiRequest :=
  match gather api reads with
  | .request bytes =>
      (api.fromSlice bytes).toOption.filter fun r => verifyToken r.token token
  | _ => none

/-- What a connection is told without looking at the node. -/
def refusal (api : ApiJson) (reads : List SocketRead) :
    Option ApiResponse :=
  match gather api reads with
  | .nothing => none
  | .tooLarge => some (apiError "request too large")
  | .request bytes =>
      match api.fromSlice bytes with
      | .error e => some (apiError ("Invalid request: " ++ e))
      | .ok _ => some (apiError "unauthorized: invalid or missing API token")

theorem serve_refused (h : admitted api token reads = none) :
    serve P rs json api texts token reads w node
      = ⟨refusal api reads, node, []⟩ := by
  unfold admitted at h
  unfold serve refusal
  cases hgather : gather api reads with
  | nothing => rfl
  | tooLarge => rfl
  | request bytes =>
      rw [hgather] at h
      dsimp only at h ⊢
      unfold handleBuffer
      cases hparse : api.fromSlice bytes with
      | error e => rfl
      | ok r =>
          rw [hparse] at h
          have htoken : verifyToken r.token token = false := by
            cases hverify : verifyToken r.token token with
            | false => rfl
            | true =>
                have hsome : Option.filter (fun r => verifyToken r.token token)
                    (some r) = some r := by
                  rw [Option.filter_some, hverify, if_pos rfl]
                exact absurd (hsome.symm.trans h) nofun
          dsimp only
          unfold handleRequest
          rw [htoken, Bool.not_false, if_pos rfl]
          rfl

theorem serve_admitted {r : ApiRequest}
    (h : admitted api token reads = some r) :
    serve P rs json api texts token reads w node
      = handleRequest P rs json texts w r node token := by
  unfold admitted at h
  unfold serve
  cases hgather : gather api reads with
  | nothing =>
      rw [hgather] at h
      cases h
  | tooLarge =>
      rw [hgather] at h
      cases h
  | request bytes =>
      rw [hgather] at h
      dsimp only at h ⊢
      unfold handleBuffer
      cases hparse : api.fromSlice bytes with
      | error e =>
          rw [hparse] at h
          cases h
      | ok r' =>
          rw [hparse] at h
          obtain ⟨hr, -⟩ := Option.filter_eq_some_iff.1 h
          cases Option.some.inj hr
          rfl

-- ======= the actions

/-- A request whose arguments are decoded, and that may change the node. -/
def Decoded (r : ApiRequest) : Prop :=
  (r.action = "publish" ∧ ∃ data, hexDecode (r.data.getD "") = .ok data)
    ∨ (r.action = "retrieve"
      ∧ ∃ key, parseContentKey r.contentPubKey = .ok key)
    ∨ (r.action = "compute"
      ∧ (∃ key, parseContentKey r.contentPubKey = .ok key)
      ∧ (∃ hex input, r.data = some hex ∧ hexDecode hex = .ok input)
      ∧ ∃ currency, requestedCurrency r.computeCurrency = .ok currency)

theorem halts_node (words : String → String) (h : Halt String) :
    (node.halts words h).node = node := by
  cases h <;> rfl

theorem computeAction_node {r : ApiRequest}
    (h : (computeAction P texts w r node).node ≠ node) :
    (∃ key, parseContentKey r.contentPubKey = .ok key)
      ∧ (∃ hex input, r.data = some hex ∧ hexDecode hex = .ok input)
      ∧ ∃ currency, requestedCurrency r.computeCurrency = .ok currency := by
  unfold computeAction at h
  cases hkey : parseContentKey r.contentPubKey with
  | error e =>
      rw [hkey] at h
      exact absurd (halts_node _ _) h
  | ok key =>
      rw [hkey] at h
      dsimp only at h
      cases hdata : r.data with
      | none =>
          rw [hdata] at h
          exact absurd rfl h
      | some hex =>
          rw [hdata, Option.map_some] at h
          cases hinput : hexDecode hex with
          | error e =>
              rw [hinput] at h
              exact absurd (halts_node _ _) h
          | ok input =>
              rw [hinput] at h
              dsimp only at h
              cases hcurrency : requestedCurrency r.computeCurrency with
              | error e =>
                  rw [hcurrency] at h
                  exact absurd rfl h
              | ok currency =>
                  exact ⟨⟨key, rfl⟩, ⟨hex, input, rfl, hinput⟩, currency, rfl⟩

/-- Only a request that is decoded changes the node. -/
theorem handleRequest_node {r : ApiRequest}
    (h : (handleRequest P rs json texts w r node token).node ≠ node) :
    Decoded r := by
  unfold handleRequest at h
  split at h
  · exact absurd rfl h
  · split at h
    · rename_i haction
      refine .inl ⟨haction, ?_⟩
      unfold publishAction at h
      cases hdata : hexDecode (r.data.getD "") with
      | error e =>
          rw [hdata] at h
          exact absurd (halts_node _ _) h
      | ok data => exact ⟨data, rfl⟩
    · split at h
      · rename_i haction
        refine .inr (.inl ⟨haction, ?_⟩)
        unfold retrieveAction at h
        cases hkey : parseContentKey r.contentPubKey with
        | error e =>
            rw [hkey] at h
            exact absurd (halts_node _ _) h
        | ok key => exact ⟨key, rfl⟩
      · split at h
        · rename_i haction
          exact .inr (.inr ⟨haction, computeAction_node h⟩)
        · split at h
          · unfold computeResultAction at h
            split at h
            · exact absurd (halts_node _ _) h
            · exact absurd rfl h
          · split at h
            · unfold computeConfirmAction at h
              split at h
              · exact absurd rfl h
              · split at h
                · exact absurd rfl h
                · split at h
                  · exact absurd (halts_node _ _) h
                  · exact absurd rfl h
            · exact absurd rfl h

-- ========== the runs

/-- A connection, or whatever else the node does. -/
inductive ApiEvent
  | connection (reads : List SocketRead) (w : ApiWorld)
  | other (f : ApiNode → ApiNode)

/-- What a run comes to: the node, what each connection was told, and what
was sent. -/
structure ApiTrace where
  node : ApiNode
  responses : List (List SocketRead × Option ApiResponse)
  sent : List ApiSent

section Runs

variable (P : Prims) (rs : ErasureCode) (json : Json) (api : ApiJson)
  (texts : ApiTexts) (token : Option String)

def runApi (node : ApiNode) : List ApiEvent → ApiTrace
  | [] => ⟨node, [], []⟩
  | .other f :: events => runApi (f node) events
  | .connection reads w :: events =>
      let out := serve P rs json api texts token reads w node
      let later := runApi out.node events
      ⟨later.node, (reads, out.response) :: later.responses,
        out.sent ++ later.sent⟩

/-- Whatever else happens, and the connections that may do something. -/
def ApiEvent.counts : ApiEvent → Bool
  | .other _ => true
  | .connection reads _ => (admitted api token reads).isSome

end Runs

/-- The run without the other connections comes to the same. -/
structure Same (api : ApiJson) (token : Option String)
    (trace trace' : ApiTrace) : Prop where
  node : trace.node = trace'.node
  sent : trace.sent = trace'.sent
  responses : trace.responses.filter
      (fun x => (admitted api token x.1).isSome) = trace'.responses
  refused : ∀ x ∈ trace.responses, admitted api token x.1 = none →
    x.2 = refusal api x.1

theorem runApi_counts (node : ApiNode) (events : List ApiEvent) :
    Same api token (runApi P rs json api texts token node events)
      (runApi P rs json api texts token node
        (events.filter (ApiEvent.counts api token))) := by
  induction events generalizing node with
  | nil =>
      exact ⟨rfl, rfl, rfl, fun x hx => absurd hx List.not_mem_nil⟩
  | cons e events ih =>
      cases e with
      | other f => exact ih (f node)
      | connection reads w =>
          cases hadmitted : admitted api token reads with
          | none =>
              have hskip : ¬ ApiEvent.counts api token
                  (.connection reads w) = true := by
                show ¬ (admitted api token reads).isSome = true
                rw [hadmitted]
                exact Bool.false_ne_true
              obtain ⟨hnode, hsent, hresponses, hrefused⟩ := ih node
              rw [List.filter_cons_of_neg hskip, runApi,
                serve_refused hadmitted]
              refine ⟨hnode, hsent, ?_, fun x hx hnone => ?_⟩
              · rw [List.filter_cons_of_neg (by rw [hadmitted]; decide)]
                exact hresponses
              · rcases List.mem_cons.1 hx with rfl | hx
                · rfl
                · exact hrefused x hx hnone
          | some r =>
              have hkeep : ApiEvent.counts api token
                  (.connection reads w) = true := by
                show (admitted api token reads).isSome = true
                rw [hadmitted]
                rfl
              obtain ⟨hnode, hsent, hresponses, hrefused⟩ :=
                ih (serve P rs json api texts token reads w node).node
              rw [List.filter_cons_of_pos hkeep, runApi, runApi]
              refine ⟨hnode, congrArg (_ ++ ·) hsent, ?_, fun x hx hnone => ?_⟩
              · rw [List.filter_cons_of_pos (by rw [hadmitted]; rfl)]
                exact congrArg (_ :: ·) hresponses
              · rcases List.mem_cons.1 hx with rfl | hx
                · rw [hadmitted] at hnone
                  cases hnone
                · exact hrefused x hx hnone

/-- Connections without the token come to nothing: the node, what is sent
and what the others are told are those of the run without them, and what
they are told does not depend on the node. With the token only a request
whose arguments are decoded changes the node. -/
theorem token_gate (P : Prims) (rs : ErasureCode) (json : Json)
    (api : ApiJson) (texts : ApiTexts) (token : Option String)
    (node : ApiNode) (events : List ApiEvent) :
    Same api token (runApi P rs json api texts token node events)
        (runApi P rs json api texts token node
          (events.filter (ApiEvent.counts api token)))
      ∧ ∀ reads w node',
        (serve P rs json api texts token reads w node').node ≠ node' →
          ∃ r, admitted api token reads = some r ∧ Decoded r := by
  refine ⟨runApi_counts node events, fun reads w node' hne => ?_⟩
  cases hadmitted : admitted api token reads with
  | none =>
      rw [serve_refused hadmitted] at hne
      exact absurd rfl hne
  | some r =>
      rw [serve_admitted hadmitted] at hne
      exact ⟨r, rfl, handleRequest_node hne⟩

end StaticNet.Api
