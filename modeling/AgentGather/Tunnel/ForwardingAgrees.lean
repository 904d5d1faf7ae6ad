import AgentGather.Tunnel.Forwarding
import AgentGather.Tunnel.RelayOnce

/-!
# Both ways of forwarding agree

The room server sees the same request and the participant is sent the same response, unless
the response declares more than it has.
-/

namespace AgentGather.Tunnel

open AgentGather.Library AgentGather.Protocol

/-! ## Headers -/

theorem get?_selectHeaders (names : List String) (headers : IncomingHeaders) (name : String) :
    (selectHeaders names headers).get? name = (headers.map.get? name).bind fun value =>
      if names.contains name.toLower then value.map HeaderValue.text else none :=
  OrderedMap.get?_select headers.map.distinct headers.lower name

theorem toLower_of_mem_selectHeaders {names : List String} {headers : IncomingHeaders}
    {name : String} (h : name ∈ (selectHeaders names headers).keys) : name.toLower = name := by
  cases hget : headers.map.get? name with
  | none =>
      have hnone : (selectHeaders names headers).get? name = none := by
        rw [get?_selectHeaders, hget]
        rfl
      exact absurd h (OrderedMap.get?_eq_none_iff.mp hnone)
  | some value => exact headers.lower name (OrderedMap.mem_keys_of_get? hget)

theorem get?_translateEnvelopeHeaders (headers : IncomingHeaders) (targetOrigin name : String) :
    (translateEnvelopeHeaders (selectEnvelopeHeaders headers) targetOrigin).get? name =
      ((selectHeaders envelopeHeaders headers).get? name).bind fun value =>
        if name.toLower = "origin" then some targetOrigin
        else if name.toLower = "referer" then some (targetOrigin ++ "/")
        else if forwardedRequestHeaders.contains name.toLower then some value
        else none :=
  OrderedMap.get?_select (selectHeaders envelopeHeaders headers).distinct
    (fun _ h => toLower_of_mem_selectHeaders h) name

theorem get?_selectRequestHeaders (headers : IncomingHeaders) (targetOrigin name : String) :
    (selectRequestHeaders headers targetOrigin).get? name =
      if name = "referer" ∧ headers.has "referer" then some (targetOrigin ++ "/")
      else if name = "origin" ∧ headers.has "origin" then some targetOrigin
      else (selectHeaders forwardedRequestHeaders headers).get? name := by
  rw [selectRequestHeaders, OrderedMap.get?_ite_set, OrderedMap.get?_ite_set]

/-- The host makes of the envelope's headers what the broker itself selects. -/
theorem translateEnvelopeHeaders_eq (headers : IncomingHeaders) (targetOrigin name : String) :
    (translateEnvelopeHeaders (selectEnvelopeHeaders headers) targetOrigin).get? name =
      (selectRequestHeaders headers targetOrigin).get? name := by
  rw [get?_translateEnvelopeHeaders, get?_selectRequestHeaders, get?_selectHeaders,
    get?_selectHeaders]
  have hhas : headers.has name = (headers.map.get? name).join.isSome := rfl
  cases hvalue : (headers.map.get? name).join with
  | none =>
      have hnot (other : String) : ¬(name = other ∧ headers.has other = true) := by
        rintro ⟨rfl, h⟩
        rw [hhas, hvalue] at h
        cases h
      have hselected (names : List String) : ((headers.map.get? name).bind fun value =>
          if names.contains name.toLower then value.map HeaderValue.text else none) = none := by
        cases hget : headers.map.get? name with
        | none => rfl
        | some value =>
            rw [hget, Option.join_some] at hvalue
            simp [hvalue]
      rw [hselected, hselected, if_neg (hnot "referer"), if_neg (hnot "origin")]
      rfl
  | some value =>
      have hget : headers.map.get? name = some (some value) := Option.join_eq_some_iff.mp hvalue
      have hlower : name.toLower = name :=
        headers.lower name (OrderedMap.mem_keys_of_get? hget)
      have hpresent : headers.has name = true := by
        rw [hhas, hvalue]
        rfl
      rw [hget, Option.bind_some, Option.bind_some, hlower]
      by_cases horigin : name = "origin"
      · subst horigin
        simp [hpresent, envelopeHeaders]
      · by_cases hreferer : name = "referer"
        · subst hreferer
          simp [hpresent, envelopeHeaders]
        · have hsame : envelopeHeaders.contains name = forwardedRequestHeaders.contains name := by
            simp [envelopeHeaders, forwardedRequestHeaders, horigin, hreferer]
          simp only [hsame, horigin, hreferer, false_and, if_false]
          cases forwardedRequestHeaders.contains name with
          | false => rfl
          | true => rfl

theorem get?_selectForwardedResponseHeaders (header : String → Option String)
    (name : String) : (selectForwardedResponseHeaders header).get? name =
      if name ∈ forwardedResponseHeaders then header name else none := by
  have hlookup (names : List String) :
      (names.map fun name => (name, ())).lookup name =
        if name ∈ names then some () else none := by
    induction names with
    | nil => rfl
    | cons other names ih =>
        by_cases h : name = other
        · simp [h]
        · rw [List.map_cons, List.lookup_cons, beq_eq_false_iff_ne.mpr h, ih]
          simp [h]
  have hselect : (selectForwardedResponseHeaders header).get? name =
      ((forwardedResponseHeaders.map fun name => (name, ())).lookup name).bind fun _ =>
        header name :=
    OrderedMap.get?_select (by decide) (fun _ _ => rfl) name
  rw [hselect, hlookup]
  split
  · rfl
  · rfl

/-- Headers of a response that are forwarded once are forwarded twice. -/
theorem headers_writeRelayed (header : String → Option String) (status : Nat)
    (bodyBase64 : Option String) :
    (writeRelayed ⟨status, (selectForwardedResponseHeaders header).entries,
      bodyBase64⟩).headers = (selectForwardedResponseHeaders header).get? := by
  have hmem {name : String} (h : name ∈ (selectForwardedResponseHeaders header).keys) :
      name ∈ forwardedResponseHeaders := by
    by_contra hnot
    have hnone := get?_selectForwardedResponseHeaders header name
    rw [if_neg hnot, OrderedMap.get?_eq_none_iff] at hnone
    exact hnone h
  have hlower : ∀ name ∈ forwardedResponseHeaders,
      name.toLower = name ∧ forwardedResponseHeaders.contains name = true := by
    decide +kernel
  funext name
  have hselect : (writeRelayed ⟨status, (selectForwardedResponseHeaders header).entries,
      bodyBase64⟩).headers name =
        ((selectForwardedResponseHeaders header).get? name).bind fun value =>
          if forwardedResponseHeaders.contains name.toLower then some value else none :=
    OrderedMap.get?_select (selectForwardedResponseHeaders header).distinct
      (fun _ h => (hlower _ (hmem h)).1) name
  rw [hselect]
  cases hget : (selectForwardedResponseHeaders header).get? name with
  | none => rfl
  | some value =>
      obtain ⟨hname, hcontains⟩ := hlower name (hmem (OrderedMap.mem_keys_of_get? hget))
      rw [Option.bind_some, hname, hcontains]
      rfl

/-! ## Bodies -/

theorem streamChunks_within {limitBytes : Nat} {out : Bytes} {chunks : List Bytes}
    (h : (out ++ chunks.flatten).length ≤ limitBytes) :
    streamChunks limitBytes out chunks = (out ++ chunks.flatten, true) := by
  induction chunks generalizing out with
  | nil => simp [streamChunks]
  | cons chunk chunks ih =>
      rw [List.flatten_cons, ← List.append_assoc] at h ⊢
      have hchunk : ¬ limitBytes < out.length + chunk.length := by
        simp only [List.length_append] at h
        omega
      rw [streamChunks, if_neg hchunk, ih h]

theorem bodyBytes_bodyText (bytes : Bytes) : bodyBytes (bodyText bytes) = bytes := by
  rw [bodyBytes, bodyText, String.toList_ofList, Base64.decode_encode]

/-- The envelope's size is the size of the body. -/
theorem base64ByteLength_bodyText (bytes : Bytes) :
    base64ByteLength (bodyText bytes) = bytes.length := by
  have hunits : ∀ c ∈ '=' :: Base64.alphabet, Text.codeUnits c = 1 :=
    List.all_iff_forall_prop.mp (by decide +kernel)
  have hunit : ∀ c ∈ Base64.encode bytes, Text.codeUnits c = 1 := by
    intro c hc
    rw [Base64.encode, List.mem_append] at hc
    rcases hc with hc | hc
    · exact hunits c (List.mem_cons_of_mem _ (Base64.mem_digits hc).1)
    · exact hunits c (List.eq_of_mem_replicate hc ▸ List.mem_cons_self)
  have hlength : Text.utf16Length (Base64.encode bytes) = (bytes.length + 2) / 3 * 4 := by
    rw [Text.utf16Length, List.map_congr_left hunit, List.map_const', List.sum_replicate_nat,
      Nat.mul_one, Base64.length_encode]
  rw [base64ByteLength, bodyText, String.toList_ofList, hlength]
  by_cases hbytes : bytes = []
  · subst hbytes
    rfl
  · obtain ⟨c, d, rest, hreverse, hc, hd⟩ := Base64.reverse_encode hbytes
    have hc1 : Text.codeUnits c = 1 := by
      apply hunit
      rw [← List.mem_reverse, hreverse]
      exact List.mem_cons_self
    have hpos : 0 < bytes.length := List.length_pos_iff.mpr hbytes
    rw [hreverse]
    simp only [hc1, if_true, Option.some.injEq, hc, hd]
    split_ifs <;> omega

/-! ## The hub -/

/-- An envelope is claimed right after it was queued. -/
theorem claim_enqueue_initial (o : RelayOptions) (mint : IdSupply) (envelope : RequestEnvelope) :
    ∃ hub item, (RelayHub.initial.enqueue o mint envelope.routeSlug envelope).1.claim o
        envelope.routeSlug = (hub, some ⟨mint.id 0, envelope⟩) ∧
      hub.inflight.get? (mint.id 0) = some item := by
  let item : InFlight := ⟨⟨mint.id 0, envelope⟩, envelope.routeSlug, false, 0⟩
  let queued := (RelayHub.initial.enqueue o mint envelope.routeSlug envelope).1
  have hpending : queued.pending.get? envelope.routeSlug = some [mint.id 0] :=
    OrderedMap.get?_set_self _ _ _
  have hitem : queued.inflight.get? (mint.id 0) = some item := OrderedMap.get?_set_self _ _ _
  refine ⟨queued.take o envelope.routeSlug (mint.id 0) item [],
    { item with claimed := true, timer := queued.timersSet }, ?_, OrderedMap.get?_set_self _ _ _⟩
  rw [RelayHub.claim, hpending]
  change queued.claimQueue o _ _ = _
  rw [RelayHub.claimQueue, hitem]
  rfl

/-- Whatever becomes of an envelope, the host has fetched it. -/
theorem throughHub_seen (o : RelayOptions) (mint : IdSupply) (envelope : RequestEnvelope)
    (host : ForwardedRequest → List FetchRequest × ForwardedResponse) :
    (throughHub o mint envelope host).1 = (host ⟨mint.id 0, envelope⟩).1 := by
  obtain ⟨hub, item, hclaim, -⟩ := claim_enqueue_initial o mint envelope
  rw [throughHub]
  simp only [hclaim]
  split
  · rfl
  · rfl
  · rfl

/-- An envelope comes back with the host's response. -/
theorem throughHub_eq (o : RelayOptions) (mint : IdSupply) (envelope : RequestEnvelope)
    {host : ForwardedRequest → List FetchRequest × ForwardedResponse}
    {seen : List FetchRequest} {response : ForwardedResponse}
    (hhost : host ⟨mint.id 0, envelope⟩ = (seen, response))
    (hlimit : (response.bodyBase64.map base64ByteLength).getD 0 ≤ o.responseBodyBytes) :
    throughHub o mint envelope host = (seen, .ok response) := by
  obtain ⟨hub, item, hclaim, hitem⟩ := claim_enqueue_initial o mint envelope
  have hsettled : (hub.respond o (mint.id 0) response).1.settlements.lookup (mint.id 0) =
      some (.resolved response) := by
    rw [RelayHub.respond, hitem]
    change List.lookup _ (RelayHub.settlements (Prod.fst (ite _ _ _))) = _
    rw [if_neg (Nat.not_lt.mpr hlimit), (RelayHub.settle_eq _ hitem).2.2.2.2.1]
    exact List.lookup_cons_self
  have hid : (RelayHub.initial.enqueue o mint envelope.routeSlug envelope).2 = mint.id 0 := rfl
  rw [throughHub]
  simp only [hclaim, hhost, hid, hsettled]

/-! ## Both ways -/

/-- What the broker asks the room server for directly. -/
def ForwardOptions.fetched (o : ForwardOptions) (target : TargetBase) (body : Option Bytes) :
    FetchRequest :=
  ⟨targetUrl target o.path, o.req.verb,
    (selectRequestHeaders o.req.headers target.origin).get?, body⟩

/-- The envelope of a participant's request. -/
def ForwardOptions.envelope (o : ForwardOptions) (slug : String) (body : Option Bytes) :
    RequestEnvelope :=
  ⟨slug, o.req.verb, String.ofList o.path, selectEnvelopeHeaders o.req.headers,
    body.map bodyText⟩

variable {H : HostParser} {fetch : FetchRequest → Option HostResponse} {o : ForwardOptions}

theorem forwardToHost_eq {target : TargetBase} {body : Option Bytes}
    (htarget : targetBase H o.target = some target)
    (hbody : readRequestBody o.req o.requestBodyBytes = .ok body) :
    forwardToHost H fetch o = match fetch (o.fetched target body) with
      | none => ⟨[o.fetched target body], none, .error couldNotReach⟩
      | some response => forwardResponse o.responseBodyBytes (o.fetched target body) response := by
  rw [forwardToHost, htarget]
  simp only [hbody]
  rfl

/-- A request without a body stays one, and a body survives the envelope. -/
theorem body_envelope {body : Option Bytes}
    (hbody : readRequestBody o.req o.requestBodyBytes = .ok body) :
    (if bodiless o.req.verb then none else (body.map bodyText).map bodyBytes) = body := by
  rw [Option.map_map, show bodyBytes ∘ bodyText = id from funext bodyBytes_bodyText,
    Option.map_id, id]
  split
  case isTrue hverb =>
      rw [readRequestBody, if_pos hverb] at hbody
      exact Except.ok.inj hbody
  case isFalse => rfl

/-- The host makes of the envelope the request that the broker would have made. -/
theorem relayToLocalServer_eq {target : TargetBase} {body : Option Bytes} (id slug : String)
    (htarget : targetBase H o.target = some target)
    (hbody : readRequestBody o.req o.requestBodyBytes = .ok body) :
    relayToLocalServer H fetch o.target ⟨id, o.envelope slug body⟩ o.responseBodyBytes =
      match fetch (o.fetched target body) with
      | none => ([o.fetched target body], .error (some unreachable))
      | some response =>
          if o.responseBodyBytes < response.bytes.length then
            ([o.fetched target body], .error (some hostResponseTooLarge))
          else ([o.fetched target body], .ok ⟨response.status,
            (selectForwardedResponseHeaders response.header).entries,
            if 0 < response.bytes.length then some (bodyText response.bytes) else none⟩) := by
  have hfetched : (⟨targetUrl target (o.envelope slug body).path.toList,
      (o.envelope slug body).method,
      (translateEnvelopeHeaders (o.envelope slug body).headers target.origin).get?,
      if bodiless (o.envelope slug body).method then none
      else (o.envelope slug body).bodyBase64.map bodyBytes⟩ : FetchRequest) =
        o.fetched target body := by
    have hheaders := funext (translateEnvelopeHeaders_eq o.req.headers target.origin)
    simp only [ForwardOptions.envelope, ForwardOptions.fetched, String.toList_ofList, hheaders]
    exact congrArg _ (body_envelope hbody)
  rw [relayToLocalServer, htarget]
  cases hfetch : fetch (o.fetched target body) with
  | none => simp only [hfetched, hfetch]
  | some response => simp only [hfetched, hfetch]

theorem relayed_eq (mint : IdSupply) (timeouts : RelayOptions) (slug : String)
    {body : Option Bytes} (hbody : readRequestBody o.req o.requestBodyBytes = .ok body) :
    relayed H fetch mint timeouts slug o =
      match throughHub { timeouts with responseBodyBytes := o.responseBodyBytes } mint
        (o.envelope slug body) (handleClaim H fetch o.target o.responseBodyBytes) with
      | (seen, .error e) => ⟨seen, none, .error e⟩
      | (seen, .ok response) =>
          ⟨seen, some (writeRelayed response), .ok ⟨response.status, (body.getD []).length,
            (writeRelayed response).body.length⟩⟩ := by
  rw [relayed, forwardViaRelay]
  simp only [hbody]
  rfl

theorem handleClaim_seen (target : List Char) (limit : Nat) (request : ForwardedRequest) :
    (handleClaim H fetch target limit request).1 =
      (relayToLocalServer H fetch target request limit).1 := by
  rw [handleClaim]
  split
  case h_1 h => rw [h]
  case h_2 h => rw [h]

theorem forwardResponse_seen (limit : Nat) (request : FetchRequest) (response : HostResponse) :
    (forwardResponse limit request response).seen = [request] := by
  unfold forwardResponse
  split
  · rfl
  · rfl

/-- The room server sees the same request. -/
theorem relayed_seen (mint : IdSupply) (timeouts : RelayOptions) (slug : String) :
    (relayed H fetch mint timeouts slug o).seen = (forwardToHost H fetch o).seen := by
  cases hbody : readRequestBody o.req o.requestBodyBytes with
  | error e =>
      rw [relayed, forwardViaRelay, forwardToHost, hbody]
      cases targetBase H o.target with
      | none => rfl
      | some target => rfl
  | ok body =>
      have hrelayed : (relayed H fetch mint timeouts slug o).seen =
          (relayToLocalServer H fetch o.target ⟨mint.id 0, o.envelope slug body⟩
            o.responseBodyBytes).1 := by
        rw [relayed_eq mint timeouts slug hbody, ← handleClaim_seen]
        refine Eq.trans ?_ (throughHub_seen { timeouts with
          responseBodyBytes := o.responseBodyBytes } mint (o.envelope slug body) _)
        split
        case h_1 h => rw [h]
        case h_2 h => rw [h]
      rw [hrelayed]
      cases htarget : targetBase H o.target with
      | none =>
          rw [relayToLocalServer, forwardToHost, htarget]
      | some target =>
          rw [relayToLocalServer_eq (mint.id 0) slug htarget hbody,
            forwardToHost_eq htarget hbody]
          cases fetch (o.fetched target body) with
          | none => rfl
          | some response =>
              rw [forwardResponse_seen]
              dsimp only
              split
              · rfl
              · rfl

/-- The room server's answer to the request it sees, within the limit of the bodies. -/
structure Answered (H : HostParser) (fetch : FetchRequest → Option HostResponse)
    (o : ForwardOptions) (request : FetchRequest) (response : HostResponse) : Prop where
  seen : (forwardToHost H fetch o).seen = [request]
  answer : fetch request = some response
  within : response.bytes.length ≤ o.responseBodyBytes

/-- A request that was seen is the one of a target and a body. -/
theorem Answered.exists_eq {request : FetchRequest} {response : HostResponse}
    (h : Answered H fetch o request response) :
    ∃ target body, targetBase H o.target = some target ∧
      readRequestBody o.req o.requestBodyBytes = .ok body ∧
      request = o.fetched target body := by
  have hseen := h.seen
  cases htarget : targetBase H o.target with
  | none =>
      rw [forwardToHost, htarget] at hseen
      cases hseen
  | some target =>
      cases hbody : readRequestBody o.req o.requestBodyBytes with
      | error e =>
          rw [forwardToHost, htarget] at hseen
          simp only [hbody] at hseen
          cases hseen
      | ok body =>
          refine ⟨target, body, rfl, rfl, ?_⟩
          rw [forwardToHost_eq htarget hbody] at hseen
          cases hfetch : fetch (o.fetched target body) with
          | none =>
              rw [hfetch] at hseen
              exact (List.singleton_inj.mp hseen).symm
          | some answer =>
              rw [hfetch] at hseen
              exact (List.singleton_inj.mp ((forwardResponse_seen _ _ _).symm.trans hseen)).symm

/-- Through the relay the participant is sent the room server's response. -/
theorem Answered.relayed_written {request : FetchRequest} {response : HostResponse}
    (h : Answered H fetch o request response) (mint : IdSupply) (timeouts : RelayOptions)
    (slug : String) : (relayed H fetch mint timeouts slug o).written =
      some ⟨response.status, (selectForwardedResponseHeaders response.header).get?,
        response.bytes, true⟩ := by
  obtain ⟨target, body, htarget, hbody, rfl⟩ := h.exists_eq
  let answer : ForwardedResponse := ⟨response.status,
    (selectForwardedResponseHeaders response.header).entries,
    if 0 < response.bytes.length then some (bodyText response.bytes) else none⟩
  have hclaim : handleClaim H fetch o.target o.responseBodyBytes
      ⟨mint.id 0, o.envelope slug body⟩ = ([o.fetched target body], answer) := by
    rw [handleClaim, relayToLocalServer_eq (mint.id 0) slug htarget hbody, h.answer]
    simp only [if_neg (Nat.not_lt.mpr h.within)]
    rfl
  have hsize : (answer.bodyBase64.map base64ByteLength).getD 0 ≤ o.responseBodyBytes := by
    by_cases hpos : 0 < response.bytes.length
    · simp only [answer, if_pos hpos, Option.map_some, Option.getD_some,
        base64ByteLength_bodyText]
      exact h.within
    · simp only [answer, if_neg hpos, Option.map_none, Option.getD_none]
      exact Nat.zero_le _
  have hbytes : (answer.bodyBase64.map bodyBytes).getD [] = response.bytes := by
    by_cases hpos : 0 < response.bytes.length
    · simp only [answer, if_pos hpos, Option.map_some, Option.getD_some, bodyBytes_bodyText]
    · have hnil : response.bytes = [] := List.length_eq_zero_iff.mp (Nat.eq_zero_of_not_pos hpos)
      simp only [answer, if_neg hpos, Option.map_none, Option.getD_none]
      exact hnil.symm
  rw [relayed_eq mint timeouts slug hbody, throughHub_eq _ mint _ hclaim hsize]
  have hheaders := headers_writeRelayed response.header response.status answer.bodyBase64
  change some (writeRelayed answer) = _
  rw [show writeRelayed answer = ⟨answer.status, (writeRelayed answer).headers,
    (answer.bodyBase64.map bodyBytes).getD [], true⟩ from rfl, hbytes]
  rw [show (writeRelayed answer).headers = _ from hheaders]

/-- Directly the participant is sent it unless it declares too much. -/
theorem Answered.direct_written {request : FetchRequest} {response : HostResponse}
    (h : Answered H fetch o request response) : (forwardToHost H fetch o).written =
      if o.responseBodyBytes < response.contentLength.getD 0 then none
      else some ⟨response.status, (selectForwardedResponseHeaders response.header).get?,
        response.bytes, true⟩ := by
  obtain ⟨target, body, htarget, hbody, rfl⟩ := h.exists_eq
  rw [forwardToHost_eq htarget hbody, h.answer]
  have hstream := @streamChunks_within o.responseBodyBytes [] (response.body.getD [])
    h.within
  rw [List.nil_append] at hstream
  change Exchange.written (forwardResponse _ _ _) = _
  unfold forwardResponse
  split
  · rfl
  · simp only [hstream]
    rfl

/-- The two ways of forwarding agree on a participant's request. -/
structure ForwardingAgrees (H : HostParser) (fetch : FetchRequest → Option HostResponse)
    (mint : IdSupply) (timeouts : RelayOptions) (slug : String) (o : ForwardOptions) : Prop where
  headers : ∀ headers targetOrigin,
    (translateEnvelopeHeaders (selectEnvelopeHeaders headers) targetOrigin).get? =
      (selectRequestHeaders headers targetOrigin).get?
  bodies : ∀ bytes, bodyBytes (bodyText bytes) = bytes
  seen : (relayed H fetch mint timeouts slug o).seen = (forwardToHost H fetch o).seen
  written : ∀ request response, Answered H fetch o request response →
    (relayed H fetch mint timeouts slug o).written = (forwardToHost H fetch o).written

/-- They agree exactly where no response declares more than the limit, however little it
has. -/
theorem forwardingAgrees_iff (H : HostParser) (fetch : FetchRequest → Option HostResponse)
    (mint : IdSupply) (timeouts : RelayOptions) (slug : String) (o : ForwardOptions) :
    ForwardingAgrees H fetch mint timeouts slug o ↔
      ∀ request response, Answered H fetch o request response →
        response.contentLength.getD 0 ≤ o.responseBodyBytes := by
  constructor
  · intro hagrees request response hanswered
    have hwritten := hagrees.written request response hanswered
    rw [hanswered.relayed_written, hanswered.direct_written] at hwritten
    by_contra hover
    rw [if_pos (Nat.lt_of_not_le hover)] at hwritten
    cases hwritten
  · intro hdeclared
    refine ⟨fun headers targetOrigin => funext (translateEnvelopeHeaders_eq headers targetOrigin),
      bodyBytes_bodyText, relayed_seen mint timeouts slug, ?_⟩
    intro request response hanswered
    rw [hanswered.relayed_written, hanswered.direct_written,
      if_neg (Nat.not_lt.mpr (hdeclared request response hanswered))]

/-- Asking for the headers only of a file that is longer than the limit. -/
def headOptions : ForwardOptions :=
  ⟨"http://127.0.0.1:8787".toList, "/file".toList, ⟨some "HEAD", ⟨.empty, nofun⟩, []⟩,
    65536, 1048576⟩

/-- The headers of a file of a byte more than a mebibyte. -/
def headResponse : HostResponse := ⟨200, fun _ => none, some 1048577, none⟩

/-- The relay forwards the response, which has no body; directly it is rejected for the length
of the file. -/
theorem head_disagrees : ¬ ForwardingAgrees .plain (fun _ => some headResponse)
    (IdSupply.letters 'r') ⟨1000, 1000, 1048576⟩ "abc" headOptions := by
  intro hagrees
  have htarget : targetBase .plain headOptions.target =
      some ⟨"http://127.0.0.1:8787".toList, "http://127.0.0.1:8787"⟩ := by
    rfl
  have hanswered : Answered .plain (fun _ => some headResponse) headOptions
      (headOptions.fetched ⟨"http://127.0.0.1:8787".toList, "http://127.0.0.1:8787"⟩ none)
      headResponse := by
    refine ⟨?_, rfl, Nat.zero_le _⟩
    rw [forwardToHost_eq htarget rfl]
    exact forwardResponse_seen _ _ _
  have hwritten := hagrees.written _ _ hanswered
  rw [hanswered.relayed_written, hanswered.direct_written] at hwritten
  cases hwritten

end AgentGather.Tunnel
