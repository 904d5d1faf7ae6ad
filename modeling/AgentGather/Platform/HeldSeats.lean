import AgentGather.Library.UriComponent
import AgentGather.Platform.BaseUrls

/-!
# The seats a row offers

The list of joined rooms names for every row the seats this device holds a credential for; a
click opens the row as one of them.  Listing and opening read the same two files, each with
checks of its own.
-/

namespace AgentGather.Platform

open AgentGather.Library AgentGather.Library.Url AgentGather.Protocol AgentGather.Storage

/-! ## The token file of a room -/

/-- What `JSON.parse` returns, with texts by their UTF-16 code units.  An atom is `null`, a
boolean or a number. -/
inductive JsValue where
  | atom
  | text (units : List UInt16)
  | array (items : List JsValue)
  | object (fields : List (String × JsValue))

namespace JsValue

def indexKeys (n : Nat) : List String := (List.range n).map toString

/-- `Object.keys`. -/
def ownKeys : JsValue → List String
  | atom => []
  | text units => indexKeys units.length
  | array items => indexKeys items.length
  | object fields => fields.map Prod.fst

/-- A property of its own; what a value inherits is never a text. -/
def property (name : String) : JsValue → Option JsValue
  | atom => none
  | text units => ((indexKeys units.length).zip units).lookup name |>.map fun u => text [u]
  | array items => ((indexKeys items.length).zip items).lookup name
  | object fields => fields.lookup name

def text? : JsValue → Option (List UInt16)
  | text units => some units
  | _ => none

end JsValue

/-- `tokens.json` of each room, parsed; none where it cannot be read or parsed. -/
abbrev TokenFiles := String → Option JsValue

/-- `store.tokens`. -/
def storedTokens (files : TokenFiles) (roomId : String) : Option JsValue :=
  (files roomId).bind (JsValue.property "tokens")

/-- The text that is stored for an alias. -/
def storedToken (files : TokenFiles) (roomId aliasName : String) : Option (List UInt16) :=
  ((storedTokens files roomId).bind (JsValue.property aliasName)).bind JsValue.text?

def isAlphanumeric (c : Char) : Bool := Text.isLower c || Text.isUpper c || Text.isDigit c

/-- `/^[a-zA-Z0-9][a-zA-Z0-9._-]{0,127}$/` -/
def isSafeName (value : String) : Bool :=
  match value.toList with
  | [] => false
  | c :: rest => isAlphanumeric c && rest.length ≤ 127 &&
      rest.all fun c => isAlphanumeric c || ['.', '_', '-'].contains c

def isSafeRoomId (value : String) : Bool := isSafeName value

def isSafeAlias (value : String) : Bool := isSafeName value

def readStoredParticipantAliases (files : TokenFiles) (roomId : String) : List String :=
  if isSafeRoomId roomId then
    match storedTokens files roomId with
    | none => []
    | some tokens => tokens.ownKeys.filter fun aliasName =>
        isSafeAlias aliasName && ((tokens.property aliasName).bind JsValue.text?).isSome
  else []

def readStoredParticipantToken (files : TokenFiles) (roomId aliasName : String) :
    Option (List UInt16) :=
  if isSafeRoomId roomId && isSafeAlias aliasName then
    (storedToken files roomId aliasName).filter fun token => !token.isEmpty
  else none

/-! ## Listing -/

/-- The recorded seats by alias, the row's own alias among them. -/
def knownSeats (room : JoinedRoom) : OrderedMap String JoinedRoomSeat :=
  let known := (room.seats.getD []).foldl (fun known seat => known.set seat.aliasName seat)
    (.empty : OrderedMap String JoinedRoomSeat)
  if room.aliasName ≠ "" ∧ (known.get? room.aliasName).isNone then
    known.set room.aliasName ⟨room.aliasName, room.kind⟩
  else known

def heldSeatsFor (files : TokenFiles) (room : JoinedRoom) : List JoinedRoomSeat :=
  let held := readStoredParticipantAliases files room.roomId
  if held.isEmpty then []
  else (knownSeats room).values.filter fun seat => held.contains seat.aliasName

/-! ## Opening -/

inductive OpenAnswer where
  | help (status : Nat) (message : String)
  | redirect (location : List Char)
  | internalError
deriving DecidableEq, Repr

/-- `host` is the `Host` header. -/
def dashboardOrigin (host : Option String) : List Char :=
  "http://".toList ++ match (host.getD "").toList with
    | [] => "127.0.0.1".toList
    | name => name

/-- The token and the grant, in the fragment. -/
def openFragment (token capability : List Char) : List Char :=
  "token".toList ++ '=' :: token ++ '&' :: ("snapshot".toList ++ '=' :: capability)

/-- Where the new tab goes; none where a constructor or an encoder throws. -/
def joinedTarget (H : HostParser) (baseUrl : List Char) (host : Option String)
    (token : List UInt16) (capability : List Char) : Option Url := do
  let target ← parse H none (if baseUrl.getLast? = some '/' then baseUrl else baseUrl ++ ['/'])
  let token ← encodeComponent token
  return setHash (openFragment token (percentEncode componentSet capability))
    (setSearchParam "dashboard".toList (dashboardOrigin host) target)

/-- The seat that is asked for: the row's own, or another that is held. -/
def selectedAlias (files : TokenFiles) (joined : JoinedRoom)
    (requestedAlias : Option String) : Option String :=
  match requestedAlias with
  | none => some joined.aliasName
  | some requested =>
      if requested = joined.aliasName then some joined.aliasName
      else if (readStoredParticipantAliases files joined.roomId).contains requested then
        some requested
      else none

/-- `params` are the parameters of the request; `capability` is the grant that was minted. -/
def openJoinedRoom (H : HostParser) (rooms : List JoinedRoom) (files : TokenFiles)
    (host : Option String) (capability : List Char) (params : List (List Char × List Char)) :
    OpenAnswer :=
  let roomId := String.ofList ((getParam "room_id".toList params).getD [])
  match (getParam "base_url".toList params).bind (sanitizeBaseUrl H) with
  | none => .help 400 "This saved room pointer is malformed."
  | some baseUrl =>
      if !isSafeRoomId roomId then .help 400 "This saved room pointer is malformed."
      else
        match findRoom ⟨roomId, String.ofList baseUrl⟩ rooms with
        | none => .help 404 "This room is not tracked on this device."
        | some joined =>
            match selectedAlias files joined
                ((getParam "alias".toList params).map String.ofList) with
            | none => .help 409 "That seat is not one this device holds a credential for."
            | some aliasName =>
                if aliasName = "" then
                  .help 409 ("This saved room has no participant alias. " ++
                    "Paste the invite link again to refresh it.")
                else
                  match readStoredParticipantToken files joined.roomId aliasName with
                  | none => .help 409 ("No local token is stored for " ++ aliasName ++
                      ". Paste the invite link again or re-run the room join command.")
                  | some token =>
                      match joinedTarget H baseUrl host token capability with
                      | none => .internalError
                      | some target => .redirect target.href

/-- The parameters of the link to a seat of a row. -/
def openParams (row : JoinedRoom) (aliasName : String) : List (List Char × List Char) :=
  [("room_id".toList, row.roomId.toList), ("base_url".toList, row.baseUrl.toList),
    ("alias".toList, aliasName.toList)]

/-- The token in the fragment of an address. -/
def carriedToken (location : List Char) : Option (List Char) :=
  (splitAtFirst '#' location).2.bind fun fragment => getParam "token".toList (paramsOf fragment)

/-- The answer is a redirect that carries the alias's token. -/
def CarriesToken (files : TokenFiles) (roomId aliasName : String) (answer : OpenAnswer) : Prop :=
  ∃ location units token, answer = .redirect location ∧
    storedToken files roomId aliasName = some units ∧ Utf16.decode units = some token ∧
    carriedToken location = some token

/-- The token is one that can be carried, and the row is found: some row of the room has the
sanitized form of its base URL. -/
structure CanOpen (H : HostParser) (rooms : List JoinedRoom) (files : TokenFiles)
    (row : JoinedRoom) (aliasName : String) : Prop where
  token : ∃ units, storedToken files row.roomId aliasName = some units ∧ units ≠ [] ∧
    (Utf16.decode units).isSome
  row : ∃ base, sanitizeBaseUrl H row.baseUrl.toList = some base ∧
    ⟨row.roomId, String.ofList base⟩ ∈ rooms.map JoinedRoom.target

section Open

variable {H : HostParser} {rooms : List JoinedRoom} {files : TokenFiles} {host : Option String}
  {capability : List Char} {row : JoinedRoom} {aliasName : String}

/-! ## What is held -/

/-- A held alias and its room have safe names, and there is a text for it. -/
theorem held_spec {roomId : String}
    (h : aliasName ∈ readStoredParticipantAliases files roomId) :
    isSafeRoomId roomId = true ∧ isSafeAlias aliasName = true ∧
      (storedToken files roomId aliasName).isSome := by
  unfold readStoredParticipantAliases at h
  split at h
  · rename_i hroom
    cases htokens : storedTokens files roomId with
    | none =>
        rw [htokens] at h
        cases h
    | some tokens =>
        rw [htokens] at h
        obtain ⟨-, hkept⟩ := List.mem_filter.mp h
        rw [Bool.and_eq_true] at hkept
        rw [storedToken, htokens]
        exact ⟨hroom, hkept.1, hkept.2⟩
  · cases h

theorem held_of_listed {seat : JoinedRoomSeat} (h : seat ∈ heldSeatsFor files row) :
    seat.aliasName ∈ readStoredParticipantAliases files row.roomId := by
  unfold heldSeatsFor at h
  simp only at h
  split at h
  · cases h
  · exact List.contains_iff_mem.mp (List.mem_filter.mp h).2

theorem ne_empty_of_isSafeAlias (h : isSafeAlias aliasName = true) : aliasName ≠ "" := by
  rintro rfl
  cases h

/-- A held seat is the one that is opened, whether or not it is the row's own. -/
theorem selectedAlias_of_held {joined : JoinedRoom}
    (h : aliasName ∈ readStoredParticipantAliases files joined.roomId) :
    selectedAlias files joined (some aliasName) = some aliasName := by
  rw [selectedAlias]
  by_cases hown : aliasName = joined.aliasName
  · rw [if_pos hown, hown]
  · rw [if_neg hown, if_pos (List.contains_iff_mem.mpr h)]

/-- The token of a held alias is read unless it is empty. -/
theorem readStoredParticipantToken_of_held {roomId : String}
    (h : aliasName ∈ readStoredParticipantAliases files roomId) :
    readStoredParticipantToken files roomId aliasName =
      (storedToken files roomId aliasName).filter fun token => !token.isEmpty := by
  obtain ⟨hroom, halias, -⟩ := held_spec h
  rw [readStoredParticipantToken, hroom, halias]
  rfl

/-! ## Where a redirect goes -/

/-- The base URL that was looked up is one again, with a slash behind it. -/
theorem parse_sanitized (hlaw : H.Lawful) {value base : List Char}
    (h : sanitizeBaseUrl H value = some base) :
    ∃ url, parse H none (if base.getLast? = some '/' then base else base ++ ['/']) = some url ∧
      IsWebUrl H url := by
  obtain ⟨url, hparse, hrest⟩ := Option.bind_eq_some_iff.mp h
  have hhttp : url.isHttp = true := by
    by_contra hnot
    rw [if_neg hnot] at hrest
    cases hrest
  have hweb := isWebUrl_of_parse hparse hhttp
  obtain rfl := Option.some.inj ((sanitizeBaseUrl_eq hlaw hparse hhttp).symm.trans h)
  obtain ⟨o, hwritten, -, -⟩ := hweb.exists_origin hlaw
  obtain ⟨path, hpath, hnormal, -⟩ := hweb.path
  have hkept : ∀ x ∈ path.rdropWhile (· == []) ++ [[]], Normal x := by
    intro x hx
    rcases List.mem_append.mp hx with hx | hx
    · exact hnormal x ((List.rdropWhile_prefix _ _).subset hx)
    · rw [List.mem_singleton.mp hx]
      exact normal_nil
  have hslash : canonicalBaseUrl url ++ ['/'] =
      o.written ++ joinSegments (path.rdropWhile (· == []) ++ [[]]) := by
    have hstrip : url.pathname.rdropWhile (· == '/') =
        joinSegments (path.rdropWhile (· == [])) := by
      rw [pathname_segments hpath]
      exact rdropWhile_joinSegments fun x hx c hc heq => by
        have hnot := (hnormal x hx).not_slash true c hc
        rw [heq] at hnot
        cases hnot
    rw [canonicalBaseUrl, hstrip, hwritten, joinSegments, joinSegments, List.flatMap_append,
      List.append_assoc]
    rfl
  rw [if_neg (canonicalBaseUrl_bare hlaw hweb).2.2, hslash, parse_origin_joinSegments o hkept]
  have hread := parse_origin_joinSegments o hkept
  exact ⟨_, rfl, isWebUrl_of_parse hread ((isHttp_iff _).mpr o.isHttp)⟩

/-- The fragment needs no escape but those of its components. -/
theorem openFragment_plain (token capability : List Char) :
    ∀ c ∈ openFragment (percentEncode componentSet token)
      (percentEncode componentSet capability), fragmentSet c = false := by
  have hcomponent {s : List Char} {c : Char} (hc : c ∈ percentEncode componentSet s) :
      fragmentSet c = false := by
    rcases mem_component hc with hset | rfl
    · exact fragmentSet_of_componentSet hset
    · decide
  have hnames : ∀ c ∈ "token".toList ++ "snapshot".toList, fragmentSet c = false :=
    List.all_iff_forall_prop.mp (by decide +kernel)
  intro c hc
  rcases List.mem_append.mp hc with hc | hc
  · rcases List.mem_append.mp hc with hc | hc
    · exact hnames c (List.mem_append_left _ hc)
    · rcases List.mem_cons.mp hc with rfl | hc
      · decide
      · exact hcomponent hc
  · rcases List.mem_cons.mp hc with rfl | hc
    · decide
    · rcases List.mem_append.mp hc with hc | hc
      · exact hnames c (List.mem_append_right _ hc)
      · rcases List.mem_cons.mp hc with rfl | hc
        · decide
        · exact hcomponent hc

/-- The token is read back from the fragment. -/
theorem getParam_openFragment (token capability : List Char) :
    getParam "token".toList (paramsOf (openFragment (percentEncode componentSet token)
      capability)) = some token := by
  have hand : '&' ∉ percentEncode componentSet token := fun hc => by
    rcases mem_component hc with hset | heq
    · cases hset
    · cases heq
  have hfirst := @getParam_first "token".toList _ (by decide) (by decide) (by decide) hand
    ("snapshot".toList ++ '=' :: capability)
  rw [formDecode_component] at hfirst
  exact hfirst

/-- Where a token that can be encoded goes, its fragment is the token and the grant. -/
theorem joinedTarget_fragment (hlaw : H.Lawful) {value base : List Char}
    (h : sanitizeBaseUrl H value = some base) {units : List UInt16} {token : List Char}
    (htoken : Utf16.decode units = some token) (host : Option String)
    (capability : List Char) :
    ∃ target, joinedTarget H base host units capability = some target ∧
      (splitAtFirst '#' target.href).2 = some (openFragment (percentEncode componentSet token)
        (percentEncode componentSet capability)) := by
  obtain ⟨url, hparse, hweb⟩ := parse_sanitized hlaw h
  have hencode : encodeComponent units = some (percentEncode componentSet token) := by
    rw [encodeComponent, htoken, Option.map_some]
  let asked := setSearchParam "dashboard".toList (dashboardOrigin host) url
  have hasked : IsWebUrl H asked := ⟨hweb.http, hweb.authority, hweb.path⟩
  have hhead : (openFragment (percentEncode componentSet token)
      (percentEncode componentSet capability)).head? ≠ some '#' := by
    show some 't' ≠ some '#'
    decide
  have hne : openFragment (percentEncode componentSet token)
      (percentEncode componentSet capability) ≠ [] := List.cons_ne_nil _ _
  have hset := setHash_of_plain (u := asked) hne hhead
    (openFragment_plain token capability)
  refine ⟨setHash (openFragment (percentEncode componentSet token)
    (percentEncode componentSet capability)) asked, ?_, ?_⟩
  · rw [joinedTarget, hparse, hencode]
    rfl
  · let target : Url := { asked with fragment := some (openFragment
      (percentEncode componentSet token) (percentEncode componentSet capability)) }
    have htarget : IsWebUrl H target := ⟨hasked.http, hasked.authority, hasked.path⟩
    have hfragment := htarget.splitAtFirst_href hlaw fun query hquery => by
      obtain rfl := Option.some.inj hquery
      exact hash_not_mem_serializeForm _
    rw [hset, hfragment]

/-- A token that can be encoded is carried. -/
theorem joinedTarget_carries (hlaw : H.Lawful) {value base : List Char}
    (h : sanitizeBaseUrl H value = some base) {units : List UInt16} {token : List Char}
    (htoken : Utf16.decode units = some token) (host : Option String)
    (capability : List Char) :
    ∃ target, joinedTarget H base host units capability = some target ∧
      carriedToken target.href = some token := by
  obtain ⟨target, htarget, hfragment⟩ := joinedTarget_fragment hlaw h htoken host capability
  refine ⟨target, htarget, ?_⟩
  rw [carriedToken, hfragment]
  exact getParam_openFragment token _

/-! ## Listing and opening agree -/

/-- What opening a held seat comes to. -/
theorem openJoinedRoom_held (h : aliasName ∈ readStoredParticipantAliases files row.roomId) :
    openJoinedRoom H rooms files host capability (openParams row aliasName) =
      match sanitizeBaseUrl H row.baseUrl.toList with
      | none => .help 400 "This saved room pointer is malformed."
      | some baseUrl =>
          match findRoom ⟨row.roomId, String.ofList baseUrl⟩ rooms with
          | none => .help 404 "This room is not tracked on this device."
          | some _ =>
              match readStoredParticipantToken files row.roomId aliasName with
              | none => .help 409 ("No local token is stored for " ++ aliasName ++
                  ". Paste the invite link again or re-run the room join command.")
              | some token =>
                  match joinedTarget H baseUrl host token capability with
                  | none => .internalError
                  | some target => .redirect target.href := by
  obtain ⟨hroom, halias, -⟩ := held_spec h
  have hroomId : getParam "room_id".toList (openParams row aliasName) =
      some row.roomId.toList := rfl
  have hbaseUrl : getParam "base_url".toList (openParams row aliasName) =
      some row.baseUrl.toList := rfl
  have hasked : getParam "alias".toList (openParams row aliasName) =
      some aliasName.toList := rfl
  rw [openJoinedRoom, hroomId, hbaseUrl, hasked, Option.bind_some, Option.map_some,
    Option.getD_some, String.ofList_toList, String.ofList_toList]
  cases sanitizeBaseUrl H row.baseUrl.toList with
  | none => rfl
  | some baseUrl =>
      dsimp only
      rw [if_neg (by rw [hroom]; decide)]
      cases hfind : findRoom ⟨row.roomId, String.ofList baseUrl⟩ rooms with
      | none => rfl
      | some joined =>
          have hsame : joined.roomId = row.roomId :=
            congrArg JoinedRoomTarget.roomId (Table.key_of_find hfind)
          rw [← hsame] at h
          dsimp only
          rw [selectedAlias_of_held h]
          dsimp only
          rw [if_neg (ne_empty_of_isSafeAlias halias), hsame]

/-- A seat that is listed is opened with its token exactly if the token is not empty and no
surrogate of it stands alone, and some row of the room has the sanitized form of the row's
base URL. -/
theorem heldSeatsFor_opens_iff (hlaw : H.Lawful) (rooms : List JoinedRoom) (files : TokenFiles)
    (host : Option String) (capability : List Char) :
    ∀ row ∈ rooms, ∀ seat ∈ heldSeatsFor files row,
      (CarriesToken files row.roomId seat.aliasName
          (openJoinedRoom H rooms files host capability (openParams row seat.aliasName)) ↔
        CanOpen H rooms files row seat.aliasName) := by
  intro row _ seat hseat
  have hheld := held_of_listed hseat
  rw [openJoinedRoom_held hheld, readStoredParticipantToken_of_held hheld]
  constructor
  · rintro ⟨location, units, token, hanswer, hunits, htoken, -⟩
    cases hbase : sanitizeBaseUrl H row.baseUrl.toList with
    | none =>
        rw [hbase] at hanswer
        cases hanswer
    | some base =>
        cases hfind : findRoom ⟨row.roomId, String.ofList base⟩ rooms with
        | none =>
            simp only [hbase, hfind] at hanswer
            cases hanswer
        | some joined =>
            refine ⟨⟨units, hunits, ?_, by rw [htoken]; rfl⟩, base, hbase, ?_⟩
            · rintro rfl
              simp only [hbase, hfind, hunits] at hanswer
              cases hanswer
            · exact Table.isSome_find_iff.mp (by rw [← findRoom, hfind]; rfl)
  · rintro ⟨⟨units, hunits, hne, hdecode⟩, base, hbase, hmem⟩
    obtain ⟨token, htoken⟩ := Option.isSome_iff_exists.mp hdecode
    obtain ⟨joined, hfind⟩ := Option.isSome_iff_exists.mp (Table.isSome_find_iff.mpr hmem)
    obtain ⟨target, htarget, hcarried⟩ :=
      joinedTarget_carries hlaw hbase htoken host capability
    have hkept : (some units).filter (fun token => !token.isEmpty) = some units := by
      rw [Option.filter_some, if_pos (by simpa using hne)]
    refine ⟨target.href, units, token, ?_, hunits, htoken, hcarried⟩
    rw [hbase]
    simp only [findRoom, hfind, hunits, hkept, htarget]

/-! ## Rows that are found -/

/-- The dashboard's own ways to record a room write base URLs that it looks up as they are. -/
theorem sanitizeBaseUrl_recorded (hlaw : H.Lawful) {value base : List Char} {path : JoinPath}
    (hpath : path ≠ .roomJoin) (h : recordedBaseUrl H value path = some base) :
    sanitizeBaseUrl H base = some base := by
  cases path with
  | roomJoin => exact absurd rfl hpath
  | bridgeRefresh =>
      obtain ⟨url, hparse, hrest⟩ := Option.bind_eq_some_iff.mp h
      have hhttp : url.isHttp = true := by
        by_contra hnot
        rw [if_neg hnot] at hrest
        cases hrest
      obtain rfl := Option.some.inj ((sanitizeBaseUrl_eq hlaw hparse hhttp).symm.trans h)
      exact sanitizeBaseUrl_canonical hlaw (isWebUrl_of_parse hparse hhttp)
  | inviteImport =>
      obtain ⟨invite, hinvite, rfl⟩ := Option.map_eq_some_iff.mp h
      obtain ⟨url, hparse, hrest⟩ := Option.bind_eq_some_iff.mp hinvite
      have hhttp : url.isHttp = true := by
        by_contra hnot
        rw [if_neg hnot] at hrest
        cases hrest
      rw [if_pos hhttp] at hrest
      obtain ⟨token, -, hrest⟩ := Option.bind_eq_some_iff.mp hrest
      obtain rfl := Option.some.inj hrest
      have hweb := isWebUrl_of_parse hparse hhttp
      obtain ⟨o, hwritten, -, horigin⟩ := hweb.exists_origin hlaw
      by_cases hcard : url.pathname = "/card".toList
      · have hread := sanitizeBaseUrl_eq hlaw (parse_written o) ((isHttp_iff _).mpr o.isHttp)
        have hpathname : (o.url [[]]).pathname.rdropWhile (· == '/') = [] := rfl
        rw [canonicalBaseUrl, horigin, ← hwritten, hpathname, List.append_nil] at hread
        rw [if_pos hcard, ← hwritten, bareUrl_eq, List.rdropWhile_nil, List.append_nil]
        exact hread
      · rw [if_neg hcard, ← hwritten, bareUrl_eq, hwritten]
        exact sanitizeBaseUrl_canonical hlaw hweb

end Open

/-- A row of one seat. -/
def adaRow : JoinedRoom where
  roomId := "r"
  title := "Launch"
  aliasName := "ada"
  baseUrl := "https://rooms.example"
  joinedAt := "t0"
  lastSeen := "t0"
  kind := none
  seats := none
  archived := none

/-- The token file of every room has this text for its one alias. -/
def adaToken (units : List UInt16) : TokenFiles :=
  fun _ => some (.object [("tokens", .object [("ada", .text units)])])

/-- A seat with a token is offered and opened, by the general theorem. -/
theorem heldSeatsFor_opens_iff_ada :
    heldSeatsFor (adaToken [0x74, 0x67, 0x6c]) adaRow = [⟨"ada", none⟩] ∧
      CarriesToken (adaToken [0x74, 0x67, 0x6c]) "r" "ada"
        (openJoinedRoom .plain [adaRow] (adaToken [0x74, 0x67, 0x6c]) none []
          (openParams adaRow "ada")) := by
  have hlisted : heldSeatsFor (adaToken [0x74, 0x67, 0x6c]) adaRow = [⟨"ada", none⟩] := by decide
  have hopens := heldSeatsFor_opens_iff plain_lawful [adaRow] (adaToken [0x74, 0x67, 0x6c]) none []
    adaRow List.mem_cons_self ⟨"ada", none⟩ (by rw [hlisted]; exact List.mem_cons_self)
  refine ⟨hlisted, hopens.mpr ⟨⟨[0x74, 0x67, 0x6c], by decide, by decide, by decide⟩, ?_⟩⟩
  exact ⟨"https://rooms.example".toList, by decide, by decide⟩

/-- A seat whose stored token is empty is offered, and is not opened. -/
theorem heldSeatsFor_offers_empty_token :
    ¬ ∀ (rooms : List JoinedRoom) (files : TokenFiles) (host : Option String)
      (capability : List Char), ∀ row ∈ rooms, ∀ seat ∈ heldSeatsFor files row,
        CarriesToken files row.roomId seat.aliasName (openJoinedRoom .plain rooms files host
          capability (openParams row seat.aliasName)) := by
  intro h
  have hlisted : heldSeatsFor (adaToken []) adaRow = [⟨"ada", none⟩] := by decide
  obtain ⟨location, -, -, hanswer, -⟩ := h [adaRow] (adaToken []) none [] adaRow
    List.mem_cons_self ⟨"ada", none⟩ (by rw [hlisted]; exact List.mem_cons_self)
  have hhelp : openJoinedRoom .plain [adaRow] (adaToken []) none [] (openParams adaRow "ada") =
      .help 409 ("No local token is stored for ada. " ++
        "Paste the invite link again or re-run the room join command.") := by decide
  cases hhelp.symm.trans hanswer

end AgentGather.Platform
