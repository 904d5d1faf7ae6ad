import AgentGather.Library.Cursor
import AgentGather.Server.Sending

/-!
# Reading the log in pages

A client reads backward with the first id of a page as the next `before_id`, as long as the
answer says that there is more, or forward with `next_since_id`, until a page is empty.
Either way it sees every message on its side of the start once.
-/

namespace AgentGather.Server

open AgentGather.Library AgentGather.Protocol AgentGather.Storage

/-! ## The clients -/

/-- The pages of reading backward, the newest first. -/
inductive ReadsBack (all : List Message) (limit : Nat) : Nat → List (List Message) → Prop
  | last {beforeId : Nat} {page : List Message} :
      messagePage all 0 (some beforeId) (some limit) = .page page none (some false) →
      ReadsBack all limit beforeId [page]
  | more {beforeId : Nat} {page : List Message} {oldest : Message}
      {pages : List (List Message)} :
      messagePage all 0 (some beforeId) (some limit) = .page page none (some true) →
      page.head? = some oldest → ReadsBack all limit oldest.id pages →
      ReadsBack all limit beforeId (page :: pages)

/-- The pages of reading forward, the oldest first. -/
inductive ReadsForward (all : List Message) (limit : Nat) : Nat → List (List Message) → Prop
  | last {sinceId nextSinceId : Nat} :
      messagePage all sinceId none (some limit) = .page [] (some nextSinceId) none →
      ReadsForward all limit sinceId []
  | more {sinceId nextSinceId : Nat} {page : List Message} {pages : List (List Message)} :
      messagePage all sinceId none (some limit) = .page page (some nextSinceId) none →
      page ≠ [] → ReadsForward all limit nextSinceId pages →
      ReadsForward all limit sinceId (page :: pages)

/-! ## One page -/

section Pages

variable {all : List Message} {limit : Nat}

/-- A backward page is the end of what is older, and tells whether that begins before it. -/
theorem messagePage_back (hall : Cursor.Increasing Message.id all) (hlimit : 1 ≤ limit)
    (beforeId : Nat) : ∃ older page,
      Cursor.before Message.id all beforeId = older ++ page ∧
      messagePage all 0 (some beforeId) (some limit) =
        .page page none (some (decide (older ≠ []))) ∧
      (page = [] → older = []) ∧
      ∀ oldest, page.head? = some oldest →
        Cursor.before Message.id all oldest.id = older := by
  let older := Cursor.before Message.id all beforeId
  let left := older.take (older.length - limit)
  let page := older.drop (older.length - limit)
  have hsplit : older = left ++ page := (List.take_append_drop _ _).symm
  have hstart : ∀ oldest, page.head? = some oldest →
      Cursor.before Message.id all oldest.id = left := by
    intro oldest hhead
    obtain ⟨rest, hrest⟩ := List.head?_eq_some_iff.mp hhead
    exact Cursor.before_of_append hall (hsplit.trans (congrArg (left ++ ·) hrest))
  have hempty : page = [] → left = [] := by
    intro hpage
    have hlength := List.drop_eq_nil_iff.mp hpage
    have hzero : older.length = 0 := by omega
    change older.take _ = []
    rw [List.length_eq_zero_iff.mp hzero, List.take_nil]
  refine ⟨left, page, hsplit, ?_, hempty, hstart⟩
  refine congrArg (fun more => Reply.page page none (some more))
    (show _ = decide (left ≠ []) from ?_)
  split
  · rename_i hhead
    have hleft := hempty (List.head?_eq_none_iff.mp hhead)
    simp [hleft]
  · rename_i oldest hhead
    rw [← hstart oldest hhead, Bool.eq_iff_iff]
    simp [Cursor.before]

/-- A forward page is the beginning of what is newer, and its last id the next cursor. -/
theorem messagePage_forward (hall : Cursor.Increasing Message.id all) (hlimit : 1 ≤ limit)
    (sinceId : Nat) : ∃ page newer nextSinceId,
      Cursor.after Message.id all sinceId = page ++ newer ∧
      messagePage all sinceId none (some limit) = .page page (some nextSinceId) none ∧
      Cursor.after Message.id all nextSinceId = newer ∧
      (page = [] → newer = [] ∧ nextSinceId = sinceId) := by
  let rest := Cursor.after Message.id all sinceId
  have hsplit : rest = rest.take limit ++ rest.drop limit := (List.take_append_drop _ _).symm
  have hempty : rest.take limit = [] → rest = [] := by
    intro hpage
    rcases List.take_eq_nil_iff.mp hpage with hzero | hnil
    · omega
    · exact hnil
  refine ⟨rest.take limit, rest.drop limit, _, hsplit, rfl, ?_, fun hpage => ?_⟩
  · change Cursor.after Message.id all ((((rest.take limit).getLast?).map (·.id)).getD sinceId) = _
    cases hlast : (rest.take limit).getLast? with
    | none =>
        have hnil := hempty (List.getLast?_eq_none_iff.mp hlast)
        change rest = _
        rw [hnil, List.drop_nil]
    | some newest =>
        obtain ⟨page, hpage⟩ := List.getLast?_eq_some_iff.mp hlast
        have hnewest : rest = page ++ newest :: rest.drop limit := by
          rw [List.append_cons, ← hpage]
          exact hsplit
        exact Cursor.after_of_append hall hnewest
  · refine ⟨by rw [hempty hpage, List.drop_nil], ?_⟩
    change (((rest.take limit).getLast?).map (·.id)).getD sinceId = sinceId
    rw [hpage]
    rfl

/-- There is more before a page exactly when some message is older than all of it. -/
theorem messagePage_more_iff (hall : Cursor.Increasing Message.id all) (hlimit : 1 ≤ limit)
    {beforeId : Nat} {page : List Message} {nextSinceId : Option Nat} {more : Bool}
    (hpage : messagePage all 0 (some beforeId) (some limit) =
      .page page nextSinceId (some more)) :
    more = true ↔ ∃ message ∈ all, message.id < beforeId ∧
      ∀ shown ∈ page, message.id < shown.id := by
  obtain ⟨older, shown, hsplit, hreply, hempty, -⟩ := messagePage_back hall hlimit beforeId
  rw [hreply] at hpage
  obtain ⟨rfl, -, hmore⟩ := Reply.page.inj hpage
  obtain rfl := Option.some.inj hmore
  rw [decide_eq_true_iff]
  have hinc : (older ++ shown).Pairwise fun x y => x.id < y.id := by
    rw [← hsplit]
    exact hall.filter _
  have hcross := (List.pairwise_append.mp hinc).2.2
  constructor
  · intro hne
    obtain ⟨message, hmem⟩ := List.exists_mem_of_ne_nil older hne
    obtain ⟨hall', hlt⟩ := Cursor.mem_before.mp (hsplit ▸ List.mem_append_left shown hmem)
    exact ⟨message, hall', hlt, hcross message hmem⟩
  · rintro ⟨message, hmem, hlt, holder⟩ rfl
    have hshown : message ∈ shown := by
      have hbefore := Cursor.mem_before.mpr ⟨hmem, hlt⟩
      rwa [hsplit] at hbefore
    exact absurd (holder message hshown) (lt_irrefl _)

/-! ## All pages -/

theorem exists_readsBack (hall : Cursor.Increasing Message.id all) (hlimit : 1 ≤ limit)
    (beforeId : Nat) : ∃ pages, ReadsBack all limit beforeId pages := by
  induction hn : (Cursor.before Message.id all beforeId).length using Nat.strong_induction_on
    generalizing beforeId with
  | _ n ih =>
      obtain ⟨older, page, hsplit, hreply, hempty, hstart⟩ :=
        messagePage_back hall hlimit beforeId
      by_cases holder : older = []
      · exact ⟨[page], .last (by simpa [holder] using hreply)⟩
      · obtain ⟨oldest, rest, hpage⟩ := List.exists_cons_of_ne_nil (mt hempty holder)
        have hhead : page.head? = some oldest := by
          rw [hpage]
          rfl
        have hshorter : older.length < n := by
          rw [← hn, hsplit, hpage, List.length_append, List.length_cons]
          omega
        obtain ⟨pages, hpages⟩ :=
          ih older.length hshorter oldest.id (congrArg List.length (hstart oldest hhead))
        exact ⟨page :: pages, .more (by simpa [holder] using hreply) hhead hpages⟩

/-- The pages, put back in order, are what is older than the start. -/
theorem ReadsBack.flatten (hall : Cursor.Increasing Message.id all) (hlimit : 1 ≤ limit)
    {beforeId : Nat} {pages : List (List Message)} (h : ReadsBack all limit beforeId pages) :
    pages.reverse.flatten = Cursor.before Message.id all beforeId := by
  induction h with
  | @last beforeId page hreply =>
      obtain ⟨older, shown, hsplit, hreply', -⟩ := messagePage_back hall hlimit beforeId
      rw [hreply'] at hreply
      obtain ⟨rfl, -, hmore⟩ := Reply.page.inj hreply
      have hnil : older = [] := by simpa using hmore
      rw [hsplit, hnil]
      simp
  | @more beforeId page oldest pages hreply hhead _ ih =>
      obtain ⟨older, shown, hsplit, hreply', -, hstart⟩ :=
        messagePage_back hall hlimit beforeId
      rw [hreply'] at hreply
      obtain ⟨rfl, -, -⟩ := Reply.page.inj hreply
      rw [List.reverse_cons, List.flatten_append, ih, hstart oldest hhead, hsplit,
        List.flatten_singleton]

theorem exists_readsForward (hall : Cursor.Increasing Message.id all) (hlimit : 1 ≤ limit)
    (sinceId : Nat) : ∃ pages, ReadsForward all limit sinceId pages := by
  induction hn : (Cursor.after Message.id all sinceId).length using Nat.strong_induction_on
    generalizing sinceId with
  | _ n ih =>
      obtain ⟨page, newer, nextSinceId, hsplit, hreply, hafter, -⟩ :=
        messagePage_forward hall hlimit sinceId
      by_cases hpage : page = []
      · exact ⟨[], .last (by rw [hreply, hpage])⟩
      · have hshorter : newer.length < n := by
          have hpos := List.length_pos_iff.mpr hpage
          rw [← hn, hsplit, List.length_append]
          omega
        obtain ⟨pages, hpages⟩ :=
          ih newer.length hshorter nextSinceId (congrArg List.length hafter)
        exact ⟨page :: pages, .more hreply hpage hpages⟩

/-- The pages are what is newer than the start. -/
theorem ReadsForward.flatten (hall : Cursor.Increasing Message.id all) (hlimit : 1 ≤ limit)
    {sinceId : Nat} {pages : List (List Message)} (h : ReadsForward all limit sinceId pages) :
    pages.flatten = Cursor.after Message.id all sinceId := by
  induction h with
  | @last sinceId nextSinceId hreply =>
      obtain ⟨page, newer, next, hsplit, hreply', -, hempty⟩ :=
        messagePage_forward hall hlimit sinceId
      rw [hreply'] at hreply
      obtain ⟨rfl, -, -⟩ := Reply.page.inj hreply
      rw [hsplit, (hempty rfl).1]
      rfl
  | @more sinceId nextSinceId page pages hreply hne _ ih =>
      obtain ⟨shown, newer, next, hsplit, hreply', hafter, -⟩ :=
        messagePage_forward hall hlimit sinceId
      rw [hreply'] at hreply
      obtain ⟨rfl, hnext, -⟩ := Reply.page.inj hreply
      obtain rfl := Option.some.inj hnext
      rw [List.flatten_cons, ih, hafter, hsplit]

end Pages

/-! ## The endpoint -/

/-- The page of the log that a request asks for. -/
def Answers (all : List Message) (req : Request) (reply : Reply) : Prop :=
  ∃ limit, parseMessageLimit (req.param "limit") = .ok limit ∧
    match req.param "before_id" with
    | some raw => ∃ beforeId, parseCursorParam raw "before_id" = .ok beforeId ∧
        reply = messagePage all 0 (some beforeId) limit
    | none => ∃ sinceId, parseSinceId (req.param "since_id") = .ok sinceId ∧
        reply = messagePage all sinceId none limit

/-- A request that nothing interleaves with leaves the log as it is. -/
theorem getMessages_alone {t : Nat} {o : ServerOptions} {req : Request} {reply : Reply}
    {w w' : World ServerMemory} (h : (getMessages t o req).runAlone w = (.ok reply, w')) :
    Answers w.files.log req reply ∧ w'.files.messages = w.files.messages := by
  obtain ⟨auth, w₁, hauth, hrest⟩ := Prog.exists_of_runAlone_bind h
  obtain ⟨rfl, -⟩ := requireParticipant_alone hauth
  dsimp only at hrest
  split at hrest
  · cases hrest
  obtain ⟨_, w₂, htouch, hrest₂⟩ := Prog.exists_of_runAlone_bind hrest
  have hmessages : ((touchParticipant t auth auth.attention).runAlone w₁).2.files.messages =
      w₁.files.messages := (touchParticipant_alone auth auth.attention w₁).2.1
  rw [htouch] at hmessages
  split at hrest₂
  · cases hrest₂
  rename_i hcursor
  obtain ⟨limit, w₃, hfirst, hrest₃⟩ := Prog.exists_of_runAlone_bind hrest₂
  rw [runAlone_ofExcept] at hfirst
  obtain ⟨hlimit, rfl⟩ := Prod.mk.inj hfirst
  obtain ⟨all, w₄, hread, hrest₄⟩ := Prog.exists_of_runAlone_bind hrest₃
  obtain ⟨hread, rfl⟩ := query_alone hread
  have hlog : w₁.files.log = all := by
    rw [← log_of_read hread, RoomFiles.log, RoomFiles.log, hmessages]
  subst hlog
  cases hbefore : req.param "before_id" with
  | some raw =>
      rw [hbefore] at hrest₄
      obtain ⟨beforeId, w₅, hsecond, hrest₅⟩ := Prog.exists_of_runAlone_bind hrest₄
      rw [runAlone_ofExcept] at hsecond
      obtain ⟨hparse, rfl⟩ := Prod.mk.inj hsecond
      obtain ⟨hreply, rfl⟩ := Prod.mk.inj hrest₅
      refine ⟨⟨limit, hlimit, ?_⟩, hmessages⟩
      rw [hbefore]
      exact ⟨beforeId, hparse, (Except.ok.inj hreply).symm⟩
  | none =>
      rw [hbefore] at hrest₄
      obtain ⟨sinceId, w₅, hsecond, hrest₅⟩ := Prog.exists_of_runAlone_bind hrest₄
      rw [runAlone_ofExcept] at hsecond
      obtain ⟨hparse, rfl⟩ := Prod.mk.inj hsecond
      obtain ⟨hreply, rfl⟩ := Prod.mk.inj hrest₅
      refine ⟨⟨limit, hlimit, ?_⟩, hmessages⟩
      rw [hbefore]
      exact ⟨sinceId, hparse, (Except.ok.inj hreply).symm⟩

/-- Three messages, as they are stored. -/
def threeMessages : List Message :=
  [1, 2, 3].map fun id => ⟨id, "r", 0, "host", .message, "hello", none, none, []⟩

end AgentGather.Server
