import AgentGather.Storage.JoinedRooms

/-!
# What a row knows of its seats

A row knows the aliases of its seats and its own, and records a kind for some of them.
Writing the row again for an entry keeps what the row knew, and changes the kind of an
alias only where the entry carries one for it, exactly where the row's own alias does not
depend on being the selected one: where it is still selected, or listed with its kind.
-/

namespace AgentGather.Storage

open AgentGather.Library

/-- The aliases of the seats. -/
def seatAliases (seats : Option (List JoinedRoomSeat)) : List String :=
  (seats.getD []).map (·.aliasName)

/-- The kind the row's seats record for an alias. -/
def seatKind (row : JoinedRoom) (name : String) : Option JoinedRoomKind :=
  ((storedSeats row.seats).get? name).bind (·.kind)

/-- The kind recorded for an alias: its seat's, or the row's for the row's own. -/
def recordedKind (row : JoinedRoom) (name : String) : Option JoinedRoomKind :=
  (seatKind row name).or (if row.aliasName = name then row.kind else none)

/-- The row knows the alias.  An empty one is none. -/
def KnowsAlias (row : JoinedRoom) (name : String) : Prop :=
  name ≠ "" ∧ (name ∈ seatAliases row.seats ∨ row.aliasName = name)

/-- The entry carries a kind for the alias. -/
def CarriesKind (entry : JoinedRoom) (name : String) : Prop :=
  (entry.aliasName = name ∧ entry.kind.isSome) ∨
    ∃ seat ∈ entry.seats.getD [], seat.aliasName = name ∧ seat.kind.isSome

/-- Writing `entry` over `row` has lost no alias and no kind, and stamped none on another
alias. -/
structure SeatsKept (row entry after : JoinedRoom) : Prop where
  known : ∀ name, KnowsAlias row name → KnowsAlias after name
  kinds : ∀ name, name ≠ "" → recordedKind after name ≠ recordedKind row name →
    CarriesKind entry name

/-! ## Maps of seats -/

/-- The last kind that is said of an alias. -/
def lastKind (name : String) (seats : List JoinedRoomSeat) : Option JoinedRoomKind :=
  seats.reverse.findSome? fun seat => if seat.aliasName = name then seat.kind else none

theorem lastKind_cons (name : String) (seat : JoinedRoomSeat) (seats : List JoinedRoomSeat) :
    lastKind name (seat :: seats) =
      (lastKind name seats).or (if seat.aliasName = name then seat.kind else none) := by
  simp [lastKind, List.findSome?_append]

theorem lastKind_append (name : String) (seats seats' : List JoinedRoomSeat) :
    lastKind name (seats ++ seats') = (lastKind name seats').or (lastKind name seats) := by
  simp [lastKind, List.findSome?_append]

theorem lastKind_isSome_iff (name : String) (seats : List JoinedRoomSeat) :
    (lastKind name seats).isSome ↔
      ∃ seat ∈ seats, seat.aliasName = name ∧ seat.kind.isSome := by
  rw [lastKind, List.findSome?_isSome_iff]
  constructor
  · rintro ⟨seat, hseat, hkind⟩
    split at hkind
    · rename_i hname
      exact ⟨seat, List.mem_reverse.mp hseat, hname, hkind⟩
    · cases hkind
  · rintro ⟨seat, hseat, hname, hkind⟩
    exact ⟨seat, List.mem_reverse.mpr hseat, by rw [if_pos hname]; exact hkind⟩

theorem carriesKind_iff {entry : JoinedRoom} {name : String} :
    CarriesKind entry name ↔ (entry.aliasName = name ∧ entry.kind.isSome) ∨
      (lastKind name (entry.seats.getD [])).isSome := by
  rw [CarriesKind, lastKind_isSome_iff]

/-- Every seat of the map stands under its alias. -/
def ByAlias (merged : OrderedMap String JoinedRoomSeat) : Prop :=
  ∀ name seat, merged.get? name = some seat → seat.aliasName = name ∧ name ≠ ""

theorem ByAlias.set {merged : OrderedMap String JoinedRoomSeat} (h : ByAlias merged)
    {name : String} {seat : JoinedRoomSeat} (hseat : seat.aliasName = name) (hname : name ≠ "") :
    ByAlias (merged.set name seat) := by
  intro other found hfound
  rw [OrderedMap.get?_set] at hfound
  split at hfound
  · rename_i hother
    obtain rfl := Option.some.inj hfound
    exact ⟨hseat.trans hother.symm, hother ▸ hname⟩
  · exact h other found hfound

/-- What was stored last of an alias. -/
theorem get?_foldl_stored (seats : List JoinedRoomSeat)
    (merged : OrderedMap String JoinedRoomSeat) {name : String} (hname : name ≠ "") :
    (seats.foldl (fun merged seat =>
      if seat.aliasName = "" then merged else merged.set seat.aliasName seat) merged).get?
        name =
      (seats.reverse.find? fun seat => seat.aliasName = name).or (merged.get? name) := by
  induction seats generalizing merged with
  | nil => rfl
  | cons seat seats ih =>
      rw [List.foldl_cons, ih, List.reverse_cons, List.find?_append, Option.or_assoc]
      congr 1
      by_cases hempty : seat.aliasName = ""
      · have hne : seat.aliasName ≠ name := fun h => hname (h ▸ hempty)
        simp [hempty, hname.symm]
      · rw [if_neg hempty, OrderedMap.get?_set]
        by_cases heq : name = seat.aliasName
        · simp [heq]
        · simp [heq, Ne.symm heq]

theorem get?_storedSeats (seats : Option (List JoinedRoomSeat)) {name : String}
    (hname : name ≠ "") :
    (storedSeats seats).get? name =
      (seats.getD []).reverse.find? fun seat => seat.aliasName = name := by
  rw [storedSeats, get?_foldl_stored _ _ hname, OrderedMap.get?_empty, Option.or_none]

theorem byAlias_storedSeats (seats : Option (List JoinedRoomSeat)) :
    ByAlias (storedSeats seats) := by
  have hfold (l : List JoinedRoomSeat) (merged : OrderedMap String JoinedRoomSeat)
      (h : ByAlias merged) : ByAlias (l.foldl (fun merged seat =>
        if seat.aliasName = "" then merged else merged.set seat.aliasName seat) merged) := by
    induction l generalizing merged with
    | nil => exact h
    | cons seat l ih =>
        rw [List.foldl_cons]
        apply ih
        split
        · exact h
        · rename_i hseat
          exact h.set rfl hseat
  exact hfold _ _ fun _ _ h => nomatch h

theorem isSome_storedSeats_iff (seats : Option (List JoinedRoomSeat)) {name : String}
    (hname : name ≠ "") :
    ((storedSeats seats).get? name).isSome ↔ name ∈ seatAliases seats := by
  rw [get?_storedSeats seats hname, List.find?_isSome]
  simp [seatAliases]

/-- The seats of a map, stored, are the map again. -/
theorem get?_storedSeats_values {merged : OrderedMap String JoinedRoomSeat}
    (h : ByAlias merged) {name : String} (hname : name ≠ "") :
    (storedSeats (some merged.values)).get? name = merged.get? name := by
  have hseat (seat : JoinedRoomSeat) (hmem : seat ∈ merged.values)
      (hof : seat.aliasName = name) : merged.get? name = some seat := by
    obtain ⟨k, hk⟩ := OrderedMap.mem_values_iff.mp hmem
    obtain ⟨hk', -⟩ := h k seat hk
    rw [← hof, hk', hk]
  rw [get?_storedSeats _ hname, Option.getD_some]
  cases hfind : merged.values.reverse.find? fun seat => seat.aliasName = name with
  | some seat =>
      have hmem := List.mem_reverse.mp (List.mem_of_find?_eq_some hfind)
      exact (hseat seat hmem (by simpa using List.find?_some hfind)).symm
  | none =>
      cases hget : merged.get? name with
      | none => rfl
      | some seat =>
          have hmem := OrderedMap.mem_values_iff.mpr ⟨name, hget⟩
          have hno := List.find?_eq_none.mp hfind seat (List.mem_reverse.mpr hmem)
          simp [(h name seat hget).1] at hno

section Learned

variable {merged : OrderedMap String JoinedRoomSeat} {name : String}

theorem byAlias_foldl_learnSeat (seats : List JoinedRoomSeat) (h : ByAlias merged) :
    ByAlias (seats.foldl learnSeat merged) := by
  induction seats generalizing merged with
  | nil => exact h
  | cons seat seats ih =>
      rw [List.foldl_cons]
      apply ih
      unfold learnSeat
      split
      · exact h
      · rename_i hseat
        exact h.set rfl hseat

theorem isSome_foldl_learnSeat (seats : List JoinedRoomSeat) (hname : name ≠ "") :
    ((seats.foldl learnSeat merged).get? name).isSome ↔
      name ∈ seats.map (·.aliasName) ∨ (merged.get? name).isSome := by
  induction seats generalizing merged with
  | nil => simp
  | cons seat seats ih =>
      rw [List.foldl_cons, ih, List.map_cons, List.mem_cons, learnSeat]
      split
      · rename_i hempty
        have hne : name ≠ seat.aliasName := fun h => hname (h.trans hempty)
        simp [hne]
      · rw [OrderedMap.get?_set]
        by_cases heq : name = seat.aliasName
        · simp [heq]
        · simp [heq]

/-- A seat that was learned keeps its kind unless one was learned with it. -/
theorem kind_foldl_learnSeat (seats : List JoinedRoomSeat) (hname : name ≠ "") :
    ((seats.foldl learnSeat merged).get? name).bind (·.kind) =
      (lastKind name seats).or ((merged.get? name).bind (·.kind)) := by
  induction seats generalizing merged with
  | nil => rfl
  | cons seat seats ih =>
      rw [List.foldl_cons, ih, lastKind_cons, Option.or_assoc, learnSeat]
      congr 1
      split
      · rename_i hempty
        have hne : seat.aliasName ≠ name := fun h => hname (h ▸ hempty)
        rw [if_neg hne, Option.none_or]
      · rw [OrderedMap.get?_set]
        by_cases heq : name = seat.aliasName
        · simp [heq]
        · simp [heq, Ne.symm heq]

end Learned

/-! ## The row that is written -/

section Written

variable {row entry : JoinedRoom} {keep : Bool} {name : String}

/-- The alias that is selected: the stored one where it is kept. -/
theorem recordAlias_some :
    recordAlias (some row) entry keep =
      if keep = true ∧ row.aliasName ≠ "" then row.aliasName else entry.aliasName := by
  unfold recordAlias
  by_cases h : keep = true ∧ row.aliasName ≠ ""
  · have hstored : (keep && row.aliasName != "") = true := by simpa using h
    rw [if_pos h, Option.map_some, Option.filter_some, if_pos hstored]
  · rw [if_neg h, Option.map_some, Option.filter_some, if_neg (by simpa using h)]

theorem get?_written (hname : name ≠ "") :
    (storedSeats (joinedRoomRecord (some row) entry keep).seats).get? name =
      ((learnedSeats entry.seats (joinedRoomRecord (some row) entry keep).aliasName
        (joinedRoomRecord (some row) entry keep).kind).foldl learnSeat
          (storedSeats row.seats)).get? name := by
  set after := joinedRoomRecord (some row) entry keep with hafter
  have hseats : after.seats =
      if (mergeSeats row.seats entry.seats after.aliasName after.kind).isEmpty then none
      else some (mergeSeats row.seats entry.seats after.aliasName after.kind) := rfl
  have hbyAlias := byAlias_foldl_learnSeat
    (learnedSeats entry.seats after.aliasName after.kind) (byAlias_storedSeats row.seats)
  have hstored : storedSeats after.seats =
      storedSeats (some (mergeSeats row.seats entry.seats after.aliasName after.kind)) := by
    rw [hseats]
    split
    · rename_i hempty
      rw [List.isEmpty_iff.mp hempty]
      rfl
    · rfl
  rw [hstored, mergeSeats, get?_storedSeats_values hbyAlias hname]

theorem mem_learnedSeats_iff {incoming : Option (List JoinedRoomSeat)} {selected : String}
    {kind : Option JoinedRoomKind} (hname : name ≠ "") :
    name ∈ (learnedSeats incoming selected kind).map (·.aliasName) ↔
      name ∈ seatAliases incoming ∨ name = selected := by
  rw [learnedSeats, List.map_append, List.mem_append, seatAliases]
  by_cases h : selected = ""
  · simp [h, hname]
  · simp [h]

/-- The aliases the written row knows. -/
theorem knowsAlias_written_iff (hname : name ≠ "") :
    KnowsAlias (joinedRoomRecord (some row) entry keep) name ↔
      name ∈ seatAliases row.seats ∨ name ∈ seatAliases entry.seats ∨
        name = recordAlias (some row) entry keep := by
  have halias : (joinedRoomRecord (some row) entry keep).aliasName =
      recordAlias (some row) entry keep := rfl
  rw [KnowsAlias, ← isSome_storedSeats_iff _ hname, get?_written hname,
    isSome_foldl_learnSeat _ hname, mem_learnedSeats_iff hname,
    isSome_storedSeats_iff _ hname, halias, eq_comm (a := name)]
  tauto

theorem lastKind_learnedSeats (incoming : Option (List JoinedRoomSeat)) (selected : String)
    (kind : Option JoinedRoomKind) (hname : name ≠ "") :
    lastKind name (learnedSeats incoming selected kind) =
      (if selected = name then kind else none).or (lastKind name (incoming.getD [])) := by
  rw [learnedSeats, lastKind_append]
  congr 1
  by_cases h : selected = ""
  · have hne : selected ≠ name := fun h' => hname (h'.symm.trans h)
    simp [h, lastKind, hname.symm]
  · simp [h, lastKind, List.findSome?_cons]
    split <;> simp_all

/-- The kinds the written row records. -/
theorem recordedKind_written (hname : name ≠ "") :
    recordedKind (joinedRoomRecord (some row) entry keep) name =
      ((if recordAlias (some row) entry keep = name then
          recordKind (some row) entry (recordAlias (some row) entry keep) else none).or
        (lastKind name (entry.seats.getD []))).or (seatKind row name) := by
  have halias : (joinedRoomRecord (some row) entry keep).aliasName =
      recordAlias (some row) entry keep := rfl
  have hkind : (joinedRoomRecord (some row) entry keep).kind =
      recordKind (some row) entry (recordAlias (some row) entry keep) := rfl
  rw [recordedKind, seatKind, get?_written hname, kind_foldl_learnSeat _ hname,
    lastKind_learnedSeats _ _ _ hname, halias, hkind, seatKind]
  split
  · cases recordKind (some row) entry (recordAlias (some row) entry keep) <;> simp
  · simp

theorem recordKind_some (selected : String) :
    recordKind (some row) entry selected =
      entry.kind.or (if row.aliasName = selected then row.kind else none) := by
  simp [recordKind]

end Written

/-! ## Exactly when nothing is lost -/

/-- What the row's own alias asks of the entry: that it stays selected or is listed with
its kind. -/
structure OwnSeatSafe (row entry : JoinedRoom) (keepSelectedAlias : Bool) : Prop where
  /-- Where another alias is selected, the row's own is among the seats, with its kind. -/
  switched : keepSelectedAlias = false → entry.aliasName ≠ row.aliasName →
    (row.aliasName ∈ seatAliases row.seats ∨ row.aliasName ∈ seatAliases entry.seats) ∧
      (seatKind row row.aliasName = none → row.kind.isSome →
        CarriesKind entry row.aliasName)
  /-- A refresh from another alias carries no new kind. -/
  refreshed : keepSelectedAlias = true → entry.aliasName ≠ row.aliasName →
    ∀ kind, entry.kind = some kind →
      recordedKind row row.aliasName = some kind ∨ CarriesKind entry row.aliasName
  /-- Row and seat do not contradict each other where neither is replaced. -/
  agreed : keepSelectedAlias = true ∨ entry.aliasName = row.aliasName → entry.kind = none →
    ∀ kind kind', seatKind row row.aliasName = some kind → row.kind = some kind' →
      kind = kind' ∨ CarriesKind entry row.aliasName

section Written

variable {row entry : JoinedRoom} {keep : Bool} {name : String}

theorem written_known_iff :
    (∀ name, KnowsAlias row name →
      KnowsAlias (joinedRoomRecord (some row) entry keep) name) ↔
    (row.aliasName ≠ "" → keep = false → entry.aliasName ≠ row.aliasName →
      row.aliasName ∈ seatAliases row.seats ∨ row.aliasName ∈ seatAliases entry.seats) := by
  constructor
  · intro h hown hkeep hother
    have hknown := (knowsAlias_written_iff hown).mp (h _ ⟨hown, .inr rfl⟩)
    have hselected : recordAlias (some row) entry keep = entry.aliasName := by
      rw [recordAlias_some, if_neg (by simp [hkeep])]
    rcases hknown with hrow | hentry | hsame
    · exact .inl hrow
    · exact .inr hentry
    · exact absurd (hselected ▸ hsame).symm hother
  · rintro h name ⟨hname, hknown⟩
    rw [knowsAlias_written_iff hname]
    rcases hknown with hrow | rfl
    · exact .inl hrow
    · by_cases hsame : recordAlias (some row) entry keep = row.aliasName
      · exact .inr (.inr hsame.symm)
      · rw [recordAlias_some] at hsame
        split at hsame
        · exact absurd rfl hsame
        · rename_i hkept
          have hkeep : keep = false := by
            cases keep
            · rfl
            · exact absurd ⟨rfl, hname⟩ hkept
          rcases h hname hkeep hsame with hrow | hentry
          · exact .inl hrow
          · exact .inr (.inl hentry)

/-- Of another alias than the row's own, no kind changes that the entry does not carry. -/
theorem recordedKind_other (hname : name ≠ "") (hother : row.aliasName ≠ name)
    (hcarries : ¬ CarriesKind entry name) :
    recordedKind (joinedRoomRecord (some row) entry keep) name = recordedKind row name := by
  rw [carriesKind_iff, not_or, Option.not_isSome_iff_eq_none] at hcarries
  rw [recordedKind_written hname, hcarries.2, Option.or_none, recordedKind, if_neg hother,
    Option.or_none]
  split
  · rename_i hselected
    have hentry : entry.aliasName = name := by
      rw [recordAlias_some] at hselected
      split at hselected
      · exact absurd hselected hother
      · exact hselected
    have hkind : entry.kind = none := by
      rw [← Option.not_isSome_iff_eq_none]
      exact fun h => hcarries.1 ⟨hentry, h⟩
    rw [recordKind_some, hselected, if_neg hother, hkind, Option.or_none, Option.none_or]
  · rw [Option.none_or]

/-- The kind of the row's own alias, where the entry does not carry one for it. -/
theorem recordedKind_own_iff (hown : row.aliasName ≠ "")
    (hcarries : ¬ CarriesKind entry row.aliasName) :
    recordedKind (joinedRoomRecord (some row) entry keep) row.aliasName =
        recordedKind row row.aliasName ↔
      (keep = false → entry.aliasName ≠ row.aliasName → seatKind row row.aliasName = none →
        row.kind = none) ∧
      (keep = true → entry.aliasName ≠ row.aliasName → ∀ kind, entry.kind = some kind →
        recordedKind row row.aliasName = some kind) ∧
      (keep = true ∨ entry.aliasName = row.aliasName → entry.kind = none → ∀ kind kind',
        seatKind row row.aliasName = some kind → row.kind = some kind' → kind = kind') := by
  rw [carriesKind_iff, not_or, Option.not_isSome_iff_eq_none] at hcarries
  obtain ⟨hentry, hlast⟩ := hcarries
  rw [recordedKind_written hown, hlast, Option.or_none, recordedKind, if_pos rfl,
    recordKind_some, recordAlias_some]
  by_cases hkept : keep = true
  · by_cases hsame : entry.aliasName = row.aliasName
    · have hnone : entry.kind = none := by simpa [hsame] using hentry
      cases seatKind row row.aliasName <;> cases row.kind <;>
        simp [hkept, hown, hsame, hnone]
      exact eq_comm
    · cases entry.kind <;> cases seatKind row row.aliasName <;> cases row.kind <;>
        simp [hkept, hown, hsame]
      all_goals exact eq_comm
  · by_cases hsame : entry.aliasName = row.aliasName
    · have hnone : entry.kind = none := by simpa [hsame] using hentry
      cases seatKind row row.aliasName <;> cases row.kind <;>
        simp [hkept, hsame, hnone]
      exact eq_comm
    · cases seatKind row row.aliasName <;> cases row.kind <;>
        simp [hkept, hsame]

end Written

/-- Writing a stored row again keeps all that it knew of its seats if and only if the row's
own alias is safe. -/
theorem upsertJoinedRoom_seatsKept_iff (rooms : List JoinedRoom) (entry : JoinedRoom)
    (keepSelectedAlias : Bool) {row : JoinedRoom}
    (h : findRoom entry.target rooms = some row) :
    ∃ after, findRoom entry.target (upsertJoinedRoom rooms entry keepSelectedAlias) =
        some after ∧
      (SeatsKept row entry after ↔
        (row.aliasName ≠ "" → OwnSeatSafe row entry keepSelectedAlias)) := by
  refine ⟨_, findRoom_upsertJoinedRoom rooms entry keepSelectedAlias, ?_⟩
  rw [h]
  constructor
  · intro hkept hown
    have hknown := written_known_iff.mp hkept.known hown
    by_cases hcarries : CarriesKind entry row.aliasName
    · exact ⟨fun hrecord hother => ⟨hknown hrecord hother, fun _ _ => hcarries⟩,
        fun _ _ _ _ => .inr hcarries, fun _ _ _ _ _ _ => .inr hcarries⟩
    · have hsame := by_contra fun hne => hcarries (hkept.kinds row.aliasName hown hne)
      obtain ⟨hswitched, hrefreshed, hagreed⟩ := (recordedKind_own_iff hown hcarries).mp hsame
      refine ⟨fun hrecord hother => ⟨hknown hrecord hother, fun hseat hsome => ?_⟩,
        fun hrefresh hother kind hkind => .inl (hrefreshed hrefresh hother kind hkind),
        fun hselected hnone kind kind' hseat hrow =>
          .inl (hagreed hselected hnone kind kind' hseat hrow)⟩
      rw [hswitched hrecord hother hseat] at hsome
      cases hsome
  · intro hsafe
    refine ⟨written_known_iff.mpr fun hown hrecord hother =>
      ((hsafe hown).switched hrecord hother).1, fun name hname hchanged => ?_⟩
    by_contra hcarries
    by_cases hrow : row.aliasName = name
    · subst hrow
      apply hchanged
      have hsafe := hsafe hname
      refine (recordedKind_own_iff hname hcarries).mpr ⟨fun hrecord hother hseat => ?_,
        fun hrefresh hother kind hkind =>
          (hsafe.refreshed hrefresh hother kind hkind).resolve_right hcarries,
        fun hselected hnone kind kind' hseat hkind =>
          (hsafe.agreed hselected hnone kind kind' hseat hkind).resolve_right hcarries⟩
      rw [← Option.not_isSome_iff_eq_none]
      exact fun hsome => hcarries ((hsafe.switched hrecord hother).2 hseat hsome)
    · exact hchanged (recordedKind_other hname hrow hcarries)

/-- A row of an older version: an alias, no seats. -/
def legacyRow : JoinedRoom where
  roomId := "r"
  title := "Launch"
  aliasName := "ada"
  baseUrl := "https://host"
  joinedAt := "t0"
  lastSeen := "t0"
  kind := none
  seats := none
  archived := none

/-- The same alias, seen again. -/
theorem upsertJoinedRoom_seatsKept_iff_seenAgain :
    ∃ after, findRoom legacyRow.target (upsertJoinedRoom [legacyRow] legacyRow false) =
        some after ∧
      (SeatsKept legacyRow legacyRow after ↔
        (legacyRow.aliasName ≠ "" → OwnSeatSafe legacyRow legacyRow false)) :=
  upsertJoinedRoom_seatsKept_iff [legacyRow] legacyRow false (by decide)

/-- Recorded under another alias, the row forgets the one it had. -/
theorem upsertJoinedRoom_forgets_legacy_alias :
    ¬ ∀ (rooms : List JoinedRoom) (entry row after : JoinedRoom) (keepSelectedAlias : Bool),
      findRoom entry.target rooms = some row →
      findRoom entry.target (upsertJoinedRoom rooms entry keepSelectedAlias) = some after →
      SeatsKept row entry after := by
  intro h
  let entry := { legacyRow with aliasName := "bot", kind := some .agent }
  have hkept := h [legacyRow] entry legacyRow (joinedRoomRecord (some legacyRow) entry false)
    false (by decide) (by decide)
  have hknown : KnowsAlias legacyRow "ada" := ⟨by decide, .inr rfl⟩
  have hforgotten := (knowsAlias_written_iff (by decide)).mp (hkept.known "ada" hknown)
  revert hforgotten
  decide

end AgentGather.Storage
