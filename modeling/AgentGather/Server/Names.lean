import Mathlib.Data.List.Pairwise
import AgentGather.Server.Roster

/-!
# Display names

A profile request reads the roster to see that nobody else goes by the name it claims, and
stores its record under the writer lock in a later step.  In every run of profile requests,
the stored rosters give everyone a name of their own, and no request takes a name that
another holds, exactly when no name is taken between such a look and the taking of the
lock; and whoever sees the name taken is answered so.
-/

namespace AgentGather.Server

open AgentGather.Library AgentGather.Protocol AgentGather.Storage

/-! ## Rosters -/

/-- The name a participant goes by, as names are compared. -/
def effectiveName (lower : String → String) (p : Participant) : String :=
  lower (p.displayName.getD p.aliasName)

/-- Alias and token of a participant. -/
def identity (p : Participant) : String × Option String := (p.aliasName, p.tokenHash)

/-- Everyone has an alias and, if any, a token of their own. -/
structure OwnTokens (participants : List Participant) : Prop where
  aliases : (participants.map (·.aliasName)).Nodup
  tokens : participants.Pairwise fun p q => p.tokenHash.isSome → p.tokenHash ≠ q.tokenHash

section Rosters

variable {lower : String → String} {participants : List Participant} {new : Participant}

theorem mem_upsertRecord_iff (haliases : (participants.map (·.aliasName)).Nodup)
    (hnew : new.aliasName ∈ participants.map (·.aliasName)) {p : Participant} :
    p ∈ upsertRecord participants new ↔
      p = new ∨ (p ∈ participants ∧ p.aliasName ≠ new.aliasName) := by
  induction participants with
  | nil => cases hnew
  | cons q ps ih =>
      obtain ⟨hq, haliases⟩ := List.nodup_cons.mp haliases
      rw [upsertRecord_cons]
      by_cases hsame : q.aliasName = new.aliasName
      · rw [if_pos hsame, List.mem_cons, List.mem_cons]
        constructor
        · rintro (rfl | hp)
          · exact .inl rfl
          · refine .inr ⟨.inr hp, fun h => hq ?_⟩
            exact List.mem_map.mpr ⟨p, hp, h.trans hsame.symm⟩
        · rintro (rfl | ⟨rfl | hp, hne⟩)
          · exact .inl rfl
          · exact absurd hsame hne
          · exact .inr hp
      · have hnew' : new.aliasName ∈ ps.map (·.aliasName) := by
          rcases List.mem_cons.mp hnew with h | h
          · exact absurd h.symm hsame
          · exact h
        rw [if_neg hsame, List.mem_cons, ih haliases hnew', List.mem_cons]
        constructor
        · rintro (rfl | rfl | ⟨hp, hne⟩)
          · exact .inr ⟨.inl rfl, hsame⟩
          · exact .inl rfl
          · exact .inr ⟨.inr hp, hne⟩
        · rintro (rfl | ⟨rfl | hp, hne⟩)
          · exact .inr (.inl rfl)
          · exact .inl rfl
          · exact .inr (.inr ⟨hp, hne⟩)

/-- Storing a record again leaves who there is. -/
theorem identity_upsertRecord (haliases : (participants.map (·.aliasName)).Nodup)
    (hnew : identity new ∈ participants.map identity) :
    (upsertRecord participants new).map identity = participants.map identity := by
  induction participants with
  | nil => cases hnew
  | cons q ps ih =>
      obtain ⟨hq, haliases⟩ := List.nodup_cons.mp haliases
      rw [upsertRecord_cons]
      rcases List.mem_cons.mp hnew with h | h
      · have hsame : q.aliasName = new.aliasName := (congrArg Prod.fst h).symm
        rw [if_pos hsame, List.map_cons, List.map_cons, h]
      · have hsame : q.aliasName ≠ new.aliasName := by
          intro hsame
          obtain ⟨p, hp, hpnew⟩ := List.mem_map.mp h
          exact hq (List.mem_map.mpr ⟨p, hp, (congrArg Prod.fst hpnew).trans hsame.symm⟩)
        rw [if_neg hsame, List.map_cons, List.map_cons, ih haliases h]

/-- Participants with the same aliases and tokens have them of their own, too. -/
theorem OwnTokens.congr {initial : List Participant} (h : OwnTokens initial)
    (hsame : participants.map identity = initial.map identity) : OwnTokens participants := by
  have haliases (ps : List Participant) :
      ps.map (·.aliasName) = (ps.map identity).map Prod.fst := by
    rw [List.map_map]
    rfl
  constructor
  · rw [haliases, hsame, ← haliases]
    exact h.aliases
  · have htokens : (participants.map identity).Pairwise
        fun a b => a.2.isSome → a.2 ≠ b.2 := by
      rw [hsame]
      exact List.pairwise_map.mpr h.tokens
    exact List.pairwise_map.mp htokens

/-- The roster with the record gives everyone a name of their own if nobody else has the
new one. -/
theorem names_upsertRecord_iff (haliases : (participants.map (·.aliasName)).Nodup)
    (hnames : (participants.map (effectiveName lower)).Nodup)
    (hnew : new.aliasName ∈ participants.map (·.aliasName)) :
    ((upsertRecord participants new).map (effectiveName lower)).Nodup ↔
      ∀ p ∈ participants, p.aliasName ≠ new.aliasName →
        effectiveName lower p ≠ effectiveName lower new := by
  induction participants with
  | nil => cases hnew
  | cons q ps ih =>
      obtain ⟨hq, hps⟩ := List.nodup_cons.mp haliases
      obtain ⟨hqname, hnames⟩ := List.nodup_cons.mp hnames
      rw [upsertRecord_cons]
      by_cases hsame : q.aliasName = new.aliasName
      · have hothers : ∀ p ∈ ps, p.aliasName ≠ new.aliasName := fun p hp h =>
          hq (List.mem_map.mpr ⟨p, hp, h.trans hsame.symm⟩)
        rw [if_pos hsame, List.map_cons, List.nodup_cons]
        constructor
        · rintro ⟨hnot, -⟩ p hp hne heq
          rcases List.mem_cons.mp hp with rfl | hp
          · exact hne hsame
          · exact hnot (List.mem_map.mpr ⟨p, hp, heq⟩)
        · intro hfree
          refine ⟨fun hmem => ?_, hnames⟩
          obtain ⟨p, hp, heq⟩ := List.mem_map.mp hmem
          exact hfree p (List.mem_cons_of_mem _ hp) (hothers p hp) heq
      · have hnew' : new.aliasName ∈ ps.map (·.aliasName) := by
          rcases List.mem_cons.mp hnew with h | h
          · exact absurd h.symm hsame
          · exact h
        rw [if_neg hsame, List.map_cons, List.nodup_cons, ih hps hnames hnew']
        constructor
        · rintro ⟨hnot, hfree⟩ p hp hne heq
          rcases List.mem_cons.mp hp with rfl | hp
          · have hmem := (mem_upsertRecord_iff hps hnew').mpr (.inl rfl)
            exact hnot (List.mem_map.mpr ⟨new, hmem, heq.symm⟩)
          · exact hfree p hp hne heq
        · intro hfree
          refine ⟨fun hmem => ?_, fun p hp => hfree p (List.mem_cons_of_mem _ hp)⟩
          obtain ⟨p, hp, heq⟩ := List.mem_map.mp hmem
          rcases (mem_upsertRecord_iff hps hnew').mp hp with hpnew | ⟨hp, -⟩
          · exact hfree q List.mem_cons_self hsame (hpnew ▸ heq.symm)
          · exact hqname (List.mem_map.mpr ⟨p, hp, heq⟩)

/-- Among participants with tokens of their own, the check finds whoever else goes by the
name. -/
theorem findNameOwnerConflict_isSome_iff {claimant : Participant} {name : String}
    (htokens : participants.Pairwise fun p q =>
      p.tokenHash.isSome → p.tokenHash ≠ q.tokenHash)
    (hclaimant : identity claimant ∈ participants.map identity) :
    (findNameOwnerConflict lower participants name claimant).isSome = true ↔
      ∃ p ∈ participants, p.aliasName ≠ claimant.aliasName ∧
        effectiveName lower p = lower name := by
  have hother : ∀ p ∈ participants, p.aliasName ≠ claimant.aliasName →
      (p.tokenHash.isSome && p.tokenHash == claimant.tokenHash) = false := by
    intro p hp hne
    obtain ⟨q, hq, hqc⟩ := List.mem_map.mp hclaimant
    have hpq : p ≠ q := fun h => hne (h ▸ congrArg Prod.fst hqc)
    have hsymm : Std.Symm fun p q : Participant =>
        p.tokenHash.isSome → p.tokenHash ≠ q.tokenHash :=
      ⟨fun a b h hb hab => h (hab ▸ hb) hab.symm⟩
    have hdiffer := htokens.forall hp hq hpq
    have hhash : q.tokenHash = claimant.tokenHash := congrArg Prod.snd hqc
    rw [← hhash, Bool.and_eq_false_iff, beq_eq_false_iff_ne]
    cases hsome : p.tokenHash.isSome with
    | false => exact .inl rfl
    | true => exact .inr (hdiffer hsome)
  rw [findNameOwnerConflict]
  constructor
  · intro h
    split at h
    · cases h
    · rename_i owner hfound
      have hown := List.find?_some hfound
      rw [Bool.and_eq_true, decide_eq_true_eq, beq_iff_eq] at hown
      exact ⟨owner, List.mem_of_find?_eq_some hfound, hown⟩
  · rintro ⟨p, hp, hne, hname⟩
    split
    · rename_i hnone
      have hnot := List.find?_eq_none.mp hnone p hp
      rw [effectiveName] at hname
      simp [hne, hname] at hnot
    · rename_i owner hfound
      have hown := List.find?_some hfound
      rw [Bool.and_eq_true, decide_eq_true_eq, beq_iff_eq] at hown
      rw [hother owner (List.mem_of_find?_eq_some hfound) hown.1]
      rfl

end Rosters

/-! ## What the history says -/

/-- What caller `t` saw at its looks at the roster, the first one first. -/
def rostersRead (t : Nat) : List (Event RoomStep) → List (Stored (List Participant))
  | [] => []
  | .ran u (.readParticipants found) :: es =>
      if u = t then rostersRead t es ++ [found] else rostersRead t es
  | _ :: es => rostersRead t es

/-- The roster that a profile request checks the name on: it authenticated on another. -/
def checkedRoster (t : Nat) (es : List (Event RoomStep)) :
    Option (Stored (List Participant)) := (rostersRead t es)[1]?

/-- The name a profile request asks for. -/
def claimedName (req : Request) : Option String :=
  match req.body with
  | .ok body =>
      match body.field? "display_name" with
      | some (.str raw) => (parseDisplayName raw).toOption
      | _ => none
  | .error _ => none

/-- Who claims which name. -/
def claim (o : ServerOptions) (calls : List ServerCall) (t : Nat)
    (es : List (Event RoomStep)) : Option (Participant × String) :=
  match calls[t]? with
  | some (.request .postProfile req) =>
      (authenticated o req t es).bind fun auth => (claimedName req).map fun name => (auth, name)
  | _ => none

/-- On this roster, the claim of caller `t` is in conflict with another's name. -/
def conflicts (o : ServerOptions) (calls : List ServerCall) (t : Nat)
    (es : List (Event RoomStep)) : Stored (List Participant) → Bool
  | .whole participants => (claim o calls t es).any fun (auth, name) =>
      (findNameOwnerConflict o.toLowerCase participants name auth).isSome
  | _ => false

/-- Caller `t` found the name taken that it claims. -/
def foundTaken (o : ServerOptions) (calls : List ServerCall) (t : Nat)
    (es : List (Event RoomStep)) : Bool :=
  (checkedRoster t es).any (conflicts o calls t es)

/-- A claim was stored that is in conflict with the roster under the lock, although it was
not with the one it was checked on. -/
def takenSinceCheck (o : ServerOptions) (calls : List ServerCall)
    (roster : Stored (List Participant)) : List (Event RoomStep) → Bool :=
  happened fun t l es =>
    match l with
    | .wroteParticipants _ =>
        conflicts o calls t es (committed roster es) && !foundTaken o calls t es
    | _ => false

/-- A claim was stored although another goes by the name. -/
def tookHeldName (o : ServerOptions) (calls : List ServerCall)
    (roster : Stored (List Participant)) : List (Event RoomStep) → Bool :=
  happened fun t l es =>
    match l, committed roster es with
    | .wroteParticipants _, .whole before => (claim o calls t es).any fun (auth, name) =>
        before.any fun p => p.aliasName != auth.aliasName &&
          effectiveName o.toLowerCase p == o.toLowerCase name
    | _, _ => false

/-- A roster was stored in which two go by one name. -/
def sharedName (lower : String → String) : List (Event RoomStep) → Bool :=
  happened fun _ l _ =>
    match l with
    | .wroteParticipants after => !decide (after.map (effectiveName lower)).Nodup
    | _ => false

theorem rostersRead_own (t : Nat) (found : Stored (List Participant))
    (es : List (Event RoomStep)) :
    rostersRead t (.ran t (.readParticipants found) :: es) = rostersRead t es ++ [found] := by
  rw [rostersRead, if_pos rfl]

theorem rostersRead_cons {t : Nat} {e : Event RoomStep}
    (he : ∀ found, e ≠ .ran t (.readParticipants found)) (es : List (Event RoomStep)) :
    rostersRead t (e :: es) = rostersRead t es := by
  rcases e with ⟨u, l⟩ | ⟨u, l⟩ | p
  · cases l with
    | readParticipants found =>
        have hu : u ≠ t := by
          rintro rfl
          exact he found rfl
        rw [rostersRead, if_neg hu]
    | _ => rfl
  · rfl
  · rfl

theorem firstRead_eq_head? (t : Nat) (es : List (Event RoomStep)) :
    firstRead t es = (rostersRead t es).head? := by
  induction es with
  | nil => rfl
  | cons e es ih =>
      by_cases he : ∃ found, e = .ran t (.readParticipants found)
      · obtain ⟨found, rfl⟩ := he
        rw [rostersRead_own, List.head?_append, firstRead, ih, if_pos rfl]
        rfl
      · rw [rostersRead_cons fun found h => he ⟨found, h⟩, ← ih]
        rcases e with ⟨u, l⟩ | ⟨u, l⟩ | p
        · cases l with
          | readParticipants found =>
              have hu : u ≠ t := by
                rintro rfl
                exact he ⟨found, rfl⟩
              rw [firstRead, if_neg hu, Option.or_none]
          | _ => rfl
        · rfl
        · rfl

/-- What was checked stays checked. -/
theorem checkedRoster_cons {t : Nat} {es : List (Event RoomStep)}
    {found : Stored (List Participant)} (h : checkedRoster t es = some found)
    (e : Event RoomStep) : checkedRoster t (e :: es) = some found := by
  by_cases he : ∃ found', e = .ran t (.readParticipants found')
  · obtain ⟨found', rfl⟩ := he
    rw [checkedRoster, rostersRead_own, List.getElem?_append_left]
    · exact h
    · exact (List.getElem?_eq_some_iff.mp h).1
  · rw [checkedRoster, rostersRead_cons fun found' h' => he ⟨found', h'⟩]
    exact h

section Foreign

variable {process : Nat → Nat} {t : Nat} {e : Event RoomStep}
  (he : (faultySystem ServerMemory process).Foreign t e) (es : List (Event RoomStep))

include he

theorem rostersRead_foreign : rostersRead t (e :: es) = rostersRead t es := by
  refine rostersRead_cons (fun found h => ?_) es
  rw [h] at he
  exact he rfl

theorem foundTaken_foreign (o : ServerOptions) (calls : List ServerCall) :
    foundTaken o calls t (e :: es) = foundTaken o calls t es := by
  have hclaim : claim o calls t (e :: es) = claim o calls t es := by
    simp only [claim, authenticated, firstRead_foreign he]
  have hconflicts : conflicts o calls t (e :: es) = conflicts o calls t es := by
    funext roster
    cases roster <;> simp only [conflicts, hclaim]
  rw [foundTaken, foundTaken, hconflicts, checkedRoster, checkedRoster, rostersRead_foreign he]

end Foreign

/-- As long as no names are shared, the roster gives everyone a name of their own. -/
theorem names_of_not_shared {lower : String → String} {initial participants : List Participant}
    (hinitial : (initial.map (effectiveName lower)).Nodup) {es : List (Event RoomStep)}
    (h : sharedName lower es = false)
    (hcommitted : committed (.whole initial) es = .whole participants) :
    (participants.map (effectiveName lower)).Nodup := by
  induction es with
  | nil =>
      obtain rfl := Stored.whole.inj hcommitted
      exact hinitial
  | cons e es ih =>
      have htail := not_happened_tail h
      rcases e with ⟨u, l⟩ | ⟨u, l⟩ | p
      · cases l with
        | wroteParticipants after =>
            obtain rfl := Stored.whole.inj hcommitted
            have hafter : (!decide (after.map (effectiveName lower)).Nodup ||
              sharedName lower es) = false := h
            simpa using (Bool.or_eq_false_iff.mp hafter).1
        | _ => exact ih htail hcommitted
      · exact ih htail hcommitted
      · exact ih htail hcommitted

/-! ## The invariant -/

/-- The roster is the one last committed and has the participants of the first one; names
are shared, and held ones taken, by claims that were overtaken. -/
structure NameInv (o : ServerOptions) (calls : List ServerCall) (initial : List Participant)
    (x : Snapshot (World ServerMemory) RoomStep) : Prop where
  stored : x.world.files.participants = committed (.whole initial) x.trace
  same : ∃ participants, committed (.whole initial) x.trace = .whole participants ∧
    participants.map identity = initial.map identity
  shared : sharedName o.toLowerCase x.trace =
    takenSinceCheck o calls (.whole initial) x.trace
  held : tookHeldName o calls (.whole initial) x.trace =
    takenSinceCheck o calls (.whole initial) x.trace

section Invariant

variable {o : ServerOptions} {calls : List ServerCall} {initial : List Participant}

theorem nameInv_other {x : Snapshot (World ServerMemory) RoomStep}
    (hx : NameInv o calls initial x) {e : Event RoomStep}
    (he : ∀ t after, e ≠ .ran t (.wroteParticipants after)) {w : World ServerMemory}
    (hfiles : w.files.participants = x.world.files.participants) :
    NameInv o calls initial (x.record e w) := by
  obtain ⟨hstored, hsame, hshared, hheld⟩ := hx
  rcases e with ⟨t, l⟩ | ⟨t, l⟩ | p
  · cases l with
    | wroteParticipants after => exact absurd rfl (he t after)
    | _ => exact ⟨hfiles.trans hstored, hsame, hshared, hheld⟩
  · exact ⟨hfiles.trans hstored, hsame, hshared, hheld⟩
  · exact ⟨hfiles.trans hstored, hsame, hshared, hheld⟩

theorem nameInv_status : KeptByStatus (NameInv o calls initial) where
  noWrite := by
    intro x e w hx he hfiles
    refine nameInv_other hx (fun t after h => ?_) (by rw [hfiles])
    rw [h] at he
    cases he
  state := fun _ _ _ _ _ hx _ _ _ _ => nameInv_other hx (fun _ _ h => by cases h) rfl
  system := fun _ _ _ hx _ _ _ => nameInv_other hx (fun _ _ h => by cases h) rfl

theorem nameInv_noWrite : KeptWithoutWrites (NameInv o calls initial) := nameInv_status.noWrite

/-- A claim is stored that was checked. -/
theorem nameInv_claim (hinitial : OwnTokens initial)
    (hnames : (initial.map (effectiveName o.toLowerCase)).Nodup)
    {x : Snapshot (World ServerMemory) RoomStep} (hx : NameInv o calls initial x) {t : Nat}
    {auth new : Participant} {name : String} {before : List Participant}
    (hclaim : claim o calls t x.trace = some (auth, name))
    (hauth : identity auth ∈ initial.map identity) (hidentity : identity new = identity auth)
    (hname : effectiveName o.toLowerCase new = o.toLowerCase name)
    (hchecked : foundTaken o calls t x.trace = false)
    (hbefore : x.world.files.participants = .whole before) :
    NameInv o calls initial
      (x.record (.ran t (.wroteParticipants (upsertRecord before new))) { x.world with
        files := { x.world.files with participants := .whole (upsertRecord before new) } }) := by
  have hcommitted : committed (.whole initial) x.trace = .whole before :=
    hx.stored.symm.trans hbefore
  have hsame : before.map identity = initial.map identity := by
    obtain ⟨ps, hps, hsame⟩ := hx.same
    obtain rfl := Stored.whole.inj (hcommitted.symm.trans hps)
    exact hsame
  have hown : OwnTokens before := hinitial.congr hsame
  have hmem : identity new ∈ before.map identity := by
    rw [hidentity, hsame]
    exact hauth
  have halias : new.aliasName ∈ before.map (·.aliasName) := by
    obtain ⟨p, hp, hpnew⟩ := List.mem_map.mp hmem
    exact List.mem_map.mpr ⟨p, hp, congrArg Prod.fst hpnew⟩
  have hsamealias : new.aliasName = auth.aliasName := congrArg Prod.fst hidentity
  -- the three judgements of this write
  have htaken : takenSinceCheck o calls (.whole initial)
      (.ran t (.wroteParticipants (upsertRecord before new)) :: x.trace) =
      ((findNameOwnerConflict o.toLowerCase before name auth).isSome ||
        takenSinceCheck o calls (.whole initial) x.trace) := by
    change ((conflicts o calls t x.trace (committed (.whole initial) x.trace) &&
      !foundTaken o calls t x.trace) || _) = _
    rw [hcommitted, hchecked, conflicts, hclaim]
    simp only [Option.any_some, Bool.not_false, Bool.and_true]
    rfl
  have hheld : tookHeldName o calls (.whole initial)
      (.ran t (.wroteParticipants (upsertRecord before new)) :: x.trace) =
      ((before.any fun p => p.aliasName != auth.aliasName &&
        effectiveName o.toLowerCase p == o.toLowerCase name) ||
        tookHeldName o calls (.whole initial) x.trace) := by
    rw [tookHeldName, happened, ← tookHeldName]
    simp only [hcommitted, hclaim, Option.any_some]
  have hshared : sharedName o.toLowerCase
      (.ran t (.wroteParticipants (upsertRecord before new)) :: x.trace) =
      (!decide ((upsertRecord before new).map (effectiveName o.toLowerCase)).Nodup ||
        sharedName o.toLowerCase x.trace) := rfl
  have hconflict : (findNameOwnerConflict o.toLowerCase before name auth).isSome =
      before.any fun p => p.aliasName != auth.aliasName &&
        effectiveName o.toLowerCase p == o.toLowerCase name := by
    rw [Bool.eq_iff_iff, findNameOwnerConflict_isSome_iff hown.tokens (hidentity ▸ hmem),
      List.any_eq_true]
    simp only [Bool.and_eq_true, bne_iff_ne, beq_iff_eq]
  refine ⟨rfl, ⟨_, rfl, ?_⟩, ?_, ?_⟩
  · rw [identity_upsertRecord hown.aliases hmem, hsame]
  · rw [Snapshot.record_trace, hshared, htaken, hx.shared]
    cases hpast : takenSinceCheck o calls (.whole initial) x.trace with
    | true => rw [Bool.or_true, Bool.or_true]
    | false =>
        rw [Bool.or_false, Bool.or_false, hconflict]
        have hdistinct := names_of_not_shared hnames (hx.shared.trans hpast) hcommitted
        have hiff := names_upsertRecord_iff hown.aliases hdistinct halias
        rw [hname, hsamealias] at hiff
        rw [Bool.eq_iff_iff, Bool.not_eq_true', decide_eq_false_iff_not, hiff,
          List.any_eq_true]
        simp only [not_forall, not_not, Bool.and_eq_true, bne_iff_ne, beq_iff_eq, exists_prop]
  · rw [Snapshot.record_trace, hheld, htaken, hx.held, hconflict]

end Invariant

/-! ## Requests -/

/-- What a claim of a name that is taken is answered. -/
def displayNameTaken : Failure :=
  .http 409 "display_name_taken" "display name is already in use"

section Calls

variable {process : Nat → Nat} {t : Nat} {o : ServerOptions} {calls : List ServerCall}
  {initial : List Participant} {req : Request}

/-- Nobody has found a name taken who has not looked twice. -/
theorem not_foundTaken_of_length {es : List (Event RoomStep)}
    (h : (rostersRead t es).length ≤ 1) : foundTaken o calls t es = false := by
  rw [foundTaken, checkedRoster, List.getElem?_eq_none h]
  rfl

/-- The request has authenticated, and not looked at the roster again. -/
structure Authenticated (o : ServerOptions) (t : Nat) (req : Request) (auth : Participant)
    (es : List (Event RoomStep)) : Prop where
  record : authenticated o req t es = some auth
  once : (rostersRead t es).length = 1

theorem authenticated_stable (auth : Participant) :
    LockStable process (NameInv o calls initial) t
      fun x => Authenticated o t req auth x.trace := by
  rintro e x w hf - - - ⟨hrecord, honce⟩
  refine ⟨authenticated_cons hrecord e, ?_⟩
  rw [Snapshot.record_trace, rostersRead_foreign hf]
  exact honce

theorem authenticated_own (auth : Participant) :
    KeptInMemory t fun x => Authenticated o t req auth x.trace := by
  rintro x w l hl - ⟨hrecord, honce⟩ - -
  refine ⟨⟨authenticated_cons hrecord _, ?_⟩, authenticated_cons hrecord _, honce⟩
  rw [Snapshot.record_trace, rostersRead_cons]
  · exact honce
  · rintro found h
    obtain ⟨-, rfl⟩ := Event.ran.inj h
    cases hl

/-- The record is one of a participant that was there from the first. -/
theorem requireParticipant_named (allowRemoved : Bool) :
    LockSafe process (NameInv o calls initial) t
      (fun auth x => identity auth ∈ initial.map identity ∧
        Authenticated o t req auth x.trace)
      (fun _ x => (rostersRead t x.trace).length ≤ 1) (requireParticipant o req allowRemoved)
      fun x => rostersRead t x.trace = [] := by
  unfold requireParticipant
  split
  · intro x _ h
    simp [h]
  · rename_i token htoken
    refine Contract.Safe.bind (R := fun participants x =>
      participants.map identity = initial.map identity ∧
        rostersRead t x.trace = [.whole participants]) ?_ fun participants => ?_
    · refine Contract.Safe.action ?_ ?_ ?_ ?_ ?_
      · intro e x w hf _ _ _ h
        rw [Snapshot.record_trace, rostersRead_foreign hf]
        exact h
      · exact fun x hx _ _ _ => keeps_quietly nameInv_noWrite.quietly hx
          ⟨rfl, rfl, rfl, le_refl _⟩ fun _ _ hu => hu
      · intro x participants hx h _ _ hread
        have hwhole := Stored.eq_whole_of_read hread
        obtain ⟨ps, hps, hsame⟩ := hx.same
        obtain rfl := Stored.whole.inj (hwhole.symm.trans (hx.stored.trans hps))
        rw [Snapshot.record_trace, rostersRead_own, h, hwhole]
        exact ⟨hsame, rfl⟩
      · intro x e _ h _ _ _
        rw [Snapshot.record_trace, rostersRead_own, h]
        exact Nat.le_refl _
      · intro x e hx h _ _
        refine ⟨keeps_failed nameInv_noWrite.quietly hx t _, ?_⟩
        rw [Snapshot.record_trace, rostersRead_cons (fun _ h => by cases h), h]
        exact Nat.zero_le _
    · have hlength (x : Snapshot (World ServerMemory) RoomStep)
          (h : rostersRead t x.trace = [.whole participants]) :
          (rostersRead t x.trace).length ≤ 1 := by simp [h]
      split
      · exact fun x _ h => hlength x h.2
      · rename_i auth hfound
        dsimp only
        split
        · exact fun x _ h => hlength x h.2
        · refine .done fun x _ h => ⟨?_, ?_, ?_⟩
          · rw [← h.1]
            exact List.mem_map_of_mem (List.mem_of_find?_eq_some hfound)
          · simp only [authenticated, htoken, firstRead_eq_head?, h.2, List.head?_cons]
            exact hfound
          · rw [h.2]
            rfl

/-- The roster that the name was checked on, and who claims it. -/
structure CheckedName (o : ServerOptions) (t : Nat) (req : Request)
    (participants : List Participant) (auth : Participant) (es : List (Event RoomStep)) :
    Prop where
  checked : checkedRoster t es = some (.whole participants)
  record : authenticated o req t es = some auth

theorem CheckedName.cons {participants : List Participant} {auth : Participant}
    {es : List (Event RoomStep)} (h : CheckedName o t req participants auth es)
    (e : Event RoomStep) : CheckedName o t req participants auth (e :: es) :=
  ⟨checkedRoster_cons h.checked e, authenticated_cons h.record e⟩

theorem claim_of_record (hcall : calls[t]? = some (.request .postProfile req))
    {auth : Participant} {name : String} (hname : claimedName req = some name)
    {es : List (Event RoomStep)} (h : authenticated o req t es = some auth) :
    claim o calls t es = some (auth, name) := by
  rw [claim, hcall]
  simp only [h, hname, Option.bind_some, Option.map_some]

theorem foundTaken_of_checked (hcall : calls[t]? = some (.request .postProfile req))
    {participants : List Participant} {auth : Participant} {name : String}
    (hname : claimedName req = some name) {es : List (Event RoomStep)}
    (h : CheckedName o t req participants auth es) :
    foundTaken o calls t es =
      (findNameOwnerConflict o.toLowerCase participants name auth).isSome := by
  rw [foundTaken, h.checked, Option.any_some, conflicts,
    claim_of_record hcall hname h.record]
  rfl

/-- A look at the roster to check the name. -/
theorem readParticipants_checks (auth : Participant) :
    LockSafe process (NameInv o calls initial) t
      (fun participants x => CheckedName o t req participants auth x.trace)
      (fun _ x => foundTaken o calls t x.trace = false) readParticipants
      fun x => Authenticated o t req auth x.trace := by
  refine Contract.Safe.action (authenticated_stable auth) ?_ ?_ ?_ ?_
  · exact fun x hx _ _ _ => keeps_quietly nameInv_noWrite.quietly hx
      ⟨rfl, rfl, rfl, le_refl _⟩ fun _ _ hu => hu
  · intro x participants _ h _ _ hread
    refine ⟨?_, authenticated_cons h.record _⟩
    rw [checkedRoster, Snapshot.record_trace, rostersRead_own, Stored.eq_whole_of_read hread,
      List.getElem?_append_right (Nat.le_of_eq h.once), h.once]
    rfl
  · intro x e _ h _ _ hread
    rw [foundTaken, checkedRoster, Snapshot.record_trace, rostersRead_own,
      List.getElem?_append_right (Nat.le_of_eq h.once), h.once]
    cases hs : x.world.files.participants with
    | whole participants =>
        rw [hs] at hread
        cases hread
    | absent => rfl
    | torn => rfl
  · intro x e hx h _ _
    refine ⟨keeps_failed nameInv_noWrite.quietly hx t _, not_foundTaken_of_length ?_⟩
    rw [Snapshot.record_trace, rostersRead_cons fun _ h => by cases h]
    exact Nat.le_of_eq h.once

/-- A profile request that found its name taken is answered so. -/
theorem postProfile_named (hinitial : OwnTokens initial)
    (hnames : (initial.map (effectiveName o.toLowerCase)).Nodup)
    (hcall : calls[t]? = some (.request .postProfile req)) :
    LockSafe process (NameInv o calls initial) t
      (fun _ x => foundTaken o calls t x.trace = false)
      (fun e x => foundTaken o calls t x.trace = true → e = displayNameTaken)
      (postProfile t o req) fun x => rostersRead t x.trace = [] := by
  have hnot {es : List (Event RoomStep)} (e : Failure)
      (h : foundTaken o calls t es = false) :
      foundTaken o calls t es = true → e = displayNameTaken := by
    intro htrue
    rw [h] at htrue
    cases htrue
  have hearly (auth : Participant) {es : List (Event RoomStep)} (e : Failure)
      (h : Authenticated o t req auth es) :
      foundTaken o calls t es = true → e = displayNameTaken :=
    hnot e (not_foundTaken_of_length (Nat.le_of_eq h.once))
  refine Contract.Safe.bind ((requireParticipant_named false).conseq (fun _ _ h => h)
    (fun _ _ _ h => h) fun e _ _ h => hnot e (not_foundTaken_of_length h)) fun auth => ?_
  refine .of_pure fun hauth => ?_
  refine Contract.Safe.bind ((synchronously_keeps nameInv_status.room
    (authenticated_stable auth) (authenticated_own auth)
    (enforceWriteRateLimit_routine _ _ _)).conseq (fun _ _ h => h) (fun _ _ _ h => h)
    fun e _ _ h => hearly auth e h) fun _ => ?_
  refine Contract.Safe.bind (R := fun body x => req.body = .ok body ∧
    Authenticated o t req auth x.trace) ?_ fun body => .of_pure fun hbody => ?_
  · refine (look_safe nameInv_noWrite.quietly (authenticated_stable auth)
      (authenticated_own auth) fun _ => ⟨rfl, rfl⟩).conseq (fun _ _ h => h) ?_
      fun e _ _ h => hearly auth e h
    rintro body y - ⟨h, x, w, -, -, -, -, hbody⟩
    exact ⟨hbody, h⟩
  split
  · rename_i raw hraw
    refine .bind_ofExcept (fun name hname => ?_) fun e _ _ _ h => hearly auth e h
    have hclaimed : claimedName req = some name := by
      simp only [claimedName, hbody, hraw, hname]
      rfl
    refine Contract.Safe.bind ((readParticipants_checks auth).conseq (fun _ _ h => h)
      (fun _ _ _ h => h) fun e _ _ h => hnot e h) fun participants => ?_
    have hfound {es : List (Event RoomStep)}
        (h : CheckedName o t req participants auth es) := foundTaken_of_checked hcall hclaimed h
    split
    · exact fun x _ _ _ => rfl
    · rename_i hfree
      have hfree' : (findNameOwnerConflict o.toLowerCase participants name auth).isSome =
          false := by simpa using hfree
      have hlasting : Contract.Lasting fun x : Snapshot (World ServerMemory) RoomStep =>
          CheckedName o t req participants auth x.trace := fun x e w h => h.cons e
      have hstable : LockStable process (NameInv o calls initial) t
          fun x => CheckedName o t req participants auth x.trace :=
        fun e x w _ _ _ _ h => h.cons e
      refine .bind_ofExcept (fun declared _ => ?_) fun e _ _ _ h =>
        hnot e ((hfound h).trans hfree')
      refine Contract.Safe.bind ((dateNow_keeps nameInv_noWrite.quietly hstable
        (fun x w l _ _ h _ _ => ⟨h.cons _, h.cons _⟩) none).conseq (fun _ _ h => h)
        (fun _ _ _ h => h) fun e _ _ h => hnot e ((hfound h).trans hfree')) fun now => ?_
      have hupsert : LockSafe process (NameInv o calls initial) t (fun _ _ => True)
          (fun _ _ => True) (upsertParticipant t (profileRecord auth declared name now))
          fun x => CheckedName o t req participants auth x.trace := by
        refine upsertParticipant_safe nameInv_noWrite.quietly hstable
          (R := CheckedName o t req participants auth) (fun e es _ _ h => h.cons e)
          (fun _ _ h => h.cons _) fun x before hx hp => ?_
        exact nameInv_claim hinitial hnames hx (claim_of_record hcall hclaimed hp.past.record)
          hauth rfl rfl ((hfound hp.past).trans hfree') hp.files
      refine Contract.Safe.bind ((hupsert.frame hlasting).conseq (fun _ _ h => ⟨h, h⟩)
        (fun _ _ _ h => h.2) fun e _ _ h => hnot e ((hfound h.2).trans hfree')) fun _ => ?_
      exact .done fun _ _ h => (hfound h).trans hfree'
  · exact fun x _ h => hearly auth _ h

end Calls

/-! ## Runs -/

theorem serving_named {process : Nat → Nat} {o : ServerOptions} {files : RoomFiles}
    {clock : Nat} {memory : ServerMemory} {initial : List Participant}
    {calls : List ServerCall} (hroster : files.participants = .whole initial)
    (hinitial : OwnTokens initial)
    (hnames : (initial.map (effectiveName o.toLowerCase)).Nodup)
    (hcalls : ∀ call ∈ calls, ∃ req, call = .request .postProfile req) :
    (lockContract process (NameInv o calls initial)).HoldsTo
      (faultySystem ServerMemory process)
      (fun t _ x => foundTaken o calls t x.trace = false)
      (fun t e x => foundTaken o calls t x.trace = true → e = displayNameTaken)
      (serving o files clock memory calls) := by
  have hinv : NameInv o calls initial (serving o files clock memory calls).snap :=
    ⟨hroster, ⟨initial, rfl, rfl⟩, rfl, rfl⟩
  refine ⟨hinv, fun t p hp => ?_⟩
  obtain ⟨call, hcall, rfl⟩ := thread_serving hp
  obtain ⟨req, rfl⟩ := hcalls call (List.mem_of_getElem? hcall)
  exact .of_safe ((postProfile_named hinitial hnames hcall).bind fun _ =>
    .done fun _ _ h => h) hinv rfl

/-- In every run of profile requests, the stored rosters give everyone a name of their own,
no claim of a name is stored that another goes by, and whoever found the name taken is
answered so, if and only if no stored claim was overtaken: none is in conflict with the
roster under the lock that was not in conflict with the one it was checked on. -/
theorem names_iff (process : Nat → Nat) (o : ServerOptions) (files : RoomFiles)
    (clock : Nat) (memory : ServerMemory) (initial : List Participant)
    (calls : List ServerCall)
    (c : Config (World ServerMemory) RoomStep Failure (Option Reply))
    (hroster : files.participants = .whole initial) (hinitial : OwnTokens initial)
    (hnames : (initial.map (effectiveName o.toLowerCase)).Nodup)
    (hcalls : ∀ call ∈ calls, ∃ req, call = .request .postProfile req)
    (h : (faultySystem ServerMemory process).Reachable
      (serving o files clock memory calls) c) :
    (sharedName o.toLowerCase c.snap.trace = false ∧
        tookHeldName o calls files.participants c.snap.trace = false ∧
        ∀ t p, System.thread c t = some p → p.isOver = true →
          foundTaken o calls t c.snap.trace = true → p = .err displayNameTaken) ↔
      takenSinceCheck o calls files.participants c.snap.trace = false := by
  have hstable (t : Nat) (φ : Bool → Prop) :
      LockStable process (NameInv o calls initial) t
        fun x => φ (foundTaken o calls t x.trace) := by
    intro e x w hf _ _ _ h
    rw [Snapshot.record_trace, foundTaken_foreign hf]
    exact h
  obtain ⟨hinv, hends⟩ := Contract.ends_sound
    (serving_named hroster hinitial hnames hcalls)
    (lockContract_crashSafe nameInv_noWrite.quietly) (fun t _ => hstable t (· = false))
    (fun t e => hstable t fun found => found = true → e = displayNameTaken) h
  rw [hroster]
  constructor
  · rintro ⟨hshared, -⟩
    rw [← hinv.shared]
    exact hshared
  · intro htaken
    refine ⟨hinv.shared.trans htaken, hinv.held.trans htaken, fun t p ht hover hfound => ?_⟩
    have hend := hends t p ht
    cases p with
    | ret a =>
        have hnot : foundTaken o calls t c.snap.trace = false := hend
        cases hnot.symm.trans hfound
    | err e =>
        have hanswer : e = displayNameTaken := hend hfound
        rw [hanswer]
    | act label ready effect next failed => cases hover

/-- Host and agent claim the same name. -/
def claimTwice : List ServerCall :=
  [.request .postProfile ⟨some "aa", .ok (.obj [("display_name", .str "zed")]), []⟩,
   .request .postProfile ⟨some "bb", .ok (.obj [("display_name", .str "zed")]), []⟩]

theorem ownTokens_twoParticipants : OwnTokens twoParticipants := ⟨by decide, by decide⟩

theorem claimTwice_profiles :
    ∀ call ∈ claimTwice, ∃ req, call = .request .postProfile req := by
  intro call hcall
  rcases List.mem_cons.mp hcall with rfl | hcall
  · exact ⟨_, rfl⟩
  · exact ⟨_, List.mem_singleton.mp hcall⟩

/-- One behind the other, by the general theorem: the second claim is refused. -/
theorem names_iff_oneByOne :
    ∃ c, (faultySystem ServerMemory id).Reachable
        (serving smallServer openRoom 0 .initial claimTwice) c ∧
      (foundTaken smallServer claimTwice 1 c.snap.trace = true ∧
        takenSinceCheck smallServer claimTwice openRoom.participants c.snap.trace = false) ∧
      ((sharedName smallServer.toLowerCase c.snap.trace = false ∧
          tookHeldName smallServer claimTwice openRoom.participants c.snap.trace = false ∧
          ∀ t p, System.thread c t = some p → p.isOver = true →
            foundTaken smallServer claimTwice t c.snap.trace = true →
            p = .err displayNameTaken) ↔
        takenSinceCheck smallServer claimTwice openRoom.participants c.snap.trace =
          false) := by
  have hrun : ((faultySystem ServerMemory id).replay
      (serving smallServer openRoom 0 .initial claimTwice)
      (List.replicate 9 (.run 0) ++ List.replicate 4 (.run 1))).map
      (fun c => (foundTaken smallServer claimTwice 1 c.snap.trace,
        takenSinceCheck smallServer claimTwice openRoom.participants c.snap.trace)) =
      some (true, false) := by decide +kernel
  obtain ⟨c, hc, hv⟩ := System.exists_reachable_of_replay hrun
  exact ⟨c, hc, Prod.mk.inj hv, names_iff id smallServer openRoom 0 .initial twoParticipants
    claimTwice c rfl ownTokens_twoParticipants (by decide) claimTwice_profiles hc⟩

/-- Two participants can end up with one name: both check it before either is stored. -/
theorem postProfile_shares_name :
    ¬ ∀ (calls : List ServerCall)
        (c : Config (World ServerMemory) RoomStep Failure (Option Reply)),
      (∀ call ∈ calls, ∃ req, call = .request .postProfile req) →
      (faultySystem ServerMemory id).Reachable
        (serving smallServer openRoom 0 .initial calls) c →
      sharedName smallServer.toLowerCase c.snap.trace = false := by
  intro h
  have hrun : ((faultySystem ServerMemory id).replay
      (serving smallServer openRoom 0 .initial claimTwice)
      (List.replicate 5 (.run 0) ++ List.replicate 9 (.run 1) ++
        List.replicate 4 (.run 0))).map
      (fun c => sharedName smallServer.toLowerCase c.snap.trace) = some true := by
    decide +kernel
  obtain ⟨c, hc, hv⟩ := System.exists_reachable_of_replay hrun
  exact Bool.false_ne_true ((h claimTwice c claimTwice_profiles hc).symm.trans hv)

end AgentGather.Server
