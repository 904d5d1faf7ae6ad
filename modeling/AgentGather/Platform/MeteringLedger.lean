import Mathlib.Logic.Function.Basic
import AgentGather.Library.RelyGuarantee
import AgentGather.Protocol.Validation

/-!
# The metering ledger

Usage of public routes is counted for each subject and dimension in windows of the clock.  An
increment is one transaction of the store, which also begins a new window; readers look at the
store and at the clock in different steps.  In every run the counters tell what was committed
in the current window and nothing else.
-/

namespace AgentGather.Platform

open AgentGather.Library AgentGather.Protocol

inductive MeteredDimension where
  | routeMinutes
  | activePublicRooms
  | participantJoins
  | relayRequests
  | bandwidthBytes
deriving DecidableEq, Repr

def meteredDimensions : List MeteredDimension :=
  [.routeMinutes, .activePublicRooms, .participantJoins, .relayRequests, .bandwidthBytes]

def MeteredDimension.name : MeteredDimension → String
  | .routeMinutes => "route_minutes"
  | .activePublicRooms => "active_public_rooms"
  | .participantJoins => "participant_joins"
  | .relayRequests => "relay_requests"
  | .bandwidthBytes => "bandwidth_bytes"

theorem mem_meteredDimensions (dimension : MeteredDimension) :
    dimension ∈ meteredDimensions := by
  cases dimension <;> decide

/-- A stored window may lack a dimension. -/
abbrev Counters := MeteredDimension → Option Nat

structure MeteringWindow where
  windowId : String
  startedAt : Nat
  counters : Counters

structure MeteringRecord where
  subject : String
  window : MeteringWindow
  exceeded : Bool
  exceededReasons : List MeteredDimension
  updatedAt : Nat

structure QuotaSignal where
  exceeded : Bool
  reasons : List MeteredDimension
deriving DecidableEq, Repr

def dayMs : Nat := 24 * 60 * 60000

def defaultFreeQuota : MeteredDimension → Nat
  | .routeMinutes => 6000
  | .activePublicRooms => 100
  | .participantJoins => 10000
  | .relayRequests => 1000000
  | .bandwidthBytes => 50 * 1024 * 1024 * 1024

structure MeteringLedgerOptions where
  quota : MeteredDimension → Option Nat
  windowMs : Option Nat

structure MeteringLedger where
  quota : MeteredDimension → Nat
  windowMs : Nat

def MeteringLedgerOptions.ledger (options : MeteringLedgerOptions) : MeteringLedger where
  quota dimension := (options.quota dimension).getD (defaultFreeQuota dimension)
  windowMs := options.windowMs.getD dayMs

/-- `/^[a-zA-Z0-9_-]{1,128}$/`. -/
def subjectPattern : Regex Char :=
  .seq .start (.seq (Regex.between (.char fun c => Text.isWord c || c == '-') 1 127) .stop)

def assertSubject (subject : String) : Except Failure Unit :=
  if subjectPattern.test subject.toList then .ok ()
  else .error (.error "metering subject must be 1-128 chars of [A-Za-z0-9_-]")

def zeroCounters : Counters := fun _ => some 0

namespace MeteringLedger

variable (ledger : MeteringLedger)

/-- The window of the clock that is stored, or a new one. -/
def windowFor (now : Nat) (existing : Option MeteringRecord) : MeteringWindow :=
  let windowId := toString (now / ledger.windowMs)
  match existing.filter fun record => record.window.windowId == windowId with
  | some record => { record.window with
      counters := fun dimension => (record.window.counters dimension).or (zeroCounters dimension) }
  | none => ⟨windowId, now, zeroCounters⟩

def finalize (subject : String) (window : MeteringWindow) (now : Nat) : MeteringRecord :=
  let reasons := meteredDimensions.filter fun dimension =>
    ledger.quota dimension < (window.counters dimension).getD 0
  ⟨subject, window, !reasons.isEmpty, reasons, now⟩

/-- The counters with the amount on top. -/
def raise (counters : Counters) (dimension : MeteredDimension) (amount : Nat) : Counters :=
  Function.update counters dimension (some ((counters dimension).getD 0 + amount))

/-- What an increment makes of the stored record. -/
def increment (subject : String) (dimension : MeteredDimension) (amount now : Nat)
    (current : Option MeteringRecord) : MeteringRecord :=
  let window := ledger.windowFor now current
  ledger.finalize subject
    { window with counters := raise window.counters dimension amount } now

end MeteringLedger

/-! ## The ledger's calls -/

structure MeteringWorld where
  store : String → Option MeteringRecord
  clock : Nat

inductive MeteringStep where
  | recorded (subject : String) (dimension : MeteredDimension) (amount now : Nat)
  | read (subject : String)
  | clock
deriving DecidableEq, Repr

abbrev MeteringProg := Prog MeteringWorld MeteringStep Failure

namespace MeteringLedger

variable (ledger : MeteringLedger)

def record (subject : String) (dimension : MeteredDimension) (amount : Int)
    (isPublicRoute : Bool) : MeteringProg (Option MeteringRecord) := do
  if !isPublicRoute then return none
  .ofExcept (assertSubject subject)
  if amount < 0 then throw (.error "metering amount must be a non-negative number")
  let next (w : MeteringWorld) :=
    ledger.increment subject dimension amount.toNat w.clock (w.store subject)
  .action (fun w => .recorded subject dimension amount.toNat w.clock) (fun _ => true)
    (fun w => { w with store := Function.update w.store subject (some (next w)) })
    fun w => .ok (some (next w))

def usage (subject : String) : MeteringProg MeteringRecord := do
  .ofExcept (assertSubject subject)
  let existing ← .query (fun _ => .read subject) fun w => .ok (w.store subject)
  .query (fun _ => .clock) fun w =>
    .ok (ledger.finalize subject (ledger.windowFor w.clock existing) w.clock)

def check (subject : String) : MeteringProg QuotaSignal := do
  let record ← ledger.usage subject
  return ⟨record.exceeded, record.exceededReasons⟩

def quotaExceeded (reasons : List MeteredDimension) : Failure :=
  .http 429 "quota_exceeded" ("public routing free quota exceeded for the current window: " ++
    ", ".intercalate (reasons.map MeteredDimension.name))

def assertWithinQuota (subject : String) (isPublicRoute : Bool) : MeteringProg Unit := do
  if !isPublicRoute then return ()
  let signal ← ledger.check subject
  if signal.exceeded then throw (quotaExceeded signal.reasons)

/-! ## What was committed -/

/-- What the history tells of a dimension's usage by the subject in window `n`. -/
def spent (subject : String) (dimension : MeteredDimension) (n : Nat) :
    List (Event MeteringStep) → Nat
  | [] => 0
  | .ran _ (.recorded name dimension' amount now) :: es =>
      if name = subject ∧ dimension' = dimension ∧ now / ledger.windowMs = n then
        spent subject dimension n es + amount
      else spent subject dimension n es
  | _ :: es => spent subject dimension n es

/-- The record tells what was spent in window `n`, and whether that is above the quota. -/
structure Accurate (subject : String) (n : Nat) (es : List (Event MeteringStep))
    (record : MeteringRecord) : Prop where
  named : record.subject = subject
  windowId : record.window.windowId = toString n
  counters : ∀ dimension,
    record.window.counters dimension = some (ledger.spent subject dimension n es)
  reasons : ∀ dimension, dimension ∈ record.exceededReasons ↔
    ledger.quota dimension < ledger.spent subject dimension n es
  exceeded : record.exceeded = true ↔ ∃ dimension, dimension ∈ record.exceededReasons

/-- What is stored of a subject by a time: the counters of a window that has begun, and
nothing was spent in a later one. -/
def Keeps (subject : String) (clock : Nat) (es : List (Event MeteringStep)) :
    Option MeteringRecord → Prop
  | none => ∀ dimension n, ledger.spent subject dimension n es = 0
  | some record => ∃ n ≤ clock / ledger.windowMs, record.window.windowId = toString n ∧
      (∀ dimension, record.window.counters dimension =
        some (ledger.spent subject dimension n es)) ∧
      ∀ dimension k, n < k → ledger.spent subject dimension k es = 0

section Windows

variable {ledger} {subject : String} {clock now : Nat} {es : List (Event MeteringStep)}
  {existing : Option MeteringRecord}

/-- Windows are told apart by their ids. -/
theorem windowId_inj {m n : Nat} (h : toString m = toString n) : m = n := by
  have hdigits : Nat.toDigits 10 m = Nat.toDigits 10 n := String.ofList_injective h
  rw [← @Nat.ofDigitChars_ten_toDigits m, hdigits, Nat.ofDigitChars_ten_toDigits]

/-- The window of the clock has the counters of that window. -/
theorem windowFor_spent (h : ledger.Keeps subject clock es existing) (hnow : clock ≤ now) :
    (ledger.windowFor now existing).windowId = toString (now / ledger.windowMs) ∧
      ∀ dimension, (ledger.windowFor now existing).counters dimension =
        some (ledger.spent subject dimension (now / ledger.windowMs) es) := by
  unfold windowFor
  dsimp only
  cases existing with
  | none => exact ⟨rfl, fun dimension => by rw [h]; rfl⟩
  | some record =>
      obtain ⟨n, hn, hid, hcounters, hlater⟩ := h
      have hle : n ≤ now / ledger.windowMs := hn.trans (Nat.div_le_div_right hnow)
      by_cases hsame : n = now / ledger.windowMs
      · subst hsame
        have hkept : (some record).filter (fun record => record.window.windowId ==
            toString (now / ledger.windowMs)) = some record := by
          simp [hid]
        rw [hkept]
        exact ⟨hid, fun dimension => by simp [hcounters]⟩
      · have hdropped : (some record).filter (fun record => record.window.windowId ==
            toString (now / ledger.windowMs)) = none := by
          rw [Option.filter_eq_none_iff]
          rintro _ ⟨⟩
          rw [hid, beq_iff_eq]
          exact fun heq => hsame (windowId_inj heq)
        rw [hdropped]
        refine ⟨rfl, fun dimension => ?_⟩
        rw [hlater dimension _ (lt_of_le_of_ne hle hsame)]
        rfl

theorem finalize_accurate {n : Nat} {window : MeteringWindow} (hid : window.windowId = toString n)
    (hcounters : ∀ dimension, window.counters dimension =
      some (ledger.spent subject dimension n es)) :
    ledger.Accurate subject n es (ledger.finalize subject window now) where
  named := rfl
  windowId := hid
  counters := hcounters
  reasons dimension := by
    simp [finalize, hcounters, mem_meteredDimensions]
  exceeded := by
    rw [finalize]
    cases meteredDimensions.filter fun dimension =>
      ledger.quota dimension < (window.counters dimension).getD 0 <;> simp

/-- Usage as it is read of what is kept. -/
theorem usage_accurate (h : ledger.Keeps subject clock es existing) (hnow : clock ≤ now) :
    ledger.Accurate subject (now / ledger.windowMs) es
      (ledger.finalize subject (ledger.windowFor now existing) now) :=
  finalize_accurate (windowFor_spent h hnow).1 (windowFor_spent h hnow).2

/-- An increment adds to its own counter and to no other. -/
theorem spent_recorded (t : Nat) (name : String) (dimension dimension' : MeteredDimension)
    (amount n : Nat) :
    ledger.spent subject dimension n (.ran t (.recorded name dimension' amount now) :: es) =
      ledger.spent subject dimension n es +
        if name = subject ∧ dimension' = dimension ∧ now / ledger.windowMs = n then amount
        else 0 := by
  rw [spent]
  split
  · rfl
  · rfl

/-- An increment keeps the record of its subject, and returns it. -/
theorem increment_keeps (h : ledger.Keeps subject now es existing) (t : Nat)
    (dimension : MeteredDimension) (amount : Nat) :
    ledger.Accurate subject (now / ledger.windowMs)
        (.ran t (.recorded subject dimension amount now) :: es)
        (ledger.increment subject dimension amount now existing) ∧
      ledger.Keeps subject now (.ran t (.recorded subject dimension amount now) :: es)
        (some (ledger.increment subject dimension amount now existing)) := by
  obtain ⟨hid, hcounters⟩ := windowFor_spent h (Nat.le_refl now)
  have hraised (dimension' : MeteredDimension) :
      raise (ledger.windowFor now existing).counters dimension amount dimension' =
        some (ledger.spent subject dimension' (now / ledger.windowMs)
          (.ran t (.recorded subject dimension amount now) :: es)) := by
    rw [spent_recorded]
    by_cases hsame : dimension' = dimension
    · subst hsame
      simp [raise, hcounters]
    · simp [raise, hcounters, hsame, Ne.symm hsame]
  refine ⟨finalize_accurate hid hraised, now / ledger.windowMs, Nat.le_refl _, hid, hraised,
    fun dimension' k hk => ?_⟩
  have hnone : ledger.spent subject dimension' k es = 0 := by
    cases existing with
    | none => exact h dimension' k
    | some record =>
        obtain ⟨n, hn, -, -, hlater⟩ := h
        exact hlater dimension' k (hn.trans_lt hk)
  rw [spent_recorded, hnone, if_neg fun hwindow => absurd hwindow.2.2 (by omega)]

/-- What others do and the time leave what is kept of a subject. -/
theorem Keeps.other (h : ledger.Keeps subject clock es existing) {e : Event MeteringStep}
    (hclock : clock ≤ now)
    (he : ∀ dimension n, ledger.spent subject dimension n (e :: es) =
      ledger.spent subject dimension n es) :
    ledger.Keeps subject now (e :: es) existing := by
  cases existing with
  | none => exact fun dimension n => (he dimension n).trans (h dimension n)
  | some record =>
      obtain ⟨n, hn, hid, hcounters, hlater⟩ := h
      refine ⟨n, hn.trans (Nat.div_le_div_right hclock), hid, fun dimension => ?_,
        fun dimension k hk => (he dimension k).trans (hlater dimension k hk)⟩
      rw [he, hcounters]

end Windows

/-! ## Runs -/

/-- What is stored of every subject is what the history tells. -/
def StoreInv (x : Snapshot MeteringWorld MeteringStep) : Prop :=
  ∀ subject, ledger.Keeps subject x.world.clock x.trace (x.world.store subject)

/-- The clock is never set back. -/
def contract : Contract MeteringWorld MeteringStep where
  inv := ledger.StoreInv
  guar _ x w := x.world.clock ≤ w.clock
  allow _ _ := True

/-- The record is what some earlier moment of the history tells. -/
def Told (subject : String) (x : Snapshot MeteringWorld MeteringStep)
    (record : MeteringRecord) : Prop :=
  ∃ n es, es <:+ x.trace ∧ ledger.Accurate subject n es record

end MeteringLedger

/-- Accesses to the store may fail. -/
def meteringSystem : System MeteringWorld MeteringStep Failure where
  process _ := 0
  faults label e := label != .clock && e == .os
  crash _ := none

inductive MeteringCall where
  | record (subject : String) (dimension : MeteredDimension) (amount : Int)
      (isPublicRoute : Bool)
  | usage (subject : String)
  | check (subject : String)
  | assertWithinQuota (subject : String) (isPublicRoute : Bool)
  | timePasses (ms : Nat)

inductive MeteringReply where
  | recorded (record : Option MeteringRecord)
  | usage (record : MeteringRecord)
  | signal (signal : QuotaSignal)
  | done

def MeteringCall.prog (ledger : MeteringLedger) : MeteringCall → MeteringProg MeteringReply
  | .record subject dimension amount isPublicRoute =>
      (ledger.record subject dimension amount isPublicRoute).bind fun r => .ret (.recorded r)
  | .usage subject => (ledger.usage subject).bind fun record => .ret (.usage record)
  | .check subject => (ledger.check subject).bind fun signal => .ret (.signal signal)
  | .assertWithinQuota subject isPublicRoute =>
      (ledger.assertWithinQuota subject isPublicRoute).bind fun _ => .ret .done
  | .timePasses ms =>
      (Prog.update (fun _ => .clock) fun w => { w with clock := w.clock + ms }).bind
        fun _ => .ret .done

/-- An empty store, and the calls about to be made. -/
def metering (ledger : MeteringLedger) (clock : Nat) (calls : List MeteringCall) :
    Config MeteringWorld MeteringStep Failure MeteringReply where
  snap := ⟨⟨fun _ => none, clock⟩, []⟩
  threads := calls.map fun call => some (call.prog ledger)

namespace MeteringLedger

variable {ledger : MeteringLedger} {t : Nat} {x : Snapshot MeteringWorld MeteringStep}
  {subject : String}

/-- An assertion that later events leave. -/
abbrev Lasting (ledger : MeteringLedger) (t : Nat)
    (P : Snapshot MeteringWorld MeteringStep → Prop) : Prop :=
  ledger.contract.Stable meteringSystem t P

abbrev Safe (ledger : MeteringLedger) (t : Nat) {α : Type}
    (Q : α → Snapshot MeteringWorld MeteringStep → Prop)
    (E : Failure → Snapshot MeteringWorld MeteringStep → Prop) (p : MeteringProg α)
    (P : Snapshot MeteringWorld MeteringStep → Prop) : Prop :=
  ledger.contract.Safe meteringSystem t Q E p P

theorem told_lasting (record : MeteringRecord) :
    ledger.Lasting t fun x => ledger.Told subject x record := by
  rintro e x w - - - - ⟨n, es, hes, haccurate⟩
  exact ⟨n, es, hes.trans (List.suffix_cons e _), haccurate⟩

/-- Steps that are no increments leave what was spent. -/
theorem spent_besides {e : Event MeteringStep}
    (he : ∀ t name dimension amount now, e ≠ .ran t (.recorded name dimension amount now))
    (dimension : MeteredDimension) (n : Nat) (es : List (Event MeteringStep)) :
    ledger.spent subject dimension n (e :: es) = ledger.spent subject dimension n es := by
  rcases e with ⟨t, label⟩ | ⟨t, label⟩ | p
  · cases label with
    | recorded name dimension' amount now => exact (he _ _ _ _ _ rfl).elim
    | read name => rfl
    | clock => rfl
  · rfl
  · rfl

/-- A step that stores nothing keeps the contract. -/
theorem keeps_besides (hx : ledger.StoreInv x) {e : Event MeteringStep} {w : MeteringWorld}
    (he : ∀ t name dimension amount now, e ≠ .ran t (.recorded name dimension amount now))
    (hstore : w.store = x.world.store) (hclock : x.world.clock ≤ w.clock) :
    ledger.contract.Keeps e x w := by
  refine ⟨fun subject => ?_, hclock⟩
  rw [Snapshot.record_world, Snapshot.record_trace, hstore]
  exact (hx subject).other hclock fun dimension n => spent_besides he dimension n _

theorem keeps_failed (hx : ledger.StoreInv x) (label : MeteringStep) :
    ledger.contract.Keeps (.failed t label) x x.world :=
  keeps_besides hx (fun _ _ _ _ _ h => nomatch h) rfl (Nat.le_refl _)

/-- An increment, as the history tells it. -/
theorem record_told (dimension : MeteredDimension) (amount : Int) (isPublicRoute : Bool) :
    ledger.Safe t (fun r x => ∀ record, r = some record → ledger.Told subject x record)
      (fun _ _ => True) (ledger.record subject dimension amount isPublicRoute)
      fun _ => True := by
  unfold record
  split
  · exact .done fun _ _ _ _ h => nomatch h
  refine .bind_ofExcept (fun _ _ => ?_) fun _ _ _ _ _ => trivial
  split
  · exact fun _ _ _ => trivial
  refine Contract.Safe.action (.of_const True) (fun x hx _ _ _ => ?_) ?_
    (fun _ _ _ _ _ _ h => nomatch h) fun x _ hx _ _ _ => ⟨keeps_failed hx _, trivial⟩
  · refine ⟨fun subject' => ?_, Nat.le_refl _⟩
    by_cases hsubject : subject' = subject
    · subst hsubject
      simp only [Snapshot.record_world, Snapshot.record_trace, Function.update_self]
      exact (increment_keeps (hx subject') t dimension amount.toNat).2
    · simp only [Snapshot.record_world, Snapshot.record_trace,
        Function.update_of_ne hsubject]
      refine (hx subject').other (Nat.le_refl _) fun dimension' n => ?_
      rw [spent_recorded, if_neg fun h => hsubject h.1.symm, Nat.add_zero]
  · rintro x r hx - - - ⟨⟩ record ⟨⟩
    exact ⟨_, _, List.suffix_refl _,
      (increment_keeps (hx subject) t dimension amount.toNat).1⟩

/-- Usage is told of the moment at which the store was read. -/
theorem usage_told :
    ledger.Safe t (fun record x => ledger.Told subject x record)
      (fun e _ => ∀ reasons, e ≠ quotaExceeded reasons) (ledger.usage subject)
      fun _ => True := by
  have hnone {e : Failure} (he : ∀ status code message, e ≠ .http status code message)
      (reasons : List MeteredDimension) : e ≠ quotaExceeded reasons := he _ _ _
  unfold usage
  refine .bind_ofExcept (fun _ _ => ?_) fun e he _ _ _ => ?_
  · refine Contract.Safe.bind (R := fun existing x => ∃ clock es, clock ≤ x.world.clock ∧
      es <:+ x.trace ∧ ledger.Keeps subject clock es existing) ?_ fun existing => ?_
    · refine Contract.Safe.action (.of_const True) (fun x hx _ _ _ => ?_) ?_
        (fun _ _ _ _ _ _ h => nomatch h) fun x e hx _ hfault _ => ⟨keeps_failed hx _, ?_⟩
      · exact keeps_besides hx (fun _ _ _ _ _ h => nomatch h) rfl (Nat.le_refl _)
      · rintro x existing hx - - - ⟨⟩
        exact ⟨x.world.clock, x.trace, Nat.le_refl _, List.suffix_cons _ _, hx subject⟩
      · simp only [meteringSystem, Bool.and_eq_true, beq_iff_eq] at hfault
        rw [hfault.2]
        exact hnone fun _ _ _ h => nomatch h
    · refine Contract.Safe.action ?_ (fun x hx _ _ _ => ?_) ?_
        (fun _ _ _ _ _ _ h => nomatch h) fun x e hx _ hfault _ => ⟨keeps_failed hx _, ?_⟩
      · rintro e x w - - - hclock ⟨clock, es, hle, hes, hkeeps⟩
        exact ⟨clock, es, hle.trans hclock, hes.trans (List.suffix_cons e _), hkeeps⟩
      · exact keeps_besides hx (fun _ _ _ _ _ h => nomatch h) rfl (Nat.le_refl _)
      · rintro x record - ⟨clock, es, hle, hes, hkeeps⟩ - - ⟨⟩
        exact ⟨_, es, hes.trans (List.suffix_cons _ _), usage_accurate hkeeps hle⟩
      · simp [meteringSystem] at hfault
  · unfold assertSubject at he
    split at he
    · cases he
    · obtain rfl := Except.error.inj he
      exact hnone fun _ _ _ h => nomatch h

/-- The signal is that of some usage that was told. -/
theorem check_told :
    ledger.Safe t (fun signal x => ∃ record, ledger.Told subject x record ∧
        signal = ⟨record.exceeded, record.exceededReasons⟩)
      (fun e _ => ∀ reasons, e ≠ quotaExceeded reasons) (ledger.check subject)
      fun _ => True :=
  usage_told.bind fun record => .done fun _ _ h => ⟨record, h, rfl⟩

/-- Who is admitted is within the quota, and who is refused is not. -/
theorem assertWithinQuota_told (isPublicRoute : Bool) :
    ledger.Safe t
      (fun _ x => isPublicRoute = true → ∃ record, ledger.Told subject x record ∧
        record.exceeded = false)
      (fun e x => ∀ reasons, e = quotaExceeded reasons → ∃ record,
        ledger.Told subject x record ∧ record.exceeded = true)
      (ledger.assertWithinQuota subject isPublicRoute) fun _ => True := by
  unfold assertWithinQuota
  split
  · rename_i hlocal
    exact .done fun _ _ _ h => by simp [h] at hlocal
  · refine (check_told.conseq (fun _ _ h => h) (fun _ _ _ h => h)
      fun e x _ h reasons heq => (h reasons heq).elim).bind fun signal => ?_
    split
    · rename_i hexceeded
      rintro x - ⟨record, htold, rfl⟩ reasons -
      exact ⟨record, htold, hexceeded⟩
    · rename_i hwithin
      refine .done ?_
      rintro x - ⟨record, htold, rfl⟩ -
      exact ⟨record, htold, by simpa using hwithin⟩

/-- What a call has returned is what the history tells at some moment of it. -/
def Replied (ledger : MeteringLedger) (call : MeteringCall) (reply : MeteringReply)
    (x : Snapshot MeteringWorld MeteringStep) : Prop :=
  match call, reply with
  | .record subject _ _ _, .recorded (some record) => ledger.Told subject x record
  | .usage subject, .usage record => ledger.Told subject x record
  | .check subject, .signal signal => ∃ record, ledger.Told subject x record ∧
      signal = ⟨record.exceeded, record.exceededReasons⟩
  | .assertWithinQuota subject true, .done => ∃ record, ledger.Told subject x record ∧
      record.exceeded = false
  | _, _ => True

/-- Who is refused by the quota has exceeded it at some moment of the call. -/
def Refused (ledger : MeteringLedger) (call : MeteringCall) (e : Failure)
    (x : Snapshot MeteringWorld MeteringStep) : Prop :=
  match call with
  | .assertWithinQuota subject _ => ∀ reasons, e = quotaExceeded reasons → ∃ record,
      ledger.Told subject x record ∧ record.exceeded = true
  | _ => True

theorem call_told (call : MeteringCall) :
    ledger.Safe t (ledger.Replied call) (ledger.Refused call) (call.prog ledger)
      fun _ => True := by
  cases call with
  | record subject dimension amount isPublicRoute =>
      refine ((record_told dimension amount isPublicRoute).conseq (fun _ _ h => h)
        (fun _ _ _ h => h) fun _ _ _ _ => trivial).bind fun r => .done fun x _ h => ?_
      cases r with
      | none => trivial
      | some record => exact h record rfl
  | usage subject =>
      exact (usage_told.conseq (fun _ _ h => h) (fun _ _ _ h => h)
        fun _ _ _ _ => trivial).bind fun _ => .done fun _ _ h => h
  | check subject =>
      exact (check_told.conseq (fun _ _ h => h) (fun _ _ _ h => h)
        fun _ _ _ _ => trivial).bind fun _ => .done fun _ _ h => h
  | assertWithinQuota subject isPublicRoute =>
      refine (assertWithinQuota_told isPublicRoute).bind fun _ => .done fun x _ h => ?_
      cases isPublicRoute with
      | true => exact h rfl
      | false => trivial
  | timePasses ms =>
      refine Contract.Safe.bind (R := fun _ _ => True) ?_ fun _ => .done fun _ _ _ => trivial
      refine Contract.Safe.action (.of_const True) (fun x hx _ _ _ => ?_)
        (fun _ _ _ _ _ _ _ => trivial) (fun _ _ _ _ _ _ h => nomatch h)
        fun x _ hx _ _ _ => ⟨keeps_failed hx _, trivial⟩
      exact keeps_besides hx (fun _ _ _ _ _ h => nomatch h) rfl (Nat.le_add_right _ _)

theorem replied_lasting (call : MeteringCall) (reply : MeteringReply) :
    ledger.Lasting t (ledger.Replied call reply) := by
  have hlasting (subject : String) (record : MeteringRecord) :
      ledger.Lasting t fun x => ledger.Told subject x record := told_lasting record
  intro e x w hf hi hi' hg h
  have htold {subject : String} {record : MeteringRecord} (h : ledger.Told subject x record) :
      ledger.Told subject (x.record e w) record := hlasting subject record e x w hf hi hi' hg h
  unfold Replied at h ⊢
  split at h
  · exact htold h
  · exact htold h
  · obtain ⟨record, hrecord, hsignal⟩ := h
    exact ⟨record, htold hrecord, hsignal⟩
  · obtain ⟨record, hrecord, hwithin⟩ := h
    exact ⟨record, htold hrecord, hwithin⟩
  · trivial

theorem refused_lasting (call : MeteringCall) (e : Failure) :
    ledger.Lasting t (ledger.Refused call e) := by
  intro event x w hf hi hi' hg h
  unfold Refused at h ⊢
  split at h
  · intro reasons heq
    obtain ⟨record, hrecord, hexceeded⟩ := h reasons heq
    exact ⟨record, told_lasting record event x w hf hi hi' hg hrecord, hexceeded⟩
  · trivial

theorem metering_holds (clock : Nat) (calls : List MeteringCall) :
    ledger.contract.HoldsTo meteringSystem
      (fun t reply x => ∀ call, calls[t]? = some call → ledger.Replied call reply x)
      (fun t e x => ∀ call, calls[t]? = some call → ledger.Refused call e x)
      (metering ledger clock calls) := by
  have hinv : ledger.StoreInv (metering ledger clock calls).snap := fun _ _ _ => rfl
  refine ⟨hinv, fun t p hp => ?_⟩
  simp only [System.thread, metering, List.getElem?_map] at hp
  cases hcall : calls[t]? with
  | none => simp [hcall] at hp
  | some call =>
      obtain rfl : call.prog ledger = p := by simpa [hcall] using hp
      have hsame {other : MeteringCall} (hother : calls[t]? = some other) : other = call :=
        Option.some.inj (hother.symm.trans hcall)
      refine .of_safe ((call_told call).conseq (fun _ _ h => h)
        (fun reply x _ h other hother => ?_) fun e x _ h other hother => ?_) hinv trivial
      · rwa [hsame hother]
      · rwa [hsame hother]

/-- Usage, check and the enforcement agree on a store that nobody else uses, and leave it. -/
theorem runAlone_agree (hsubject : assertSubject subject = .ok ()) (w : MeteringWorld) :
    ∃ record, (ledger.usage subject).runAlone w = (.ok record, w) ∧
      (ledger.check subject).runAlone w =
        (.ok ⟨record.exceeded, record.exceededReasons⟩, w) ∧
      (ledger.assertWithinQuota subject true).runAlone w =
        (if record.exceeded then .error (quotaExceeded record.exceededReasons) else .ok (),
          w) := by
  let record := ledger.finalize subject (ledger.windowFor w.clock (w.store subject)) w.clock
  have husage : (ledger.usage subject).runAlone w = (.ok record, w) := by
    simp only [usage, hsubject]
    rfl
  have hcheck : (ledger.check subject).runAlone w =
      (.ok ⟨record.exceeded, record.exceededReasons⟩, w) := by
    simp only [check, Prog.bind_eq_bind, Prog.runAlone_bind, husage, Prog.pure_eq_ret,
      Prog.runAlone_ret]
  refine ⟨record, husage, hcheck, ?_⟩
  simp only [assertWithinQuota, Bool.not_true, Bool.false_eq_true, if_false,
    Prog.bind_eq_bind, Prog.runAlone_bind, hcheck]
  split <;> rfl

/-- A window of a second and a quota of two requests. -/
def smallLedger : MeteringLedger :=
  MeteringLedgerOptions.ledger ⟨fun
    | .relayRequests => some 2
    | _ => none, some 1000⟩

/-- Two requests and a third, which falls into the next window. -/
def threeRequests : List MeteringCall :=
  [.record "owner" .relayRequests 2 true, .timePasses 1000,
    .record "owner" .relayRequests 1 true]

end MeteringLedger

end AgentGather.Platform
