import AgentGather.Storage.Discipline

/-!
# The log and the writes as the history tells them

The log is what it was at first, with every line that was appended since; of one caller,
the history tells which writes it made.
-/

namespace AgentGather.Storage

open AgentGather.Library AgentGather.Protocol

variable {μ : Type}

/-- The log behind one more event. -/
def loggedStep (log : List Message) : Event RoomStep → List Message
  | .ran _ (.appended message) => log ++ [message]
  | _ => log

/-- The log as of a history that began with the log `initial`. -/
def logged (initial : List Message) : List (Event RoomStep) → List Message
  | [] => initial
  | e :: es => loggedStep (logged initial es) e

/-- The writes of caller `t`, the latest first. -/
def writesOf (t : Nat) : List (Event RoomStep) → List RoomStep
  | [] => []
  | .ran u l :: es => if u = t ∧ l.isWrite = true then l :: writesOf t es else writesOf t es
  | _ :: es => writesOf t es

theorem isPrefix_loggedStep (log : List Message) (e : Event RoomStep) :
    log <+: loggedStep log e := by
  rcases e with ⟨t, l⟩ | ⟨t, l⟩ | p
  · cases l with
    | appended message => exact List.prefix_append _ _
    | _ => exact List.prefix_rfl
  · exact List.prefix_rfl
  · exact List.prefix_rfl

theorem loggedStep_of_noWrite {e : Event RoomStep} (he : isWriteEvent e = false)
    (log : List Message) : loggedStep log e = log := by
  rcases e with ⟨t, l⟩ | ⟨t, l⟩ | p
  · cases l with
    | appended message => cases he
    | _ => rfl
  · rfl
  · rfl

/-- The log of an earlier moment is where the log of a later one starts. -/
theorem isPrefix_logged (initial : List Message) {es es' : List (Event RoomStep)}
    (h : es <:+ es') : logged initial es <+: logged initial es' := by
  obtain ⟨later, rfl⟩ := h
  induction later with
  | nil => exact List.prefix_rfl
  | cons e later ih => exact ih.trans (isPrefix_loggedStep _ e)

/-- A line that was appended is in the log. -/
theorem mem_logged_of_appended {initial : List Message} {es : List (Event RoomStep)}
    {t : Nat} {message : Message} (h : .ran t (.appended message) ∈ es) :
    message ∈ logged initial es := by
  induction es with
  | nil => cases h
  | cons e es ih =>
      rcases List.mem_cons.mp h with rfl | h
      · exact List.mem_append_right _ List.mem_cons_self
      · exact (isPrefix_loggedStep _ e).subset (ih h)

section Writes

variable {t : Nat} {es : List (Event RoomStep)}

/-- What is no write of the caller's own leaves its writes. -/
theorem writesOf_besides {e : Event RoomStep}
    (he : isWriteEvent e = false ∨ ∀ l, e ≠ .ran t l) :
    writesOf t (e :: es) = writesOf t es := by
  rcases e with ⟨u, l⟩ | ⟨u, l⟩ | p
  · refine if_neg ?_
    rintro ⟨rfl, hl⟩
    rcases he with he | he
    · exact absurd (hl.symm.trans he) (by decide)
    · exact he l rfl
  · rfl
  · rfl

theorem writesOf_write {l : RoomStep} (hl : l.isWrite = true) :
    writesOf t (.ran t l :: es) = l :: writesOf t es := if_pos ⟨rfl, hl⟩

theorem mem_of_mem_writesOf {l : RoomStep} (h : l ∈ writesOf t es) : .ran t l ∈ es := by
  induction es with
  | nil => cases h
  | cons e es ih =>
      rcases e with ⟨u, l'⟩ | ⟨u, l'⟩ | p
      · simp only [writesOf] at h
        split_ifs at h with hu
        · obtain ⟨rfl, -⟩ := hu
          rcases List.mem_cons.mp h with rfl | h
          · exact List.mem_cons_self
          · exact List.mem_cons_of_mem _ (ih h)
        · exact List.mem_cons_of_mem _ (ih h)
      · exact List.mem_cons_of_mem _ (ih h)
      · exact List.mem_cons_of_mem _ (ih h)

/-- Who did nothing wrote nothing. -/
theorem writesOf_of_not_begun (h : ∀ e ∈ es, e.isOf t = false) : writesOf t es = [] := by
  refine List.eq_nil_iff_forall_not_mem.mpr fun l hl => ?_
  have hown := h _ (mem_of_mem_writesOf hl)
  simp [Event.isOf] at hown

end Writes

/-- What the files hold is what the history tells. -/
theorem log_of_noWrite {initial : List Message} {x : Snapshot (World μ) RoomStep}
    {e : Event RoomStep} {w : World μ} (h : x.world.files.log = logged initial x.trace)
    (he : isWriteEvent e = false) (hfiles : w.files = x.world.files) :
    w.files.log = logged initial (e :: x.trace) := by
  rw [hfiles, h]
  exact (loggedStep_of_noWrite he _).symm

end AgentGather.Storage
