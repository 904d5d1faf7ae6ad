import AgentGather.Library.UrlAddress
import AgentGather.Server.RuntimePlan

/-!
# What the launch plan shows of the public URL

The plan is printed.  Two public URLs that differ only in their userinfo, their query and their
fragment give the same plan where `new URL` accepts them; one that it does not accept is printed
as it was given.
-/

namespace AgentGather.Server

open AgentGather.Library AgentGather.Library.Url AgentGather.Library.Shell AgentGather.Protocol

variable {H : HostParser}

theorem sanitizePublicUrl_eq (H : HostParser) (value : List Char) :
    sanitizePublicUrl H value =
      (((parse H none value).map withoutSecrets).map href).getD value := by
  unfold sanitizePublicUrl
  cases parse H none value <;> rfl

/-- Of two addresses that differ in their secrets the same is left exactly if they are accepted,
or are one text. -/
theorem sanitizePublicUrl_sameBut_iff (hat : RefusesAt H) {a b : Address} (h : a.SameBut b) :
    sanitizePublicUrl H a.text = sanitizePublicUrl H b.text ↔
      (parse H none a.text).isSome = true ∨ a.text = b.text := by
  have hsame := parse_sameBut hat h
  rw [sanitizePublicUrl_eq, sanitizePublicUrl_eq, ← hsame]
  cases parse H none a.text with
  | none => simp
  | some u => simp

/-! ## The plan shows the URL that is left -/

theorem serveCommand_inj {home cliInvocation : List Char} {port : Nat} {x y : List Char} :
    serveCommand home cliInvocation port x = serveCommand home cliInvocation port y ↔ x = y := by
  constructor
  · intro h
    exact singleQuote_injective (List.append_cancel_left h)
  · intro h
    rw [h]

theorem detachedPlan_congr {input : RuntimeLaunchInput} {port : Nat} {x y : List Char}
    (h : sanitizePublicUrl H x = sanitizePublicUrl H y) :
    detachedPlan H { input with publicUrl := x } port =
      detachedPlan H { input with publicUrl := y } port := by
  unfold detachedPlan
  rw [h]
  rfl

theorem manualPlan_congr {input : RuntimeLaunchInput} {port : Nat} {x y : List Char}
    (h : sanitizePublicUrl H x = sanitizePublicUrl H y) :
    manualPlan H { input with publicUrl := x } port =
      manualPlan H { input with publicUrl := y } port := by
  unfold manualPlan
  rw [h]
  rfl

/-- The plan depends on the public URL by what is left of it, and on all of that. -/
theorem buildRuntimeLaunchPlan_publicUrl_iff (input : RuntimeLaunchInput) (x y : List Char) :
    buildRuntimeLaunchPlan H { input with publicUrl := x } =
        buildRuntimeLaunchPlan H { input with publicUrl := y } ↔
      launchPort input.port = none ∨ sanitizePublicUrl H x = sanitizePublicUrl H y := by
  unfold buildRuntimeLaunchPlan
  cases launchPort input.port with
  | none => simp
  | some port =>
      simp only [reduceCtorEq, false_or]
      cases input.tmuxAvailable with
      | true =>
          rw [if_pos rfl, if_pos rfl, Except.ok.injEq]
          constructor
          · intro h
            exact serveCommand_inj.mp (congrArg RuntimeLaunchPlan.serveCommand h)
          · exact detachedPlan_congr
      | false =>
          rw [if_neg Bool.false_ne_true, if_neg Bool.false_ne_true, Except.ok.injEq]
          constructor
          · intro h
            exact serveCommand_inj.mp (congrArg RuntimeLaunchPlan.serveCommand h)
          · exact manualPlan_congr

/-! ## Two runs -/

/-- Two public URLs that differ only in the text of their userinfo, their query and their fragment
give equal plans exactly if `new URL` accepts them, or they do not differ at all, or the port is
refused. -/
theorem buildRuntimeLaunchPlan_hides_iff (hat : RefusesAt H) (input : RuntimeLaunchInput)
    {a b : Address} (h : a.SameBut b) :
    buildRuntimeLaunchPlan H { input with publicUrl := a.text } =
        buildRuntimeLaunchPlan H { input with publicUrl := b.text } ↔
      launchPort input.port = none ∨ (parse H none a.text).isSome = true ∨ a.text = b.text := by
  rw [buildRuntimeLaunchPlan_publicUrl_iff, sanitizePublicUrl_sameBut_iff hat h]

/-- An address of a room, with an invite token in its fragment. -/
def inviteAddress (scheme : List Char) (hscheme : '?' ∉ scheme ∧ '#' ∉ scheme)
    (token : List Char) : Address where
  front := scheme
  userinfo := none
  rest := "rooms.example/".toList
  query := none
  fragment := some ("token=".toList ++ token)
  front_plain := hscheme
  rest_plain := by decide
  query_plain := nofun
  userinfo_plain := nofun
  front_slashes := nofun

theorem inviteAddress_sameBut (scheme : List Char) (hscheme : '?' ∉ scheme ∧ '#' ∉ scheme)
    (x y : List Char) :
    (inviteAddress scheme hscheme x).SameBut (inviteAddress scheme hscheme y) :=
  ⟨rfl, rfl, rfl, rfl, rfl⟩

/-- With a scheme the token is not printed. -/
theorem buildRuntimeLaunchPlan_hides_invite :
    buildRuntimeLaunchPlan HostParser.plain { quotedInput with
        publicUrl := (inviteAddress "https://".toList (by decide) "tgl_a".toList).text } =
      buildRuntimeLaunchPlan HostParser.plain { quotedInput with
        publicUrl := (inviteAddress "https://".toList (by decide) "tgl_b".toList).text } := by
  apply (buildRuntimeLaunchPlan_hides_iff plain_refusesAt quotedInput
    (inviteAddress_sameBut "https://".toList (by decide) "tgl_a".toList "tgl_b".toList)).mpr
  exact .inr (.inl (by decide +kernel))

/-- Without a scheme the whole address is printed, and its token with it. -/
theorem buildRuntimeLaunchPlan_shows_invite :
    ¬ ∀ (input : RuntimeLaunchInput) (a b : Address), a.SameBut b →
      buildRuntimeLaunchPlan HostParser.plain { input with publicUrl := a.text } =
        buildRuntimeLaunchPlan HostParser.plain { input with publicUrl := b.text } := by
  intro h
  have hsame := h quotedInput _ _
    (inviteAddress_sameBut [] (by decide) "tgl_a".toList "tgl_b".toList)
  rw [buildRuntimeLaunchPlan_publicUrl_iff] at hsame
  rcases hsame with hport | hurl
  · exact absurd hport (by decide)
  · exact absurd hurl (by decide +kernel)

end AgentGather.Server
