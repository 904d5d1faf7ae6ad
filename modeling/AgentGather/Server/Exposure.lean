import AgentGather.Library.Text
import AgentGather.Protocol.Types

/-!
# Exposure beyond localhost

Unless plain HTTP is allowed from elsewhere, the room server and the platform server answer only
a request whose `Host` header names this device.  What names the device is compared with the text
before the first colon of the header, which of an IPv6 literal is its bracket.
-/

namespace AgentGather.Server

open AgentGather.Library AgentGather.Protocol

/-- `isLocalhost` of the room server. -/
def isLocalhost (hostHeader : List Char) : Bool :=
  let host := (hostHeader.splitOn ':')[0]?.getD []
  host == "localhost".toList || host == "127.0.0.1".toList || host == "[::1]".toList ||
    host == "::1".toList

def enforceExposure (allowInsecureRemote : Bool) (host : Option (List Char)) :
    Except Failure Unit :=
  if allowInsecureRemote then .ok ()
  else if isLocalhost (host.getD []) then .ok ()
  else .error (.http 403 "insecure_remote" "plain HTTP exposure beyond localhost is not allowed")

end AgentGather.Server

namespace AgentGather.Platform

open AgentGather.Library AgentGather.Protocol

/-- `isLocalhost` of the platform server. -/
def isLocalhost (hostHeader : Option (List Char)) : Bool :=
  let host := ((hostHeader.getD []).splitOn ':')[0]?.getD []
  host == "localhost".toList || host == "127.0.0.1".toList || host == "[::1]".toList ||
    host == "::1".toList

/-- The gate of the platform's `handle`, with what it answers. -/
def enforceExposure (allowInsecureRemote : Option Bool) (host : Option (List Char)) :
    Except Failure Unit :=
  if allowInsecureRemote ≠ some true ∧ isLocalhost host = false then
    .error (.http 403 "insecure_remote" "platform shell is localhost-only")
  else .ok ()

end AgentGather.Platform

namespace AgentGather.Server

open AgentGather.Library AgentGather.Protocol

/-! ## `Host` headers -/

/-- A header `host` or `host:port`: the host is a literal in brackets, or has no colon. -/
structure HostHeader where
  host : List Char
  port : Option (List Char)
  plain_or_bracketed : ':' ∉ host ∨ ∃ literal, host = '[' :: literal ++ [']']
  decimal : ∀ digits ∈ port, digits ≠ [] ∧ ∀ c ∈ digits, Text.isDigit c = true

namespace HostHeader

def text (header : HostHeader) : List Char :=
  header.host ++ (header.port.map (':' :: ·)).getD []

end HostHeader

/-- The names of this device. -/
def loopbackHosts : List (List Char) :=
  ["localhost".toList, "127.0.0.1".toList, "[::1]".toList]

/-- The server accepts the header exactly if its host is this device. -/
def Recognises (accepts : List Char → Bool) (header : HostHeader) : Prop :=
  accepts header.text = true ↔ header.host ∈ loopbackHosts

/-! ## The first piece -/

theorem splitOn_first_of_not_mem {host : List Char} (h : ':' ∉ host) (port : Option (List Char)) :
    ((host ++ (port.map (':' :: ·)).getD []).splitOn ':')[0]?.getD [] = host := by
  cases port with
  | none =>
      rw [Option.map_none, Option.getD_none, List.append_nil, List.splitOn_eq_singleton h]
      rfl
  | some digits =>
      rw [Option.map_some, Option.getD_some, List.splitOn_append_cons_self_of_not_mem h]
      rfl

theorem first_piece_colonless (s : List Char) : ':' ∉ (s.splitOn ':')[0]?.getD [] := by
  intro h
  cases hpieces : s.splitOn ':' with
  | nil => exact absurd hpieces (List.splitOn_ne_nil ':' s)
  | cons first rest =>
      have hmem : first ∈ s.splitOnP (· == ':') := by
        rw [← List.splitOn_eq_splitOnP, hpieces]
        exact List.mem_cons_self
      rw [hpieces] at h
      simpa using Text.mem_splitOnP hmem ':' h

/-- The two IPv6 names of the list are never met: they have a colon. -/
theorem isLocalhost_eq_true_iff (hostHeader : List Char) :
    isLocalhost hostHeader = true ↔
      (hostHeader.splitOn ':')[0]?.getD [] = "localhost".toList ∨
        (hostHeader.splitOn ':')[0]?.getD [] = "127.0.0.1".toList := by
  have hcolon := first_piece_colonless hostHeader
  have hbracketed : (hostHeader.splitOn ':')[0]?.getD [] ≠ "[::1]".toList := by
    intro h
    rw [h] at hcolon
    exact hcolon (by decide)
  have hbare : (hostHeader.splitOn ':')[0]?.getD [] ≠ "::1".toList := by
    intro h
    rw [h] at hcolon
    exact hcolon (by decide)
  simp only [isLocalhost, Bool.or_eq_true, beq_iff_eq, hbracketed, hbare, or_false]

/-- The two servers agree on every header, also on a missing one. -/
theorem isLocalhost_agrees (hostHeader : Option (List Char)) :
    Platform.isLocalhost hostHeader = isLocalhost (hostHeader.getD []) := rfl

theorem enforceExposure_eq_ok_iff (allowInsecureRemote : Bool) (host : Option (List Char)) :
    enforceExposure allowInsecureRemote host = .ok () ↔
      allowInsecureRemote = true ∨ isLocalhost (host.getD []) = true := by
  unfold enforceExposure
  cases allowInsecureRemote <;> cases isLocalhost (host.getD []) <;> simp

/-- Both gates let the same requests pass. -/
theorem enforceExposure_agrees (allowInsecureRemote : Bool) (host : Option (List Char)) :
    Platform.enforceExposure (some allowInsecureRemote) host = .ok () ↔
      enforceExposure allowInsecureRemote host = .ok () := by
  rw [enforceExposure_eq_ok_iff, ← isLocalhost_agrees]
  unfold Platform.enforceExposure
  cases allowInsecureRemote <;> cases Platform.isLocalhost host <;> simp

/-! ## Acceptance -/

theorem isLocalhost_of_plain {header : HostHeader} (h : ':' ∉ header.host) :
    isLocalhost header.text = true ↔
      header.host = "localhost".toList ∨ header.host = "127.0.0.1".toList := by
  rw [isLocalhost_eq_true_iff, HostHeader.text, splitOn_first_of_not_mem h]

/-- No literal in brackets is accepted: the first piece begins with the bracket. -/
theorem isLocalhost_of_bracketed {header : HostHeader} {literal : List Char}
    (h : header.host = '[' :: literal ++ [']']) : isLocalhost header.text = false := by
  have hfirst : ∀ name : List Char, name.head? ≠ some '[' → name ≠ [] →
      (header.text.splitOn ':')[0]?.getD [] ≠ name := by
    intro name hhead hne hname
    cases hpieces : header.text.splitOn ':' with
    | nil => exact absurd hpieces (List.splitOn_ne_nil ':' header.text)
    | cons first rest =>
        have hpieces' : header.text.splitOnP (· == ':') = first :: rest := by
          rw [← List.splitOn_eq_splitOnP]
          exact hpieces
        have hbegins : first <+: header.text := Text.splitOnP_prefixed hpieces'
        obtain ⟨behind, hbehind⟩ := hbegins
        rw [hpieces] at hname
        have hname : first = name := hname
        rw [hname, HostHeader.text, h] at hbehind
        cases name with
        | nil => exact hne rfl
        | cons c name =>
            have hc : c = '[' := (List.cons.inj hbehind).1
            rw [hc] at hhead
            exact hhead rfl
  rw [Bool.eq_false_iff, ne_eq, isLocalhost_eq_true_iff, not_or]
  exact ⟨hfirst _ (by decide) (by decide), hfirst _ (by decide) (by decide)⟩

theorem recognises_isLocalhost_iff (header : HostHeader) :
    Recognises isLocalhost header ↔ header.host ≠ "[::1]".toList := by
  have hloop : header.host ∈ loopbackHosts ↔ header.host = "localhost".toList ∨
      header.host = "127.0.0.1".toList ∨ header.host = "[::1]".toList := by
    rw [loopbackHosts, List.mem_cons, List.mem_cons, List.mem_singleton]
  rw [Recognises, hloop]
  rcases header.plain_or_bracketed with hplain | ⟨literal, hbracketed⟩
  · have hne : header.host ≠ "[::1]".toList := by
      intro h
      rw [h] at hplain
      exact hplain (by decide)
    rw [isLocalhost_of_plain hplain]
    simp only [hne, or_false, ne_eq, not_false_eq_true]
  · have hlocal : header.host ≠ "localhost".toList := by
      intro h
      rw [hbracketed] at h
      exact absurd (List.cons.inj h).1 (by decide)
    have haddress : header.host ≠ "127.0.0.1".toList := by
      intro h
      rw [hbracketed] at h
      exact absurd (List.cons.inj h).1 (by decide)
    rw [isLocalhost_of_bracketed hbracketed]
    simp only [hlocal, haddress, false_or, Bool.false_eq_true, false_iff, ne_eq]

/-- Both servers accept a `Host` header exactly if its host is this device, for every header but
that of the bracketed IPv6 loopback, with a port or without; and they agree on every header. -/
theorem isLocalhost_recognises_iff (header : HostHeader) :
    (Recognises isLocalhost header ∧
        Recognises (fun text => Platform.isLocalhost (some text)) header ∧
        ∀ hostHeader : Option (List Char),
          Platform.isLocalhost hostHeader = isLocalhost (hostHeader.getD [])) ↔
      header.host ≠ "[::1]".toList := by
  rw [← recognises_isLocalhost_iff]
  constructor
  · rintro ⟨h, -, -⟩
    exact h
  · intro h
    exact ⟨h, h, isLocalhost_agrees⟩

/-- The header that a client sends to the IPv6 loopback is refused. -/
theorem isLocalhost_refuses_ipv6 :
    ¬ ∀ header : HostHeader,
      Recognises isLocalhost header ∧
        Recognises (fun text => Platform.isLocalhost (some text)) header := by
  intro h
  have hdecimal : ∀ digits ∈ some "8787".toList,
      digits ≠ [] ∧ ∀ c ∈ digits, Text.isDigit c = true := by
    intro digits hdigits
    rw [← Option.some.inj hdigits]
    exact ⟨by decide, List.all_eq_true.mp (by decide)⟩
  have hheader := (h ⟨"[::1]".toList, some "8787".toList, .inr ⟨"::1".toList, by decide⟩,
    hdecimal⟩).1
  have hloop : "[::1]".toList ∈ loopbackHosts := by decide
  have htext : isLocalhost "[::1]:8787".toList = false := by decide
  exact absurd (hheader.mpr hloop) (Bool.eq_false_iff.mp htext)

end AgentGather.Server
