import AgentGather.Library.Shell
import AgentGather.Library.Url
import AgentGather.Protocol.Types

/-!
# The launch plan of a room's runtime

A room is live while its `room serve` runs.  The plan is the commands that start it in a detached
tmux session, stop it and probe it, or, without tmux, the command that a human operator runs.  The
commands are texts for a shell, and the detached one has the serve command in it for a second
shell: what was put into them is read back as it was.
-/

namespace AgentGather.Server

open AgentGather.Library AgentGather.Library.Url AgentGather.Library.Shell AgentGather.Protocol

inductive RuntimeState where
  | runtimeRunning
  | runtimeUnreachable
  | manualRunRequired
deriving DecidableEq, Repr

inductive RuntimeStrategy where
  | detachedTmux
  | manualOperator
deriving DecidableEq, Repr

/-- The port is a number of JavaScript, none where it is no integer. -/
structure RuntimeLaunchInput where
  home : List Char
  roomId : List Char
  port : Option Int
  publicUrl : List Char
  logPath : List Char
  sessionName : List Char
  tmuxAvailable : Bool
  runtimeReachable : Bool
  cliInvocation : List Char
  cliResolved : Bool
deriving DecidableEq, Repr

structure RuntimeLaunchPlan where
  strategy : RuntimeStrategy
  runtimeState : RuntimeState
  sessionName : List Char
  logPath : List Char
  serveCommand : List Char
  detachedCommand : Option (List Char)
  stopCommand : List Char
  statusCommand : List Char
  cliSource : List Char
  cliResolved : Bool
  ownership : List Char
deriving DecidableEq, Repr

/-- Every quote of the value is written `'\''`, and the whole between single quotes. -/
def shellSingleQuote (value : List Char) : List Char := singleQuote value

/-- The setters clear the query, the fragment and the credentials.  A value that `new URL` does
not accept is left as it is. -/
def sanitizePublicUrl (H : HostParser) (value : List Char) : List Char :=
  match parse H none value with
  | some url =>
      { url with query := none, fragment := none, username := [], password := [] : Url }.href
  | none => value

def resolveRuntimeState (tmuxAvailable runtimeReachable : Bool) : RuntimeState :=
  if runtimeReachable then .runtimeRunning
  else if tmuxAvailable then .runtimeUnreachable
  else .manualRunRequired

/-- The port, where `buildRuntimeLaunchPlan` takes it. -/
def launchPort (port : Option Int) : Option Nat :=
  match port with
  | none => none
  | some port => if port < 1 ∨ port > 65535 then none else some port.toNat

def serveCommand (home cliInvocation : List Char) (port : Nat) (publicUrl : List Char) :
    List Char :=
  "AGENTGATHER_HOME=".toList ++ shellSingleQuote home ++ " ".toList ++ cliInvocation ++
    " room serve".toList ++ " --port ".toList ++ Nat.toDigits 10 port ++ " --url ".toList ++
    shellSingleQuote publicUrl

def cliWarning (input : RuntimeLaunchInput) : List Char :=
  if input.cliResolved then []
  else
    " Could not resolve the host CLI source — verify these commands use the host's own ".toList ++
      "agentgather (shown as: ".toList ++ input.cliInvocation ++ ").".toList

/-- A probe without a token. -/
def httpProbe (publicUrl : List Char) : List Char :=
  "curl -sS -o /dev/null -w '%{http_code}\\n' ".toList ++ shellSingleQuote publicUrl

/-- The serve command with its output in the log, for the shell in the session. -/
def sessionCommand (serveCommand logPath : List Char) : List Char :=
  serveCommand ++ " >> ".toList ++ shellSingleQuote logPath ++ " 2>&1".toList

def detachedPlan (H : HostParser) (input : RuntimeLaunchInput) (port : Nat) :
    RuntimeLaunchPlan :=
  let publicUrl := sanitizePublicUrl H input.publicUrl
  let serve := serveCommand input.home input.cliInvocation port publicUrl
  { strategy := .detachedTmux
    runtimeState := resolveRuntimeState true input.runtimeReachable
    sessionName := input.sessionName
    logPath := input.logPath
    serveCommand := serve
    detachedCommand :=
      some ("tmux new-session -d -s ".toList ++ shellSingleQuote input.sessionName ++
        " ".toList ++ shellSingleQuote (sessionCommand serve input.logPath))
    stopCommand := "tmux kill-session -t ".toList ++ shellSingleQuote input.sessionName
    statusCommand :=
      "tmux has-session -t ".toList ++ shellSingleQuote input.sessionName ++ " && ".toList ++
        httpProbe publicUrl
    cliSource := input.cliInvocation
    cliResolved := input.cliResolved
    ownership :=
      "A detached tmux session \"".toList ++ input.sessionName ++ "\" keeps ".toList ++
        input.roomId ++ " live, ".toList ++
        "so the agent session does not hold the server in the foreground. ".toList ++
        "Stop it with the stop command.".toList ++ cliWarning input }

def manualPlan (H : HostParser) (input : RuntimeLaunchInput) (port : Nat) : RuntimeLaunchPlan :=
  let publicUrl := sanitizePublicUrl H input.publicUrl
  { strategy := .manualOperator
    runtimeState := resolveRuntimeState false input.runtimeReachable
    sessionName := input.sessionName
    logPath := input.logPath
    serveCommand := serveCommand input.home input.cliInvocation port publicUrl
    detachedCommand := none
    stopCommand := "Press Ctrl-C in the operator terminal running `room serve`.".toList
    statusCommand := httpProbe publicUrl
    cliSource := input.cliInvocation
    cliResolved := input.cliResolved
    ownership :=
      "No detachable runner (tmux) was found, so a human operator must run ".toList ++
        "the serve command for ".toList ++ input.roomId ++
        " and keep that terminal open to keep the room live.".toList ++ cliWarning input }

def buildRuntimeLaunchPlan (H : HostParser) (input : RuntimeLaunchInput) :
    Except Failure RuntimeLaunchPlan :=
  match launchPort input.port with
  | none => .error (.error "port must be an integer between 1 and 65535")
  | some port =>
      if input.tmuxAvailable then .ok (detachedPlan H input port)
      else .ok (manualPlan H input port)

/-- `resolveHostCli`: the process's own Node and entry script, or a name that was not resolved. -/
def resolveHostCli (execPath : List Char) (entry : Option (List Char)) : List Char × Bool :=
  match entry with
  | some (c :: entry) =>
      (shellSingleQuote execPath ++ " ".toList ++ shellSingleQuote (c :: entry), true)
  | _ => ("agentgather".toList, false)

/-! ## The words -/

/-- A word without a quotation. -/
def bare (s : String) : Word := unquoted s.toList

def serveWords (home : List Char) (cli : List Word) (port : Nat) (publicUrl : List Char) :
    List Word :=
  (bare "AGENTGATHER_HOME=" ++ quoted home) ::
    (cli ++ [bare "room", bare "serve", bare "--port", unquoted (Nat.toDigits 10 port),
      bare "--url", quoted publicUrl])

def probeWords (publicUrl : List Char) : List Word :=
  [bare "curl", bare "-sS", bare "-o", bare "/dev/null", bare "-w",
    quoted "%{http_code}\\n".toList, quoted publicUrl]

/-- What stands behind the words of the serve command in the session. -/
def logTokens (logPath : List Char) : List Token :=
  [.operator ">>".toList, .word (quoted logPath), .ioNumber "2".toList, .operator ">&".toList,
    .word (bare "1")]

/-! ## Reading the commands -/

/-- What the host's own invocation reads as. -/
theorem reads_resolveHostCli (execPath : List Char) (entry : Option (List Char)) :
    ∃ words, Reads (resolveHostCli execPath entry).1 words := by
  have hbare : Reads "agentgather".toList [bare "agentgather"] := by decide
  match entry with
  | none => exact ⟨_, hbare⟩
  | some [] => exact ⟨_, hbare⟩
  | some (c :: entry) =>
      have h := (reads_singleQuote execPath).append (reads_singleQuote (c :: entry))
      have htext : (resolveHostCli execPath (some (c :: entry))).1 =
          singleQuote execPath ++ ' ' :: singleQuote (c :: entry) := by
        simp [resolveHostCli, shellSingleQuote]
      rw [htext]
      exact ⟨_, h⟩

theorem reads_home (home : List Char) :
    Reads ("AGENTGATHER_HOME=".toList ++ shellSingleQuote home)
      [bare "AGENTGATHER_HOME=" ++ quoted home] := by
  apply reads_of_run
  have hname : run (.plain none) "AGENTGATHER_HOME=".toList =
      some ([], .plain (some (bare "AGENTGATHER_HOME="))) := by decide
  rw [run_append_of_run hname, shellSingleQuote, run_singleQuote]
  rfl

theorem reads_port (port : Nat) :
    Reads (Nat.toDigits 10 port) [unquoted (Nat.toDigits 10 port)] := by
  have hdigit : ∀ c ∈ Nat.toDigits 10 port, isPlain c = true ∧ c ≠ '#' := by
    intro c hc
    have h := Nat.isDigit_of_mem_toDigits (by decide) (by decide) hc
    have hplain : ∀ d : Char, d.isDigit = false → c ≠ d := by
      rintro d hd rfl
      rw [h] at hd
      cases hd
    constructor
    · have hall : ∀ d ∈ ['\'', '"', '\\', '$', '`', ' ', '\t', '&', '|', ';', '<', '>', '(', ')',
          '\n'], c ≠ d := by
        intro d hd
        have hmarks : ∀ d ∈ ['\'', '"', '\\', '$', '`', ' ', '\t', '&', '|', ';', '<', '>', '(',
            ')', '\n'], Char.isDigit d = false := List.all_iff_forall_prop.mp (by decide)
        have hd : d.isDigit = false := hmarks d hd
        exact hplain d hd
      simp only [List.mem_cons, List.not_mem_nil, or_false, forall_eq_or_imp, forall_eq] at hall
      simp [isPlain, Shell.isBlank, startsOperator, hall]
    · exact hplain '#' (by decide)
  cases hdigits : Nat.toDigits 10 port with
  | nil => exact absurd hdigits Nat.toDigits_ne_nil
  | cons c s =>
      rw [hdigits] at hdigit
      exact reads_plain (hdigit c List.mem_cons_self).1 (hdigit c List.mem_cons_self).2
        fun d hd => (hdigit d (List.mem_cons_of_mem _ hd)).1

/-- The texts between the values of the serve command, with the blanks around each word apart. -/
theorem append_with_blanks {blank room port url room' url' : List Char} (hblank : blank = [' '])
    (hroom : room ++ port = ' ' :: (room' ++ [' '])) (hurl : url = ' ' :: (url' ++ [' ']))
    (home cli digits value : List Char) :
    home ++ blank ++ cli ++ room ++ port ++ digits ++ url ++ value =
      home ++ ' ' :: (cli ++ ' ' :: (room' ++ ' ' :: (digits ++ ' ' ::
        (url' ++ ' ' :: value)))) := by
  rw [List.append_assoc _ room port, hroom, hblank, hurl]
  simp only [List.append_assoc, List.cons_append, List.nil_append]

/-- The serve command reads as its words. -/
theorem reads_serveCommand {cliInvocation : List Char} {cli : List Word}
    (hcli : Reads cliInvocation cli) (home : List Char) (port : Nat) (publicUrl : List Char) :
    Reads (serveCommand home cliInvocation port publicUrl)
      (serveWords home cli port publicUrl) := by
  have hserve : Reads "room serve --port".toList [bare "room", bare "serve", bare "--port"] := by
    decide
  have hurl : Reads "--url".toList [bare "--url"] := by decide
  have h := (reads_home home).append (hcli.append (hserve.append ((reads_port port).append
    (hurl.append (reads_singleQuote publicUrl)))))
  have hblank : " ".toList = [' '] := by decide +kernel
  have hserveText : " room serve".toList ++ " --port ".toList =
      ' ' :: ("room serve --port".toList ++ [' ']) := by decide +kernel
  have hurlText : " --url ".toList = ' ' :: ("--url".toList ++ [' ']) := by decide +kernel
  unfold serveCommand
  rw [append_with_blanks hblank hserveText hurlText]
  exact h

/-- In the session the words are followed by the redirection to the log. -/
theorem tokens_sessionCommand {serve : List Char} {words : List Word} (h : Reads serve words)
    (logPath : List Char) :
    tokens (sessionCommand serve logPath) = some (words.map .word ++ logTokens logPath) := by
  have hop : run (.plain none) ">> ".toList = some ([.operator ">>".toList], .plain none) := by
    decide
  have hlog : run (.plain none) (singleQuote logPath) =
      some ([], .plain (some (quoted logPath))) := run_singleQuote logPath none
  have herrors : tokensFrom (.plain none) "2>&1".toList =
      some [.ioNumber "2".toList, .operator ">&".toList, .word (bare "1")] := by
    decide +kernel
  have hopText : " >> ".toList = ' ' :: ">> ".toList := by decide +kernel
  have herrorsText : " 2>&1".toList = [' '] ++ "2>&1".toList := by decide +kernel
  unfold sessionCommand
  rw [hopText, herrorsText, List.append_assoc, List.append_assoc, List.cons_append,
    h.tokens_append, tokens, tokensFrom_append hop, shellSingleQuote, tokensFrom_append hlog,
    tokensFrom_append (run_blank _), herrors]
  rfl

theorem reads_httpProbe (publicUrl : List Char) :
    Reads (httpProbe publicUrl) (probeWords publicUrl) := by
  have hprobe : Reads "curl -sS -o /dev/null -w '%{http_code}\\n'".toList
      [bare "curl", bare "-sS", bare "-o", bare "/dev/null", bare "-w",
        quoted "%{http_code}\\n".toList] := by decide +kernel
  have htext : "curl -sS -o /dev/null -w '%{http_code}\\n' ".toList =
      "curl -sS -o /dev/null -w '%{http_code}\\n'".toList ++ [' '] := by decide +kernel
  have h := hprobe.append (reads_singleQuote publicUrl)
  unfold httpProbe
  rewrite [htext, List.append_assoc]
  exact h

/-- The options of a tmux command, and the name of the session. -/
theorem reads_tmux {options : List Char} {words : List Word} (h : Reads options words)
    (sessionName : List Char) :
    Reads (options ++ ' ' :: shellSingleQuote sessionName) (words ++ [quoted sessionName]) :=
  h.append (reads_singleQuote sessionName)

theorem tokens_statusCommand (sessionName publicUrl : List Char) :
    tokens ("tmux has-session -t ".toList ++ shellSingleQuote sessionName ++ " && ".toList ++
        httpProbe publicUrl) =
      some ([bare "tmux", bare "has-session", bare "-t", quoted sessionName].map Token.word ++
        .operator "&&".toList :: (probeWords publicUrl).map .word) := by
  have hoptions : Reads "tmux has-session -t".toList
      [bare "tmux", bare "has-session", bare "-t"] := by decide
  have hand : run (.plain none) "&& ".toList = some ([.operator "&&".toList], .plain none) := by
    decide
  have htext : "tmux has-session -t ".toList ++ shellSingleQuote sessionName ++ " && ".toList ++
        httpProbe publicUrl =
      ("tmux has-session -t".toList ++ ' ' :: shellSingleQuote sessionName) ++ ' ' ::
        ("&& ".toList ++ httpProbe publicUrl) := by
    simp
  have hprobe := (reads_httpProbe publicUrl).tokens_eq
  rw [tokens] at hprobe
  rw [htext, (reads_tmux hoptions sessionName).tokens_append, tokens, tokensFrom_append hand,
    hprobe]
  rfl

theorem tokens_stopCommand (sessionName : List Char) :
    tokens ("tmux kill-session -t ".toList ++ shellSingleQuote sessionName) =
      some ([bare "tmux", bare "kill-session", bare "-t", quoted sessionName].map .word) := by
  have hoptions : Reads "tmux kill-session -t".toList
      [bare "tmux", bare "kill-session", bare "-t"] := by decide
  have htext : "tmux kill-session -t ".toList ++ shellSingleQuote sessionName =
      "tmux kill-session -t".toList ++ ' ' :: shellSingleQuote sessionName := by
    simp
  rw [htext, (reads_tmux hoptions sessionName).tokens_eq]
  rfl

/-- The words that the shell of the caller gives to tmux: the last is the command of the session. -/
theorem tokens_detachedCommand (sessionName command : List Char) :
    tokens ("tmux new-session -d -s ".toList ++ shellSingleQuote sessionName ++ " ".toList ++
        shellSingleQuote command) =
      some ([bare "tmux", bare "new-session", bare "-d", bare "-s", quoted sessionName,
        quoted command].map .word) := by
  have hoptions : Reads "tmux new-session -d -s".toList
      [bare "tmux", bare "new-session", bare "-d", bare "-s"] := by decide
  have htext : "tmux new-session -d -s ".toList ++ shellSingleQuote sessionName ++ " ".toList ++
        shellSingleQuote command =
      ("tmux new-session -d -s".toList ++ ' ' :: shellSingleQuote sessionName) ++ ' ' ::
        singleQuote command := by
    simp [shellSingleQuote]
  rw [htext, ((reads_tmux hoptions sessionName).append (reads_singleQuote command)).tokens_eq]
  rfl

/-! ## The plan -/

theorem buildRuntimeLaunchPlan_eq_ok {H : HostParser} {input : RuntimeLaunchInput}
    {plan : RuntimeLaunchPlan} (h : buildRuntimeLaunchPlan H input = .ok plan) :
    ∃ port, launchPort input.port = some port ∧
      plan = if input.tmuxAvailable then detachedPlan H input port else manualPlan H input port := by
  unfold buildRuntimeLaunchPlan at h
  cases hport : launchPort input.port with
  | none =>
      rw [hport] at h
      cases h
  | some port =>
      rw [hport] at h
      refine ⟨port, rfl, ?_⟩
      cases htmux : input.tmuxAvailable with
      | true =>
          simp only [htmux, if_true, Except.ok.injEq] at h
          rw [if_pos rfl, h]
      | false =>
          simp only [htmux, Bool.false_eq_true, if_false, Except.ok.injEq] at h
          rw [if_neg (by decide), h]

/-- Every command of the plan reads as the words it was made for, with every character of an input
quoted: a quoted value is one word, the last word of the detached command is the command of the
session, and that one reads again as the serve command's words and the redirection to the log. -/
theorem buildRuntimeLaunchPlan_tokens {H : HostParser} {input : RuntimeLaunchInput}
    {plan : RuntimeLaunchPlan} {cli : List Word} (hcli : Reads input.cliInvocation cli)
    (h : buildRuntimeLaunchPlan H input = .ok plan) :
    (∀ value, tokens (shellSingleQuote value) = some [.word (quoted value)]) ∧
      ∃ port : Nat, input.port = some (port : Int) ∧
        let publicUrl := sanitizePublicUrl H input.publicUrl
        let serve := (serveWords input.home cli port publicUrl).map Token.word
        let probe := (probeWords publicUrl).map Token.word
        tokens plan.serveCommand = some serve ∧
          (input.tmuxAvailable = true →
            (∃ inner, plan.detachedCommand.bind tokens =
                some ([bare "tmux", bare "new-session", bare "-d", bare "-s",
                  quoted input.sessionName, quoted inner].map .word) ∧
              tokens inner = some (serve ++ logTokens input.logPath)) ∧
            tokens plan.stopCommand = some ([bare "tmux", bare "kill-session", bare "-t",
              quoted input.sessionName].map .word) ∧
            tokens plan.statusCommand = some ([bare "tmux", bare "has-session", bare "-t",
              quoted input.sessionName].map Token.word ++ .operator "&&".toList :: probe)) ∧
          (input.tmuxAvailable = false →
            plan.detachedCommand = none ∧
            plan.stopCommand =
              "Press Ctrl-C in the operator terminal running `room serve`.".toList ∧
            tokens plan.statusCommand = some probe) := by
  refine ⟨tokens_singleQuote, ?_⟩
  obtain ⟨port, hport, hplan⟩ := buildRuntimeLaunchPlan_eq_ok h
  refine ⟨port, ?_, ?_⟩
  · unfold launchPort at hport
    cases hvalue : input.port with
    | none =>
        rw [hvalue] at hport
        cases hport
    | some value =>
        rw [hvalue] at hport
        simp only at hport
        split_ifs at hport with hrange
        obtain rfl := Option.some.inj hport
        rw [Int.toNat_of_nonneg (by omega)]
  · have hserve := reads_serveCommand hcli input.home port (sanitizePublicUrl H input.publicUrl)
    cases htmux : input.tmuxAvailable with
    | true =>
        rw [htmux, if_pos rfl] at hplan
        rw [hplan]
        refine ⟨hserve.tokens_eq, fun _ => ⟨⟨_, tokens_detachedCommand _ _,
          tokens_sessionCommand hserve _⟩, tokens_stopCommand _, tokens_statusCommand _ _⟩, ?_⟩
        intro hmanual
        cases hmanual
    | false =>
        rw [htmux, if_neg (by decide)] at hplan
        rw [hplan]
        refine ⟨hserve.tokens_eq, ?_, fun _ => ⟨rfl, rfl, (reads_httpProbe _).tokens_eq⟩⟩
        intro hdetached
        cases hdetached

/-- A home with a quote in it, a log with a redirection, and a session with an expansion. -/
def quotedInput : RuntimeLaunchInput where
  home := "/home/o'brien".toList
  roomId := "ops".toList
  port := some 8787
  publicUrl := "https://rooms.example/?token=t".toList
  logPath := "serve > log".toList
  sessionName := "$(id)".toList
  tmuxAvailable := true
  runtimeReachable := false
  cliInvocation := "agentgather".toList
  cliResolved := false

theorem buildRuntimeLaunchPlan_tokens_quotedInput :
    tokens (detachedPlan HostParser.plain quotedInput 8787).stopCommand =
        some ([bare "tmux", bare "kill-session", bare "-t", quoted "$(id)".toList].map .word) ∧
      ∃ port : Nat, tokens (detachedPlan HostParser.plain quotedInput 8787).serveCommand =
        some ((serveWords "/home/o'brien".toList [bare "agentgather"] port
          (sanitizePublicUrl HostParser.plain quotedInput.publicUrl)).map .word) := by
  have hcli : Reads quotedInput.cliInvocation [bare "agentgather"] := by decide
  have hplan : buildRuntimeLaunchPlan HostParser.plain quotedInput =
      .ok (detachedPlan HostParser.plain quotedInput 8787) := rfl
  obtain ⟨-, port, -, hserve, hdetached, -⟩ := buildRuntimeLaunchPlan_tokens hcli hplan
  exact ⟨(hdetached rfl).2.1, port, hserve⟩

end AgentGather.Server
