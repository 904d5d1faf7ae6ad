import AgentGather.Library.OrderedMap
import AgentGather.Library.Program
import AgentGather.Library.Text
import AgentGather.Protocol.Attention
import AgentGather.Protocol.Boardroom

/-!
# The arguments of the command line

A word that begins with two dashes is a flag; the word behind it is its value, unless that is a
flag itself.  The first words choose what is run, and a command that is asked for help is not run
whatever its other words are.
-/

namespace AgentGather.Cli

open AgentGather.Library AgentGather.Protocol

/-! ## Flags -/

/-- A flag stands alone, or has a value. -/
inductive FlagValue where
  | present
  | text (value : List Char)
deriving DecidableEq, Repr

structure ParsedArgs where
  positional : List (List Char)
  flags : OrderedMap (List Char) FlagValue

/-- `arg.startsWith("--")` -/
def startsFlag (arg : List Char) : Bool := ['-', '-'].isPrefixOf arg

def ParsedArgs.push (args : ParsedArgs) (arg : List Char) : ParsedArgs :=
  { args with positional := args.positional ++ [arg] }

def ParsedArgs.setFlag (args : ParsedArgs) (arg : List Char) (value : FlagValue) : ParsedArgs :=
  { args with flags := args.flags.set (arg.drop 2) value }

def parseArgsFrom (args : ParsedArgs) : List (List Char) → ParsedArgs
  | [] => args
  | [arg] => if startsFlag arg then args.setFlag arg .present else args.push arg
  | arg :: next :: rest =>
      if !startsFlag arg then parseArgsFrom (args.push arg) (next :: rest)
      else if startsFlag next then parseArgsFrom (args.setFlag arg .present) (next :: rest)
      else parseArgsFrom (args.setFlag arg (.text next)) rest

def parseArgs (argv : List (List Char)) : ParsedArgs := parseArgsFrom ⟨[], .empty⟩ argv

def flagString (args : ParsedArgs) (key : String) : Option (List Char) :=
  match args.flags.get? key.toList with
  | some (.text value) => some value
  | _ => none

def flagBoolean (args : ParsedArgs) (key : String) : Bool :=
  args.flags.get? key.toList = some .present

/-! ## Commands -/

def knownCommands : List String :=
  ["room", "tunnel", "broker", "platform", "send", "messages", "read", "reply", "watch", "attend",
    "wake-adapter", "handoff", "export", "doctor", "instructions"]

inductive MainAction where
  | help
  | version
  | launch (argv : List (List Char))
  | commandHelp (command : String)
  | run (command : String) (rest : List (List Char))
  | unknownCommand (command : List Char)
deriving DecidableEq, Repr

def main : List (List Char) → MainAction
  | [] => .launch []
  | command :: rest =>
      if command = "--help".toList ∨ command = "-h".toList then .help
      else if command = "--version".toList ∨ command = "-v".toList then .version
      else if command = "--port".toList ∨ command = "--no-open".toList then
        .launch (command :: rest)
      else
        match knownCommands.find? fun known => known.toList = command with
        | none => .unknownCommand command
        | some known =>
            if "--help".toList ∈ rest ∨ "-h".toList ∈ rest then .commandHelp known
            else .run known rest

def roomCommands : List String :=
  ["start", "create-boardroom", "channel-create", "channel-rename", "channel-read", "forum-post",
    "forum-comment", "forum-list", "forum-read", "forum-status", "boardroom", "brief",
    "attendance", "session", "serve", "launch", "runtime-status", "invite", "invite-card", "join",
    "current", "leave", "close", "dashboard"]

/-- `runRoomCommand`: the subcommand and its arguments; none is an unknown one. -/
def roomCommand : List (List Char) → Option (String × List (List Char))
  | [] => none
  | subcommand :: rest =>
      (roomCommands.find? fun known => known.toList = subcommand).map fun known => (known, rest)

/-! ## Creating a room -/

/-- Where the body of the brief comes from. -/
inductive BriefSource where
  | inline (body : List Char)
  | file (path : List Char)
deriving DecidableEq, Repr

/-- `resolveBriefBody`, before the file is read. -/
def resolveBriefBody (args : ParsedArgs) (inlineFlag : String) :
    Except Failure (Option BriefSource) :=
  match flagString args "brief-file", flagString args inlineFlag with
  | none, none => .ok none
  | none, some body => .ok (some (.inline body))
  | some path, none => .ok (some (.file path))
  | some _, some _ =>
      .error (.error ("provide either --" ++ inlineFlag ++ " or --brief-file, not both"))

def parseKind (value : List Char) : Except Failure ParticipantKind :=
  if value = "agent".toList then .ok .agent
  else if value = "human".toList then .ok .human
  else .error (.error "kind must be agent or human")

def parseChannelType (value : List Char) : Except Failure String :=
  match channelTypes.find? fun known => known.toList = value with
  | some known => .ok known
  | none => .error (.error ("channel type must be one of " ++ ", ".intercalate channelTypes))

/-- The ids and types of `--channels`. -/
def parseChannelSpec (spec : Option (List Char)) : Except Failure (List (List Char × String)) :=
  match spec with
  | none => .ok [("general".toList, "chat")]
  | some spec =>
      if Text.trim spec = [] then .ok [("general".toList, "chat")]
      else (spec.splitOn ',').mapM fun entry => do
        let parts := entry.splitOn ':'
        let type ← parseChannelType (Text.trim (parts[1]?.getD "chat".toList))
        return (Text.trim (parts[0]?.getD []), type)

/-- What `room start` and `room create-boardroom` make of their arguments; the base URL is not
normalized yet. -/
structure RoomRequest where
  roomId : List Char
  aliasName : List Char
  url : List Char
  brief : Option BriefSource
  expiresAt : Option (List Char)
  kind : ParticipantKind
  attendance : AttendancePolicy
  /-- Only of a boardroom. -/
  channels : Option (List (List Char × String))
  boardroomName : Option (List Char)
deriving DecidableEq, Repr

/-- A plain room is not asked for its channels. -/
def requestedChannels (boardroom : Bool) (args : ParsedArgs) :
    Except Failure (Option (List (List Char × String))) :=
  if boardroom then some <$> parseChannelSpec (flagString args "channels") else .ok none

def roomRequest (boardroom : Bool) (args : ParsedArgs) : Except Failure RoomRequest := do
  match args.positional[0]? with
  | none => throw (.error "room id is required")
  | some roomId =>
      let brief ← resolveBriefBody args "brief"
      let channels ← requestedChannels boardroom args
      let kind ← parseKind ((flagString args "kind").getD "human".toList)
      let attendance ← parseAttendancePolicy
        (String.ofList ((flagString args "attendance").getD "manual-ok".toList))
      return {
        roomId := roomId
        aliasName := (flagString args "alias").getD "host".toList
        url := (flagString args "url").getD "http://127.0.0.1:8787".toList
        brief := brief
        expiresAt := flagString args "expires-at"
        kind := kind
        attendance := attendance
        channels := channels
        boardroomName := if boardroom then flagString args "name" else none }

/-- The room that the words behind the program's name ask for; none where they ask for something
else, or for nothing that is there. -/
def requestedRoom (argv : List (List Char)) : Option RoomRequest :=
  match main argv with
  | .run "room" rest =>
      match roomCommand rest with
      | some ("start", rest) => (roomRequest false (parseArgs rest)).toOption
      | some ("create-boardroom", rest) => (roomRequest true (parseArgs rest)).toOption
      | _ => none
  | _ => none

/-! ## Reading flags back -/

theorem parseArgsFrom_flag {arg value : List Char} (args : ParsedArgs)
    (harg : startsFlag arg = true) (hvalue : startsFlag value = false)
    (rest : List (List Char)) :
    parseArgsFrom args (arg :: value :: rest) =
      parseArgsFrom (args.setFlag arg (.text value)) rest := by
  rw [parseArgsFrom, harg, hvalue]
  rfl

theorem parseArgsFrom_positional {arg : List Char} (args : ParsedArgs)
    (harg : startsFlag arg = false) (rest : List (List Char)) :
    parseArgsFrom args (arg :: rest) = parseArgsFrom (args.push arg) rest := by
  cases rest with
  | nil => simp only [parseArgsFrom, harg, Bool.false_eq_true, if_false]
  | cons next rest => simp only [parseArgsFrom, harg, Bool.not_false, if_true]

/-- A flag behind a flag is no value. -/
theorem parseArgsFrom_flags {arg next : List Char} (args : ParsedArgs)
    (harg : startsFlag arg = true) (hnext : startsFlag next = true) :
    parseArgsFrom args [arg, next] = (args.setFlag arg .present).setFlag next .present := by
  simp only [parseArgsFrom, harg, hnext, Bool.not_true, Bool.false_eq_true, if_false, if_true]

theorem flagString_eq_none {args : ParsedArgs} {key : String}
    (h : ∀ value, args.flags.get? key.toList ≠ some (.text value)) :
    flagString args key = none := by
  unfold flagString
  split
  · rename_i value hvalue
    exact absurd hvalue (h value)
  · rfl

/-- A brief that was lost to another flag is none. -/
theorem roomRequest_brief {boardroom : Bool} {args : ParsedArgs} {request : RoomRequest}
    (hbrief : flagString args "brief" = none) (hfile : flagString args "brief-file" = none)
    (h : roomRequest boardroom args = .ok request) : request.brief = none := by
  unfold roomRequest at h
  split at h
  · cases h
  · have hresolve : resolveBriefBody args "brief" = .ok none := by
      rw [resolveBriefBody, hbrief, hfile]
    obtain ⟨brief, hbrief, h⟩ := exists_ok_of_bind h
    rw [hresolve] at hbrief
    obtain rfl := Except.ok.inj hbrief
    obtain ⟨channels, -, h⟩ := exists_ok_of_bind h
    obtain ⟨kind, -, h⟩ := exists_ok_of_bind h
    obtain ⟨attendance, -, h⟩ := exists_ok_of_bind h
    obtain rfl := Except.ok.inj h
    rfl

end AgentGather.Cli
