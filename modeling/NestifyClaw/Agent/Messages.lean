import NestifyClaw.Json

/-!
# Messages

The messages of an agent's transcript (`AgentMessage`), and what a model gets to read of them
(`Message`).  `convertToLlm` leaves out the commands that are kept from the context, and turns
commands, notes and summaries into texts of the user.  A timestamp is the number of milliseconds that
it stands for.
-/

namespace NestifyClaw.Agent

abbrev Timestamp := Nat

/-- `TextContent | ImageContent` -/
inductive ContentBlock
  | text (text : String)
  | image (data mimeType : String)

/-- `string | (TextContent | ImageContent)[]` -/
inductive Content
  | text (text : String)
  | blocks (blocks : List ContentBlock)

structure UserMessage where
  content : Content
  timestamp : Timestamp

structure AgentToolCall where
  id : String
  name : String
  arguments : List (String × Json)

inductive AssistantBlock
  | text (text : String)
  | thinking (thinking : String)
  | toolCall (toolCall : AgentToolCall)

structure Usage where
  input : Nat
  output : Nat
  cacheRead : Nat
  cacheWrite : Nat
  totalTokens : Nat

def EMPTY_USAGE : Usage := ⟨0, 0, 0, 0, 0⟩

inductive StopReason
  | stop
  | length
  | toolUse
  | error
  | aborted
  deriving DecidableEq

structure AssistantMessage where
  content : List AssistantBlock
  api : String
  provider : String
  model : String
  usage : Option Usage
  stopReason : StopReason
  errorMessage : Option String
  timestamp : Timestamp

def AssistantMessage.toolCalls (message : AssistantMessage) : List AgentToolCall :=
  message.content.filterMap fun
    | .toolCall toolCall => some toolCall
    | _ => none

structure ToolResultMessage where
  toolCallId : String
  toolName : String
  content : List ContentBlock
  details : Option Json
  isError : Bool
  timestamp : Timestamp

structure BashExecutionMessage where
  command : String
  output : String
  exitCode : Option Int
  cancelled : Bool
  truncated : Bool
  fullOutputPath : Option String
  timestamp : Timestamp
  excludeFromContext : Bool

structure CustomMessage where
  customType : String
  content : Content
  display : Bool
  details : Option Json
  timestamp : Timestamp

structure BranchSummaryMessage where
  summary : String
  fromId : String
  timestamp : Timestamp

structure CompactionSummaryMessage where
  summary : String
  tokensBefore : Nat
  timestamp : Timestamp

/-- What a model reads and writes. -/
inductive Message
  | user (message : UserMessage)
  | assistant (message : AssistantMessage)
  | toolResult (message : ToolResultMessage)

inductive AgentMessage
  | user (message : UserMessage)
  | assistant (message : AssistantMessage)
  | toolResult (message : ToolResultMessage)
  | bashExecution (message : BashExecutionMessage)
  | custom (message : CustomMessage)
  | branchSummary (message : BranchSummaryMessage)
  | compactionSummary (message : CompactionSummaryMessage)

def AgentMessage.isAssistant : AgentMessage → Bool
  | .assistant _ => true
  | _ => false

/-! ## Conversion -/

def COMPACTION_SUMMARY_PREFIX : String :=
  "The conversation history before this point was compacted into the following summary:\n\n" ++
    "<summary>\n"

def COMPACTION_SUMMARY_SUFFIX : String := "\n</summary>"

def BRANCH_SUMMARY_PREFIX : String :=
  "The following is a summary of a branch that this conversation came back from:\n\n<summary>\n"

def BRANCH_SUMMARY_SUFFIX : String := "</summary>"

def bashExecutionToText (msg : BashExecutionMessage) : String :=
  "Ran `" ++ msg.command ++ "`\n" ++
    (if msg.output ≠ "" then "```\n" ++ msg.output ++ "\n```" else "(no output)") ++
    (if msg.cancelled then "\n\n(command cancelled)"
    else match msg.exitCode with
      | some exitCode =>
          if exitCode ≠ 0 then "\n\nCommand exited with code " ++ toString exitCode else ""
      | none => "") ++
    match msg.fullOutputPath with
    | some path =>
        if msg.truncated && path ≠ "" then "\n\n[Output truncated. Full output: " ++ path ++ "]"
        else ""
    | none => ""

def userText (text : String) (timestamp : Timestamp) : Message :=
  .user { content := .blocks [.text text], timestamp }

/-- `convertToLlm` on one message. -/
def convertMessage : AgentMessage → Option Message
  | .bashExecution message =>
      if message.excludeFromContext then none
      else some (userText (bashExecutionToText message) message.timestamp)
  | .custom message =>
      some (.user
        { content := match message.content with
            | .text text => .blocks [.text text]
            | .blocks blocks => .blocks blocks
          timestamp := message.timestamp })
  | .branchSummary message =>
      some (userText (BRANCH_SUMMARY_PREFIX ++ message.summary ++ BRANCH_SUMMARY_SUFFIX)
        message.timestamp)
  | .compactionSummary message =>
      some (userText (COMPACTION_SUMMARY_PREFIX ++ message.summary ++ COMPACTION_SUMMARY_SUFFIX)
        message.timestamp)
  | .user message => some (.user message)
  | .assistant message => some (.assistant message)
  | .toolResult message => some (.toolResult message)

def convertToLlm (messages : List AgentMessage) : List Message := messages.filterMap convertMessage

end NestifyClaw.Agent
