import NestifyClaw.Transition
import NestifyClaw.Separator
import NestifyClaw.Heap
import NestifyClaw.Await
import NestifyClaw.Connectors.WhatsappQuiescence
import NestifyClaw.Connectors.WhatsappConnection
import NestifyClaw.Connectors.Telegram
import NestifyClaw.Gateway.TraceLaw
import NestifyClaw.Gateway.FailedTurn
import NestifyClaw.Gateway.Interleaving
import NestifyClaw.Gateway.LostUpdate
import NestifyClaw.Gateway.Conversation
import NestifyClaw.Gateway.Isolation
import NestifyClaw.Adapter.Collect
import NestifyClaw.FileTree
import NestifyClaw.Adapter.Generate
import NestifyClaw.Adapter.Writes
import NestifyClaw.Adapter.Overwrite
import NestifyClaw.Scanner
import NestifyClaw.Adapter.ModuleText
import NestifyClaw.Adapter.Completeness
import NestifyClaw.Adapter.Sources
import NestifyClaw.Adapter.Regeneration
import NestifyClaw.JavaScript
import NestifyClaw.Adapter.Stub
import NestifyClaw.Adapter.StubUse
import NestifyClaw.Lineage
import NestifyClaw.Fields
import NestifyClaw.Json
import NestifyClaw.Concurrent
import NestifyClaw.Protocol
import NestifyClaw.Agent.Uuid
import NestifyClaw.Agent.Messages
import NestifyClaw.Agent.Types
import NestifyClaw.Agent.ToolCalls
import NestifyClaw.Agent.ToolOrder
import NestifyClaw.Agent.Loop
import NestifyClaw.Agent.Transcript
import NestifyClaw.Agent.Lifecycle
import NestifyClaw.Agent.SessionStorage
import NestifyClaw.Agent.Session
import NestifyClaw.Agent.SessionContext
import NestifyClaw.Agent.FileOperations
import NestifyClaw.Agent.Pairing
import NestifyClaw.Agent.Compaction
import NestifyClaw.Agent.Compactions
import NestifyClaw.Agent.LoopExchange
import NestifyClaw.Agent.LiveTranscript
import NestifyClaw.Agent.Branch
import NestifyClaw.Agent.Harness
import NestifyClaw.Agent.HarnessSession
import NestifyClaw.Agent.HarnessInvariant
import NestifyClaw.Agent.HarnessReached
import NestifyClaw.Agent.HarnessRun
import NestifyClaw.Ledger
import NestifyClaw.Agent.HarnessLedger
import NestifyClaw.Agent.HarnessQueues
import NestifyClaw.Fit
import NestifyClaw.Utf16
import NestifyClaw.Agent.Truncate
