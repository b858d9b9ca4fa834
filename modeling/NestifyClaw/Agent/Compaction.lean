import NestifyClaw.Agent.FileOperations
import NestifyClaw.Agent.Pairing
import NestifyClaw.Agent.SessionContext

/-!
# Compaction

Where a branch is cut when its older part is to be replaced by a summary.  `prepareCompaction` takes
the entries from the first one that the last compaction kept: it divides them into the messages to
be summarised and the entries that stay (`prepareCompaction_divides`).
-/

namespace NestifyClaw.Agent

/-! ## Tokens -/

structure CompactionSettings where
  enabled : Bool
  reserveTokens : Nat
  keepRecentTokens : Nat

def DEFAULT_COMPACTION_SETTINGS : CompactionSettings :=
  { enabled := true, reserveTokens := 16384, keepRecentTokens := 20000 }

def calculateContextTokens (usage : Usage) : Nat :=
  if usage.totalTokens ≠ 0 then usage.totalTokens
  else usage.input + usage.output + usage.cacheRead + usage.cacheWrite

def getAssistantUsage (msg : AgentMessage) : Option Usage :=
  match msg with
  | .assistant assistantMsg =>
      if assistantMsg.stopReason = .aborted ∨ assistantMsg.stopReason = .error then none
      else assistantMsg.usage
  | _ => none

/-- The characters of a block; an image counts as so many. -/
def ContentBlock.chars (imageChars : Nat) : ContentBlock → Nat
  | .text t => utf16Length t
  | .image .. => imageChars

def Content.chars (imageChars : Nat) : Content → Nat
  | .text t => utf16Length t
  | .blocks bs => (bs.map (ContentBlock.chars imageChars)).sum

def AssistantBlock.chars : AssistantBlock → Nat
  | .text t => utf16Length t
  | .thinking t => utf16Length t
  | .toolCall c => utf16Length c.name + utf16Length (Json.stringify (.object c.arguments))

/-- `chars` of `estimateTokens` -/
def AgentMessage.chars : AgentMessage → Nat
  | .user message => message.content.chars 0
  | .assistant message => (message.content.map AssistantBlock.chars).sum
  | .custom message => message.content.chars 4800
  | .toolResult message => (message.content.map (ContentBlock.chars 4800)).sum
  | .bashExecution message => utf16Length message.command + utf16Length message.output
  | .branchSummary message => utf16Length message.summary
  | .compactionSummary message => utf16Length message.summary

/-- A quarter of the characters, rounded up. -/
def estimateTokens (message : AgentMessage) : Nat := (message.chars + 3) / 4

structure ContextUsageEstimate where
  tokens : Nat
  usageTokens : Nat
  trailingTokens : Nat
  lastUsageIndex : Option Nat

def getLastAssistantUsageInfo (messages : List AgentMessage) : Option (Usage × Nat) :=
  (List.range messages.length).reverse.findSome? fun i =>
    (messages[i]?.bind getAssistantUsage).map fun usage => (usage, i)

def estimateContextTokens (messages : List AgentMessage) : ContextUsageEstimate :=
  match getLastAssistantUsageInfo messages with
  | none =>
      let estimated := (messages.map estimateTokens).sum
      { tokens := estimated, usageTokens := 0, trailingTokens := estimated, lastUsageIndex := none }
  | some (usage, index) =>
      let usageTokens := calculateContextTokens usage
      let trailingTokens := ((messages.drop (index + 1)).map estimateTokens).sum
      { tokens := usageTokens + trailingTokens, usageTokens, trailingTokens,
        lastUsageIndex := some index }

/-! ## Cut points -/

def SessionTreeEntry.toMessage (entry : SessionTreeEntry) : Option AgentMessage :=
  match entry.body with
  | .message message => some message
  | _ => none

/-- What is kept may begin with this entry. -/
def SessionTreeEntry.isCutPoint (entry : SessionTreeEntry) : Bool :=
  match entry.body with
  | .message (.toolResult _) => false
  | .message _ => true
  | .branchSummary .. => true
  | .customMessage .. => true
  | _ => false

def findValidCutPoints (entries : List SessionTreeEntry) (startIndex endIndex : Nat) : List Nat :=
  (List.range' startIndex (endIndex - startIndex)).filter fun i =>
    entries[i]?.any SessionTreeEntry.isCutPoint

def SessionTreeEntry.startsTurn (entry : SessionTreeEntry) : Bool :=
  match entry.body with
  | .branchSummary .. => true
  | .customMessage .. => true
  | .message (.user _) => true
  | .message (.bashExecution _) => true
  | _ => false

/-- `none` where the source has `-1`. -/
def findTurnStartIndex (entries : List SessionTreeEntry) (entryIndex startIndex : Nat) :
    Option Nat :=
  (List.range' startIndex (entryIndex + 1 - startIndex)).reverse.find? fun i =>
    entries[i]?.any SessionTreeEntry.startsTurn

structure CutPointResult where
  firstKeptEntryIndex : Nat
  turnStartIndex : Option Nat
  isSplitTurn : Bool

/-- The loop that accumulates tokens down from the last entry: where they reach the budget. -/
def findBudgetIndex (entries : List SessionTreeEntry) (keepRecentTokens : Nat) :
    List Nat → Nat → Option Nat
  | [], _ => none
  | i :: is, accumulatedTokens =>
      match entries[i]?.bind SessionTreeEntry.toMessage with
      | none => findBudgetIndex entries keepRecentTokens is accumulatedTokens
      | some message =>
          let accumulatedTokens := accumulatedTokens + estimateTokens message
          if keepRecentTokens ≤ accumulatedTokens then some i
          else findBudgetIndex entries keepRecentTokens is accumulatedTokens

/-- The loop that takes the entries before the cut that are neither messages nor compactions. -/
def includeMarkers (entries : List SessionTreeEntry) (startIndex : Nat) : Nat → Nat
  | 0 => 0
  | cutIndex + 1 =>
      if startIndex < cutIndex + 1 then
        match entries[cutIndex]? with
        | none => cutIndex + 1
        | some prevEntry =>
            if prevEntry.toCompaction.isSome ∨ prevEntry.toMessage.isSome then cutIndex + 1
            else includeMarkers entries startIndex cutIndex
      else cutIndex + 1

def findCutPoint (entries : List SessionTreeEntry) (startIndex endIndex keepRecentTokens : Nat) :
    CutPointResult :=
  match findValidCutPoints entries startIndex endIndex with
  | [] => { firstKeptEntryIndex := startIndex, turnStartIndex := none, isSplitTurn := false }
  | first :: rest =>
      let downwards := (List.range' startIndex (endIndex - startIndex)).reverse
      let cutIndex :=
        match findBudgetIndex entries keepRecentTokens downwards 0 with
        | none => first
        -- without a cut point from there on, the first one
        | some i => ((first :: rest).find? fun cutPoint => i ≤ cutPoint).getD first
      let cutIndex := includeMarkers entries startIndex cutIndex
      let isUserMessage := entries[cutIndex]?.any isUserMessage
      let turnStartIndex :=
        if isUserMessage then none else findTurnStartIndex entries cutIndex startIndex
      { firstKeptEntryIndex := cutIndex, turnStartIndex,
        isSplitTurn := !isUserMessage && turnStartIndex.isSome }

/-! ## Preparation -/

inductive CompactionErrorCode
  | aborted
  | summarizationFailed
  | invalidSession
  | unknown
  deriving DecidableEq

structure CompactionError where
  code : CompactionErrorCode
  message : String

def noUuid : CompactionError :=
  ⟨.invalidSession, "First kept entry has no UUID - session may need migration"⟩

def getMessageFromEntry (entry : SessionTreeEntry) : Option AgentMessage :=
  match entry.body with
  | .message message => some message
  | .customMessage customType content display details =>
      some (.custom ⟨customType, content, display, details, entry.timestamp⟩)
  | .branchSummary fromId summary _ _ =>
      some (.branchSummary ⟨summary, fromId, entry.timestamp⟩)
  | .compaction summary _ tokensBefore _ _ =>
      some (.compactionSummary ⟨summary, tokensBefore, entry.timestamp⟩)
  | _ => none

def getMessageFromEntryForCompaction (entry : SessionTreeEntry) : Option AgentMessage :=
  if entry.toCompaction.isSome then none else getMessageFromEntry entry

structure CompactionPreparation where
  firstKeptEntryId : String
  messagesToSummarize : List AgentMessage
  turnPrefixMessages : List AgentMessage
  isSplitTurn : Bool
  tokensBefore : Nat
  previousSummary : Option String
  fileOps : FileOperations
  settings : CompactionSettings

def extractFileOperations (messages : List AgentMessage) (prevCompaction : Option CompactionEntry) :
    FileOperations :=
  let fileOps := match prevCompaction with
    | none => createFileOps
    | some prevCompaction =>
        if prevCompaction.fromHook = some true then createFileOps
        else addDetails createFileOps prevCompaction.details
  extractAll fileOps messages

/-- The loops of `prepareCompaction` that collect messages. -/
def messagesBetween (entries : List SessionTreeEntry) (start stop : Nat) : List AgentMessage :=
  ((entries.take stop).drop start).filterMap getMessageFromEntryForCompaction

/-- The last compaction of a path, with its index. -/
def findPrevCompaction (pathEntries : List SessionTreeEntry) : Option (Nat × CompactionEntry) :=
  (List.range pathEntries.length).reverse.findSome? fun i =>
    (pathEntries[i]?.bind SessionTreeEntry.toCompaction).map fun compaction => (i, compaction)

/-- Where the entries begin that were not summarised yet. -/
def boundaryStart (pathEntries : List SessionTreeEntry) : Nat :=
  match findPrevCompaction pathEntries with
  | none => 0
  | some (prevCompactionIndex, prevCompaction) =>
      (pathEntries.findIdx? fun entry => entry.id = prevCompaction.firstKeptEntryId).getD
        (prevCompactionIndex + 1)

def prepareCompaction (pathEntries : List SessionTreeEntry) (settings : CompactionSettings) :
    Except CompactionError (Option CompactionPreparation) :=
  if pathEntries.getLast?.all fun entry => entry.toCompaction.isSome then .ok none
  else
    let prevCompaction := (findPrevCompaction pathEntries).map Prod.snd
    let start := boundaryStart pathEntries
    let tokensBefore := (estimateContextTokens (buildSessionContext pathEntries).messages).tokens
    let cutPoint := findCutPoint pathEntries start pathEntries.length settings.keepRecentTokens
    match pathEntries[cutPoint.firstKeptEntryIndex]? with
    | none => .error noUuid
    | some firstKeptEntry =>
        if firstKeptEntry.id = "" then .error noUuid
        else
          let historyEnd :=
            if cutPoint.isSplitTurn then cutPoint.turnStartIndex.getD 0
            else cutPoint.firstKeptEntryIndex
          let messagesToSummarize := messagesBetween pathEntries start historyEnd
          let turnPrefixMessages :=
            if cutPoint.isSplitTurn then
              messagesBetween pathEntries historyEnd cutPoint.firstKeptEntryIndex
            else []
          .ok (some
            { firstKeptEntryId := firstKeptEntry.id
              messagesToSummarize
              turnPrefixMessages
              isSplitTurn := cutPoint.isSplitTurn
              tokensBefore
              previousSummary := prevCompaction.map CompactionEntry.summary
              fileOps := extractAll (extractFileOperations messagesToSummarize prevCompaction)
                turnPrefixMessages
              settings })

/-! ## Where a cut lies -/

/-- The messages that a summary of these entries is made from. -/
def entryMessages (entries : List SessionTreeEntry) : List AgentMessage :=
  entries.filterMap getMessageFromEntryForCompaction

theorem entryMessages_append (entries entries' : List SessionTreeEntry) :
    entryMessages (entries ++ entries') = entryMessages entries ++ entryMessages entries' :=
  List.filterMap_append

theorem message_of_isCutPoint {entry : SessionTreeEntry} (isCutPoint : entry.isCutPoint = true) :
    ∃ message, getMessageFromEntryForCompaction entry = some message ∧
      message.isToolResult = false := by
  unfold SessionTreeEntry.isCutPoint at isCutPoint
  unfold getMessageFromEntryForCompaction SessionTreeEntry.toCompaction getMessageFromEntry
  cases isBody : entry.body with
  | message message =>
      rw [isBody] at isCutPoint
      cases message with
      | toolResult => cases isCutPoint
      | _ => exact ⟨_, rfl, rfl⟩
  | branchSummary => exact ⟨_, rfl, rfl⟩
  | customMessage => exact ⟨_, rfl, rfl⟩
  | _ =>
      rw [isBody] at isCutPoint
      cases isCutPoint

theorem not_isToolResult_of_marker {entry : SessionTreeEntry} (noMessage : entry.toMessage = none)
    {message : AgentMessage} (given : getMessageFromEntryForCompaction entry = some message) :
    message.isToolResult = false := by
  unfold SessionTreeEntry.toMessage at noMessage
  unfold getMessageFromEntryForCompaction SessionTreeEntry.toCompaction getMessageFromEntry at given
  cases isBody : entry.body with
  | message message =>
      rw [isBody] at noMessage
      cases noMessage
  | branchSummary =>
      rw [isBody] at given
      cases given
      rfl
  | customMessage =>
      rw [isBody] at given
      cases given
      rfl
  | _ =>
      rw [isBody] at given
      cases given

theorem opens_of_split {between rest : List SessionTreeEntry} {entry : SessionTreeEntry}
    (markers : ∀ e ∈ between, e.toMessage = none) (isCutPoint : entry.isCutPoint = true) :
    Opens (entryMessages (between ++ entry :: rest)) := by
  induction between with
  | nil =>
      obtain ⟨message, given, noResult⟩ := message_of_isCutPoint isCutPoint
      exact ⟨message, entryMessages rest, List.filterMap_cons_some given, noResult⟩
  | cons marker between ih =>
      rw [List.forall_mem_cons] at markers
      cases given : getMessageFromEntryForCompaction marker with
      | none =>
          rw [entryMessages, List.cons_append, List.filterMap_cons_none given]
          exact ih markers.2
      | some message =>
          rw [entryMessages, List.cons_append, List.filterMap_cons_some given]
          exact ⟨message, _, rfl, not_isToolResult_of_marker markers.1 given⟩

theorem mem_findValidCutPoints {entries : List SessionTreeEntry} {startIndex endIndex i : Nat} :
    i ∈ findValidCutPoints entries startIndex endIndex ↔ (startIndex ≤ i ∧ i < endIndex) ∧
      ∃ entry, entries[i]? = some entry ∧ entry.isCutPoint = true := by
  rw [findValidCutPoints, List.mem_filter, List.mem_range'_1, Option.any_eq_true]
  refine and_congr_left fun _ => ?_
  omega

theorem includeMarkers_law (entries : List SessionTreeEntry) {startIndex : Nat} :
    ∀ {cutIndex : Nat}, startIndex ≤ cutIndex → cutIndex < entries.length →
      startIndex ≤ includeMarkers entries startIndex cutIndex ∧
        includeMarkers entries startIndex cutIndex ≤ cutIndex ∧
        ∃ between, entries.drop (includeMarkers entries startIndex cutIndex) =
          between ++ entries.drop cutIndex ∧ ∀ e ∈ between, e.toMessage = none
  | 0, _, _ => ⟨by omega, by rfl, [], rfl, by simp⟩
  | cutIndex + 1, first, inside => by
      have stays : startIndex ≤ cutIndex + 1 ∧ cutIndex + 1 ≤ cutIndex + 1 ∧
          ∃ between, entries.drop (cutIndex + 1) = between ++ entries.drop (cutIndex + 1) ∧
            ∀ e ∈ between, e.toMessage = none := ⟨first, Nat.le_refl _, [], rfl, by simp⟩
      unfold includeMarkers
      split
      · rename_i above
        have before : cutIndex < entries.length := by omega
        rw [List.getElem?_eq_getElem before]
        dsimp only
        split
        · exact stays
        · rename_i marker
          obtain ⟨lower, upper, between, split, markers⟩ :=
            @includeMarkers_law entries startIndex cutIndex (by omega) before
          refine ⟨lower, by omega, between ++ [entries[cutIndex]], ?_, ?_⟩
          · rw [split, List.drop_eq_getElem_cons before, List.append_assoc]
            rfl
          · intro e there
            rcases List.mem_append.mp there with old | new
            · exact markers e old
            · rw [List.mem_singleton.mp new]
              rw [not_or] at marker
              simpa using marker.2
      · exact stays

theorem findTurnStartIndex_law {entries : List SessionTreeEntry} {entryIndex startIndex t : Nat}
    (found : findTurnStartIndex entries entryIndex startIndex = some t) :
    startIndex ≤ t ∧ t ≤ entryIndex := by
  have there := List.mem_of_find?_eq_some found
  rw [List.mem_reverse, List.mem_range'_1] at there
  omega

/-- What is known of a cut: it lies behind the start, a turn that it splits begins before it, and
what is kept does not begin with a tool result, unless all is kept. -/
structure Cut (entries : List SessionTreeEntry) (startIndex : Nat) (cut : CutPointResult) :
    Prop where
  first : startIndex ≤ cut.firstKeptEntryIndex
  inside : cut.firstKeptEntryIndex < entries.length
  turn : ∀ t, cut.turnStartIndex = some t → startIndex ≤ t ∧ t ≤ cut.firstKeptEntryIndex
  split : cut.isSplitTurn = cut.turnStartIndex.isSome
  opens : cut.firstKeptEntryIndex = startIndex ∨
    Opens (entryMessages (entries.drop cut.firstKeptEntryIndex))

theorem findCutPoint_cut {entries : List SessionTreeEntry} {startIndex : Nat}
    (nonempty : startIndex < entries.length) (keepRecentTokens : Nat) :
    Cut entries startIndex
      (findCutPoint entries startIndex entries.length keepRecentTokens) := by
  unfold findCutPoint
  split
  · exact ⟨Nat.le_refl _, nonempty, fun t isTurn => (by cases isTurn), rfl, Or.inl rfl⟩
  · rename_i first rest isCutPoints
    -- whichever cut point is taken, it is one
    obtain ⟨cutIndex, isChosen, isCut⟩ : ∃ cutIndex,
        (match findBudgetIndex entries keepRecentTokens
            (List.range' startIndex (entries.length - startIndex)).reverse 0 with
          | none => first
          | some i => ((first :: rest).find? fun cutPoint => i ≤ cutPoint).getD first) =
            cutIndex ∧ cutIndex ∈ findValidCutPoints entries startIndex entries.length := by
      refine ⟨_, rfl, ?_⟩
      rw [isCutPoints]
      split
      · exact List.mem_cons_self
      · rename_i i _
        cases found : (first :: rest).find? fun cutPoint => i ≤ cutPoint with
        | none => exact List.mem_cons_self
        | some cutPoint => exact List.mem_of_find?_eq_some found
    dsimp only
    rw [isChosen]
    obtain ⟨⟨lower, upper⟩, entry, isEntry, isCutPoint⟩ := mem_findValidCutPoints.mp isCut
    obtain ⟨above, below, between, markers, noMessages⟩ :=
      includeMarkers_law entries lower upper
    refine ⟨above, Nat.lt_of_le_of_lt below upper, fun t isTurn => ?_, ?_, Or.inr ?_⟩
    · dsimp only at isTurn
      split at isTurn
      · cases isTurn
      · exact findTurnStartIndex_law isTurn
    · dsimp only
      split
      · rename_i isUser
        simp [isUser]
      · rename_i notUser
        simp [notUser]
    · dsimp only
      rw [List.getElem?_eq_getElem upper] at isEntry
      cases isEntry
      rw [markers, List.drop_eq_getElem_cons upper]
      exact opens_of_split noMessages isCutPoint

/-! ## What a preparation divides -/

theorem findPrevCompaction_concat (path : List SessionTreeEntry) (entry : SessionTreeEntry) :
    findPrevCompaction (path ++ [entry]) =
      match entry.toCompaction with
      | some compaction => some (path.length, compaction)
      | none => findPrevCompaction path := by
  have older : ∀ i ∈ (List.range path.length).reverse,
      (((path ++ [entry])[i]?.bind SessionTreeEntry.toCompaction).map fun compaction =>
        (i, compaction)) =
      (path[i]?.bind SessionTreeEntry.toCompaction).map fun compaction => (i, compaction) := by
    intro i there
    rw [List.mem_reverse, List.mem_range] at there
    rw [List.getElem?_append_left there]
  rw [findPrevCompaction, List.length_append, List.length_singleton, List.range_succ,
    List.reverse_append, List.reverse_singleton, List.singleton_append, List.findSome?_cons,
    List.getElem?_concat_length]
  cases isCompaction : entry.toCompaction with
  | some compaction => simp [isCompaction]
  | none =>
      simp only [Option.bind_some, isCompaction, Option.map_none]
      rw [← List.head?_filterMap, List.filterMap_congr older, List.head?_filterMap]
      rfl

theorem findPrevCompaction_some {path : List SessionTreeEntry} {i : Nat}
    {compaction : CompactionEntry} (found : findPrevCompaction path = some (i, compaction)) :
    ∃ entry, path[i]? = some entry ∧ entry.toCompaction = some compaction := by
  obtain ⟨j, -, isCompaction⟩ := List.exists_of_findSome?_eq_some found
  rw [Option.map_eq_some_iff] at isCompaction
  obtain ⟨compaction', isCompaction, same⟩ := isCompaction
  cases same
  exact Option.bind_eq_some_iff.mp isCompaction

theorem boundaryStart_lt {path : List SessionTreeEntry}
    (open' : (path.getLast?.all fun entry => entry.toCompaction.isSome) = false) :
    boundaryStart path < path.length := by
  obtain ⟨last, isLast, noCompaction⟩ : ∃ last, path.getLast? = some last ∧
      last.toCompaction = none := by
    cases isLast : path.getLast? with
    | none =>
        rw [isLast] at open'
        cases open'
    | some last =>
        rw [isLast] at open'
        exact ⟨last, rfl, by simpa using open'⟩
  have nonempty : 0 < path.length :=
    List.length_pos_of_mem (List.mem_of_getLast? isLast)
  unfold boundaryStart
  cases found : findPrevCompaction path with
  | none => exact nonempty
  | some found' =>
      obtain ⟨i, compaction⟩ := found'
      dsimp only
      cases index : path.findIdx? fun entry => entry.id = compaction.firstKeptEntryId with
      | some j =>
          obtain ⟨inside, -⟩ := List.findIdx?_eq_some_iff_findIdx_eq.mp index
          exact inside
      | none =>
          obtain ⟨entry, isEntry, isCompaction⟩ := findPrevCompaction_some found
          obtain ⟨inside, isEntry⟩ := List.getElem?_eq_some_iff.mp isEntry
          rw [Option.getD_none]
          refine Nat.lt_of_le_of_ne inside fun atEnd => ?_
          -- the compaction would be the last entry
          have same : path[i] = last := by
            rw [List.getLast?_eq_getElem?] at isLast
            have index' : path.length - 1 = i := by omega
            rw [index', List.getElem?_eq_getElem inside] at isLast
            exact Option.some.inj isLast
          rw [← isEntry, same, noCompaction] at isCompaction
          cases isCompaction

theorem messagesBetween_append {entries : List SessionTreeEntry} {start stop : Nat}
    (order : start ≤ stop) :
    messagesBetween entries start stop ++ entryMessages (entries.drop stop) =
      entryMessages (entries.drop start) := by
  rw [messagesBetween, entryMessages, entryMessages, ← List.filterMap_append]
  congr 1
  conv_rhs => rw [← List.take_append_drop stop entries, List.drop_append]
  congr 1
  rcases Nat.le_total stop entries.length with inside | outside
  · rw [List.length_take_of_le inside, Nat.sub_eq_zero_of_le order, List.drop_zero]
  · rw [List.drop_of_length_le outside, List.drop_nil]

/-- The messages that a preparation takes into summaries. -/
def CompactionPreparation.summarized (p : CompactionPreparation) : List AgentMessage :=
  p.messagesToSummarize ++ p.turnPrefixMessages

/-- A preparation cuts the entries that were not summarised before at an entry with a name: the
messages before the cut are summarised, and the rest stays. -/
theorem prepareCompaction_divides {path : List SessionTreeEntry} {settings : CompactionSettings}
    {p : CompactionPreparation} (prepared : prepareCompaction path settings = .ok (some p)) :
    ∃ k entry rest, boundaryStart path ≤ k ∧ path.drop k = entry :: rest ∧
      entry.id = p.firstKeptEntryId ∧
      p.summarized ++ entryMessages (path.drop k) =
        entryMessages (path.drop (boundaryStart path)) ∧
      (k = boundaryStart path ∨ Opens (entryMessages (path.drop k))) := by
  unfold prepareCompaction at prepared
  split at prepared
  · cases prepared
  · rename_i open'
    have cut := findCutPoint_cut (boundaryStart_lt (by simpa using open'))
      settings.keepRecentTokens
    dsimp only at prepared
    generalize findCutPoint path (boundaryStart path) path.length settings.keepRecentTokens = r
      at prepared cut
    rw [List.getElem?_eq_getElem cut.inside] at prepared
    dsimp only at prepared
    split at prepared
    · cases prepared
    · cases prepared
      have inside := cut.inside
      refine ⟨r.firstKeptEntryIndex, path[r.firstKeptEntryIndex], _, cut.first,
        List.drop_eq_getElem_cons cut.inside, rfl, ?_, cut.opens⟩
      rw [CompactionPreparation.summarized]
      dsimp only
      rcases isSplit : r.isSplitTurn with - | -
      · rw [if_neg (by simp), if_neg (by simp), List.append_nil]
        exact messagesBetween_append cut.first
      · obtain ⟨t, isTurn⟩ := Option.isSome_iff_exists.mp (cut.split.symm.trans isSplit)
        obtain ⟨lower, upper⟩ := cut.turn t isTurn
        rw [if_pos rfl, if_pos rfl, isTurn, Option.getD_some, List.append_assoc,
          messagesBetween_append upper, messagesBetween_append lower]

theorem extractAll_append (fileOps : FileOperations) (messages messages' : List AgentMessage) :
    extractAll fileOps (messages ++ messages') =
      extractAll (extractAll fileOps messages) messages' := List.foldl_append

/-- The files are those of the last compaction and of the messages that are summarised. -/
theorem prepareCompaction_fileOps {path : List SessionTreeEntry} {settings : CompactionSettings}
    {p : CompactionPreparation} (prepared : prepareCompaction path settings = .ok (some p)) :
    p.fileOps = extractAll
      (extractFileOperations [] ((findPrevCompaction path).map Prod.snd)) p.summarized := by
  unfold prepareCompaction at prepared
  split at prepared
  · cases prepared
  · dsimp only at prepared
    split at prepared
    · cases prepared
    · split at prepared
      · cases prepared
      · cases prepared
        rw [CompactionPreparation.summarized, extractAll_append]
        rfl

end NestifyClaw.Agent
