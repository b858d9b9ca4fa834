import NestifyClaw.Agent.Compaction
import NestifyClaw.Agent.Session

/-!
# Branches with compactions

A branch that was compacted again and again.  `Summarized` says how it came to be: each of its
compactions was prepared on what was there before.  Then nothing is lost and nothing is summarised
twice, the context consists of the last summary and what has not been summarised (`Partition`), and
the files that the last compaction lists are those of all that was summarised.
-/

namespace NestifyClaw.Agent

open Concurrent

/-- A branch, with the preparations that its compactions were made from. -/
inductive Summarized : List SessionTreeEntry → List CompactionPreparation → Prop
  | nil : Summarized [] []
  | entry {path : List SessionTreeEntry} {ps : List CompactionPreparation}
      {last : SessionTreeEntry} (summarized : Summarized path ps)
      (plain : last.toCompaction = none) : Summarized (path ++ [last]) ps
  | compaction {path : List SessionTreeEntry} {ps : List CompactionPreparation}
      {last : SessionTreeEntry} {settings : CompactionSettings} {p : CompactionPreparation}
      {compaction : CompactionEntry} (summarized : Summarized path ps)
      (prepared : prepareCompaction path settings = .ok (some p))
      (isCompaction : last.toCompaction = some compaction)
      (firstKept : compaction.firstKeptEntryId = p.firstKeptEntryId)
      (details : compaction.details = some (computeFileLists p.fileOps).toDetails)
      (fromHook : compaction.fromHook = some false) : Summarized (path ++ [last]) (ps ++ [p])

/-- The entries that were not summarised. -/
def retained (path : List SessionTreeEntry) : List SessionTreeEntry := path.drop (boundaryStart path)

/-- The summary that stands for the other entries. -/
def summaryMessage (path : List SessionTreeEntry) : List AgentMessage :=
  ((findPrevCompaction path).map fun found => found.2.toMessage).toList

/-! ## The boundary -/

/-- The last compaction keeps an entry that is there. -/
def Anchored (path : List SessionTreeEntry) : Prop :=
  ∀ found, findPrevCompaction path = some found → found.2.firstKeptEntryId ∈ entryIds path

theorem boundaryStart_plain {path : List SessionTreeEntry} {last : SessionTreeEntry}
    (plain : last.toCompaction = none) (anchored : Anchored path) :
    boundaryStart (path ++ [last]) = boundaryStart path := by
  rw [boundaryStart, boundaryStart, findPrevCompaction_concat, plain]
  dsimp only
  cases found : findPrevCompaction path with
  | none => rfl
  | some found' =>
      obtain ⟨entry, there, named⟩ := mem_entryIds.mp (anchored found' found)
      have isSome : (path.findIdx? fun e => e.id = found'.2.firstKeptEntryId).isSome = true := by
        rw [List.findIdx?_isSome, List.any_eq_true]
        exact ⟨entry, there, by simpa using named⟩
      obtain ⟨j, isIndex⟩ := Option.isSome_iff_exists.mp isSome
      simp only [List.findIdx?_append, isIndex, Option.some_or]

theorem split_of_drop {path rest : List SessionTreeEntry} {entry : SessionTreeEntry} {k : Nat}
    (kept : path.drop k = entry :: rest) :
    path = path.take k ++ entry :: rest ∧ (path.take k).length = k := by
  refine ⟨by rw [← kept, List.take_append_drop], List.length_take_of_le ?_⟩
  have long := congrArg List.length kept
  rw [List.length_drop, List.length_cons] at long
  omega

theorem boundaryStart_compaction {path rest : List SessionTreeEntry} {last entry : SessionTreeEntry}
    {compaction : CompactionEntry} {k : Nat} (nodup : (entryIds path).Nodup)
    (isCompaction : last.toCompaction = some compaction) (kept : path.drop k = entry :: rest)
    (named : entry.id = compaction.firstKeptEntryId) : boundaryStart (path ++ [last]) = k := by
  obtain ⟨split, long⟩ := split_of_drop kept
  have index : path.findIdx? (fun e => e.id = compaction.firstKeptEntryId) = some k := by
    refine List.findIdx?_eq_some_iff_findIdx_eq.mpr ⟨?_, ?_⟩
    · have longer := congrArg List.length split
      rw [List.length_append, long, List.length_cons] at longer
      omega
    · rw [findIdx_of_split nodup split (by simpa using named) (by simp [named]), long]
  rw [boundaryStart, findPrevCompaction_concat, isCompaction]
  simp only [List.findIdx?_append, index, Option.some_or, Option.getD_some]

/-- From the first kept entry on: the loop of the context finds the same entries as the index. -/
theorem dropWhile_of_drop {path rest : List SessionTreeEntry} {entry : SessionTreeEntry} {k : Nat}
    (nodup : (entryIds path).Nodup) (kept : path.drop k = entry :: rest) :
    (path.dropWhile fun e => e.id ≠ entry.id) = path.drop k := by
  obtain ⟨split, long⟩ := split_of_drop kept
  rw [List.dropWhile_eq_drop_findIdx_not]
  congr 1
  rw [findIdx_of_split nodup split (by simp) (by simp), long]

/-! ## The partition -/

/-- The files of everything that was summarised, in one pass. -/
def filesOf (ps : List CompactionPreparation) : FileLists :=
  computeFileLists (extractAll createFileOps (ps.flatMap CompactionPreparation.summarized))

/-- What the compactions of a branch have made of its messages. -/
structure Partition (path : List SessionTreeEntry) (ps : List CompactionPreparation) : Prop where
  anchored : Anchored path
  conserved : ps.flatMap CompactionPreparation.summarized ++ entryMessages (retained path) =
    entryMessages path
  context : (buildSessionContext path).messages =
    summaryMessage path ++ (retained path).filterMap SessionTreeEntry.contextMessage
  fresh : findPrevCompaction path = none → ps = []
  listed : ∀ found, findPrevCompaction path = some found →
    found.2.details = some (filesOf ps).toDetails ∧ found.2.fromHook = some false

theorem boundaryStart_le (path : List SessionTreeEntry) : boundaryStart path ≤ path.length := by
  unfold boundaryStart
  cases found : findPrevCompaction path with
  | none => exact Nat.zero_le _
  | some found' =>
      dsimp only
      cases index : path.findIdx? fun e => e.id = found'.2.firstKeptEntryId with
      | some j => exact Nat.le_of_lt (List.findIdx?_eq_some_iff_findIdx_eq.mp index).1
      | none =>
          obtain ⟨entry, isEntry, -⟩ := findPrevCompaction_some found
          exact (List.getElem?_eq_some_iff.mp isEntry).1

theorem retained_plain {path : List SessionTreeEntry} {last : SessionTreeEntry}
    (plain : last.toCompaction = none) (anchored : Anchored path) :
    retained (path ++ [last]) = retained path ++ [last] := by
  rw [retained, retained, boundaryStart_plain plain anchored,
    List.drop_append_of_le_length (boundaryStart_le path)]

theorem Partition.plain {path : List SessionTreeEntry} {ps : List CompactionPreparation}
    {last : SessionTreeEntry} (partition : Partition path ps)
    (nodup : (entryIds (path ++ [last])).Nodup) (plain : last.toCompaction = none) :
    Partition (path ++ [last]) ps := by
  have same : findPrevCompaction (path ++ [last]) = findPrevCompaction path := by
    rw [findPrevCompaction_concat, plain]
  have stays := retained_plain plain partition.anchored
  refine ⟨fun found isFound => ?_, ?_, ?_, fun none => ?_, fun found isFound => ?_⟩
  · rw [same] at isFound
    rw [entryIds_concat]
    exact List.mem_append_left _ (partition.anchored found isFound)
  · rw [stays, entryMessages_append, entryMessages_append, ← partition.conserved,
      List.append_assoc]
  · rw [messages_concat nodup plain, partition.context, summaryMessage, summaryMessage, same, stays,
      List.filterMap_append, List.append_assoc]
    cases shown : last.contextMessage <;> simp [shown]
  · exact partition.fresh (same ▸ none)
  · exact partition.listed found (same ▸ isFound)

/-- The files that a preparation finds are those of everything that has been summarised then. -/
theorem Partition.fileOps {path : List SessionTreeEntry} {ps : List CompactionPreparation}
    (partition : Partition path ps) {settings : CompactionSettings} {p : CompactionPreparation}
    (prepared : prepareCompaction path settings = .ok (some p)) :
    computeFileLists p.fileOps = filesOf (ps ++ [p]) := by
  rw [prepareCompaction_fileOps prepared, filesOf, List.flatMap_append, List.flatMap_singleton,
    extractAll_append]
  cases found : findPrevCompaction path with
  | none =>
      rw [partition.fresh found]
      rfl
  | some found' =>
      obtain ⟨details, fromHook⟩ := partition.listed found' found
      rw [Option.map_some, extractFileOperations.eq_def]
      dsimp only
      rw [fromHook, if_neg (by simp), details]
      exact computeFileLists_resume (named_extractAll named_createFileOps _) _

theorem Partition.compaction {path : List SessionTreeEntry} {ps : List CompactionPreparation}
    {last : SessionTreeEntry} {settings : CompactionSettings} {p : CompactionPreparation}
    {compaction : CompactionEntry} (partition : Partition path ps)
    (nodup : (entryIds (path ++ [last])).Nodup)
    (prepared : prepareCompaction path settings = .ok (some p))
    (isCompaction : last.toCompaction = some compaction)
    (firstKept : compaction.firstKeptEntryId = p.firstKeptEntryId)
    (details : compaction.details = some (computeFileLists p.fileOps).toDetails)
    (fromHook : compaction.fromHook = some false) : Partition (path ++ [last]) (ps ++ [p]) := by
  have nodupPath : (entryIds path).Nodup := by
    rw [entryIds_concat, List.nodup_append] at nodup
    exact nodup.1
  obtain ⟨k, entry, rest, lower, kept, named, divided, -⟩ := prepareCompaction_divides prepared
  have named' : entry.id = compaction.firstKeptEntryId := named.trans firstKept.symm
  have same : findPrevCompaction (path ++ [last]) = some (path.length, compaction) := by
    rw [findPrevCompaction_concat, isCompaction]
  have inside : k ≤ path.length := by
    obtain ⟨split, long⟩ := split_of_drop kept
    have longer := congrArg List.length split
    rw [List.length_append, long] at longer
    omega
  have stays : retained (path ++ [last]) = path.drop k ++ [last] := by
    rw [retained, boundaryStart_compaction nodupPath isCompaction kept named',
      List.drop_append_of_le_length inside]
  have silent : getMessageFromEntryForCompaction last = none := by
    rw [getMessageFromEntryForCompaction, isCompaction]
    rfl
  refine ⟨fun found isFound => ?_, ?_, ?_, fun none => ?_, fun found isFound => ?_⟩
  · rw [same] at isFound
    cases isFound
    refine mem_entryIds.mpr ⟨entry, List.mem_append_left _ ?_, named'⟩
    rw [(split_of_drop kept).1]
    exact List.mem_append_right _ List.mem_cons_self
  · have old : entryMessages [last] = [] := List.filterMap_cons_none silent
    rw [stays, entryMessages_append, entryMessages_append, old, List.append_nil, List.append_nil,
      List.flatMap_append, List.flatMap_singleton, List.append_assoc, divided]
    exact partition.conserved
  · have last' : [last].filterMap SessionTreeEntry.contextMessage = [] :=
      List.filterMap_cons_none (contextMessage_of_compaction isCompaction)
    rw [messages_compaction nodup isCompaction, ← named', dropWhile_of_drop nodupPath kept, stays,
      List.filterMap_append, last', List.append_nil, summaryMessage, same]
    rfl
  · rw [same] at none
    cases none
  · rw [same] at isFound
    cases isFound
    exact ⟨details.trans (by rw [partition.fileOps prepared]), fromHook⟩

/-- However often a branch was compacted, its messages are divided between the summaries and the
context. -/
theorem Summarized.partition {path : List SessionTreeEntry} {ps : List CompactionPreparation}
    (summarized : Summarized path ps) (nodup : (entryIds path).Nodup) : Partition path ps := by
  induction summarized with
  | nil =>
      exact ⟨fun found isFound => (by cases isFound), rfl, rfl, fun _ => rfl,
        fun found isFound => (by cases isFound)⟩
  | entry summarized plain ih =>
      refine (ih ?_).plain nodup plain
      rw [entryIds_concat, List.nodup_append] at nodup
      exact nodup.1
  | compaction summarized prepared isCompaction firstKept details fromHook ih =>
      refine (ih ?_).compaction nodup prepared isCompaction firstKept details fromHook
      rw [entryIds_concat, List.nodup_append] at nodup
      exact nodup.1

/-! ## Tool results -/

/-- An entry adds to the context what a summary takes from it, or is a summary without a text. -/
theorem contextMessage_or (entry : SessionTreeEntry) :
    entry.contextMessage = getMessageFromEntryForCompaction entry ∨
      entry.contextMessage = none ∧ ∃ message : AgentMessage,
        getMessageFromEntryForCompaction entry = some message ∧ message.isAssistant = false ∧
          message.isToolResult = false := by
  unfold SessionTreeEntry.contextMessage getMessageFromEntryForCompaction
    SessionTreeEntry.toCompaction getMessageFromEntry
  cases isBody : entry.body with
  | branchSummary fromId summary details fromHook =>
      dsimp only
      split
      · exact Or.inr ⟨rfl, _, rfl, rfl, rfl⟩
      · exact Or.inl rfl
  | _ => exact Or.inl rfl

/-- The context is paired where the messages are. -/
theorem walk_context {entries : List SessionTreeEntry} {asked asked' q : Option AssistantMessage}
    (walk : Walk Exchange asked (entryMessages entries) q)
    (fewer : asked = none ∨ asked = asked') :
    ∃ q', Walk Exchange asked' (entries.filterMap SessionTreeEntry.contextMessage) q' := by
  induction entries generalizing asked asked' with
  | nil => exact ⟨asked', .nil⟩
  | cons entry entries ih =>
      rcases contextMessage_or entry with same | ⟨hidden, message, given, noAnswer, noResult⟩
      · cases given : getMessageFromEntryForCompaction entry with
        | none =>
            rw [entryMessages, List.filterMap_cons_none given] at walk
            rw [List.filterMap_cons_none (same.trans given)]
            exact ih walk fewer
        | some message =>
            rw [entryMessages, List.filterMap_cons_some given] at walk
            rw [List.filterMap_cons_some (same.trans given)]
            cases walk with
            | @cons _ asked'' _ _ _ step rest =>
                obtain ⟨q', walk'⟩ := ih rest (Or.inr rfl)
                exact ⟨q', .cons (step.mono fewer) walk'⟩
      · rw [entryMessages, List.filterMap_cons_some given] at walk
        rw [List.filterMap_cons_none hidden]
        cases walk with
        | cons step rest =>
            refine ih rest (Or.inl ?_)
            exact step.unique (.other noAnswer noResult)

/-- A branch whose tool results stand behind their calls keeps them there, however it is cut. -/
theorem Summarized.retained_paired {path : List SessionTreeEntry}
    {ps : List CompactionPreparation} (summarized : Summarized path ps)
    (nodup : (entryIds path).Nodup) (paired : Paired (entryMessages path)) :
    Paired (entryMessages (retained path)) ∧
      (entryMessages (retained path) = [] → entryMessages path = []) := by
  induction summarized with
  | nil => exact ⟨.nil, fun _ => rfl⟩
  | @entry path ps last summarized plain ih =>
      rw [entryIds_concat, List.nodup_append] at nodup
      have partition := summarized.partition nodup.1
      rw [entryMessages_append] at paired
      obtain ⟨kept, empty⟩ := ih nodup.1 paired.left
      rw [retained_plain plain partition.anchored, entryMessages_append, entryMessages_append]
      cases given : getMessageFromEntryForCompaction last with
      | none =>
          rw [entryMessages, entryMessages, entryMessages, List.filterMap_cons_none given,
            List.filterMap_nil, List.append_nil, List.append_nil]
          exact ⟨kept, empty⟩
      | some message =>
          have added : entryMessages [last] = [message] := List.filterMap_cons_some given
          rw [added] at paired ⊢
          rw [← partition.conserved] at paired empty
          exact ⟨paired.extend kept fun none => (List.append_eq_nil_iff.mp (empty none)).1,
            fun none => by simp at none⟩
  | @compaction path ps last settings p compaction summarized prepared isCompaction firstKept details
      fromHook ih =>
      rw [entryIds_concat, List.nodup_append] at nodup
      have partition := summarized.partition nodup.1
      obtain ⟨k, entry, rest, lower, kept, named, divided, opens⟩ :=
        prepareCompaction_divides prepared
      have stays : retained (path ++ [last]) = path.drop k ++ [last] := by
        rw [retained, boundaryStart_compaction nodup.1 isCompaction kept
          (named.trans firstKept.symm), List.drop_append_of_le_length]
        have long := (split_of_drop kept).2
        rw [List.length_take] at long
        omega
      have silent : entryMessages [last] = [] := by
        refine List.filterMap_cons_none ?_
        rw [getMessageFromEntryForCompaction, isCompaction]
        rfl
      rw [entryMessages_append, silent, List.append_nil] at paired
      obtain ⟨before, empty⟩ := ih nodup.1 paired
      rw [stays, entryMessages_append, entryMessages_append, silent, List.append_nil,
        List.append_nil]
      rcases opens with rfl | opens
      · exact ⟨before, empty⟩
      · refine ⟨?_, fun none => ?_⟩
        · have whole := before
          rw [retained, ← divided] at whole
          exact whole.cut opens
        · obtain ⟨message, rest, isFirst, -⟩ := opens
          rw [none] at isFirst
          cases isFirst

/-- What the model is given of a branch is paired if the branch is. -/
theorem Summarized.context_paired {path : List SessionTreeEntry}
    {ps : List CompactionPreparation} (summarized : Summarized path ps)
    (nodup : (entryIds path).Nodup) (paired : Paired (entryMessages path)) :
    Paired (buildSessionContext path).messages := by
  rw [(summarized.partition nodup).context]
  refine Paired.append (paired_of_noResults fun message there => ?_) ?_
  · rw [summaryMessage, Option.mem_toList, Option.map_eq_some_iff] at there
    obtain ⟨found, -, rfl⟩ := there
    rfl
  · obtain ⟨q, walk⟩ := (summarized.retained_paired nodup paired).1
    exact walk_context walk (Or.inl rfl)

end NestifyClaw.Agent
