import NestifyClaw.Agent.Compaction
import NestifyClaw.Agent.Session

/-!
# Leaving a branch

What is summarised when a session moves to another branch: the entries that are not on the path to
the entry that it moves to (`reached_collectEntries`), and of their messages the last ones, up to
the one with which a token budget would be exceeded (`prepareBranchEntries_budget`).
-/

namespace NestifyClaw.Agent

structure CollectEntriesResult where
  entries : List SessionTreeEntry
  commonAncestorId : Option String

def collectEntriesForBranchSummaryFromBranches (oldBranch targetBranch : List SessionTreeEntry) :
    CollectEntriesResult :=
  let commonAncestorId := (targetBranch.reverse.find? fun entry =>
    (oldBranch.map SessionTreeEntry.id).contains entry.id).map SessionTreeEntry.id
  let firstSummarizedIndex := match commonAncestorId with
    | none => 0
    | some commonAncestorId =>
        match oldBranch.findIdx? fun entry => entry.id = commonAncestorId with
        | none => 0
        | some index => index + 1
  { entries := oldBranch.drop firstSummarizedIndex, commonAncestorId }

def collectEntriesForBranchSummary (session : Session) (oldLeafId : Option String)
    (targetId : String) : Option (Except SessionError CollectEntriesResult) :=
  match oldLeafId with
  | none => some (.ok ⟨[], none⟩)
  | some oldLeafId =>
      if oldLeafId = "" then some (.ok ⟨[], none⟩)
      else
        (session.getBranch (some oldLeafId)).bind fun
          | .error error => some (.error error)
          | .ok oldBranch => (session.getBranch (some targetId)).map fun
              | .error error => .error error
              | .ok targetBranch =>
                  .ok (collectEntriesForBranchSummaryFromBranches oldBranch targetBranch)

namespace BranchSummarization

/-- Tool results are left out. -/
def getMessageFromEntry (entry : SessionTreeEntry) : Option AgentMessage :=
  match entry.body with
  | .message (.toolResult _) => none
  | .message message => some message
  | .customMessage customType content display details =>
      some (.custom ⟨customType, content, display, details, entry.timestamp⟩)
  | .branchSummary fromId summary _ _ =>
      some (.branchSummary ⟨summary, fromId, entry.timestamp⟩)
  | .compaction summary _ tokensBefore _ _ =>
      some (.compactionSummary ⟨summary, tokensBefore, entry.timestamp⟩)
  | _ => none

end BranchSummarization

structure BranchPreparation where
  messages : List AgentMessage
  fileOps : FileOperations
  totalTokens : Nat

/-- The files that the summaries on the branch have listed. -/
def summaryFiles (entries : List SessionTreeEntry) : FileOperations :=
  entries.foldl (fun fileOps entry => match entry.body with
    | .branchSummary _ _ details fromHook =>
        if fromHook = some true then fileOps else addDetails fileOps details
    | _ => fileOps) createFileOps

def SessionTreeEntry.isSummary (entry : SessionTreeEntry) : Bool :=
  match entry.body with
  | .compaction .. => true
  | .branchSummary .. => true
  | _ => false

def BranchPreparation.unshift (p : BranchPreparation) (message : AgentMessage) :
    BranchPreparation :=
  { p with messages := message :: p.messages, totalTokens := p.totalTokens + estimateTokens message }

/-- The loop of `prepareBranchEntries`, down from the last entry. -/
def takeEntries (tokenBudget : Int) :
    List SessionTreeEntry → BranchPreparation → BranchPreparation
  | [], p => p
  | entry :: older, p =>
      match BranchSummarization.getMessageFromEntry entry with
      | none => takeEntries tokenBudget older p
      | some message =>
          let p := { p with fileOps := extractFileOpsFromMessage p.fileOps message }
          if 0 < tokenBudget ∧ tokenBudget < p.totalTokens + estimateTokens message then
            -- a summary may still go in while less than nine tenths are used
            if entry.isSummary = true ∧ (10 * p.totalTokens : Int) < 9 * tokenBudget then
              p.unshift message
            else p
          else takeEntries tokenBudget older (p.unshift message)

def prepareBranchEntries (entries : List SessionTreeEntry) (tokenBudget : Int) : BranchPreparation :=
  takeEntries tokenBudget entries.reverse ⟨[], summaryFiles entries, 0⟩

/-! ## The entries that are left -/

/-- Two branches that part behind what they have in common. -/
structure Fork (common own own' : List SessionTreeEntry) : Prop where
  nodup : (entryIds (common ++ own)).Nodup
  nodup' : (entryIds (common ++ own')).Nodup
  apart : ∀ e ∈ own, ∀ e' ∈ own', e.id ≠ e'.id

theorem Fork.not_shared {common own own' : List SessionTreeEntry} (fork : Fork common own own')
    {entry : SessionTreeEntry} (there : entry ∈ own') :
    entry.id ∉ (common ++ own).map SessionTreeEntry.id := by
  intro shared
  obtain ⟨e, here, same⟩ := List.mem_map.mp shared
  rcases List.mem_append.mp here with inCommon | inOwn
  · have nodup := fork.nodup'
    rw [entryIds, Links.ids_append, List.nodup_append] at nodup
    exact nodup.2.2 _ (mem_entryIds.mpr ⟨e, inCommon, rfl⟩) _
      (mem_entryIds.mpr ⟨entry, there, rfl⟩) same
  · exact fork.apart e inOwn entry there same

theorem Fork.commonAncestor {common own own' : List SessionTreeEntry}
    (fork : Fork common own own') :
    ((common ++ own').reverse.find? fun entry =>
      ((common ++ own).map SessionTreeEntry.id).contains entry.id) = common.getLast? := by
  have none : (own'.reverse.find? fun entry =>
      ((common ++ own).map SessionTreeEntry.id).contains entry.id) = Option.none := by
    rw [List.find?_eq_none]
    intro entry there
    simpa using fork.not_shared (List.mem_reverse.mp there)
  rw [List.reverse_append, List.find?_append, none, Option.none_or]
  rcases List.eq_nil_or_concat common with rfl | ⟨front, last, rfl⟩
  · rfl
  · rw [List.concat_eq_append, List.reverse_concat, List.getLast?_concat,
      List.find?_cons_of_pos (by simp)]

/-- What is collected is what the old branch has for itself. -/
theorem Fork.collect {common own own' : List SessionTreeEntry} (fork : Fork common own own') :
    collectEntriesForBranchSummaryFromBranches (common ++ own) (common ++ own') =
      ⟨own, common.getLast?.map SessionTreeEntry.id⟩ := by
  rw [collectEntriesForBranchSummaryFromBranches, fork.commonAncestor]
  rcases List.eq_nil_or_concat common with rfl | ⟨front, last, rfl⟩
  · rfl
  · have split : front.concat last ++ own = front ++ last :: own := by simp
    have index : (front.concat last ++ own).findIdx? (fun entry => entry.id = last.id) =
        some front.length := by
      refine List.findIdx?_eq_some_iff_findIdx_eq.mpr ⟨?_, ?_⟩
      · rw [split, List.length_append, List.length_cons]
        omega
      · exact findIdx_of_split fork.nodup split (by simp) (by simp)
    simp only [List.concat_eq_append, List.getLast?_concat, Option.map_some] at index ⊢
    rw [index]
    simp

namespace Session

variable {draws : Nat → Draw} {limit : Nat} {requests : List (Timestamp × SessionRequest)}

/-- After any requests, moving from one entry to another leaves the entries that are on the path to
the one and not on the path to the other. -/
theorem reached_collectEntries (fits : Fits draws limit) (room : 202 * requests.length ≤ limit)
    {oldLeafId targetId : String}
    (known : oldLeafId ∈ entryIds (reached draws requests).storage.entries)
    (known' : targetId ∈ entryIds (reached draws requests).storage.entries) :
    ∃ common own own',
      (reached draws requests).getBranch (some oldLeafId) = some (.ok (common ++ own)) ∧
      (reached draws requests).getBranch (some targetId) = some (.ok (common ++ own')) ∧
      (∀ e ∈ own, ∀ e' ∈ own', e.id ≠ e'.id) ∧
      collectEntriesForBranchSummary (reached draws requests) (some oldLeafId) targetId =
        some (.ok ⟨own, common.getLast?.map SessionTreeEntry.id⟩) := by
  have kept := (reached_sound fits room).1.kept
  have named : oldLeafId ≠ "" := fun same => kept.grown.named (same ▸ known)
  obtain ⟨common, own, own', old, target, apart⟩ := kept.grown.rooted.fork oldLeafId targetId
  have branch : (reached draws requests).getBranch (some oldLeafId) = some (.ok (common ++ own)) := by
    rw [← old]
    exact kept.getPathToRoot fun k same => Option.some.inj same ▸ known
  have branch' : (reached draws requests).getBranch (some targetId) =
      some (.ok (common ++ own')) := by
    rw [← target]
    exact kept.getPathToRoot fun k same => Option.some.inj same ▸ known'
  have fork : Fork common own own' := by
    refine ⟨?_, ?_, apart⟩
    · rw [← old]
      exact kept.grown.rooted.nodup_lineage
    · rw [← target]
      exact kept.grown.rooted.nodup_lineage
  refine ⟨common, own, own', branch, branch', apart, ?_⟩
  rw [collectEntriesForBranchSummary, if_neg named, branch, Option.bind_some, branch']
  exact congrArg (some ∘ Except.ok) fork.collect

theorem reached_collectEntries_backAndForth : ∃ common own own' : List SessionTreeEntry,
    (reached ticking backAndForth).getBranch (some "00000001") = some (.ok (common ++ own)) ∧
      collectEntriesForBranchSummary (reached ticking backAndForth) (some "00000001") "00000000" =
        some (.ok ⟨own, common.getLast?.map SessionTreeEntry.id⟩) ∧
      ∀ e ∈ own, ∀ e' ∈ own', e.id ≠ e'.id := by
  obtain ⟨common, own, own', branch, -, apart, collected⟩ :=
    @reached_collectEntries ticking 606 backAndForth (fits_ticking (by decide)) (Nat.le_refl _)
      "00000001" "00000000" (by decide +kernel) (by decide +kernel)
  exact ⟨common, own, own', branch, collected, apart⟩

end Session

/-! ## The token budget -/

section Budget

variable {tokenBudget : Int}

/-- The messages of a branch as far as a summary of it may have them. -/
def branchMessages (entries : List SessionTreeEntry) : List AgentMessage :=
  entries.filterMap BranchSummarization.getMessageFromEntry

def tokens (messages : List AgentMessage) : Nat := (messages.map estimateTokens).sum

/-- Messages with their tokens, and the file operations of those that were looked at, the last one
first. -/
def BranchPreparation.of (fileOps : FileOperations) (looked messages : List AgentMessage) :
    BranchPreparation where
  messages := messages
  fileOps := extractAll fileOps looked.reverse
  totalTokens := tokens messages

/-- A preparation that takes the last messages of a branch: all of them, when they keep the budget,
and else those behind the entry whose message exceeds it, with that message if the entry is a
summary and less than nine tenths are used up behind it. -/
inductive TakesLast (tokenBudget : Int) (fileOps : FileOperations)
    (entries : List SessionTreeEntry) : BranchPreparation → Prop
  | whole (within : 0 < tokenBudget → (tokens (branchMessages entries) : Int) ≤ tokenBudget) :
      TakesLast tokenBudget fileOps entries
        (.of fileOps (branchMessages entries) (branchMessages entries))
  | upTo {older newer : List SessionTreeEntry} {entry : SessionTreeEntry} {message : AgentMessage}
      (split : entries = older ++ entry :: newer)
      (given : BranchSummarization.getMessageFromEntry entry = some message)
      (positive : 0 < tokenBudget)
      (within : (tokens (branchMessages newer) : Int) ≤ tokenBudget)
      (exceeds : tokenBudget < tokens (message :: branchMessages newer)) :
      TakesLast tokenBudget fileOps entries
        (.of fileOps (message :: branchMessages newer)
          (if entry.isSummary = true ∧ (10 * tokens (branchMessages newer) : Int) < 9 * tokenBudget
            then message :: branchMessages newer else branchMessages newer))

theorem tokens_cons (message : AgentMessage) (messages : List AgentMessage) :
    tokens (message :: messages) = tokens messages + estimateTokens message := by
  rw [tokens, List.map_cons, List.sum_cons, tokens, Nat.add_comm]

theorem BranchPreparation.of_unshift (fileOps : FileOperations) (looked : List AgentMessage)
    (message : AgentMessage) (messages : List AgentMessage) :
    (BranchPreparation.of fileOps looked messages).unshift message =
      .of fileOps looked (message :: messages) := by
  simp only [BranchPreparation.unshift, BranchPreparation.of, tokens_cons]

theorem BranchPreparation.of_look (fileOps : FileOperations) (looked : List AgentMessage)
    (message : AgentMessage) (messages : List AgentMessage) :
    { BranchPreparation.of fileOps looked messages with
        fileOps := extractFileOpsFromMessage (BranchPreparation.of fileOps looked messages).fileOps
          message } = BranchPreparation.of fileOps (message :: looked) messages := by
  simp only [BranchPreparation.of, extractAll, List.reverse_cons, List.foldl_concat]

/-- The loop goes on from the messages of newer entries that keep the budget. -/
theorem takeEntries_law (fileOps : FileOperations) (older : List SessionTreeEntry) :
    ∀ {newer : List SessionTreeEntry},
      (0 < tokenBudget → (tokens (branchMessages newer) : Int) ≤ tokenBudget) →
      TakesLast tokenBudget fileOps (older.reverse ++ newer)
        (takeEntries tokenBudget older
          (.of fileOps (branchMessages newer) (branchMessages newer))) := by
  induction older with
  | nil => exact fun within => .whole within
  | cons entry older ih =>
      intro newer within
      have next : (entry :: older).reverse ++ newer = older.reverse ++ entry :: newer := by
        rw [List.reverse_cons, List.append_assoc]
        rfl
      rw [next, takeEntries]
      cases given : BranchSummarization.getMessageFromEntry entry with
      | none =>
          have same : branchMessages (entry :: newer) = branchMessages newer :=
            List.filterMap_cons_none given
          rw [← same] at within ⊢
          exact ih within
      | some message =>
          have more : branchMessages (entry :: newer) = message :: branchMessages newer :=
            List.filterMap_cons_some given
          have counted : (tokens (message :: branchMessages newer) : Int) =
              tokens (branchMessages newer) + estimateTokens message := by
            rw [tokens_cons, Int.natCast_add]
          simp only [BranchPreparation.of_look, BranchPreparation.of_unshift]
          split
          · rename_i full
            have taken := @TakesLast.upTo tokenBudget fileOps _ older.reverse newer entry message
              rfl given full.1 (within full.1) (counted ▸ full.2)
            rwa [apply_ite (BranchPreparation.of fileOps (message :: branchMessages newer))] at taken
          · rename_i fits
            rw [← more]
            refine ih fun positive => ?_
            rw [more, counted]
            exact Int.not_lt.mp (not_and.mp fits positive)

/-- The messages for a summary are the last ones of the branch, as many as the budget allows; the
files are those of the messages that were looked at, and those that earlier summaries have listed. -/
theorem prepareBranchEntries_budget (entries : List SessionTreeEntry) (tokenBudget : Int) :
    TakesLast tokenBudget (summaryFiles entries) entries
      (prepareBranchEntries entries tokenBudget) := by
  have taken := @takeEntries_law tokenBudget (summaryFiles entries) entries.reverse []
    fun positive => Int.le_of_lt positive
  rwa [List.reverse_reverse, List.append_nil] at taken

end Budget

end NestifyClaw.Agent
