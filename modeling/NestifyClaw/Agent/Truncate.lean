import NestifyClaw.Fit
import NestifyClaw.Utf16

/-!
# Truncation

The output of a tool is cut to so many lines and so many bytes: `truncateHead` keeps its start and
`truncateTail` its end.  Texts are lists of UTF-16 code units, with unpaired surrogates among them,
and the limits are natural numbers.

`utf8ByteLength_eq` says that both ways to count bytes agree.  The loops over lines take what `fit`
takes (`headLines_law`, `tailLines_law`), and the loop over a last line that is too long keeps whole
characters (`truncateStringToBytesFromEnd_kept`).  `truncateHead_law` and `truncateTail_law` put
this together: within the limits as many whole lines are kept as there can be, and where not even
the last line fits, its end is.
-/

namespace NestifyClaw.Agent

open Utf16

/-- `DEFAULT_MAX_LINES` -/
def defaultMaxLines : Nat := 2000

/-- `DEFAULT_MAX_BYTES` -/
def defaultMaxBytes : Nat := 50 * 1024

inductive TruncatedBy
  | lines
  | bytes
deriving DecidableEq

structure TruncationResult where
  content : List UInt16
  truncated : Bool
  truncatedBy : Option TruncatedBy
  totalLines : Nat
  totalBytes : Nat
  outputLines : Nat
  outputBytes : Nat
  lastLinePartial : Bool
  firstLineExceedsLimit : Bool
  maxLines : Nat
  maxBytes : Nat

structure TruncationOptions where
  maxLines : Option Nat
  maxBytes : Option Nat

structure ResolvedTruncationInput where
  lines : List (List UInt16)
  totalLines : Nat
  totalBytes : Nat
  maxLines : Nat
  maxBytes : Nat

def splitLinesForCounting (content : List UInt16) : List (List UInt16) :=
  if content.length = 0 then []
  else
    let lines := content.splitOn newline
    if content.getLast? = some newline then lines.dropLast else lines

def findFirstNonAscii (content : List UInt16) : Option Nat :=
  content.findIdx? fun code => 0x7f < code.toNat

/-- The loop of `utf8ByteLength`. -/
def countBytes : List UInt16 → Nat → Nat
  | [], bytes => bytes
  | [code], bytes =>
      if code.toNat ≤ 0x7f then bytes + 1 else if code.toNat ≤ 0x7ff then bytes + 2 else bytes + 3
  | code :: next :: rest, bytes =>
      if code.toNat ≤ 0x7f then countBytes (next :: rest) (bytes + 1)
      else if code.toNat ≤ 0x7ff then countBytes (next :: rest) (bytes + 2)
      else if isHigh code then
        if isLow next then countBytes rest (bytes + 4) else countBytes (next :: rest) (bytes + 3)
      else countBytes (next :: rest) (bytes + 3)

/-- Where there is a `Buffer`, its `byteLength` is asked. -/
def utf8ByteLength (runtimeBuffer : Bool) (content : List UInt16) : Nat :=
  if runtimeBuffer then byteLength content
  else
    match findFirstNonAscii content with
    | none => content.length
    | some firstNonAscii => countBytes (content.drop firstNonAscii) firstNonAscii

/-- U+FFFD -/
def replacement : UInt16 := 0xfffd

def replaceUnpairedSurrogates : List UInt16 → List UInt16
  | [] => []
  | [code] => if isHigh code || isLow code then [replacement] else [code]
  | code :: next :: rest =>
      if isHigh code then
        if isLow next then code :: next :: replaceUnpairedSurrogates rest
        else replacement :: replaceUnpairedSurrogates (next :: rest)
      else if isLow code then replacement :: replaceUnpairedSurrogates (next :: rest)
      else code :: replaceUnpairedSurrogates (next :: rest)

/-- The loop of `truncateStringToBytesFromEnd`: in front of `output`, the rest of the string, its
last code unit first. -/
def takeFromEnd (maxBytes : Nat) : List UInt16 → Nat → List UInt16 → Bool → List UInt16 × Bool
  | [], _, output, needsReplacement => (output, needsReplacement)
  | [code], outputBytes, output, needsReplacement =>
      let unpairedSurrogate := isHigh code || isLow code
      let characterBytes := if unpairedSurrogate then 3 else unitBytes code
      if maxBytes < outputBytes + characterBytes then (output, needsReplacement)
      else (code :: output, needsReplacement || unpairedSurrogate)
  | code :: previous :: rest, outputBytes, output, needsReplacement =>
      if isLow code && isHigh previous then
        if maxBytes < outputBytes + 4 then (output, needsReplacement)
        else
          takeFromEnd maxBytes rest (outputBytes + 4) (previous :: code :: output) needsReplacement
      else
        let unpairedSurrogate := isHigh code || isLow code
        let characterBytes := if unpairedSurrogate then 3 else unitBytes code
        if maxBytes < outputBytes + characterBytes then (output, needsReplacement)
        else
          takeFromEnd maxBytes (previous :: rest) (outputBytes + characterBytes) (code :: output)
            (needsReplacement || unpairedSurrogate)

def truncateStringToBytesFromEnd (str : List UInt16) (maxBytes : Nat) : List UInt16 :=
  if maxBytes = 0 then []
  else
    let (output, needsReplacement) := takeFromEnd maxBytes str.reverse 0 [] false
    if needsReplacement then replaceUnpairedSurrogates output else output

section Truncate

variable (runtimeBuffer : Bool)

def resolveTruncationInput (content : List UInt16) (options : TruncationOptions) :
    ResolvedTruncationInput :=
  { lines := splitLinesForCounting content
    totalLines := (splitLinesForCounting content).length
    totalBytes := utf8ByteLength runtimeBuffer content
    maxLines := options.maxLines.getD defaultMaxLines
    maxBytes := options.maxBytes.getD defaultMaxBytes }

structure TruncationParams where
  content : List UInt16
  truncated : Bool
  truncatedBy : Option TruncatedBy
  outputLines : Nat
  outputBytes : Option Nat := none
  lastLinePartial : Option Bool := none
  firstLineExceedsLimit : Option Bool := none

def buildTruncationResult (input : ResolvedTruncationInput) (params : TruncationParams) :
    TruncationResult :=
  { content := params.content
    truncated := params.truncated
    truncatedBy := params.truncatedBy
    totalLines := input.totalLines
    totalBytes := input.totalBytes
    outputLines := params.outputLines
    outputBytes := params.outputBytes.getD (utf8ByteLength runtimeBuffer params.content)
    lastLinePartial := params.lastLinePartial.getD false
    firstLineExceedsLimit := params.firstLineExceedsLimit.getD false
    maxLines := input.maxLines
    maxBytes := input.maxBytes }

/-- What the loops have put together. -/
structure Output where
  outputLinesArr : List (List UInt16)
  outputBytesCount : Nat
  truncatedBy : TruncatedBy
  lastLinePartial : Bool

/-- Where the loops start. -/
def Output.start (input : ResolvedTruncationInput) : Output :=
  { outputLinesArr := []
    outputBytesCount := 0
    truncatedBy := if input.maxLines < input.totalLines then .lines else .bytes
    lastLinePartial := false }

/-- `truncatedBy`, as it is after the loops. -/
def Output.cutBy (input : ResolvedTruncationInput) (output : Output) : TruncatedBy :=
  if input.maxLines < input.totalLines ∧ input.maxLines ≤ output.outputLinesArr.length ∧
      output.outputBytesCount ≤ input.maxBytes then .lines
  else output.truncatedBy

/-- The loop of `truncateHead`, at the line `i`. -/
def headLines (input : ResolvedTruncationInput) : List (List UInt16) → Nat → Output → Output
  | [], _, output => output
  | line :: lines, i, output =>
      if i < input.maxLines then
        let lineBytes := utf8ByteLength runtimeBuffer line + if 0 < i then 1 else 0
        if input.maxBytes < output.outputBytesCount + lineBytes then
          { output with truncatedBy := .bytes }
        else
          headLines input lines (i + 1)
            { output with
              outputLinesArr := output.outputLinesArr ++ [line]
              outputBytesCount := output.outputBytesCount + lineBytes }
      else output

/-- Without a first line, this throws. -/
def truncateHead (content : List UInt16) (options : TruncationOptions) : Option TruncationResult :=
  let input := resolveTruncationInput runtimeBuffer content options
  if input.totalLines ≤ input.maxLines ∧ input.totalBytes ≤ input.maxBytes then
    some (buildTruncationResult runtimeBuffer input
      { content, truncated := false, truncatedBy := none, outputLines := input.totalLines,
        outputBytes := some input.totalBytes })
  else
    match input.lines.head? with
    | none => none
    | some firstLine =>
        if input.maxBytes < utf8ByteLength runtimeBuffer firstLine then
          some (buildTruncationResult runtimeBuffer input
            { content := [], truncated := true, truncatedBy := some .bytes, outputLines := 0,
              outputBytes := some 0, firstLineExceedsLimit := some true })
        else
          let output := headLines runtimeBuffer input input.lines 0 (.start input)
          some (buildTruncationResult runtimeBuffer input
            { content := joinLines output.outputLinesArr, truncated := true,
              truncatedBy := some (output.cutBy input),
              outputLines := output.outputLinesArr.length })

/-- The loop of `truncateTail`, over the lines from the last to the first. -/
def tailLines (input : ResolvedTruncationInput) : List (List UInt16) → Output → Output
  | [], output => output
  | line :: lines, output =>
      if output.outputLinesArr.length < input.maxLines then
        let lineBytes :=
          utf8ByteLength runtimeBuffer line + if 0 < output.outputLinesArr.length then 1 else 0
        if input.maxBytes < output.outputBytesCount + lineBytes then
          if output.outputLinesArr.length = 0 then
            let truncatedLine := truncateStringToBytesFromEnd line input.maxBytes
            { outputLinesArr := truncatedLine :: output.outputLinesArr
              outputBytesCount := utf8ByteLength runtimeBuffer truncatedLine
              truncatedBy := .bytes
              lastLinePartial := true }
          else { output with truncatedBy := .bytes }
        else
          tailLines input lines
            { output with
              outputLinesArr := line :: output.outputLinesArr
              outputBytesCount := output.outputBytesCount + lineBytes }
      else output

def truncateTail (content : List UInt16) (options : TruncationOptions) : TruncationResult :=
  let input := resolveTruncationInput runtimeBuffer content options
  if input.totalLines ≤ input.maxLines ∧ input.totalBytes ≤ input.maxBytes then
    buildTruncationResult runtimeBuffer input
      { content, truncated := false, truncatedBy := none, outputLines := input.totalLines,
        outputBytes := some input.totalBytes }
  else
    let output := tailLines runtimeBuffer input input.lines.reverse (.start input)
    buildTruncationResult runtimeBuffer input
      { content := joinLines output.outputLinesArr, truncated := true,
        truncatedBy := some (output.cutBy input), outputLines := output.outputLinesArr.length,
        lastLinePartial := some output.lastLinePartial }

end Truncate

/-! ## Bytes -/

section Bytes

variable {runtimeBuffer : Bool} {content s output : List UInt16} {code next : UInt16}
  {maxBytes : Nat}

theorem countBytes_eq (content : List UInt16) (bytes : Nat) :
    countBytes content bytes = bytes + byteLength content := by
  induction content using byteLength.induct generalizing bytes with
  | case1 => rfl
  | case2 code =>
      rw [countBytes, byteLength, unitBytes]
      split
      · rfl
      · split <;> rfl
  | case3 code next rest pair ih =>
      obtain ⟨high, low⟩ := Bool.and_eq_true_iff.mp pair
      obtain ⟨least, -⟩ := Bool.and_eq_true_iff.mp high
      have least' := of_decide_eq_true least
      rw [countBytes, if_neg (by omega), if_neg (by omega), if_pos high, if_pos low,
        byteLength_pair high low, ih, Nat.add_assoc]
  | case4 code next rest noPair ih =>
      rw [countBytes, byteLength, if_neg noPair, unitBytes]
      simp only [ih]
      split
      · rw [Nat.add_assoc]
      · split
        · rw [Nat.add_assoc]
        · split
          · rename_i high
            rw [if_neg fun low => noPair (Bool.and_eq_true_iff.mpr ⟨high, low⟩), Nat.add_assoc]
          · rw [Nat.add_assoc]

/-- Counted by hand or by a `Buffer`, the bytes are the same. -/
theorem utf8ByteLength_eq (runtimeBuffer : Bool) (content : List UInt16) :
    utf8ByteLength runtimeBuffer content = byteLength content := by
  unfold utf8ByteLength
  split
  · rfl
  · split
    · rename_i noneFound
      have ascii : ∀ code ∈ content, code.toNat ≤ 0x7f := fun code there =>
        Nat.le_of_not_lt (of_decide_eq_false (List.findIdx?_eq_none_iff.mp noneFound code there))
      have counted := @byteLength_ascii content [] ascii
      rw [List.append_nil] at counted
      exact counted.symm
    · rename_i firstNonAscii found
      obtain ⟨inside, -, before⟩ := List.findIdx?_eq_some_iff_getElem.mp found
      have ascii : ∀ code ∈ content.take firstNonAscii, code.toNat ≤ 0x7f := by
        intro code there
        obtain ⟨j, isThere, rfl⟩ := List.mem_iff_getElem.mp there
        rw [List.length_take] at isThere
        rw [List.getElem_take]
        have plain := before j (by omega)
        simpa using plain
      have counted := @byteLength_ascii _ (content.drop firstNonAscii) ascii
      rw [List.take_append_drop, List.length_take, Nat.min_eq_left (Nat.le_of_lt inside)] at counted
      rw [countBytes_eq, counted]

theorem replace_cons (high : isHigh code = false) (low : isLow code = false) :
    replaceUnpairedSurrogates (code :: s) = code :: replaceUnpairedSurrogates s := by
  cases s with
  | nil => simp [replaceUnpairedSurrogates, high, low]
  | cons next s => simp [replaceUnpairedSurrogates, high, low]

theorem replace_pair (high : isHigh code = true) (low : isLow next = true) :
    replaceUnpairedSurrogates (code :: next :: s) =
      code :: next :: replaceUnpairedSurrogates s := by
  rw [replaceUnpairedSurrogates, if_pos high, if_pos low]

theorem byteLength_replacement : byteLength (replacement :: s) = 3 + byteLength s :=
  byteLength_alone (.of_not_high (by rfl))

/-- What replaces a surrogate is as long. -/
theorem byteLength_replace (s : List UInt16) :
    byteLength (replaceUnpairedSurrogates s) = byteLength s := by
  induction s using byteLength.induct with
  | case1 => rfl
  | case2 code =>
      rw [replaceUnpairedSurrogates, byteLength]
      split
      · rename_i surrogate
        rw [byteLength_replacement]
        cases high : isHigh code with
        | true => rw [unitBytes_high high, byteLength]
        | false =>
            rw [high, Bool.false_or] at surrogate
            rw [unitBytes_low surrogate, byteLength]
      · rfl
  | case3 code next rest pair ih =>
      obtain ⟨high, low⟩ := Bool.and_eq_true_iff.mp pair
      rw [replace_pair high low, byteLength_pair high low, byteLength_pair high low, ih]
  | case4 code next rest noPair ih =>
      rw [byteLength, if_neg noPair]
      cases high : isHigh code with
      | true =>
          have low : ¬isLow next = true := fun low => noPair (Bool.and_eq_true_iff.mpr ⟨high, low⟩)
          rw [replaceUnpairedSurrogates, if_pos high, if_neg low, byteLength_replacement, ih,
            unitBytes_high high]
      | false =>
          cases low : isLow code with
          | true =>
              rw [replaceUnpairedSurrogates, if_neg (Bool.eq_false_iff.mp high), if_pos low,
                byteLength_replacement, ih, unitBytes_low low]
          | false => rw [replace_cons high low, byteLength_alone (.of_not_high high), ih]

/-- A pair, or a code unit. -/
def IsCharacter (character : List UInt16) : Prop :=
  (∃ code, character = [code]) ∨
    ∃ code next, character = [code, next] ∧ isHigh code = true ∧ isLow next = true

/-- What is kept of a string: whole characters from its end, and no more of them would fit. -/
structure KeptFromEnd (maxBytes : Nat) (rest kept : List UInt16) : Prop where
  fits : byteLength kept ≤ maxBytes
  whole : ∀ code ∈ rest.head?, Alone code kept
  full : rest = [] ∨ ∃ character rest', rest = character.reverse ++ rest' ∧
    IsCharacter character ∧ maxBytes < byteLength (character ++ kept)

theorem takeFromEnd_pair {outputBytes : Nat} {rest : List UInt16} {needsReplacement : Bool}
    (high : isHigh code = true) (low : isLow next = true) :
    takeFromEnd maxBytes (next :: code :: rest) outputBytes output needsReplacement =
      if maxBytes < outputBytes + 4 then (output, needsReplacement)
      else
        takeFromEnd maxBytes rest (outputBytes + 4) (code :: next :: output) needsReplacement := by
  rw [takeFromEnd, high, low]
  rfl

theorem takeFromEnd_single {outputBytes : Nat} {rest : List UInt16} {needsReplacement : Bool}
    (single : ∀ previous ∈ rest.head?, (isLow code && isHigh previous) = false) :
    takeFromEnd maxBytes (code :: rest) outputBytes output needsReplacement =
      if maxBytes < outputBytes + unitBytes code then (output, needsReplacement)
      else takeFromEnd maxBytes rest (outputBytes + unitBytes code) (code :: output)
        (needsReplacement || (isHigh code || isLow code)) := by
  have bytes : (if isHigh code || isLow code then 3 else unitBytes code) = unitBytes code := by
    split
    · rename_i surrogate
      rcases Bool.or_eq_true_iff.mp surrogate with high | low
      · exact (unitBytes_high high).symm
      · exact (unitBytes_low low).symm
    · rfl
  cases rest with
  | nil => simp only [takeFromEnd, bytes]
  | cons previous rest =>
      simp only [takeFromEnd, bytes, single previous rfl, Bool.false_eq_true, if_false]

/-- What the loop makes of the rest of the string and of what it has taken. -/
def Taken (maxBytes : Nat) (rest output : List UInt16) (result : List UInt16 × Bool) : Prop :=
  ∃ taken rest', rest = taken ++ rest' ∧ result.1 = taken.reverse ++ output ∧
    KeptFromEnd maxBytes rest' result.1 ∧
      (result.2 = false → replaceUnpairedSurrogates result.1 = result.1)

theorem Taken.further {rest character : List UInt16} {result : List UInt16 × Bool}
    (taken : Taken maxBytes rest (character ++ output) result) :
    Taken maxBytes (character.reverse ++ rest) output result := by
  obtain ⟨front, rest', isRest, isTaken, keeps, replaced⟩ := taken
  refine ⟨character.reverse ++ front, rest', ?_, ?_, keeps, replaced⟩
  · rw [isRest, List.append_assoc]
  · rw [isTaken, List.reverse_append, List.reverse_reverse, List.append_assoc]

theorem Taken.stop {rest : List UInt16} {needsReplacement : Bool}
    (fits : byteLength output ≤ maxBytes) (whole : ∀ code ∈ rest.head?, Alone code output)
    (replaced : needsReplacement = false → replaceUnpairedSurrogates output = output)
    (full : rest = [] ∨ ∃ character rest', rest = character.reverse ++ rest' ∧
      IsCharacter character ∧ maxBytes < byteLength (character ++ output)) :
    Taken maxBytes rest output (output, needsReplacement) :=
  ⟨[], rest, rfl, rfl, ⟨fits, whole, full⟩, replaced⟩

theorem takeFromEnd_taken (rest : List UInt16) {output : List UInt16} {needsReplacement : Bool}
    (fits : byteLength output ≤ maxBytes) (whole : ∀ code ∈ rest.head?, Alone code output)
    (replaced : needsReplacement = false → replaceUnpairedSurrogates output = output) :
    Taken maxBytes rest output
      (takeFromEnd maxBytes rest (byteLength output) output needsReplacement) := by
  -- by the length of the rest: the loop takes one code unit, or a pair
  induction isLength : rest.length using Nat.strongRecOn
    generalizing rest output needsReplacement with
  | ind length ih =>
      subst isLength
      match rest with
      | [] => exact .stop fits whole replaced (Or.inl rfl)
      | code :: rest =>
          by_cases pair : ∃ previous rest', rest = previous :: rest' ∧ isHigh previous = true ∧
            isLow code = true
          · obtain ⟨previous, rest, rfl, high, low⟩ := pair
            have longer : byteLength (previous :: code :: output) = byteLength output + 4 :=
              (byteLength_pair high low).trans (Nat.add_comm _ _)
            rw [takeFromEnd_pair high low, ← longer]
            split
            · rename_i tooLong
              exact .stop fits whole replaced
                (Or.inr ⟨[previous, code], rest, rfl, Or.inr ⟨_, _, rfl, high, low⟩, tooLong⟩)
            · rename_i fits'
              refine @Taken.further _ _ rest [previous, code] _ ?_
              refine ih rest.length (by simp only [List.length_cons]; omega) rest
                (Nat.le_of_not_lt fits') ?_ ?_ rfl
              · intro _ _ _ next isNext
                cases isNext
                cases isLow' : isLow previous with
                | true => cases high.symm.trans (isHigh_of_isLow isLow')
                | false => rfl
              · intro noNeed
                show replaceUnpairedSurrogates (previous :: code :: output) = _
                rw [replace_pair high low, replaced noNeed]
                rfl
          · have single : ∀ previous ∈ rest.head?, (isLow code && isHigh previous) = false := by
              intro previous isPrevious
              obtain ⟨rest', rfl⟩ := List.head?_eq_some_iff.mp isPrevious
              refine Bool.eq_false_iff.mpr fun both => pair ?_
              obtain ⟨low, high⟩ := Bool.and_eq_true_iff.mp both
              exact ⟨_, _, rfl, high, low⟩
            have longer : byteLength (code :: output) = byteLength output + unitBytes code :=
              (byteLength_alone (whole code rfl)).trans (Nat.add_comm _ _)
            rw [takeFromEnd_single single, ← longer]
            split
            · rename_i tooLong
              exact .stop fits whole replaced (Or.inr ⟨[code], rest, rfl, Or.inl ⟨_, rfl⟩, tooLong⟩)
            · rename_i fits'
              refine @Taken.further _ _ rest [code] _ ?_
              refine ih rest.length (Nat.lt_succ_self _) rest (Nat.le_of_not_lt fits') ?_ ?_ rfl
              · intro previous isPrevious high next isNext
                cases isNext
                have noPair := single previous isPrevious
                rwa [high, Bool.and_true] at noPair
              · intro noNeed
                obtain ⟨noNeed, plain⟩ := Bool.or_eq_false_iff.mp noNeed
                obtain ⟨high, low⟩ := Bool.or_eq_false_iff.mp plain
                show replaceUnpairedSurrogates (code :: output) = _
                rw [replace_cons high low, replaced noNeed]
                rfl

/-- A line that is cut keeps whole characters from its end, as many as fit, with what replaces a
surrogate that stands alone. -/
theorem truncateStringToBytesFromEnd_kept (str : List UInt16) (maxBytes : Nat) :
    ∃ rest kept, str = rest.reverse ++ kept ∧ KeptFromEnd maxBytes rest kept ∧
      truncateStringToBytesFromEnd str maxBytes = replaceUnpairedSurrogates kept := by
  have taken : Taken maxBytes str.reverse [] (takeFromEnd maxBytes str.reverse 0 [] false) :=
    takeFromEnd_taken str.reverse (Nat.zero_le _) (fun _ _ _ next isNext => by cases isNext)
      fun _ => rfl
  unfold truncateStringToBytesFromEnd
  generalize takeFromEnd maxBytes str.reverse 0 [] false = result at taken ⊢
  obtain ⟨kept, needsReplacement⟩ := result
  obtain ⟨front, rest, isRest, isTaken, keeps, replaced⟩ := taken
  dsimp only at isTaken keeps replaced
  rw [List.append_nil] at isTaken
  refine ⟨rest, kept, ?_, keeps, ?_⟩
  · rw [isTaken, ← List.reverse_append, ← isRest, List.reverse_reverse]
  · split
    · rename_i isZero
      have fits := keeps.fits
      rw [isZero] at fits
      rw [byteLength_eq_zero.mp (Nat.le_zero.mp fits)]
      rfl
    · cases needsReplacement with
      | true => rfl
      | false => exact (replaced rfl).symm

theorem byteLength_truncateStringToBytesFromEnd (str : List UInt16) (maxBytes : Nat) :
    byteLength (truncateStringToBytesFromEnd str maxBytes) ≤ maxBytes := by
  obtain ⟨_, kept, -, keeps, isKept⟩ := truncateStringToBytesFromEnd_kept str maxBytes
  rw [isKept, byteLength_replace]
  exact keeps.fits

end Bytes

/-! ## Lines -/

section Lines

variable {runtimeBuffer : Bool} {content : List UInt16} {options : TruncationOptions}
  {input : ResolvedTruncationInput} {lines : List (List UInt16)} {output : Output} {left : Nat}

/-- The lines are those of the content, or of what is in front of its last line break. -/
theorem splitLinesForCounting_eq (given : content ≠ []) :
    ∃ front, front <+: content ∧ splitLinesForCounting content = front.splitOn newline := by
  unfold splitLinesForCounting
  rw [if_neg fun never => given (List.length_eq_zero_iff.mp never)]
  dsimp only
  split
  · rename_i ends
    obtain ⟨front, rfl⟩ := List.getLast?_eq_some_iff.mp ends
    refine ⟨front, List.prefix_append _ _, ?_⟩
    rw [List.splitOn_append_cons_self]
    exact List.dropLast_concat
  · exact ⟨content, List.prefix_rfl, rfl⟩

theorem splitLinesForCounting_ne_nil (given : content ≠ []) :
    splitLinesForCounting content ≠ [] := by
  obtain ⟨front, -, lines⟩ := splitLinesForCounting_eq given
  rw [lines]
  exact List.splitOn_ne_nil _ _

/-- The lines that come first are the start of the content. -/
theorem joinLines_splitLines (front : lines <+: splitLinesForCounting content) :
    joinLines lines <+: content := by
  by_cases given : content = []
  · subst given
    rw [List.prefix_nil.mp front]
    exact List.prefix_rfl
  · obtain ⟨start, isStart, isLines⟩ := splitLinesForCounting_eq given
    rw [isLines] at front
    refine (joinLines_front front).trans ?_
    rw [joinLines, List.intercalate_splitOn]
    exact isStart

theorem lastLines_eq (lines : List (List UInt16)) (n : Nat) :
    lines.drop (lines.length - n) = (lines.reverse.take n).reverse := by
  rw [List.reverse_take, List.reverse_reverse, List.length_reverse]

/-- What a loop that starts with `output` makes of the lines that are before it. -/
structure Fills (input : ResolvedTruncationInput) (lines : List (List UInt16))
    (output output' : Output) : Prop where
  within : output'.outputBytesCount ≤ input.maxBytes
  goesOn : output'.truncatedBy = .lines → output.truncatedBy = .lines ∧
    (input.maxLines ≤ output'.outputLinesArr.length ∨
      output'.outputLinesArr.length = output.outputLinesArr.length + lines.length)

theorem headLines_fills (lines : List (List UInt16)) {i : Nat}
    (isNext : output.outputLinesArr.length = i) (within : output.outputBytesCount ≤ input.maxBytes)
    (isLeft : output.outputBytesCount + (if 0 < i then 1 else 0) + left = input.maxBytes + 1) :
    Fills input lines output (headLines runtimeBuffer input lines i output) ∧
      (headLines runtimeBuffer input lines i output).outputLinesArr =
        output.outputLinesArr ++ fit lineCost left (lines.take (input.maxLines - i)) := by
  induction lines generalizing i output left with
  | nil =>
      rw [headLines, List.take_nil, fit, List.append_nil]
      exact ⟨⟨within, fun isLines => ⟨isLines, Or.inr rfl⟩⟩, rfl⟩
  | cons line lines ih =>
      rw [headLines, utf8ByteLength_eq]
      dsimp only
      generalize (if 0 < i then 1 else 0) = lineBreak at isLeft ⊢
      by_cases more : i < input.maxLines
      · obtain ⟨rest, isRest⟩ := Nat.exists_eq_add_of_lt more
        rw [if_pos more, show input.maxLines - i = rest + 1 by omega, List.take_succ_cons, fit]
        by_cases tooLong : input.maxBytes < output.outputBytesCount + (byteLength line + lineBreak)
        · rw [if_pos tooLong, if_neg (by unfold lineCost; omega), List.append_nil]
          exact ⟨⟨within, fun never => by cases never⟩, rfl⟩
        · rw [if_neg tooLong, if_pos (by unfold lineCost; omega)]
          have isLeft' : output.outputBytesCount + (byteLength line + lineBreak) +
              (if 0 < i + 1 then 1 else 0) + (left - lineCost line) = input.maxBytes + 1 := by
            rw [if_pos (Nat.succ_pos i), lineCost]
            omega
          obtain ⟨fills, isOutput⟩ := @ih
            { output with
              outputLinesArr := output.outputLinesArr ++ [line]
              outputBytesCount := output.outputBytesCount + (byteLength line + lineBreak) }
            (left - lineCost line) (i + 1) (by simp [isNext]) (Nat.le_of_not_lt tooLong) isLeft'
          refine ⟨⟨fills.within, fun isLines => ?_⟩, ?_⟩
          · obtain ⟨isLines', full⟩ := fills.goesOn isLines
            refine ⟨isLines', full.imp_right fun full => full.trans ?_⟩
            simp only [List.length_append, List.length_cons, List.length_nil]
            omega
          · rw [isOutput, show input.maxLines - (i + 1) = rest by omega, List.append_assoc]
            rfl
      · rw [if_neg more, show input.maxLines - i = 0 by omega, List.take_zero, fit, List.append_nil]
        exact ⟨⟨within, fun isLines => ⟨isLines, Or.inl (by omega)⟩⟩, rfl⟩

theorem headLines_law (lines : List (List UInt16)) :
    Fills input lines (.start input) (headLines runtimeBuffer input lines 0 (.start input)) ∧
      (headLines runtimeBuffer input lines 0 (.start input)).outputLinesArr =
        fit lineCost (input.maxBytes + 1) (lines.take input.maxLines) :=
  headLines_fills lines rfl (Nat.zero_le _) (Nat.zero_add _)

theorem tailLines_fills (lines : List (List UInt16))
    (starts : output.outputLinesArr = [] → 0 < input.maxLines → ∀ line ∈ lines.head?,
      output.outputBytesCount + byteLength line ≤ input.maxBytes)
    (within : output.outputBytesCount ≤ input.maxBytes)
    (isLeft : output.outputBytesCount + (if 0 < output.outputLinesArr.length then 1 else 0) + left =
      input.maxBytes + 1) :
    Fills input lines output (tailLines runtimeBuffer input lines output) ∧
      (tailLines runtimeBuffer input lines output).lastLinePartial = output.lastLinePartial ∧
      (tailLines runtimeBuffer input lines output).outputLinesArr =
        (fit lineCost left (lines.take (input.maxLines - output.outputLinesArr.length))).reverse ++
          output.outputLinesArr := by
  induction lines generalizing output left with
  | nil =>
      rw [tailLines, List.take_nil, fit]
      exact ⟨⟨within, fun isLines => ⟨isLines, Or.inr rfl⟩⟩, rfl, rfl⟩
  | cons line lines ih =>
      have isEmpty : output.outputLinesArr.length = 0 →
          (if 0 < output.outputLinesArr.length then 1 else 0) = 0 := fun isZero => if_neg (by omega)
      rw [tailLines, utf8ByteLength_eq]
      dsimp only
      generalize (if 0 < output.outputLinesArr.length then 1 else 0) = lineBreak at isLeft isEmpty ⊢
      by_cases more : output.outputLinesArr.length < input.maxLines
      · obtain ⟨rest, isRest⟩ := Nat.exists_eq_add_of_lt more
        rw [if_pos more, show input.maxLines - output.outputLinesArr.length = rest + 1 by omega,
          List.take_succ_cons, fit]
        by_cases tooLong : input.maxBytes < output.outputBytesCount + (byteLength line + lineBreak)
        · have some : output.outputLinesArr.length ≠ 0 := by
            intro isZero
            have fits := starts (List.length_eq_zero_iff.mp isZero) (by omega) line rfl
            have noBreak := isEmpty isZero
            omega
          rw [if_pos tooLong, if_neg some, if_neg (by unfold lineCost; omega)]
          exact ⟨⟨within, fun never => by cases never⟩, rfl, rfl⟩
        · rw [if_neg tooLong, if_pos (by unfold lineCost; omega)]
          have isLeft' : output.outputBytesCount + (byteLength line + lineBreak) +
              (if 0 < (line :: output.outputLinesArr).length then 1 else 0) +
              (left - lineCost line) = input.maxBytes + 1 := by
            rw [List.length_cons, if_pos (Nat.succ_pos _), lineCost]
            omega
          obtain ⟨fills, whole, isOutput⟩ := @ih
            { output with
              outputLinesArr := line :: output.outputLinesArr
              outputBytesCount := output.outputBytesCount + (byteLength line + lineBreak) }
            (left - lineCost line) (fun never => by cases never) (Nat.le_of_not_lt tooLong) isLeft'
          refine ⟨⟨fills.within, fun isLines => ?_⟩, whole, ?_⟩
          · obtain ⟨isLines', full⟩ := fills.goesOn isLines
            refine ⟨isLines', full.imp_right fun full => full.trans ?_⟩
            simp only [List.length_cons]
            omega
          · rw [isOutput, List.length_cons,
              show input.maxLines - (output.outputLinesArr.length + 1) = rest by omega,
              List.reverse_cons, List.append_assoc]
            rfl
      · rw [if_neg more, show input.maxLines - output.outputLinesArr.length = 0 by omega,
          List.take_zero, fit]
        exact ⟨⟨within, fun isLines => ⟨isLines, Or.inl (by omega)⟩⟩, rfl, rfl⟩

/-- A last line that is too long on its own is cut. -/
theorem tailLines_cut {line : List UInt16} (rest : List (List UInt16)) (some : 0 < input.maxLines)
    (tooLong : input.maxBytes < byteLength line) :
    tailLines runtimeBuffer input (line :: rest) (.start input) =
      { outputLinesArr := [truncateStringToBytesFromEnd line input.maxBytes]
        outputBytesCount := byteLength (truncateStringToBytesFromEnd line input.maxBytes)
        truncatedBy := .bytes
        lastLinePartial := true } := by
  have fewer : (Output.start input).outputLinesArr.length < input.maxLines := some
  rw [tailLines, if_pos fewer]
  dsimp only
  rw [utf8ByteLength_eq, utf8ByteLength_eq, if_pos]
  · rfl
  · exact Nat.lt_of_lt_of_le tooLong (Nat.le_trans (Nat.le_add_right _ _) (Nat.le_add_left _ _))

/-- The lines that fit are kept, or the end of the first one if it does not fit. -/
theorem tailLines_law (lines : List (List UInt16)) :
    Fills input lines (.start input) (tailLines runtimeBuffer input lines (.start input)) ∧
      ((tailLines runtimeBuffer input lines (.start input)).lastLinePartial = false ∧
          ¬(0 < input.maxLines ∧ ∃ line ∈ lines.head?, input.maxBytes < byteLength line) ∧
          (tailLines runtimeBuffer input lines (.start input)).outputLinesArr =
            (fit lineCost (input.maxBytes + 1) (lines.take input.maxLines)).reverse ∨
        (tailLines runtimeBuffer input lines (.start input)).lastLinePartial = true ∧
          0 < input.maxLines ∧ ∃ line ∈ lines.head?, input.maxBytes < byteLength line ∧
            (tailLines runtimeBuffer input lines (.start input)).outputLinesArr =
              [truncateStringToBytesFromEnd line input.maxBytes]) := by
  by_cases tooLong : 0 < input.maxLines ∧ ∃ line ∈ lines.head?, input.maxBytes < byteLength line
  · obtain ⟨some, line, isFirst, tooLong⟩ := tooLong
    obtain ⟨rest, rfl⟩ := List.head?_eq_some_iff.mp isFirst
    rw [tailLines_cut rest some tooLong]
    exact ⟨⟨byteLength_truncateStringToBytesFromEnd _ _, fun never => by (cases never)⟩,
      Or.inr ⟨rfl, some, line, rfl, tooLong, rfl⟩⟩
  · obtain ⟨fills, whole, isOutput⟩ := @tailLines_fills runtimeBuffer input (.start input)
      (input.maxBytes + 1) lines
      (fun _ some line isFirst => (Nat.zero_add _).symm ▸
        Nat.le_of_not_lt fun long => tooLong ⟨some, line, isFirst, long⟩)
      (Nat.zero_le _) (Nat.zero_add _)
    exact ⟨fills, Or.inl ⟨whole, tooLong, isOutput.trans (List.append_nil _)⟩⟩

/-- The lines were too many if the loop has taken as many as it may, and some are left. -/
theorem Fills.cutBy_iff {output' : Output} (fills : Fills input lines (.start input) output')
    (isLines : lines.length = input.totalLines)
    (few : output'.outputLinesArr.length ≤ input.maxLines) :
    output'.cutBy input = .lines ↔
      input.maxLines < input.totalLines ∧ output'.outputLinesArr.length = input.maxLines := by
  unfold Output.cutBy
  split
  · rename_i tooMany
    exact ⟨fun _ => ⟨tooMany.1, Nat.le_antisymm few tooMany.2.1⟩, fun _ => rfl⟩
  · rename_i notTooMany
    refine ⟨fun cut => ?_, fun tooMany =>
      absurd ⟨tooMany.1, Nat.le_of_eq tooMany.2.symm, fills.within⟩ notTooMany⟩
    obtain ⟨isStart, full⟩ := fills.goesOn cut
    have tooMany : input.maxLines < input.totalLines := by
      by_contra few
      rw [Output.start, if_neg few] at isStart
      cases isStart
    rcases full with full | all
    · exact ⟨tooMany, Nat.le_antisymm few full⟩
    · have all' : output'.outputLinesArr.length = 0 + lines.length := all
      exact ⟨tooMany, by omega⟩

/-! ## Main results -/

/-- The result names the limits and what there was.  It is the whole content where that is within
the limits, and else a cut one that is, with no fewer lines than could be kept: `kept n` are the `n`
lines that would be. -/
structure Truncates (content : List UInt16) (options : TruncationOptions)
    (kept : Nat → List (List UInt16)) (r : TruncationResult) : Prop where
  maxLines : r.maxLines = options.maxLines.getD defaultMaxLines
  maxBytes : r.maxBytes = options.maxBytes.getD defaultMaxBytes
  totalLines : r.totalLines = (splitLinesForCounting content).length
  totalBytes : r.totalBytes = byteLength content
  whole : r.truncated = false ↔ r.totalLines ≤ r.maxLines ∧ r.totalBytes ≤ r.maxBytes
  same : r.truncated = false → r.content = content ∧ r.outputLines = r.totalLines
  cut : r.truncatedBy = none ↔ r.truncated = false
  bytes : r.outputBytes = byteLength r.content
  fewBytes : r.outputBytes ≤ r.maxBytes
  fewLines : r.outputLines ≤ r.maxLines
  most : ∀ n ≤ r.maxLines, n ≤ r.totalLines →
    byteLength (joinLines (kept n)) ≤ r.maxBytes → n ≤ r.outputLines

theorem truncates_whole (kept : Nat → List (List UInt16))
    (fits : (resolveTruncationInput runtimeBuffer content options).totalLines ≤
        (resolveTruncationInput runtimeBuffer content options).maxLines ∧
      (resolveTruncationInput runtimeBuffer content options).totalBytes ≤
        (resolveTruncationInput runtimeBuffer content options).maxBytes) :
    Truncates content options kept
      (buildTruncationResult runtimeBuffer (resolveTruncationInput runtimeBuffer content options)
        { content, truncated := false, truncatedBy := none,
          outputLines := (resolveTruncationInput runtimeBuffer content options).totalLines,
          outputBytes :=
            some (resolveTruncationInput runtimeBuffer content options).totalBytes }) where
  maxLines := rfl
  maxBytes := rfl
  totalLines := rfl
  totalBytes := utf8ByteLength_eq _ _
  whole := iff_of_true rfl fits
  same _ := ⟨rfl, rfl⟩
  cut := iff_of_true rfl rfl
  bytes := utf8ByteLength_eq _ _
  fewBytes := fits.2
  fewLines := fits.1
  most _ _ there _ := there

theorem truncates_cut {kept : Nat → List (List UInt16)} {params : TruncationParams}
    (noFit : ¬ ((resolveTruncationInput runtimeBuffer content options).totalLines ≤
        (resolveTruncationInput runtimeBuffer content options).maxLines ∧
      (resolveTruncationInput runtimeBuffer content options).totalBytes ≤
        (resolveTruncationInput runtimeBuffer content options).maxBytes))
    (cut : params.truncated = true) (by_ : params.truncatedBy ≠ none)
    (counted : params.outputBytes.getD (utf8ByteLength runtimeBuffer params.content) =
      byteLength params.content)
    (fewBytes : byteLength params.content ≤ options.maxBytes.getD defaultMaxBytes)
    (fewLines : params.outputLines ≤ options.maxLines.getD defaultMaxLines)
    (most : ∀ n ≤ options.maxLines.getD defaultMaxLines,
      n ≤ (splitLinesForCounting content).length →
        byteLength (joinLines (kept n)) ≤ options.maxBytes.getD defaultMaxBytes →
          n ≤ params.outputLines) :
    Truncates content options kept
      (buildTruncationResult runtimeBuffer (resolveTruncationInput runtimeBuffer content options)
        params) where
  maxLines := rfl
  maxBytes := rfl
  totalLines := rfl
  totalBytes := utf8ByteLength_eq _ _
  whole := iff_of_false (ne_false_of_eq_true cut) noFit
  same never := absurd never (ne_false_of_eq_true cut)
  cut := iff_of_false by_ (ne_false_of_eq_true cut)
  bytes := counted
  fewBytes := Nat.le_trans (Nat.le_of_eq counted) fewBytes
  fewLines := fewLines
  most := most

/-- From its start, a content is cut to whole lines, and to as many as the limits allow; where not
even the first line fits, to nothing. -/
theorem truncateHead_law (runtimeBuffer : Bool) (content : List UInt16)
    (options : TruncationOptions) :
    ∃ r, truncateHead runtimeBuffer content options = some r ∧
      Truncates content options (splitLinesForCounting content).take r ∧ r.content <+: content ∧
      (r.truncated = true →
        r.content = joinLines ((splitLinesForCounting content).take r.outputLines)) ∧
      (r.firstLineExceedsLimit = true ↔ r.truncated = true ∧
        ∃ line ∈ (splitLinesForCounting content).head?, r.maxBytes < byteLength line) ∧
      (r.truncatedBy = some .lines ↔ r.truncated = true ∧ r.firstLineExceedsLimit = false ∧
        r.maxLines < r.totalLines ∧ r.outputLines = r.maxLines) := by
  unfold truncateHead
  dsimp only
  split
  · rename_i fits
    refine ⟨_, rfl, truncates_whole _ fits, List.prefix_rfl, fun never => by (cases never), ?_, ?_⟩
    · exact ⟨fun never => by (cases never), fun never => by (cases never.1)⟩
    · exact ⟨fun never => by (cases never), fun never => by (cases never.1)⟩
  · rename_i noFit
    have given : content ≠ [] := by
      rintro rfl
      have noBytes : (resolveTruncationInput runtimeBuffer [] options).totalBytes = 0 :=
        utf8ByteLength_eq runtimeBuffer []
      exact noFit ⟨Nat.zero_le _, noBytes ▸ Nat.zero_le _⟩
    obtain ⟨firstLine, rest, isLines⟩ :=
      List.exists_cons_of_ne_nil (splitLinesForCounting_ne_nil given)
    rw [show (resolveTruncationInput runtimeBuffer content options).lines.head? =
      some firstLine from congrArg List.head? isLines]
    dsimp only
    split
    · rename_i tooLong
      rw [utf8ByteLength_eq] at tooLong
      have none := @fit_take_nil _ lineCost (options.maxBytes.getD defaultMaxBytes + 1) _ _
        (options.maxLines.getD defaultMaxLines) (congrArg List.head? isLines)
        (Nat.succ_lt_succ tooLong)
      refine ⟨_, rfl, truncates_cut noFit rfl (by simp) rfl (Nat.zero_le _) (Nat.zero_le _) ?_,
        List.nil_prefix, fun _ => rfl,
        iff_of_true rfl ⟨rfl, firstLine, congrArg List.head? isLines, tooLong⟩,
        fun never => by (cases never), fun never => by (cases never.2.1)⟩
      intro n few there fits
      have long := le_length_fit few there (fits_iff.mp fits)
      rw [none] at long
      exact long
    · rename_i notTooLong
      rw [utf8ByteLength_eq] at notTooLong
      obtain ⟨fills, isKept⟩ := @headLines_law runtimeBuffer
        (resolveTruncationInput runtimeBuffer content options) (splitLinesForCounting content)
      rw [show (resolveTruncationInput runtimeBuffer content options).lines =
        splitLinesForCounting content from rfl]
      generalize headLines runtimeBuffer (resolveTruncationInput runtimeBuffer content options)
        (splitLinesForCounting content) 0 (.start _) = output at fills isKept ⊢
      have front : output.outputLinesArr <+: splitLinesForCounting content :=
        isKept ▸ fit_front.trans (List.take_prefix _ _)
      have few : output.outputLinesArr.length ≤ options.maxLines.getD defaultMaxLines := by
        rw [isKept]
        exact length_fit_le
      have cut := fills.cutBy_iff rfl few
      refine ⟨_, rfl, truncates_cut noFit rfl (by simp) (utf8ByteLength_eq _ _) ?_ few ?_,
        joinLines_splitLines front, fun _ => ?_, ?_,
        fun isLines => ⟨rfl, rfl, cut.mp (Option.some.inj isLines)⟩,
        fun tooMany => congrArg some (cut.mpr tooMany.2.2)⟩
      · dsimp only
        rw [isKept]
        exact fits_iff.mpr fit_within
      · intro n few there fits
        rw [isKept]
        exact le_length_fit few there (fits_iff.mp fits)
      · exact congrArg joinLines (List.prefix_iff_eq_take.mp front)
      · refine iff_of_false (fun never => by (cases never)) ?_
        rintro ⟨-, line, isFirst, tooLong⟩
        rw [isLines] at isFirst
        cases isFirst
        exact notTooLong tooLong

/-- What is kept of a content that is too long at its end: whole lines, as many as the limits allow,
or, just where not even the last one fits, the end of that line. -/
theorem truncateTail_law (runtimeBuffer : Bool) (content : List UInt16)
    (options : TruncationOptions) :
    ∃ r, truncateTail runtimeBuffer content options = r ∧
      Truncates content options (fun n => (splitLinesForCounting content).drop
        ((splitLinesForCounting content).length - n)) r ∧
      (r.truncated = true → r.lastLinePartial = false →
        r.content = joinLines ((splitLinesForCounting content).drop
          ((splitLinesForCounting content).length - r.outputLines))) ∧
      (r.lastLinePartial = true ↔ r.truncated = true ∧ 0 < r.maxLines ∧
        ∃ line ∈ (splitLinesForCounting content).getLast?, r.maxBytes < byteLength line) ∧
      (r.lastLinePartial = true → r.outputLines = 1 ∧
        ∃ line ∈ (splitLinesForCounting content).getLast?, ∃ rest kept, rest ≠ [] ∧
          line = rest.reverse ++ kept ∧
            KeptFromEnd r.maxBytes rest kept ∧
            r.content = replaceUnpairedSurrogates kept) ∧
      (r.truncatedBy = some .lines ↔ r.truncated = true ∧ r.maxLines < r.totalLines ∧
        r.outputLines = r.maxLines) := by
  refine ⟨_, rfl, ?_⟩
  unfold truncateTail
  dsimp only
  split
  · rename_i fits
    refine ⟨truncates_whole _ fits, fun never => by (cases never), ?_,
      fun never => by (cases never), ?_⟩
    · exact ⟨fun never => by (cases never), fun never => by (cases never.1)⟩
    · exact ⟨fun never => by (cases never), fun never => by (cases never.1)⟩
  · rename_i noFit
    obtain ⟨fills, isOutput⟩ := @tailLines_law runtimeBuffer
      (resolveTruncationInput runtimeBuffer content options) (splitLinesForCounting content).reverse
    rw [show (resolveTruncationInput runtimeBuffer content options).lines =
      splitLinesForCounting content from rfl]
    generalize tailLines runtimeBuffer (resolveTruncationInput runtimeBuffer content options)
      (splitLinesForCounting content).reverse (.start _) = output at fills isOutput ⊢
    have few : output.outputLinesArr.length ≤ options.maxLines.getD defaultMaxLines := by
      rcases isOutput with ⟨-, -, isKept⟩ | ⟨-, some, _, -, -, isCut⟩
      · rw [isKept, List.length_reverse]
        exact length_fit_le
      · exact isCut ▸ some
    have cut := fills.cutBy_iff List.length_reverse few
    refine ⟨truncates_cut noFit rfl (by simp) (utf8ByteLength_eq _ _) ?_ few ?_,
      fun _ whole => ?_, ?_, fun isPartial => ?_,
      fun isLines => ⟨rfl, cut.mp (Option.some.inj isLines)⟩,
      fun tooMany => congrArg some (cut.mpr tooMany.2)⟩
    · dsimp only
      rcases isOutput with ⟨-, -, isKept⟩ | ⟨-, -, line, -, -, isCut⟩
      · rw [isKept]
        exact reverse_fits_iff.mpr fit_within
      · rw [isCut, joinLines_singleton]
        exact byteLength_truncateStringToBytesFromEnd _ _
    · intro n few there fits
      rw [lastLines_eq, reverse_fits_iff] at fits
      refine Nat.le_trans (le_length_fit few (by rwa [List.length_reverse]) fits) ?_
      rcases isOutput with ⟨-, -, isKept⟩ | ⟨-, -, line, isLast, tooLong, -⟩
      · exact Nat.le_of_eq ((congrArg List.length isKept).trans List.length_reverse).symm
      · rw [@fit_take_nil _ lineCost (options.maxBytes.getD defaultMaxBytes + 1) _ _
          (options.maxLines.getD defaultMaxLines) isLast (Nat.succ_lt_succ tooLong)]
        exact Nat.zero_le _
    · rcases isOutput with ⟨-, -, isKept⟩ | ⟨isPartial, -⟩
      · rw [lastLines_eq]
        refine congrArg joinLines (isKept.trans (congrArg List.reverse ?_))
        show _ = (splitLinesForCounting content).reverse.take output.outputLinesArr.length
        rw [isKept, List.length_reverse]
        exact List.prefix_iff_eq_take.mp (fit_front.trans (List.take_prefix _ _))
      · cases isPartial.symm.trans whole
    · rw [List.head?_reverse] at isOutput
      rcases isOutput with ⟨whole, notCut, -⟩ | ⟨isPartial, isCut⟩
      · exact iff_of_false (ne_true_of_eq_false whole) fun cut => notCut cut.2
      · exact iff_of_true isPartial ⟨rfl, isCut.1, isCut.2.imp fun _ last => ⟨last.1, last.2.1⟩⟩
    · rcases isOutput with ⟨whole, -⟩ | ⟨-, -, line, isLast, tooLong, isCut⟩
      · cases whole.symm.trans isPartial
      · obtain ⟨rest, kept, isLine, keeps, isKept⟩ :=
          truncateStringToBytesFromEnd_kept line (options.maxBytes.getD defaultMaxBytes)
        refine ⟨congrArg List.length isCut, line, ?_, rest, kept, ?_, isLine, keeps, ?_⟩
        · rwa [List.head?_reverse] at isLast
        · rintro rfl
          rw [isLine] at tooLong
          exact Nat.lt_irrefl _ (Nat.lt_of_lt_of_le tooLong keeps.fits)
        · show joinLines output.outputLinesArr = _
          rw [isCut, joinLines_singleton]
          exact isKept

/-- A partial line keeps its characters whole: five letters and an emoji, cut to four bytes. -/
example : (truncateTail true [0x61, 0x6c, 0x70, 0x68, 0x61, 0xd83d, 0xde42]
    ⟨none, some 4⟩).content = [0xd83d, 0xde42] := by decide +kernel

end Lines

end NestifyClaw.Agent
