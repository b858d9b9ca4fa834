import NestifyClaw.Scanner
import NestifyClaw.Adapter.Generate

/-!
# Reading generated modules

`moduleExports` reads a module in the part of TypeScript's grammar that the generator writes:
block comments, words, single-quoted strings and punctuation, and of statements an import of
names, `export const`, `export type`, `export default` of a call, and `export {}`.  It yields the
exported names, or nothing if the module is not valid: a name may be neither reserved nor bound
twice.  `IdentifierTable` stands for Unicode's tables of the identifier characters beyond ASCII.
-/

namespace NestifyClaw.Adapter

/-! ## Words and punctuation -/

structure IdentifierTable where
  idStart : Char → Bool
  idContinue : Char → Bool

namespace IdentifierTable

def isIdentifierStart (u : IdentifierTable) (c : Char) : Bool :=
  c.isAlpha || c == '_' || c == '$' || (decide (128 ≤ c.toNat) && u.idStart c)

def isIdentifierPart (u : IdentifierTable) (c : Char) : Bool :=
  c.isAlphanum || c == '_' || c == '$' || (decide (128 ≤ c.toNat) && u.idContinue c)

/-- An identifier, be it reserved or not. -/
def IsIdentifier (u : IdentifierTable) (name : String) : Prop :=
  ∃ c cs, name.toList = c :: cs ∧ u.isIdentifierStart c = true ∧
    ∀ c' ∈ cs, u.isIdentifierPart c' = true

end IdentifierTable

inductive Token
  | word (text : String)
  | string (text : String)
  | punctuation (c : Char)
  deriving DecidableEq

inductive Mode
  | ground
  | word (read : List Char)
  | slash
  | comment
  | commentStar
  | string (read : List Char)

variable (u : IdentifierTable)

def readGround (c : Char) : Option (Mode × List Token) :=
  if c = ' ' ∨ c = '\n' then some (.ground, [])
  else if c = '\'' then some (.string [], [])
  else if c = '/' then some (.slash, [])
  else if u.isIdentifierStart c then some (.word [c], [])
  else if c ∈ ['\x7b', '\x7d', '(', ')', '<', '>', ',', ';', ':', '='] then
    some (.ground, [.punctuation c])
  else none

def readChar : Mode → Char → Option (Mode × List Token)
  | .ground, c => readGround u c
  | .word read, c =>
      if u.isIdentifierPart c then some (.word (read ++ [c]), [])
      else (readGround u c).map fun r => (r.1, .word (String.ofList read) :: r.2)
  | .slash, c => if c = '*' then some (.comment, []) else none
  | .comment, c => some (if c = '*' then .commentStar else .comment, [])
  | .commentStar, c =>
      some (if c = '/' then .ground else if c = '*' then .commentStar else .comment, [])
  | .string read, c =>
      if c = '\'' then some (.ground, [.string (String.ofList read)])
      else if c = '\n' ∨ c = '\r' ∨ c = '\\' then none
      else some (.string (read ++ [c]), [])

/-- The tokens of a text that ends between two of them. -/
def tokens (text : String) : Option (List Token) :=
  match scan (readChar u) .ground text.toList with
  | some (.ground, ts) => some ts
  | _ => none

/-! ## Statements -/

/-- The statements, each of which a semicolon ends. -/
def statements (ts : List Token) : Option (List (List Token)) :=
  let parts := ts.splitOn (.punctuation ';')
  if parts.getLast? = some [] then some parts.dropLast else none

/-- Words that a name which is declared as a value and as a type may not be: those that no binding
of a module may have, and `as`, which after `export type` does not begin a declaration. -/
def reservedWords : List String :=
  ["await", "break", "case", "catch", "class", "const", "continue", "debugger", "default",
    "delete", "do", "else", "enum", "export", "extends", "false", "finally", "for", "function",
    "if", "import", "in", "instanceof", "new", "null", "return", "super", "switch", "this", "throw",
    "true", "try", "typeof", "var", "void", "while", "with", "yield", "let", "static",
    "implements", "interface", "package", "private", "protected", "public", "eval", "arguments",
    "as"]

inductive Item
  | imports (names : List String)
  | const (name : String)
  | type (name : String)
  | default
  | nothing
  deriving DecidableEq

/-- The names between the braces of an import, and what follows them. -/
def importNames : List Token → Option (List String × List Token)
  | .word "type" :: .word name :: .punctuation ',' :: ts
  | .word name :: .punctuation ',' :: ts => (importNames ts).map fun r => (name :: r.1, r.2)
  | .word "type" :: .word name :: .punctuation '\x7d' :: ts
  | .word name :: .punctuation '\x7d' :: ts => some ([name], ts)
  | _ => none

/-- What follows the type parameters, each with a default. -/
def afterParameters : List Token → Option (List Token)
  | .word _ :: .punctuation '=' :: .word _ :: .punctuation ',' :: ts => afterParameters ts
  | .word _ :: .punctuation '=' :: .word _ :: .punctuation '>' :: ts => some ts
  | _ => none

def item : List Token → Option Item
  | .word "import" :: .punctuation '\x7b' :: ts =>
      match importNames ts with
      | some (names, [.word "from", .string _]) => some (.imports names)
      | _ => none
  | [.word "export", .word "const", .word name, .punctuation ':', .word _, .punctuation '=',
      .word _, .punctuation '(', .string _, .punctuation ')'] =>
      if name ∈ reservedWords then none else some (.const name)
  | .word "export" :: .word "type" :: .word name :: .punctuation '<' :: ts =>
      match afterParameters ts with
      | some [.punctuation '=', .word _] =>
          if name ∈ reservedWords then none else some (.type name)
      | _ => none
  | [.word "export", .word "default", .word _, .punctuation '(', .string _, .punctuation ')'] =>
      some .default
  | [.word "export", .punctuation '\x7b', .punctuation '\x7d'] => some .nothing
  | _ => none

/-- The names that a statement binds to values. -/
def Item.values : Item → List String
  | .imports names => names
  | .const name => [name]
  | _ => []

/-- The names that a statement binds to types. -/
def Item.types : Item → List String
  | .imports names => names
  | .type name => [name]
  | _ => []

def Item.exports : Item → List String
  | .const name => [name]
  | .type name => [name]
  | .default => ["default"]
  | _ => []

/-- No name is bound twice, and there is one default. -/
def WellBound (items : List Item) : Prop :=
  (items.flatMap Item.values).Nodup ∧ (items.flatMap Item.types).Nodup ∧ items.count .default ≤ 1

instance (items : List Item) : Decidable (WellBound items) :=
  inferInstanceAs (Decidable (_ ∧ _ ∧ _))

/-- The names that a module exports, if it is valid. -/
def moduleExports (text : String) : Option (List String) := do
  let ts ← tokens u text
  let sts ← statements ts
  let items ← sts.mapM item
  if WellBound items then some (items.flatMap Item.exports) else none

/-! ## Scanning the generator's lines -/

/-- Characters that a quoted string holds as they are. -/
def Quotable (cs : List Char) : Prop :=
  ∀ c ∈ cs, c ≠ '\'' ∧ c ≠ '\\' ∧ c ≠ '\n' ∧ c ≠ '\r'

instance (cs : List Char) : Decidable (Quotable cs) := List.decidableBAll _ cs

/-- A text that ends neither a quoted string nor a comment. -/
structure Clean (text : String) : Prop where
  quotable : Quotable text.toList
  commentable : ¬ "*/".toList <:+: text.toList

section

variable {u}

theorem scans_string {cs : List Char} (read : List Char)
    (quotable : Quotable cs) :
    Scans (readChar u) (.string read) cs (.string (read ++ cs)) [] := by
  induction cs generalizing read with
  | nil =>
      rw [List.append_nil]
      exact .nil
  | cons c cs ih =>
      obtain ⟨noQuote, noEscape, noLine, noReturn⟩ := quotable c List.mem_cons_self
      have rest := ih (read ++ [c]) fun c' there => quotable c' (List.mem_cons_of_mem c there)
      rw [List.append_assoc, List.singleton_append] at rest
      have here : readChar u (.string read) c = some (.string (read ++ [c]), []) := by
        simp [readChar, noQuote, noEscape, noLine, noReturn]
      exact rest.cons here

theorem scans_comment (cs : List Char) :
    (¬ "*/".toList <:+: cs → ∃ t, (t = .comment ∨ t = .commentStar) ∧
      Scans (readChar u) .comment cs t []) ∧
    (¬ "*/".toList <:+: '*' :: cs → ∃ t, (t = .comment ∨ t = .commentStar) ∧
      Scans (readChar u) .commentStar cs t []) := by
  induction cs with
  | nil => exact ⟨fun _ => ⟨_, Or.inl rfl, .nil⟩, fun _ => ⟨_, Or.inr rfl, .nil⟩⟩
  | cons c cs ih =>
      have further : ∀ {mode : Mode}, readChar u mode c =
          some (if c = '*' then .commentStar else .comment, []) →
          ¬ "*/".toList <:+: c :: cs → ∃ t, (t = .comment ∨ t = .commentStar) ∧
            Scans (readChar u) mode (c :: cs) t [] := by
        intro mode here noEnd
        by_cases isStar : c = '*'
        · subst isStar
          obtain ⟨t, inside, rest⟩ := ih.2 noEnd
          exact ⟨t, inside, rest.cons here⟩
        · rw [if_neg isStar] at here
          obtain ⟨t, inside, rest⟩ := ih.1 fun inRest =>
            noEnd (inRest.trans (List.infix_cons List.infix_rfl))
          exact ⟨t, inside, rest.cons here⟩
      refine ⟨further rfl, fun noEnd => ?_⟩
      have noSlash : c ≠ '/' := by
        rintro rfl
        exact noEnd ⟨[], cs, rfl⟩
      exact further (by simp [readChar, noSlash]) fun inRest =>
        noEnd (inRest.trans (List.infix_cons List.infix_rfl))

theorem scans_word {cs : List Char} (read : List Char)
    (parts : ∀ c ∈ cs, u.isIdentifierPart c = true) :
    Scans (readChar u) (.word read) cs (.word (read ++ cs)) [] := by
  induction cs generalizing read with
  | nil =>
      rw [List.append_nil]
      exact .nil
  | cons c cs ih =>
      have rest := ih (read ++ [c]) fun c' there => parts c' (List.mem_cons_of_mem c there)
      rw [List.append_assoc, List.singleton_append] at rest
      have here : readChar u (.word read) c = some (.word (read ++ [c]), []) := by
        simp [readChar, parts c List.mem_cons_self]
      exact rest.cons here

theorem ne_of_apply {p : Char → Bool} {c d : Char} (is : p c = true) (isNot : p d = false) :
    c ≠ d := by
  rintro rfl
  rw [is] at isNot
  cases isNot

theorem readGround_start {c : Char} (start : u.isIdentifierStart c = true) :
    readGround u c = some (.word [c], []) := by
  rw [readGround, if_neg, if_neg (ne_of_apply start rfl), if_neg (ne_of_apply start rfl),
    if_pos start]
  rintro (same | same)
  · exact ne_of_apply start (d := ' ') rfl same
  · exact ne_of_apply start (d := '\n') rfl same

theorem scans_identifier {name : String} (identifier : u.IsIdentifier name) :
    Scans (readChar u) .ground name.toList (.word name.toList) [] := by
  obtain ⟨c, cs, isName, start, parts⟩ := identifier
  have here : readChar u .ground c = some (.word [c], []) := readGround_start start
  rw [isName]
  exact (scans_word [c] parts).cons here

theorem quotable_of_identifier {name : String} (identifier : u.IsIdentifier name) :
    Quotable name.toList := by
  obtain ⟨first, rest, isName, start, parts⟩ := identifier
  rw [isName]
  intro c there
  rcases List.mem_cons.mp there with rfl | inRest
  · exact ⟨ne_of_apply start rfl, ne_of_apply start rfl, ne_of_apply start rfl,
      ne_of_apply start rfl⟩
  · have part := parts c inRest
    exact ⟨ne_of_apply part rfl, ne_of_apply part rfl, ne_of_apply part rfl, ne_of_apply part rfl⟩

/-! ## The statements of a generated module -/

def importTokens (stubImport : String) : List Token :=
  [.word "import", .punctuation '\x7b', .word "makeStub", .punctuation ',', .word "type",
    .word "StubAny", .punctuation '\x7d', .word "from", .string stubImport]

def constTokens (spec name : String) : List Token :=
  [.word "export", .word "const", .word name, .punctuation ':', .word "StubAny", .punctuation '=',
    .word "makeStub", .punctuation '(', .string (spec ++ "#" ++ name), .punctuation ')']

def parameterTokens (name : String) : List Token :=
  [.word name, .punctuation '=', .word "any"]

def typeTokens (name : String) : List Token :=
  [.word "export", .word "type", .word name, .punctuation '<'] ++ parameterTokens "A" ++
    [.punctuation ','] ++ parameterTokens "B" ++ [.punctuation ','] ++ parameterTokens "C" ++
    [.punctuation ','] ++ parameterTokens "D" ++ [.punctuation ','] ++ parameterTokens "E" ++
    [.punctuation ','] ++ parameterTokens "F" ++ [.punctuation '>', .punctuation '=', .word "any"]

def defaultTokens (spec : String) : List Token :=
  [.word "export", .word "default", .word "makeStub", .punctuation '(',
    .string (spec ++ "#" ++ "default"), .punctuation ')']

def nothingTokens : List Token := [.word "export", .punctuation '\x7b', .punctuation '\x7d']

def ended (statement : List Token) : List Token := statement ++ [.punctuation ';']

def newline (line : String) : List Char := line.toList ++ ['\n']

theorem scans_makeStub {spec part : String} (clean : Clean spec)
    (quotable : Quotable part.toList) :
    Scans (readChar u) (.string []) (spec.toList ++ ("#".toList ++ (part.toList ++ "');\n".toList)))
      .ground [.string (spec ++ "#" ++ part), .punctuation ')', .punctuation ';'] := by
  have hash : Scans (readChar u) (.string spec.toList) "#".toList
      (.string (spec.toList ++ ['#'])) [] := rfl
  have close : Scans (readChar u) (.string (spec.toList ++ ['#'] ++ part.toList)) "');\n".toList
      .ground [.string (String.ofList (spec.toList ++ ['#'] ++ part.toList)), .punctuation ')',
        .punctuation ';'] := rfl
  have text : String.ofList (spec.toList ++ ['#'] ++ part.toList) = spec ++ "#" ++ part := by
    apply String.ext
    simp
  rw [text] at close
  exact (scans_string [] clean.quotable).append
    (hash.append ((scans_string _ quotable).append close))

theorem scans_const {spec name : String} (clean : Clean spec) (identifier : u.IsIdentifier name) :
    Scans (readChar u) .ground
      (newline
        ("export const " ++ name ++ ": StubAny = makeStub('" ++ spec ++ "#" ++ name ++ "');"))
      .ground (ended (constTokens spec name)) := by
  have before : Scans (readChar u) .ground "export const ".toList .ground
      [.word "export", .word "const"] := rfl
  have between : Scans (readChar u) (.word name.toList) ": StubAny = makeStub('".toList (.string [])
      [.word (String.ofList name.toList), .punctuation ':', .word "StubAny", .punctuation '=',
        .word "makeStub", .punctuation '('] := rfl
  have all := before.append ((scans_identifier identifier).append
    (between.append (scans_makeStub clean (quotable_of_identifier identifier))))
  rw [String.ofList_toList] at all
  simpa [newline, ended, constTokens] using all

set_option maxRecDepth 2000 in
theorem scans_generics (read : List Char) :
    Scans (readChar u) (.word read) (generics.toList ++ " = any;\n".toList) .ground
      (ended ((typeTokens (String.ofList read)).drop 2)) := rfl

theorem scans_type {name : String} (identifier : u.IsIdentifier name) :
    Scans (readChar u) .ground (newline ("export type " ++ name ++ generics ++ " = any;"))
      .ground (ended (typeTokens name)) := by
  have before : Scans (readChar u) .ground "export type ".toList .ground
      [.word "export", .word "type"] := rfl
  have all := before.append ((scans_identifier identifier).append (scans_generics name.toList))
  rw [String.ofList_toList] at all
  simpa [newline, ended, typeTokens, parameterTokens] using all

theorem scans_default {spec : String} (clean : Clean spec) :
    Scans (readChar u) .ground (newline ("export default makeStub('" ++ spec ++ "#default');"))
      .ground (ended (defaultTokens spec)) := by
  have before : Scans (readChar u) .ground "export default makeStub('".toList (.string [])
      [.word "export", .word "default", .word "makeStub", .punctuation '('] := rfl
  have quotable : Quotable "default".toList := by decide
  have all := before.append (scans_makeStub clean quotable)
  simpa [newline, ended, defaultTokens] using all

theorem scans_nothing : Scans (readChar u) .ground (newline "export \x7b\x7d;")
    .ground (ended nothingTokens) := rfl

set_option maxRecDepth 2000 in
theorem scans_header {spec stubImport : String} (clean : Clean spec)
    (quotable : Quotable stubImport.toList) :
    Scans (readChar u) .ground ((header spec stubImport).flatMap newline) .ground
      (ended (importTokens stubImport)) := by
  have opening : Scans (readChar u) .ground (newline "/* eslint-disable */" ++ "/* ".toList)
      .comment [] := rfl
  have sentinel : Scans (readChar u) .comment (GENERATED_SENTINEL.toList ++ " for '".toList)
      .comment [] := rfl
  obtain ⟨mode, inside, comment⟩ := (scans_comment (u := u) spec.toList).1 clean.commentable
  have edit : Scans (readChar u) mode (newline "'. Do not edit by hand.") .comment [] := by
    rcases inside with rfl | rfl <;> rfl
  have regenerate : Scans (readChar u) .comment (newline " * Regenerate with: npm run gen:adapter")
      .comment [] := rfl
  have marker : Scans (readChar u) .comment (newline
      " * Add the marker @nestify-real to a hand-written replacement to preserve it. */")
      .ground [] := rfl
  have import_ : Scans (readChar u) .ground "import \x7b makeStub, type StubAny \x7d from '".toList
      (.string []) ((importTokens stubImport).take 8) := rfl
  have close : Scans (readChar u) (.string stubImport.toList) ("';\n".toList ++ newline "")
      .ground [.string (String.ofList stubImport.toList), .punctuation ';'] := rfl
  rw [String.ofList_toList] at close
  have all := opening.append (sentinel.append (comment.append (edit.append (regenerate.append
    (marker.append (import_.append ((scans_string [] quotable).append close)))))))
  simpa [newline, header, ended, importTokens] using all

/-! ## Its items -/

/-- The items of a generated module. -/
def stubItems (m : ModuleNeeds) : List Item :=
  .imports ["makeStub", "StubAny"] ::
    ((stubNames m).flatMap fun n => [.const n, .type n]) ++
    (if m.needsDefault then [.default] else []) ++
    if (stubNames m).length = 0 ∧ ¬ m.needsDefault then [.nothing] else []

/-- The statement that the generator writes for an item. -/
def itemTokens (spec stubImport : String) : Item → List Token
  | .imports _ => importTokens stubImport
  | .const name => constTokens spec name
  | .type name => typeTokens name
  | .default => defaultTokens spec
  | .nothing => nothingTokens

/-- A name that a generated module can export. -/
structure Legal (u : IdentifierTable) (name : String) : Prop where
  identifier : u.IsIdentifier name
  notReserved : name ∉ reservedWords
  notImported : name ∉ ["makeStub", "StubAny"]

theorem flatMap_ended_stubItems (spec stubImport : String) (m : ModuleNeeds) :
    ((stubItems m).map (itemTokens spec stubImport)).flatMap ended =
      ended (importTokens stubImport) ++
        ((stubNames m).flatMap fun n => ended (constTokens spec n) ++ ended (typeTokens n)) ++
        (if m.needsDefault then ended (defaultTokens spec) else []) ++
        if (stubNames m).length = 0 ∧ ¬ m.needsDefault then ended nothingTokens else [] := by
  have default : ((if m.needsDefault then [Item.default] else []).map
      (itemTokens spec stubImport)).flatMap ended =
        if m.needsDefault then ended (defaultTokens spec) else [] := by
    split <;> simp [itemTokens]
  have nothing : ((if (stubNames m).length = 0 ∧ ¬ m.needsDefault then [Item.nothing] else []).map
      (itemTokens spec stubImport)).flatMap ended =
        if (stubNames m).length = 0 ∧ ¬ m.needsDefault then ended nothingTokens else [] := by
    split <;> simp [itemTokens]
  rw [stubItems, List.map_append, List.flatMap_append, nothing, List.map_append,
    List.flatMap_append, default]
  simp [List.map_flatMap, List.flatMap_assoc, itemTokens]

theorem scans_lines {root file : Path} {spec : String} {m : ModuleNeeds} (clean : Clean spec)
    (quotable : Quotable (relativeToStub root file).toList)
    (identifiers : ∀ name ∈ stubNames m, u.IsIdentifier name) :
    Scans (readChar u) .ground ((lines root file spec m).flatMap newline) .ground
      (((stubItems m).map (itemTokens spec (relativeToStub root file))).flatMap ended) := by
  have names : Scans (readChar u) .ground
      (((stubNames m).flatMap (nameLines spec)).flatMap newline) .ground
      ((stubNames m).flatMap fun n => ended (constTokens spec n) ++ ended (typeTokens n)) := by
    rw [List.flatMap_assoc]
    refine Scans.flatMap fun name there => ?_
    have both := (scans_const clean (identifiers name there)).append
      (scans_type (identifiers name there))
    simpa [nameLines] using both
  have default : Scans (readChar u) .ground
      ((if m.needsDefault then ["export default makeStub('" ++ spec ++ "#default');"]
        else []).flatMap newline) .ground
      (if m.needsDefault then ended (defaultTokens spec) else []) := by
    split
    · simpa using scans_default clean
    · exact .nil
  have nothing : Scans (readChar u) .ground
      ((if (stubNames m).length = 0 ∧ ¬ m.needsDefault then ["export \x7b\x7d;"] else []).flatMap
        newline) .ground
      (if (stubNames m).length = 0 ∧ ¬ m.needsDefault then ended nothingTokens else []) := by
    split
    · simpa using scans_nothing
    · exact .nil
  have all := (((scans_header clean quotable).append names).append default).append nothing
  rw [lines, List.flatMap_append, List.flatMap_append, List.flatMap_append,
    flatMap_ended_stubItems]
  exact all

/-! ## Reading it back -/

theorem statements_flatMap_ended {sts : List (List Token)}
    (apart : ∀ st ∈ sts, Token.punctuation ';' ∉ st) :
    statements (sts.flatMap ended) = some sts := by
  have parts : (sts.flatMap ended).splitOn (.punctuation ';') = sts ++ [[]] := by
    induction sts with
    | nil => rfl
    | cons st sts ih =>
        rw [List.flatMap_cons, ended, List.append_assoc, List.singleton_append,
          List.splitOn_append_cons_self_of_not_mem (apart st List.mem_cons_self),
          ih fun st' there => apart st' (List.mem_cons_of_mem st there), List.cons_append]
  rw [statements, parts]
  simp

theorem semicolon_notMem_itemTokens (spec stubImport : String) (i : Item) :
    Token.punctuation ';' ∉ itemTokens spec stubImport i := by
  cases i <;> simp [itemTokens, importTokens, constTokens, typeTokens, parameterTokens,
    defaultTokens, nothingTokens]

theorem mem_stubItems {m : ModuleNeeds} {i : Item} (there : i ∈ stubItems m) :
    i = .imports ["makeStub", "StubAny"] ∨
      (∃ name ∈ stubNames m, i = .const name ∨ i = .type name) ∨
      i = .default ∨ i = .nothing := by
  rcases List.mem_append.mp there with there | there
  · rcases List.mem_append.mp there with there | there
    · rcases List.mem_cons.mp there with rfl | there
      · exact Or.inl rfl
      · obtain ⟨name, isName, isItem⟩ := List.mem_flatMap.mp there
        exact Or.inr (Or.inl ⟨name, isName, by simpa using isItem⟩)
    · split at there <;> simp at there
      exact Or.inr (Or.inr (Or.inl there))
  · split at there <;> simp at there
    exact Or.inr (Or.inr (Or.inr there))

theorem item_itemTokens {spec stubImport : String} {m : ModuleNeeds}
    (legal : ∀ name ∈ stubNames m, Legal u name) :
    ∀ i ∈ stubItems m, item (itemTokens spec stubImport i) = some i := by
  intro i there
  rcases mem_stubItems there with rfl | ⟨name, isName, rfl | rfl⟩ | rfl | rfl
  · rfl
  · exact if_neg (legal name isName).notReserved
  · exact if_neg (legal name isName).notReserved
  · rfl
  · rfl

theorem mapM_map_eq_some {β γ : Type} {f : β → Option γ} {g : γ → β} {items : List γ}
    (each : ∀ i ∈ items, f (g i) = some i) : (items.map g).mapM f = some items := by
  induction items with
  | nil => rfl
  | cons i items ih =>
      rw [List.map_cons, List.mapM_cons, each i List.mem_cons_self,
        ih fun i' there => each i' (List.mem_cons_of_mem i there)]
      rfl

theorem nodup_stubNames (m : ModuleNeeds) : (stubNames m).Nodup :=
  (List.perm_insertionSort _ _).nodup_iff.mpr (m.names.nodup.filter _)

theorem mem_stubNames {m : ModuleNeeds} {name : String} :
    name ∈ stubNames m ↔ name ∈ m.names ∧ name ∉ RESERVED := by
  rw [stubNames, (List.perm_insertionSort _ _).mem_iff, List.mem_filter, OrdSet.mem_items]
  simp

theorem values_stubItems (m : ModuleNeeds) :
    (stubItems m).flatMap Item.values = ["makeStub", "StubAny"] ++ stubNames m := by
  rw [stubItems]
  split <;> split <;> simp [Item.values, List.flatMap_assoc]

theorem types_stubItems (m : ModuleNeeds) :
    (stubItems m).flatMap Item.types = ["makeStub", "StubAny"] ++ stubNames m := by
  rw [stubItems]
  split <;> split <;> simp [Item.types, List.flatMap_assoc]

theorem wellBound_stubItems {m : ModuleNeeds} (legal : ∀ name ∈ stubNames m, Legal u name) :
    WellBound (stubItems m) := by
  have bound : (["makeStub", "StubAny"] ++ stubNames m).Nodup :=
    List.nodup_append.mpr ⟨by decide, nodup_stubNames m, fun imported isImported name isName same =>
      (legal name isName).notImported (same ▸ isImported)⟩
  refine ⟨values_stubItems m ▸ bound, types_stubItems m ▸ bound, ?_⟩
  have noDefault : ((stubNames m).flatMap fun n => [Item.const n, .type n]).count .default = 0 :=
    List.count_eq_zero.mpr (by simp)
  rw [stubItems]
  split <;> split <;> simp [noDefault]

theorem mem_exports_stubItems {m : ModuleNeeds} {name : String} :
    name ∈ (stubItems m).flatMap Item.exports ↔
      name ∈ stubNames m ∨ name = "default" ∧ m.needsDefault = true := by
  rw [stubItems]
  split <;> split <;> simp_all [Item.exports, List.flatMap_assoc]

theorem toList_stub_eq (root : Path) (spec : String) (m : ModuleNeeds) :
    (stub root spec m).toList = (lines root (adapterPathFor root spec) spec m).flatMap newline :=
  toList_stub root spec m

theorem tokens_eq_some {text : String} {ts : List Token} :
    tokens u text = some ts ↔ Scans (readChar u) .ground text.toList .ground ts := by
  rw [tokens, Scans]
  split
  next ts' scanned => simp [scanned]
  next other =>
    refine iff_of_false (by simp) fun scanned => other ts scanned

/-- A generated module whose names are legal is valid and exports the names and the default. -/
theorem moduleExports_stub {root : Path} {spec : String} {m : ModuleNeeds} (clean : Clean spec)
    (quotable : Quotable (relativeToStub root (adapterPathFor root spec)).toList)
    (legal : ∀ name ∈ stubNames m, Legal u name) :
    moduleExports u (stub root spec m) = some ((stubItems m).flatMap Item.exports) := by
  have scans := scans_lines clean quotable fun name there => (legal name there).identifier
  rw [← toList_stub_eq, ← tokens_eq_some] at scans
  have parsed : statements (((stubItems m).map _).flatMap ended) = some ((stubItems m).map _) :=
    statements_flatMap_ended (by
      simpa using fun i _ => semicolon_notMem_itemTokens spec
        (relativeToStub root (adapterPathFor root spec)) i)
  have items : ((stubItems m).map (itemTokens spec
      (relativeToStub root (adapterPathFor root spec)))).mapM item = some (stubItems m) :=
    mapM_map_eq_some (item_itemTokens legal)
  simp only [moduleExports, scans, Option.bind_eq_bind, Option.bind_some, parsed, items,
    if_pos (wellBound_stubItems legal)]

/-! ## Exported names are legal -/

/-- A word that is being read is an identifier so far. -/
def Mode.Reads (u : IdentifierTable) : Mode → Prop
  | .word read => u.IsIdentifier (String.ofList read)
  | _ => True

theorem readGround_reads {c : Char} {mode : Mode} {out : List Token}
    (here : readGround u c = some (mode, out)) :
    mode.Reads u ∧ ∀ text, Token.word text ∉ out := by
  rw [readGround] at here
  split at here
  · cases here
    exact ⟨trivial, by simp⟩
  split at here
  · cases here
    exact ⟨trivial, by simp⟩
  split at here
  · cases here
    exact ⟨trivial, by simp⟩
  split at here
  next start =>
    cases here
    exact ⟨⟨c, [], by simp, start, by simp⟩, by simp⟩
  split at here
  · cases here
    exact ⟨trivial, by simp⟩
  · cases here

theorem readChar_reads {s t : Mode} {c : Char} {out : List Token} (reads : s.Reads u)
    (here : readChar u s c = some (t, out)) :
    t.Reads u ∧ ∀ token ∈ out, ∀ text, token = .word text → u.IsIdentifier text := by
  have other : (∀ text, Token.word text ∉ out) →
      ∀ token ∈ out, ∀ text, token = .word text → u.IsIdentifier text := by
    rintro none token there text rfl
    exact absurd there (none text)
  cases s with
  | ground =>
      obtain ⟨reads, none⟩ := readGround_reads here
      exact ⟨reads, other none⟩
  | word read =>
      rw [readChar] at here
      split at here
      next part =>
        cases here
        obtain ⟨first, rest, isRead, start, parts⟩ := reads
        refine ⟨⟨first, rest ++ [c], ?_, start, ?_⟩, by simp⟩
        · rw [String.toList_ofList] at isRead ⊢
          rw [isRead, List.cons_append]
        · intro c' there
          rcases List.mem_append.mp there with inRest | isLast
          · exact parts c' inRest
          · exact List.mem_singleton.mp isLast ▸ part
      · obtain ⟨⟨mode, more⟩, ground, same⟩ := Option.map_eq_some_iff.mp here
        cases same
        obtain ⟨readsOn, none⟩ := readGround_reads ground
        refine ⟨readsOn, ?_⟩
        rintro token there text rfl
        rcases List.mem_cons.mp there with isFirst | later
        · cases isFirst
          exact reads
        · exact absurd later (none text)
  | slash =>
      rw [readChar] at here
      split at here <;> cases here
      exact ⟨trivial, by simp⟩
  | comment =>
      cases here
      exact ⟨by split <;> trivial, by simp⟩
  | commentStar =>
      cases here
      exact ⟨by split <;> (try split) <;> trivial, by simp⟩
  | string read =>
      rw [readChar] at here
      split at here
      · cases here
        exact ⟨trivial, by simp⟩
      · split at here <;> cases here
        exact ⟨trivial, by simp⟩

theorem isIdentifier_of_tokens {text word : String} {ts : List Token}
    (read : tokens u text = some ts) (there : .word word ∈ ts) : u.IsIdentifier word :=
  (Scans.emits readChar_reads (tokens_eq_some.mp read) trivial).2 _ there word rfl

theorem mem_of_mem_splitOn {α : Type} [BEq α] {sep : α} {as : List α} : ∀ {part : List α} {a : α},
    part ∈ as.splitOn sep → a ∈ part → a ∈ as := by
  induction as with
  | nil =>
      intro part a isPart there
      rw [List.splitOn_nil, List.mem_singleton] at isPart
      exact isPart ▸ there
  | cons first as ih =>
      intro part a isPart there
      rw [List.splitOn_cons_eq_if_modifyHead] at isPart
      split at isPart
      · rcases List.mem_cons.mp isPart with rfl | isLater
        · cases there
        · exact List.mem_cons_of_mem first (ih isLater there)
      · obtain ⟨head, rest, split⟩ := List.exists_cons_of_ne_nil (List.splitOn_ne_nil sep as)
        rw [split, List.modifyHead_cons] at isPart
        rcases List.mem_cons.mp isPart with rfl | isLater
        · rcases List.mem_cons.mp there with rfl | inHead
          · exact List.mem_cons_self
          · exact List.mem_cons_of_mem first (ih (split ▸ List.mem_cons_self) inHead)
        · exact List.mem_cons_of_mem first
            (ih (split ▸ List.mem_cons_of_mem head isLater) there)

theorem name_of_item {st : List Token} {i : Item} {name : String} (parsed : item st = some i)
    (exported : name ∈ i.exports) (notDefault : name ≠ "default") :
    .word name ∈ st ∧ name ∉ reservedWords ∧ (name ∈ i.values ∨ name ∈ i.types) := by
  rw [item.eq_def] at parsed
  split at parsed
  · split at parsed <;> cases parsed
    cases exported
  next bound _ _ _ =>
    split at parsed
    · cases parsed
    next notReserved =>
      cases parsed
      rw [Item.exports, List.mem_singleton] at exported
      subst exported
      exact ⟨by simp, notReserved, Or.inl List.mem_cons_self⟩
  · split at parsed
    · split at parsed
      · cases parsed
      next notReserved =>
        cases parsed
        rw [Item.exports, List.mem_singleton] at exported
        subst exported
        exact ⟨by simp, notReserved, Or.inr List.mem_cons_self⟩
    · cases parsed
  · cases parsed
    exact absurd (List.mem_singleton.mp exported) notDefault
  · cases parsed
    cases exported
  · cases parsed

theorem mapM_eq_some_mem {β γ : Type} {f : β → Option γ} {bs : List β} : ∀ {items : List γ},
    bs.mapM f = some items → ∀ i ∈ items, ∃ b ∈ bs, f b = some i := by
  induction bs with
  | nil =>
      intro items parsed i there
      cases parsed
      cases there
  | cons b bs ih =>
      intro items parsed i there
      rw [List.mapM_cons] at parsed
      obtain ⟨first, here, rest⟩ := Option.bind_eq_some_iff.mp parsed
      obtain ⟨later, isLater, same⟩ := Option.bind_eq_some_iff.mp rest
      cases same
      rcases List.mem_cons.mp there with rfl | there
      · exact ⟨b, List.mem_cons_self, here⟩
      · obtain ⟨b', isMember, parsed'⟩ := ih isLater i there
        exact ⟨b', List.mem_cons_of_mem b isMember, parsed'⟩

/-- The stages of reading a valid module. -/
theorem moduleExports_eq_some {text : String} {names : List String} :
    moduleExports u text = some names ↔
      ∃ ts sts items, tokens u text = some ts ∧ statements ts = some sts ∧
        sts.mapM item = some items ∧ WellBound items ∧ names = items.flatMap Item.exports := by
  simp only [moduleExports, Option.bind_eq_bind, Option.bind_eq_some_iff]
  constructor
  · rintro ⟨ts, isTokens, sts, isStatements, items, isItems, exported⟩
    split at exported
    next bound =>
      cases exported
      exact ⟨ts, sts, items, isTokens, isStatements, isItems, bound, rfl⟩
    · cases exported
  · rintro ⟨ts, sts, items, isTokens, isStatements, isItems, bound, rfl⟩
    exact ⟨ts, isTokens, sts, isStatements, items, isItems, if_pos bound⟩

/-- A statement of the tokens after a first one. -/
theorem statements_ended {first ts : List Token} {sts : List (List Token)}
    (apart : Token.punctuation ';' ∉ first) (parsed : statements (ended first ++ ts) = some sts) :
    ∃ rest, sts = first :: rest := by
  have parts : (ended first ++ ts).splitOn (.punctuation ';') =
      first :: ts.splitOn (.punctuation ';') := by
    rw [ended, List.append_assoc, List.singleton_append,
      List.splitOn_append_cons_self_of_not_mem apart]
  rw [statements, parts] at parsed
  obtain ⟨part, rest, split⟩ :=
    List.exists_cons_of_ne_nil (List.splitOn_ne_nil (.punctuation ';') ts)
  rw [split] at parsed
  split at parsed
  · exact ⟨_, (Option.some.inj parsed).symm⟩
  · cases parsed

theorem mem_of_statements {ts st : List Token} {sts : List (List Token)} {token : Token}
    (parsed : statements ts = some sts) (isStatement : st ∈ sts) (there : token ∈ st) :
    token ∈ ts := by
  rw [statements] at parsed
  split at parsed
  · cases parsed
    exact mem_of_mem_splitOn (List.mem_of_mem_dropLast isStatement) there
  · cases parsed

/-- The first item of a generated module is the import of its helpers. -/
theorem items_stub {root : Path} {spec : String} {m : ModuleNeeds} {ts : List Token}
    {sts : List (List Token)} {items : List Item} (clean : Clean spec)
    (quotable : Quotable (relativeToStub root (adapterPathFor root spec)).toList)
    (read : tokens u (stub root spec m) = some ts) (split : statements ts = some sts)
    (parsed : sts.mapM item = some items) :
    ∃ rest, items = .imports ["makeStub", "StubAny"] :: rest := by
  have scanned := tokens_eq_some.mp read
  rw [toList_stub_eq, lines, List.append_assoc, List.append_assoc, List.flatMap_append] at scanned
  obtain ⟨mode, out, out', header, -, rfl⟩ := scans_append_iff.mp scanned
  obtain ⟨-, rfl⟩ := header.unique (scans_header clean quotable)
  obtain ⟨rest, rfl⟩ := statements_ended (by simp [importTokens]) split
  rw [List.mapM_cons] at parsed
  obtain ⟨first, here, later⟩ := Option.bind_eq_some_iff.mp parsed
  obtain ⟨rest', -, same⟩ := Option.bind_eq_some_iff.mp later
  cases here
  exact ⟨rest', (Option.some.inj same).symm⟩

/-- What a generated module exports besides the default is legal. -/
theorem legal_of_moduleExports {root : Path} {spec : String} {m : ModuleNeeds}
    {names : List String} {name : String} (clean : Clean spec)
    (quotable : Quotable (relativeToStub root (adapterPathFor root spec)).toList)
    (valid : moduleExports u (stub root spec m) = some names) (exported : name ∈ names)
    (notDefault : name ≠ "default") : Legal u name := by
  obtain ⟨ts, sts, items, read, split, parsed, bound, rfl⟩ := moduleExports_eq_some.mp valid
  obtain ⟨i, isItem, isExport⟩ := List.mem_flatMap.mp exported
  obtain ⟨st, isStatement, parsedItem⟩ := mapM_eq_some_mem parsed i isItem
  obtain ⟨isWord, notReserved, isBound⟩ := name_of_item parsedItem isExport notDefault
  refine ⟨isIdentifier_of_tokens read (mem_of_statements split isStatement isWord), notReserved,
    fun isImported => ?_⟩
  -- the helpers are bound before the name
  obtain ⟨rest, rfl⟩ := items_stub clean quotable read split parsed
  rcases List.mem_cons.mp isItem with rfl | inRest
  · cases isExport
  obtain ⟨values, types, -⟩ := bound
  rcases isBound with isValue | isType
  · exact List.disjoint_of_nodup_append values isImported
      (List.mem_flatMap.mpr ⟨i, inRest, isValue⟩)
  · exact List.disjoint_of_nodup_append types isImported
      (List.mem_flatMap.mpr ⟨i, inRest, isType⟩)

end

end NestifyClaw.Adapter
