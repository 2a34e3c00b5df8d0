import Libjadx.Lib.Brackets
import Libjadx.Spec.JavaSource
import Libjadx.Spec.SourceCoordinates

/-!
# Method ranges

`MethodRangeVerifier`: the range of a method whose declaration is known, and the check of the
`catch` headers in it. A position in a scan is the text from it on. An offset is a natural number
here; the code refuses a negative one like one behind the end.
-/

namespace Libjadx

namespace MethodRangeVerifier

open JavaSource

/-- What is behind the closing quote. -/
def skipQuoted (quote : JChar) : JString → Option JString
  | [] => none
  | c :: s =>
    if c = backslash then
      match s with
      | [] => none
      | _ :: s => skipQuoted quote s
    else if c = quote then some s
    else skipQuoted quote s

/-- What is behind the closing delimiter. -/
def skipTextBlock : JString → Option JString
  | a :: b :: c :: s =>
    if a = backslash then skipTextBlock (c :: s)
    else if [a, b, c] = delimiter then some s
    else skipTextBlock (b :: c :: s)
  | _ => none

/-- What is behind the next line feed: `indexOf('\n', …)`. -/
def skipLine : JString → Option JString
  | [] => none
  | c :: s => if c = 10 then some s else skipLine s

/-- What is behind the next `*/`. -/
def skipComment : JString → Option JString
  | a :: b :: s => if a = chr '*' ∧ b = chr '/' then some s else skipComment (b :: s)
  | _ => none

/-! ## Methods -/

/-- The variables of the loop. -/
structure Depths where
  parentheses : ℤ := 0
  headerClosed : Bool := false
  braces : ℤ := 0

inductive Verdict
  | more (depths : Depths)
  | refused
  | closed

/-- A character that is in no comment and no literal. -/
def Depths.read (d : Depths) (ch : JChar) : Verdict :=
  if !d.headerClosed then
    if ch = chr '(' then .more { d with parentheses := d.parentheses + 1 }
    else if ch = chr ')' then
      .more { d with parentheses := d.parentheses - 1, headerClosed := d.parentheses - 1 == 0 }
    else .more d
  else if d.braces = 0 then
    if ch = chr ';' then .refused
    else if ch = chr '{' then .more { d with braces := 1 }
    else .more d
  else if ch = chr '{' then .more { d with braces := d.braces + 1 }
  else if ch = chr '}' then if d.braces - 1 = 0 then .closed
    else .more { d with braces := d.braces - 1 }
  else .more d

/-- The comment or the literal that starts here, if one does: `some none` where it does not end. -/
def skip (rest : JString) : Option (Option JString) :=
  if (str "//").isPrefixOf rest then some (skipLine (rest.drop 2))
  else if (str "/*").isPrefixOf rest then some (skipComment (rest.drop 2))
  else match rest with
    | [] => none
    | ch :: s =>
      if delimiter.isPrefixOf (ch :: s) then some (skipTextBlock (s.drop 2))
      else if ch = chr '"' ∨ ch = chr '\'' then some (skipQuoted ch s)
      else none

/-- The loop, for what is behind the closing brace. Every round takes a character at least. -/
def scan : ℕ → Depths → JString → Option JString
  | _, _, [] => none
  | 0, _, _ => none
  | rounds + 1, d, ch :: s =>
    match skip (ch :: s) with
    | some none => none
    | some (some rest) => scan rounds d rest
    | none =>
      match d.read ch with
      | .more d => scan rounds d s
      | .refused => none
      | .closed => some s

def lineStart (source : JString) : ℕ → ℕ
  | 0 => 0
  | n + 1 => if source[n]? = some 10 ∨ source[n]? = some 13 then n + 1 else lineStart source n

/-- `trim`. -/
def trim (s : JString) : JString := ((s.dropWhile (· ≤ 32)).reverse.dropWhile (· ≤ 32)).reverse

/-- The line before the one that starts here is an annotation. -/
def annotated (source : JString) (lineStart : ℕ) : Bool :=
  if 0 < lineStart then
    let previousEnd := if 0 < lineStart - 1 ∧ source[lineStart - 2]? = some 13 then lineStart - 2
      else lineStart - 1
    let previousStart := MethodRangeVerifier.lineStart source previousEnd
    JString.startsWith (trim (substring source previousStart previousEnd)) (str "@")
  else false

variable {α : Type} [DecidableEq α]

/-- `metadata.get` of an offset; `none` is `null`. -/
def verify (source : JString) (nameOffset : ℕ) (emittedName : JString) (metadata : ℕ → Option α)
    (declaration endMarker : Option α) (snapshotId : JString) :
    Except Throwable (Option SourceRange) :=
  if source.length ≤ nameOffset || !JString.startsWith (source.drop nameOffset) emittedName then .ok none
  else if metadata nameOffset ≠ declaration then .ok none
  else
    let lineStart := lineStart source nameOffset
    let upto := substring source lineStart nameOffset
    if upto.contains (chr '{') || upto.contains (chr '}') || upto.contains (chr ';') then .ok none
    else if annotated source lineStart then .ok none
    else
      let rest := (source.drop (nameOffset + emittedName.length)).dropWhile isWhitespace
      if rest.head? ≠ some (chr '(') then .ok none
      else
        match scan rest.length {} rest with
        | none => .ok none
        | some behind =>
          let stop := source.length - behind.length
          if metadata stop ≠ endMarker then .ok none
          else if SourceCoordinates.isBoundary source lineStart &&
              SourceCoordinates.isBoundary source stop then
            (SourceCoordinates.checkedRange source lineStart stop snapshotId).map some
          else .ok none

/-! ## Catch headers -/

section Catches

variable (chars : IdentifierChars) (source : JString) (upto : ℕ)

/-- The index behind the characters of a kind, from `i` on and before `upto`. -/
def advance (kind : JChar → Bool) (i : ℕ) : ℕ :=
  i + (((source.take upto).drop i).takeWhile kind).length

/-- The loop of a header, for where it stops and where the last identifier is; `none` is another
character. -/
def header : ℕ → ℕ → Option (ℕ × ℕ) → Option (ℕ × Option (ℕ × ℕ))
  | 0, i, name => some (i, name)
  | rounds + 1, i, name =>
    match (source.take upto)[i]? with
    | none => some (i, name)
    | some ch =>
      if ch = chr ')' then some (i, name)
      else if chars.isJavaIdentifierStart ch then
        let nameEnd := advance source upto chars.isJavaIdentifierPart (i + 1)
        header rounds nameEnd (some (i, nameEnd))
      else if isWhitespace ch || ch == chr '.' || ch == chr '|' then header rounds (i + 1) name
      else none

variable (declarations : ℕ → Option JString)

/-- Behind the keyword `catch`, which ends before `i`: where the header closes. -/
def catchHeader (i : ℕ) : Option ℕ :=
  let i := advance source upto isWhitespace i
  if upto ≤ i || source[i]? != some (chr '(') then none
  else
    match header chars source upto upto (i + 1) none with
    | none => none
    | some (_, none) => none
    | some (i, some (nameStart, nameEnd)) =>
      if upto ≤ i || declarations nameStart != some (substring source nameStart nameEnd) then none
      else some i

/-- The loop over a range. Every round takes a character at least. -/
def catches : ℕ → ℕ → Bool
  | 0, _ => true
  | rounds + 1, i =>
    if upto ≤ i then true
    else
      match skip (source.drop i) with
      | some none => false
      | some (some rest) =>
        let next := source.length - rest.length
        if upto < next then false else catches rounds next
      | none =>
        match source[i]? with
        | none => true
        | some ch =>
          if !chars.isJavaIdentifierStart ch then catches rounds (i + 1)
          else
            let tokenEnd := advance source upto chars.isJavaIdentifierPart (i + 1)
            if substring source i tokenEnd ≠ str "catch" then catches rounds tokenEnd
            else
              match catchHeader chars source upto declarations tokenEnd with
              | none => false
              | some i => catches rounds (i + 1)

end Catches

end MethodRangeVerifier

/-! ## What the range is to be -/

namespace JavaSource

open Brackets

/-- The parentheses of the header, behind the name, close at `h`. -/
def HeaderEnd (behind : List Lexeme) (h : ℕ) : Prop :=
  ∃ p, First (bracket '(') behind p ∧ Matching (bracket '(') (bracket ')') behind p h

/-- In parentheses that open behind `h`: those of an annotation. -/
def Enclosed (behind : List Lexeme) (h k : ℕ) : Prop :=
  ∃ i, h < i ∧ Unclosed (bracket '(') (bracket ')') behind i k

/-- The body's opening brace: behind the header's parentheses, the first that is in no annotation,
and no semicolon or `default` comes before it. -/
structure BodyBrace (behind : List Lexeme) (h o : ℕ) : Prop where
  lt : h < o
  brace : behind[o]? = some (bracket '{')
  outside : ¬Enclosed behind h o
  first : ∀ k, h < k → k < o → ¬Enclosed behind h k → behind[k]? ≠ some (bracket '{') ∧
    behind[k]? ≠ some (bracket ';') ∧ behind[k]? ≠ some ⟨.word, str "default"⟩

/-- The lexeme at `c` closes the body of the method whose name is followed by these lexemes. -/
def MethodEnd (behind : List Lexeme) (c : ℕ) : Prop :=
  ∃ h o, HeaderEnd behind h ∧ BodyBrace behind h o ∧ Matching (bracket '{') (bracket '}') behind o c

/-! How far the loop reads, and what it takes for something else. -/

/-- The brace that the loop takes for the body's: the first behind the header's parentheses. -/
structure FirstBrace (behind : List Lexeme) (h o : ℕ) : Prop where
  lt : h < o
  brace : behind[o]? = some (bracket '{')
  first : ∀ k, h < k → k < o → behind[k]? ≠ some (bracket '{') ∧ behind[k]? ≠ some (bracket ';')

/-- The text from the end of a line comment up to the next line feed. -/
def Hidden (lexemes : List Lexeme) (k : ℕ) (text : JString) : Prop :=
  (∃ comment, lexemes[k]? = some ⟨.lineComment, comment⟩) ∧
    ∃ rest, textOf (lexemes.drop (k + 1)) = text ++ 10 :: rest ∧ 10 ∉ text

/-- The characters that the loop looks at. -/
def specials : JString := str "/\"'()\x7b\x7d;"

/-- The keywords and the literals that are words. -/
def reserved : List JString :=
  ["abstract", "assert", "boolean", "break", "byte", "case", "catch", "char", "class", "const",
    "continue", "default", "do", "double", "else", "enum", "extends", "final", "finally", "float",
    "for", "goto", "if", "implements", "import", "instanceof", "int", "interface", "long",
    "native", "new", "package", "private", "protected", "public", "return", "short", "static",
    "strictfp", "super", "switch", "synchronized", "this", "throw", "throws", "transient", "try",
    "void", "volatile", "while", "_", "true", "false", "null"].map str

def Lexeme.isTrivia (l : Lexeme) : Bool :=
  l.kind == .space || l.kind == .lineComment || l.kind == .blockComment

/-- Where a lexeme starts. -/
def offset (lexemes : List Lexeme) (k : ℕ) : ℕ := (textOf (lexemes.take k)).length

/-- In no comment and in no string, character or text block. -/
def Outside (lexemes : List Lexeme) (i : ℕ) : Prop :=
  ∀ k l, lexemes[k]? = some l →
    l.kind ∈ [Kind.lineComment, .blockComment, .textBlock, .string, .character] →
    i ≤ offset lexemes k ∨ offset lexemes k + l.text.length ≤ i

/-- The keyword `catch` is at `k`, between these offsets. -/
structure CatchAt (lexemes : List Lexeme) (start upto k : ℕ) : Prop where
  keyword : lexemes[k]? = some ⟨.word, str "catch"⟩
  start_le : start ≤ offset lexemes k
  le_upto : offset lexemes (k + 1) ≤ upto

/-- Directly before `i`, from `start` on, is what could be a word: as after a number with a letter
in it. -/
def Joined (chars : IdentifierChars) (source : JString) (start i : ℕ) : Prop :=
  ∃ q, start ≤ q ∧ q < i ∧ source[q]?.any chars.isJavaIdentifierStart = true ∧
    ∀ n, q ≤ n → n < i → source[n]?.any chars.isJavaIdentifierPart = true

/-- In a header of another `catch`: nothing but words, white space, points and bars after its
parenthesis. -/
def InHeader (chars : IdentifierChars) (source : JString) (lexemes : List Lexeme) (start i : ℕ) :
    Prop :=
  ∃ q blanks text rest, start ≤ q ∧ ¬Joined chars source start q ∧ Outside lexemes q ∧
    source.drop q = str "catch" ++ (blanks ++ chr '(' :: (text ++ rest)) ∧
      i = q + 5 + blanks.length + 1 + text.length ∧
      (∀ c ∈ blanks, isWhitespace c = true) ∧
        ∀ c ∈ text, (chars.isJavaIdentifierPart c || isWhitespace c || c == chr '.' ||
          c == chr '|') = true

/-- The last word between the parentheses behind the lexeme at `k` is at `m`. -/
def LastWordAt (lexemes : List Lexeme) (k m : ℕ) : Prop :=
  ∃ i j, k < i ∧ (∀ n, k < n → n < i → lexemes[n]?.any Lexeme.isTrivia = true) ∧
    Matching (bracket '(') (bracket ')') lexemes i j ∧ i < m ∧ m < j ∧
      lexemes[m]?.any (·.kind == .word) = true ∧
      ∀ n, m < n → n < j → lexemes[n]?.any (·.kind == .word) = false

section Seen

variable (chars : IdentifierChars) (source : JString) (lexemes : List Lexeme)
    (declarations : ℕ → Option JString)
  (start upto : ℕ)

/-- Where the loop answers that the range is not verified: at a header that it refuses, and at a
line comment with no line feed behind it in the range. -/
def Stops (k : ℕ) : Prop :=
  (CatchAt lexemes start upto k ∧
    MethodRangeVerifier.catchHeader chars source upto declarations
      (offset lexemes (k + 1)) = none) ∨
  (start ≤ offset lexemes k ∧ (∃ comment, lexemes[k]? = some ⟨.lineComment, comment⟩) ∧
    ∀ text, Hidden lexemes k text → upto ≤ offset lexemes (k + 1) + text.length)

/-- The loop does not stop before the lexeme at `k`. -/
def Reached (k : ℕ) : Prop := ∀ m < k, ¬Stops chars source lexemes declarations start upto m

/-- As far as the loop comes, it sees the keywords: between a line comment and the next line feed,
which is not the end of the comment when a carriage return is, are no keyword, quote or slash; no
keyword is right behind a number's letters or in another one's header; and no header that it takes
records a keyword for its last name. -/
structure Seen : Prop where
  hidden : ∀ k text, Reached chars source lexemes declarations start upto (k + 1) →
    start ≤ offset lexemes k →
    Hidden lexemes k text → (∀ c ∈ text, c ∉ str "/\"'") ∧
      ∀ m, k < m → CatchAt lexemes start upto m → offset lexemes (k + 1) +
        text.length ≤ offset lexemes m
  apart : ∀ k, Reached chars source lexemes declarations start upto k →
    CatchAt lexemes start upto k →
    ¬Joined chars source start (offset lexemes k)
  outer : ∀ k, Reached chars source lexemes declarations start upto k →
    CatchAt lexemes start upto k →
    ¬InHeader chars source lexemes start (offset lexemes k)
  names : ∀ k m l, Reached chars source lexemes declarations start upto (k + 1) →
    CatchAt lexemes start upto k →
    LastWordAt lexemes k m → lexemes[m]? = some l → l.text ∈ reserved →
      declarations (offset lexemes m) ≠ some l.text

end Seen

end JavaSource

end Libjadx
