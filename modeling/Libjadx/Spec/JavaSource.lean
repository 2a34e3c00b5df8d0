import Libjadx.Spec.Symbols

/-!
# The lexical structure of Java

A source is cut into white space, comments, literals, words (identifiers and keywords) and single
symbols, each as long as it can be (`Lexes`). Unicode escapes are left aside. Line terminators are
line feeds and carriage returns, alone or together. Operators of several characters are taken one by
one, and what stands between the quotes of a character literal is not limited to one: more sources
lex here than for a compiler, and none of them differently.
-/

namespace Libjadx

/-- The answers of `Character`, of a single `char`. A surrogate is in no word here: what is said of
every word is said of more. -/
structure IdentifierChars where
  isJavaIdentifierStart : JChar → Bool
  isJavaIdentifierPart : JChar → Bool
  part_of_start : ∀ c, isJavaIdentifierStart c = true → isJavaIdentifierPart c = true
  not_whitespace : ∀ c, isJavaIdentifierPart c = true → isWhitespace c = false
  /-- The letters, the dollar sign and the underscore. -/
  start_ascii : ∀ c < 0x80, isJavaIdentifierStart c =
    ((chr 'A' ≤ c && c ≤ chr 'Z') || (chr 'a' ≤ c && c ≤ chr 'z') || c == chr '$' || c == chr '_')
  /-- The digits and the ignorable controls besides. -/
  part_ascii : ∀ c < 0x80, isJavaIdentifierPart c =
    (isJavaIdentifierStart c || (chr '0' ≤ c && c ≤ chr '9') || c ≤ 8 ||
      (0xE ≤ c && c ≤ 0x1B) || c == 0x7F)

namespace JavaSource

def isTerminator (c : JChar) : Bool := c == 10 || c == 13

/-- Space, tab and form feed. -/
def isBlank (c : JChar) : Bool := c == 32 || c == 9 || c == 12

/-- The characters of separators and operators. -/
def isSymbol (c : JChar) : Bool := (str "()\x7b\x7d[];,.@:=<>!~?&|+-*/^%").contains c

def backslash : JChar := 0x5C

/-! ## Numeric literals -/

def isDigit (c : JChar) : Bool := chr '0' ≤ c && c ≤ chr '9'

def isHexDigit (c : JChar) : Bool :=
  isDigit c || (chr 'a' ≤ c && c ≤ chr 'f') || (chr 'A' ≤ c && c ≤ chr 'F')

def isOctalDigit (c : JChar) : Bool := chr '0' ≤ c && c ≤ chr '7'

def isBinaryDigit (c : JChar) : Bool := c == chr '0' || c == chr '1'

/-- Digits, with underscores between them. -/
def digitRun (digit : JChar → Bool) (s : JString) : Bool :=
  s.all (fun c => digit c || c == chr '_') && s.head?.any digit && s.getLast?.any digit

/-- What follows `0x` or `0b`. -/
def behindMark (mark : Char) : JString → Option JString
  | a :: b :: s => if a = chr '0' ∧ (b = chr mark ∨ b = chr mark.toUpper) then some s else none
  | _ => none

def integerNumeral (s : JString) : Bool :=
  s == str "0" || (digitRun isDigit s && s.head? != some (chr '0')) ||
    (digitRun isOctalDigit s && s.head? == some (chr '0')) ||
    (behindMark 'x' s).any (digitRun isHexDigit) || (behindMark 'b' s).any (digitRun isBinaryDigit)

/-- All ways to cut a text in two. -/
def cuts (s : JString) : List (JString × JString) := (List.range (s.length + 1)).map fun n =>
    (s.take n, s.drop n)

/-- An exponent: its letter, a sign if any, and digits. -/
def exponent (letter : Char) : JString → Bool
  | a :: b :: s => (a == chr letter || a == chr letter.toUpper) &&
      (digitRun isDigit (b :: s) || ((b == chr '+' || b == chr '-') && digitRun isDigit s))
  | _ => false

/-- Digits and a point, with digits on one side of it at least. -/
def fraction (digit : JChar → Bool) (s : JString) : Bool :=
  (cuts s).any fun (whole, rest) => match rest with
    | [] => false
    | point :: part => point == chr '.' && (whole.isEmpty || digitRun digit whole) &&
        (part.isEmpty || digitRun digit part) &&
        !(whole.isEmpty && part.isEmpty)

/-- Without a point, a decimal number needs an exponent or the letter behind it. -/
def decimalFloat (suffix : Bool) (s : JString) : Bool :=
  (cuts s).any fun (significand, power) => (power.isEmpty || exponent 'e' power) &&
    (fraction isDigit significand || (digitRun isDigit significand && (suffix || !power.isEmpty)))

def hexFloat (s : JString) : Bool :=
  (behindMark 'x' s).any fun s => (cuts s).any fun (significand, power) => exponent 'p' power &&
    (digitRun isHexDigit significand || fraction isHexDigit significand)

def floatSuffix (c : JChar) : Bool := (str "fFdD").contains c

def numericLiteral (s : JString) : Bool :=
  integerNumeral s || decimalFloat false s || hexFloat s ||
    (s.getLast?.any (fun c => c == chr 'l' || c == chr 'L') && integerNumeral s.dropLast) ||
    (s.getLast?.any floatSuffix && (decimalFloat true s.dropLast || hexFloat s.dropLast))

/-! ## Lexemes -/

/-- What stands between the quotes of a string or a character literal. -/
inductive QuotedBody (quote : JChar) : JString → Prop
  | nil : QuotedBody quote []
  | plain {c : JChar} {s : JString} : c ≠ quote → c ≠ backslash → isTerminator c = false →
      QuotedBody quote s →
      QuotedBody quote (c :: s)
  | escape {c : JChar} {s : JString} : isTerminator c = false → QuotedBody quote s →
      QuotedBody quote (backslash :: c :: s)

def delimiter : JString := str "\"\"\""

/-- The content of a text block: no delimiter in it, but for escapes. -/
inductive TextBody : JString → Prop
  | nil : TextBody []
  | plain {c : JChar} {s : JString} : c ≠ backslash → ¬delimiter <+: c :: s ++ delimiter →
      TextBody s → TextBody (c :: s)
  | escape {c : JChar} {s : JString} : TextBody s → TextBody (backslash :: c :: s)

inductive Kind
  | space | lineComment | blockComment | textBlock | string | character | numeral | word | symbol
deriving DecidableEq

structure Lexeme where
  kind : Kind
  text : JString
deriving DecidableEq

def bracket (c : Char) : Lexeme := ⟨.symbol, [chr c]⟩

variable (chars : IdentifierChars)

/-- The first lexeme of a text, and what is behind it. -/
def IsLexeme (text rest : JString) : Kind → Prop
  | .space => ∃ c, text = [c] ∧ (isBlank c || isTerminator c) = true
  | .lineComment => ∃ body, text = str "//" ++ body ∧ (∀ c ∈ body, isTerminator c = false) ∧
      ∀ c ∈ rest.head?, isTerminator c = true
  | .blockComment => ∃ body, text = str "/*" ++ (body ++ str "*/") ∧ ¬str "*/" <:+: body ++ str "*"
  | .textBlock => ∃ blanks terminator body, text = delimiter ++
      (blanks ++ terminator :: (body ++ delimiter)) ∧
      (∀ c ∈ blanks, isBlank c = true) ∧ isTerminator terminator = true ∧ TextBody body
  | .string => ∃ body, text = chr '"' :: (body ++ [chr '"']) ∧ QuotedBody (chr '"') body ∧
      ¬delimiter <+: text ++ rest
  | .character => ∃ body, text = chr '\'' :: (body ++ [chr '\'']) ∧ QuotedBody (chr '\'') body
  | .numeral => numericLiteral text = true ∧ ∀ n, text.length < n → n ≤ (text ++ rest).length →
      numericLiteral ((text ++ rest).take n) = false
  | .word => ∃ c s, text = c :: s ∧ chars.isJavaIdentifierStart c = true ∧
      (∀ d ∈ s, chars.isJavaIdentifierPart d = true) ∧
      ∀ d ∈ rest.head?, chars.isJavaIdentifierPart d = false
  | .symbol => ∃ c, text = [c] ∧ isSymbol c = true ∧
      (c = chr '/' → ∀ d ∈ rest.head?, d ≠ chr '/' ∧ d ≠ chr '*') ∧
        (c = chr '.' → ∀ d ∈ rest.head?, isDigit d = false)

/-- The lexemes of a source. A control-Z at its end is none. -/
inductive Lexes : JString → List Lexeme → Prop
  | nil : Lexes [] []
  | sub : Lexes [0x1A] []
  | cons {kind : Kind} {text rest : JString} {lexemes : List Lexeme} :
      IsLexeme chars text rest kind → Lexes rest lexemes →
      Lexes (text ++ rest) (⟨kind, text⟩ :: lexemes)

def textOf (lexemes : List Lexeme) : JString := lexemes.flatMap Lexeme.text

end JavaSource

end Libjadx
