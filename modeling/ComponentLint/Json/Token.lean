import ComponentLint.Json.Numeral
import ComponentLint.Text.Basic

/-!
# The tokens of a JSON text

The text is read one character at a time.  Words and runs of number characters are collected and
judged when they end; a string literal is decoded while it is read.

## Main definitions

* `Json.Token` — a token.
* `Json.Literal` — a string literal that is being read.
* `Json.Lexer`, `Json.Lexer.step` — the state of reading and its step on a character.
* `Json.tokens? t` — the tokens of a text.
-/

namespace ComponentLint.Json

/-- A token of a JSON text. -/
inductive Token where
  | openBrace
  | closeBrace
  | openBracket
  | closeBracket
  | comma
  | colon
  /-- A word or a number. -/
  | scalar (j : Json)
  /-- A string literal; it has no content if half of a surrogate pair is missing. -/
  | literal (content : Option String)

/-! ### String literals -/

/-- A string literal that is being read. -/
structure Literal where
  /-- The characters read so far, the last one first. -/
  read : List Char := []
  /-- The first half of a surrogate pair, waiting for the second. -/
  half : Option Nat := none
  /-- Whether all pairs so far were complete. -/
  whole : Bool := true

namespace Literal

/-- Adds a character.  A half pair before it stays a half. -/
def push (l : Literal) (c : Char) : Literal :=
  { read := c :: l.read, half := none, whole := l.whole && l.half.isNone }

/-- Adds the code unit of a `\u` escape. -/
def pushUnit (l : Literal) (u : Nat) : Literal :=
  if 0xd800 ≤ u ∧ u < 0xdc00 then { l with half := some u, whole := l.whole && l.half.isNone }
  else if 0xdc00 ≤ u ∧ u < 0xe000 then
    match l.half with
    | none => { l with whole := false }
    | some h =>
      { l with
        read := Char.ofNat (0x10000 + (h - 0xd800) * 0x400 + (u - 0xdc00)) :: l.read
        half := none }
  else l.push (Char.ofNat u)

/-- The content of the literal, if it denotes one. -/
def content (l : Literal) : Option String :=
  if l.whole && l.half.isNone then some (String.ofList l.read.reverse) else none

end Literal

/-- What a letter after a backslash stands for. -/
def escape? (c : Char) : Option Char :=
  match c with
  | '\x22' => some '\x22'
  | '\\' => some '\\'
  | '/' => some '/'
  | 'b' => some '\x08'
  | 'f' => some '\x0c'
  | 'n' => some '\n'
  | 'r' => some '\r'
  | 't' => some '\t'
  | _ => none

/-- The value of a hexadecimal digit. -/
def hexDigit? (c : Char) : Option Nat :=
  if '0' ≤ c ∧ c ≤ '9' then some (c.toNat - '0'.toNat)
  else if 'a' ≤ c ∧ c ≤ 'f' then some (c.toNat - 'a'.toNat + 10)
  else if 'A' ≤ c ∧ c ≤ 'F' then some (c.toNat - 'A'.toNat + 10)
  else none

/-! ### The lexer -/

/-- What is being read. -/
inductive Scan where
  | between
  /-- A word, the last letter first. -/
  | word (read : List Char)
  /-- A number, the last character first. -/
  | digits (read : List Char)
  | literal (l : Literal)
  /-- The character after a backslash. -/
  | escape (l : Literal)
  /-- A `\u` escape: how many of its digits were read, and their value. -/
  | unit (l : Literal) (count value : Nat)

/-- The state of reading a text. -/
structure Lexer where
  /-- The tokens read so far, the last one first. -/
  tokens : List Token := []
  scan : Scan := .between

namespace Lexer

/-- The token of a finished word. -/
def wordToken? (read : List Char) : Option Token :=
  match String.ofList read.reverse with
  | "null" => some (.scalar .null)
  | "true" => some (.scalar (.bool true))
  | "false" => some (.scalar (.bool false))
  | _ => none

/-- Ends a word or number that is being read; inside a string literal nothing can end. -/
def settle (l : Lexer) : Option (List Token) :=
  match l.scan with
  | .between => some l.tokens
  | .word read => (wordToken? read).map (· :: l.tokens)
  | .digits read => (number? read.reverse).map (Token.scalar · :: l.tokens)
  | _ => none

/-- Reads a character between tokens. -/
def start (tokens : List Token) (c : Char) : Option Lexer :=
  match c with
  | ' ' | '\t' | '\n' | '\r' => some ⟨tokens, .between⟩
  | '\x7b' => some ⟨.openBrace :: tokens, .between⟩
  | '\x7d' => some ⟨.closeBrace :: tokens, .between⟩
  | '[' => some ⟨.openBracket :: tokens, .between⟩
  | ']' => some ⟨.closeBracket :: tokens, .between⟩
  | ',' => some ⟨.comma :: tokens, .between⟩
  | ':' => some ⟨.colon :: tokens, .between⟩
  | '\x22' => some ⟨tokens, .literal {}⟩
  | c =>
    if c.isDigit || c == '-' then some ⟨tokens, .digits [c]⟩
    else if c.isLower then some ⟨tokens, .word [c]⟩
    else none

/-- Whether a character can go on a number. -/
def isNumberChar (c : Char) : Bool :=
  c.isDigit || c == '.' || c == '-' || c == '+' || c == 'e' || c == 'E'

/-- Reads one character. -/
def step (l : Lexer) (c : Char) : Option Lexer :=
  match l.scan with
  | .between => start l.tokens c
  | .word read =>
    if c.isLower then some { l with scan := .word (c :: read) }
    else l.settle.bind (start · c)
  | .digits read =>
    if isNumberChar c then some { l with scan := .digits (c :: read) }
    else l.settle.bind (start · c)
  | .literal s =>
    if c = '\x22' then some ⟨.literal s.content :: l.tokens, .between⟩
    else if c = '\\' then some { l with scan := .escape s }
    else if c.toNat < 0x20 then none
    else some { l with scan := .literal (s.push c) }
  | .escape s =>
    if c = 'u' then some { l with scan := .unit s 0 0 }
    else (escape? c).map fun c => { l with scan := .literal (s.push c) }
  | .unit s count value =>
    (hexDigit? c).map fun digit =>
      let value := 16 * value + digit
      if count = 3 then { l with scan := .literal (s.pushUnit value) }
      else { l with scan := .unit s (count + 1) value }

end Lexer

/-- The tokens of a text. -/
def tokens? (t : Text) : Option (List Token) := do
  let l ← t.foldlM Lexer.step {}
  return (← l.settle).reverse

end ComponentLint.Json
