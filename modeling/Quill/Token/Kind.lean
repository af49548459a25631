/-!
# Kinds of token

Every token has a kind. Operators and punctuation have one kind each (a line feed and a semicolon
share one, the signs `+` and `-` have two), reserved words have one each, and literals, names and
the end of input have the rest. `anyOp` stands for every operator at once and is never read from a
text. A keyword table may also name a kind that is none of these; it is kept as `custom`.

Kinds have names, which messages show; `Kind.ofName` finds the kind of a name, and
`name_ofName` says that no name is lost by it.
-/

namespace Quill

/-- Operators and punctuation. -/
inductive Operator where
  | add | sub | mul | div | intDiv | mod | pow
  /-- A plus sign before its only operand. -/
  | pos
  /-- A minus sign before its only operand. -/
  | neg
  | eq | ne | lt | le | gt | ge
  | and | or | not
  | bitAnd | bitOr | bitXor | bitNot | shl | shr
  /-- Shift to the right that fills with zeros. -/
  | ushr
  | assign | comma | lparen | rparen | lbrace | rbrace
  /-- A semicolon or a line feed. -/
  | lineEnd
  deriving DecidableEq

namespace Operator

/-- The name of an operator. -/
def name : Operator → String
  | add => "ADD" | sub => "SUB" | mul => "MUL" | div => "DIV" | intDiv => "INT_DIV" | mod => "MOD"
  | pow => "POW" | pos => "POS" | neg => "NEG"
  | eq => "EQ" | ne => "NE" | lt => "LT" | le => "LE" | gt => "GT" | ge => "GE"
  | and => "AND" | or => "OR" | not => "NOT"
  | bitAnd => "BIT_AND" | bitOr => "BIT_OR" | bitXor => "BIT_XOR" | bitNot => "BIT_NOT"
  | shl => "SHL" | shr => "SHR" | ushr => "USHR"
  | assign => "ASSIGN" | comma => "COMMA" | lparen => "LPAREN" | rparen => "RPAREN"
  | lbrace => "LBRACE" | rbrace => "RBRACE" | lineEnd => "LINE_END"

/-- Every operator. -/
def all : List Operator :=
  [add, sub, mul, div, intDiv, mod, pow, pos, neg, eq, ne, lt, le, gt, ge, and, or, not, bitAnd,
    bitOr, bitXor, bitNot, shl, shr, ushr, assign, comma, lparen, rparen, lbrace, rbrace, lineEnd]

/-- How operators are spelled. A sign is spelled as its binary operator, which it becomes unary
from where it stands. -/
def lexemes : List (List Char × Operator) :=
  [(['+'], add), (['-'], sub), (['*'], mul), (['*', '*'], pow), (['/'], div),
    (['/', '/'], intDiv), (['%'], mod), (['=', '='], eq), (['!', '='], ne), (['<'], lt),
    (['<', '='], le), (['>'], gt), (['>', '='], ge), (['&', '&'], and), (['|', '|'], or),
    (['!'], not), (['&'], bitAnd), (['|'], bitOr), (['^'], bitXor), (['~'], bitNot),
    (['<', '<'], shl), (['>', '>'], shr), (['>', '>', '>'], ushr), (['='], assign),
    ([','], comma), (['('], lparen), ([')'], rparen), (['{'], lbrace), (['}'], rbrace),
    ([';'], lineEnd), (['\n'], lineEnd)]

/-- Characters in the longest spelling. -/
def longest : Nat := (lexemes.map fun entry => entry.1.length).foldl max 0

/-- The operators that chain terms. -/
def additive : List Operator := [add, sub]

/-- The operators that chain powers. -/
def multiplicative : List Operator := [mul, div, intDiv, mod]

/-- The operators that compare, all of one precedence. -/
def relational : List Operator := [eq, ne, lt, le, gt, ge]

end Operator

/-- Reserved words. -/
inductive Keyword where
  | if_ | else_ | elif | return_ | fn | state | write | read | for_ | in_ | array
  deriving DecidableEq

namespace Keyword

/-- The name of a reserved word's kind. -/
def name : Keyword → String
  | if_ => "IF" | else_ => "ELSE" | elif => "ELIF" | return_ => "RETURN" | fn => "FN"
  | state => "STATE" | write => "WRITE" | read => "READ" | for_ => "FOR" | in_ => "IN"
  | array => "ARRAY"

/-- The reserved word itself. -/
def word : Keyword → String
  | if_ => "if" | else_ => "else" | elif => "elif" | return_ => "return" | fn => "fn"
  | state => "state" | write => "write" | read => "read" | for_ => "for" | in_ => "in"
  | array => "array"

/-- Every reserved word. -/
def all : List Keyword :=
  [if_, else_, elif, return_, fn, state, write, read, for_, in_, array]

end Keyword

/-- What a token is. -/
inductive Kind where
  /-- An operator or a punctuation mark. -/
  | op (o : Operator)
  /-- Stands for every operator. -/
  | anyOp
  /-- A reserved word. -/
  | keyword (k : Keyword)
  /-- A numeral. -/
  | number
  /-- A string literal. -/
  | string
  /-- A truth value. -/
  | bool
  /-- A name. -/
  | ident
  /-- A character that begins no token. -/
  | other
  /-- The end of the input. -/
  | eof
  /-- A kind that only a keyword table knows. -/
  | custom (name : String)
  deriving DecidableEq

namespace Kind

/-- The name of a kind. -/
def name : Kind → String
  | op o => o.name
  | anyOp => "ANY_OP"
  | keyword k => k.name
  | number => "NUMBER"
  | string => "STRING"
  | bool => "BOOL"
  | ident => "IDENT"
  | other => "OTHER"
  | eof => "EOF"
  | custom name => name

/-- The kinds that have a name of their own. -/
def named : List Kind :=
  Operator.all.map op ++ Keyword.all.map keyword ++
    [anyOp, number, string, bool, ident, other, eof]

/-- The kind of a name. -/
def ofName (name : String) : Kind :=
  (named.find? fun k => k.name = name).getD (custom name)

/-- No name is lost by finding its kind. -/
theorem name_ofName (name : String) : (ofName name).name = name := by
  unfold ofName
  cases h : named.find? (fun k => k.name = name) with
  | none => rfl
  | some k => simpa using List.find?_some h

/-- Whether a kind is an operator, or stands for all of them. -/
def isOperator : Kind → Bool
  | op _ | anyOp => true
  | _ => false

/-- The kinds after which a sign joins two operands. After any other kind, and at the beginning, it
belongs to the operand that follows. -/
def beforeBinary : List Kind := [number, string, bool, ident, op .rparen]

/-- The kinds that can begin an arithmetic expression. -/
def exprStart : List Kind :=
  [number, string, bool, ident, op .lparen, op .pos, op .neg, op .pow]

end Kind

/-- Which words are reserved, and what kind of token each of them is. -/
abbrev KeywordTable := List (String × Kind)

namespace KeywordTable

/-- The reserved words of the language. -/
def standard : KeywordTable := Keyword.all.map fun k => (k.word, .keyword k)

end KeywordTable

/-- The words that denote truth values. -/
def boolWords : List (String × Bool) := [("true", true), ("false", false)]

end Quill
