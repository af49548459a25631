import Quill.Number.Binary64
import Quill.Source.Location
import Quill.Token.Kind

/-!
# Tokens

A token has a kind, a value and the location of its first character. Locations take no part in
comparisons. `Token.hasKind` asks for a kind, where `anyOp` on either side agrees with every
operator; `Token.same` compares two tokens, operators by kind alone and all others by kind and
value.
-/

namespace Quill

/-- What a token or a leaf of a tree carries. -/
inductive Value where
  /-- The number that a numeral denotes. -/
  | number (x : Binary64)
  /-- A name, a reserved word, the text of a string literal or the spelling of an operator. -/
  | text (s : String)
  /-- A truth value. -/
  | bool (b : Bool)
  /-- Nothing. -/
  | absent
  deriving DecidableEq

namespace Value

/-- Equality of values. Numbers are compared as numbers, and beside a number a truth value counts as
one or zero. -/
def same : Value → Value → Bool
  | number x, number y => x.same y
  | number x, bool b => x.same (.ofBool b)
  | bool a, number y => (Binary64.ofBool a).same y
  | text s, text t => s = t
  | bool a, bool b => a = b
  | absent, absent => true
  | _, _ => false

/-- A value as a token shows it, text without quotes. -/
def plain : Value → String
  | number x => x.text
  | text s => s
  | bool true => "True"
  | bool false => "False"
  | absent => "None"

end Value

/-- A positioned token. -/
structure Token where
  /-- What the token is. -/
  kind : Kind
  /-- What the token carries. -/
  value : Value
  /-- Where its first character stands. -/
  start : Location
  deriving DecidableEq

namespace Token

/-- The offset of the first character. -/
def pos (t : Token) : Int := t.start.offset

/-- Whether the token is an operator, or stands for all of them. -/
def isOperator (t : Token) : Bool := t.kind.isOperator

/-- Whether the token is of a kind, its value aside. -/
def hasKind (t : Token) (kind : Kind) : Bool :=
  if kind = .anyOp ∨ t.kind = .anyOp then t.isOperator && kind.isOperator else t.kind = kind

/-- Whether two tokens agree, their locations aside. -/
def same (s t : Token) : Bool :=
  if s.isOperator || t.isOperator then s.hasKind t.kind
  else s.kind = t.kind && s.value.same t.value

/-- A token in words: its kind and its value. -/
def render (t : Token) : String := "Token(" ++ t.kind.name ++ ", " ++ t.value.plain ++ ")"

/-- The tokens of a list of which no earlier one agrees with them. -/
def distinct (ts : List Token) : List Token :=
  ts.foldl (fun kept t => if kept.any (·.same t) then kept else kept ++ [t]) []

end Token

end Quill
