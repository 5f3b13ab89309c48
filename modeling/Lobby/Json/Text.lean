import Lobby.Json.Token

/-! JSON values as text: written without blanks, and read by a machine with an explicit stack that
takes one token at a time. -/
namespace Lobby

namespace Number.Literal

def digitOctets (digits : List Char) : List UInt8 :=
  digits.map fun c => UInt8.ofNat c.toNat

def renderFraction : Option (List Char) → List UInt8
  | some digits => 46 :: digitOctets digits
  | none => []

def renderExponent : Option (Bool × List Char) → List UInt8
  | some (negative, digits) => 101 :: (if negative then 45 else 43) :: digitOctets digits
  | none => []

def render (l : Literal) : List UInt8 :=
  (if l.negative then [45] else []) ++
    (digitOctets l.whole ++ (renderFraction l.fraction ++ renderExponent l.exponent))

end Number.Literal

namespace Json

def Token.render : Token → List UInt8
  | .openArray => [91]
  | .closeArray => [93]
  | .openObject => [123]
  | .closeObject => [125]
  | .comma => [44]
  | .colon => [58]
  | .null => [110, 117, 108, 108]
  | .bool true => [116, 114, 117, 101]
  | .bool false => [102, 97, 108, 115, 101]
  | .number l => l.render
  | .string body => 34 :: (body ++ [34])

mutual

/-- The tokens of a value in reverse, before those that come ahead of it. -/
def tokensAfter (before : List Token) : Json → List Token
  | .null => .null :: before
  | .bool b => .bool b :: before
  | .number l => .number l :: before
  | .string body => .string body :: before
  | .array elements => .closeArray :: elementsAfter (.openArray :: before) elements
  | .object members => .closeObject :: membersAfter (.openObject :: before) members

def elementsAfter (before : List Token) : List Json → List Token
  | [] => before
  | [v] => tokensAfter before v
  | v :: w :: rest => elementsAfter (.comma :: tokensAfter before v) (w :: rest)

def membersAfter (before : List Token) : List (List UInt8 × Json) → List Token
  | [] => before
  | [(k, v)] => tokensAfter (.colon :: .string k :: before) v
  | (k, v) :: m :: rest =>
    membersAfter (.comma :: tokensAfter (.colon :: .string k :: before) v) (m :: rest)

end

def toTokens (v : Json) : List Token :=
  (tokensAfter [] v).reverse

def render (v : Json) : List UInt8 :=
  v.toTokens.flatMap Token.render

/-- An array or object that is still open, its finished parts in reverse. -/
inductive Opened where
  | array (done : List Json)
  | object (done : List (List UInt8 × Json)) (key : List UInt8)

/-- What has been read: a value is due, the first element of an array or its end, a member name
(or, of a fresh object, its end), a colon; or a value is complete. -/
inductive Parser where
  | value (outer : List Opened)
  | first (outer : List Opened)
  | key (done : List (List UInt8 × Json)) (outer : List Opened)
  | colon (done : List (List UInt8 × Json)) (key : List UInt8) (outer : List Opened)
  | complete (value : Json) (outer : List Opened)

namespace Parser

def start (outer : List Opened) : Token → Option Parser
  | .null => some (.complete .null outer)
  | .bool b => some (.complete (.bool b) outer)
  | .number l => some (.complete (.number l) outer)
  | .string s => some (.complete (.string s) outer)
  | .openArray => some (.first outer)
  | .openObject => some (.key [] outer)
  | _ => none

def feed : Parser → Token → Option Parser
  | .value outer, t => start outer t
  | .first outer, .closeArray => some (.complete (.array []) outer)
  | .first outer, t => start (.array [] :: outer) t
  | .key done outer, .string k => some (.colon done k outer)
  | .key [] outer, .closeObject => some (.complete (.object []) outer)
  | .colon done k outer, .colon => some (.value (.object done k :: outer))
  | .complete v (.array done :: outer), .comma => some (.value (.array (v :: done) :: outer))
  | .complete v (.array done :: outer), .closeArray =>
    some (.complete (.array (v :: done).reverse) outer)
  | .complete v (.object done k :: outer), .comma => some (.key ((k, v) :: done) outer)
  | .complete v (.object done k :: outer), .closeObject =>
    some (.complete (.object ((k, v) :: done).reverse) outer)
  | _, _ => none

def result? : Parser → Option Json
  | .complete v [] => some v
  | _ => none

end Parser

def ofTokens? (tokens : List Token) : Option Json := do
  (← tokens.foldlM Parser.feed (.value [])).result?

def parse? (octets : List UInt8) : Option Json := do
  ofTokens? (← tokens? octets)

end Json

end Lobby
