import CppRag.Chunker
import CppRag.PromptBuilder
import CppRag.Foundation.Fuel

/-!
The JSON reader of the evaluation harness: one position that moves through the text, with a
read reported for every byte the code looks at. The recursion through nested values gets fuel.
-/
namespace CppRag
open Characters Observed Slice

/-- `kind_` with the member that belongs to it; the other members keep their defaults. -/
inductive Json where
  | null
  | boolean (value : Bool)
  | string (value : Bytes)
  | array (items : List Json)
  | object (members : List (Bytes × Json))

/-- `fail` throws a `std::runtime_error` with the message. -/
inductive JsonFailure where
  | failed (message : Bytes)
  | exhausted
  deriving DecidableEq, Repr

abbrev JsonReader (α : Type) : Type := Observed Access JsonFailure α

namespace Json

/-- `string_`, empty unless the value is a string. -/
def stringMember : Json → Bytes
  | .string value => value
  | _ => []

def byteAt (t : Bytes) (p : Nat) : JsonReader UInt8 := do
  report (.read p 1)
  pure (t.getD p 0)

def failed {α : Type} (message : Bytes) : JsonReader α := Observed.fail (.failed message)

def skipWs (t : Bytes) (p : Nat) : JsonReader Nat :=
  if p < t.length then do
    let c ← byteAt t p
    if isSpace c then skipWs t (p + 1) else pure p
  else pure p
termination_by t.length - p

/-- `p < t.size() && t[p] == c` -/
def nextIs (t : Bytes) (p : Nat) (c : UInt8) : JsonReader Bool :=
  if p < t.length then do
    let value ← byteAt t p
    pure (value = c)
  else pure false

def expect (t : Bytes) (p : Nat) (c : UInt8) : JsonReader Nat := do
  if ← nextIs t p c then pure (p + 1)
  else
    failed (ascii "expected '" ++ [c] ++ ascii "' in json at offset " ++
      decimal (UInt64.ofNat p))

/-- The cases of the `switch` over the character after a backslash. -/
def unescape (e : UInt8) : Option UInt8 :=
  if e = 110 then some 10
  else if e = 116 then some 9
  else if e = 114 then some 13
  else if e = doubleQuote then some doubleQuote
  else if e = backslash then some backslash
  else if e = slash then some slash
  else none

/-- The loop over the bytes of a string: what it has pushed and where it stops. -/
def readString (t out : Bytes) (p : Nat) : JsonReader (Bytes × Nat) :=
  if p < t.length then do
    let c ← byteAt t p
    if c = doubleQuote then pure (out, p)
    else do
      let c ← byteAt t p
      if c = backslash then
        if p + 1 < t.length then do
          let e ← byteAt t (p + 1)
          match unescape e with
          | some value => readString t (out ++ [value]) (p + 2)
          | none => failed (ascii "unsupported json escape")
        else failed (ascii "bad escape in json string")
      else do
        let c ← byteAt t p
        readString t (out ++ [c]) (p + 1)
  else pure (out, p)
termination_by t.length - p

/-- `t.substr(p, n)` with the length of the word for `n`, which stops at the end of `t`. -/
def literal (t : Bytes) (p : Nat) (word : Bytes) (value : Json) : JsonReader (Json × Nat) := do
  report (.read p (min word.length (t.length - p)))
  if slice t p word.length = word then pure (value, p + word.length)
  else failed (ascii "bad json literal")

mutual

def parseValue (t : Bytes) : Nat → Nat → JsonReader (Json × Nat)
  | 0, _ => Observed.fail .exhausted
  | fuel + 1, p => do
      let p ← skipWs t p
      if p < t.length then do
        let c ← byteAt t p
        if c = openBrace then do
          let p ← skipWs t (p + 1)
          if ← nextIs t p closeBrace then pure (.object [], p + 1)
          else parseMembers t fuel [] p
        else if c = openBracket then do
          let p ← skipWs t (p + 1)
          if ← nextIs t p closeBracket then pure (.array [], p + 1)
          else parseItems t fuel [] p
        else if c = doubleQuote then do
          let (value, p) ← readString t [] (p + 1)
          let p ← expect t p doubleQuote
          pure (.string value, p)
        else if c = 116 then literal t p (ascii "true") (.boolean true)
        else if c = 102 then literal t p (ascii "false") (.boolean false)
        else if c = 110 then literal t p (ascii "null") .null
        else failed (ascii "unsupported json value at offset " ++ decimal (UInt64.ofNat p))
      else failed (ascii "unexpected end of json")

/-- The loop over the members of an object. -/
def parseMembers (t : Bytes) : Nat → List (Bytes × Json) → Nat → JsonReader (Json × Nat)
  | 0, _, _ => Observed.fail .exhausted
  | fuel + 1, members, p => do
      let p ← skipWs t p
      let (key, p) ← parseValue t fuel p
      let p ← skipWs t p
      let p ← expect t p colon
      let (value, p) ← parseValue t fuel p
      let members := members ++ [(key.stringMember, value)]
      let p ← skipWs t p
      if ← nextIs t p comma then parseMembers t fuel members (p + 1)
      else do
        let p ← expect t p closeBrace
        pure (.object members, p)

/-- The loop over the items of an array. -/
def parseItems (t : Bytes) : Nat → List Json → Nat → JsonReader (Json × Nat)
  | 0, _, _ => Observed.fail .exhausted
  | fuel + 1, items, p => do
      let (item, p) ← parseValue t fuel p
      let items := items ++ [item]
      let p ← skipWs t p
      if ← nextIs t p comma then parseItems t fuel items (p + 1)
      else do
        let p ← expect t p closeBracket
        pure (.array items, p)

end

def parse (fuel : Nat) (text : Bytes) : JsonReader Json := do
  let (out, pos) ← parseValue text fuel 0
  let pos ← skipWs text pos
  if pos ≠ text.length then failed (ascii "trailing content in json") else pure out

end Json
end CppRag
