import CppRag.JsonReader
import CppRag.ResultListing

/-!
The run of the evaluation harness: the commands it builds, the cases it reads, what it takes
from the output of each command, and the counts it reports. The commands are run outside: their
answers are a parameter, and so is the arithmetic of the mean reciprocal rank.
-/
namespace CppRag
open Observed Occurrences

structure HarnessOptions where
  bin : Bytes := ascii "build/cpp-rag"
  embed : Bytes := ascii "models/bge-small-en-v1.5-f16.gguf"
  generator : Bytes := ascii "models/Qwen2.5-3B-Instruct-Q4_K_M.gguf"
  cache : Bytes := ascii "eval/.cache"
  scales : Bytes := ascii "1000:150,300:40"
  topK : UInt64 := 5
  perScale : UInt64 := 0
  maxTokens : UInt64 := 96
  limit : UInt64 := 0
  metric : Bytes := ascii "cosine"
  generate : Bool := false

structure Case where
  id : Bytes
  document : Bytes
  question : Bytes
  expectSubstring : Bytes
  noEvidence : Bool
  deriving DecidableEq, Repr

/-! The members of the file of cases. -/

namespace Json

/-- `boolean_`, false unless the value is a boolean. -/
def booleanMember : Json → Bool
  | .boolean value => value
  | _ => false

/-- `items_`, empty unless the value is an array. -/
def itemsMember : Json → List Json
  | .array items => items
  | _ => []

def membersMember : Json → List (Bytes × Json)
  | .object members => members
  | _ => []

/-- The first member with the key. -/
def at? (json : Json) (key : Bytes) : Except Bytes Json :=
  match json.membersMember.find? fun entry => entry.1 = key with
  | some entry => pure entry.2
  | none => throw (ascii "missing json key: " ++ key)

end Json

def readCase (c : Json) : Except Bytes Case := do
  let id ← c.at? (ascii "id")
  let document ← c.at? (ascii "document")
  let question ← c.at? (ascii "question")
  let expectSubstring ← c.at? (ascii "expect_substring")
  let noEvidence ← c.at? (ascii "no_evidence")
  pure ⟨id.stringMember, document.stringMember, question.stringMember,
    expectSubstring.stringMember, noEvidence.booleanMember⟩

/-! Looking for the expected text. -/

def lower (text : Bytes) : Bytes := text.map toLower

def contains (haystack needle : Bytes) : Bool :=
  if needle.isEmpty then false else (find (lower needle) (lower haystack)).isSome

/-- The number of the first result with the expected text, from 1 on; 0 without one. -/
def firstHit (retrieved : List Bytes) (expected : Bytes) : Nat :=
  match retrieved.findIdx? fun result => contains result expected with
  | some i => i + 1
  | none => 0

/-! The commands. -/

section Commands
variable (o : HarnessOptions)

def indexPath : Bytes := o.cache ++ ascii "/eval.ragidx"

def perScaleWords : List Bytes :=
  if o.perScale ≠ 0 then [ascii "--per-scale", decimal o.perScale] else []

def indexArgv (documents : List Bytes) : List Bytes :=
  [o.bin, ascii "index", ascii "--model", o.embed, ascii "--output", indexPath o] ++
    documents.flatMap (fun document => [ascii "--input", document]) ++
    if o.scales.isEmpty then [] else [ascii "--scales", o.scales]

def queryArgv (item : Case) : List Bytes :=
  [o.bin, ascii "query", ascii "--model", o.embed, ascii "--index", indexPath o,
    ascii "--query", item.question, ascii "--top-k", decimal o.topK, ascii "--metric",
    o.metric] ++ perScaleWords o

def askArgv (item : Case) : List Bytes :=
  [o.bin, ascii "ask", ascii "--model", o.embed, ascii "--generator", o.generator,
    ascii "--index", indexPath o, ascii "--query", item.question, ascii "--top-k",
    decimal o.topK, ascii "--metric", o.metric, ascii "--max-tokens", decimal o.maxTokens,
    ascii "--ctx", ascii "4096", ascii "--gpu-layers", ascii "99"] ++ perScaleWords o

end Commands

/-- How a command answers: its exit status, -1 when it has none, and its output; none when
`popen` fails. -/
abbrev Answer : Type := Option (Int × Bytes)

/-- The answers to the commands of a run, those of a case by its number. -/
structure Answers where
  /-- How `create_directories` ends, an error with its text. -/
  created : Except Bytes Unit
  index : Answer
  query : Nat → Answer
  ask : Nat → Answer

inductive HarnessEvent where
  | command (argv : List Bytes)
  /-- A line of the index command on standard error. -/
  | echo (line : Bytes)
  /-- The row of a case: its first hit, how many results it has, and whether the answer matches
  when one was asked for. -/
  | row (id : Bytes) (firstHit results : Nat) (answer : Option Bool)
  deriving DecidableEq, Repr

abbrev Harness (α : Type) : Type := Observed HarnessEvent Bytes α

/-- Starts a command; the text is what is read from its output. -/
def runCommand (argv : List Bytes) (answer : Answer) : Harness Bytes := do
  report (.command argv)
  match answer with
  | none => Observed.fail (ascii "popen failed")
  | some (status, output) => do
      failIf (status ≠ 0) (ascii "cpp-rag invocation failed")
      pure (pipeText output)

/-! The counts. -/

/-- The arithmetic of the reciprocal ranks. -/
structure MeanOps (R : Type) where
  zero : R
  add : R → R → R
  /-- `1.0 / static_cast<double>(rank)` -/
  inverse : Nat → R

structure Tally (R : Type) where
  hits : Nat
  mrr : R
  answered : Nat
  answerHits : Nat
  abstainTotal : Nat
  abstainOk : Nat
  count : Nat
  deriving DecidableEq, Repr

section Run
variable {R : Type} (mean : MeanOps R) (o : HarnessOptions) (answers : Answers)

def Tally.start : Tally R := ⟨0, mean.zero, 0, 0, 0, 0, 0⟩

/-- The counts after the results of a query. -/
def Tally.retrieved (tally : Tally R) (firstHit : Nat) : Tally R :=
  { tally with
    hits := if firstHit ≠ 0 then tally.hits + 1 else tally.hits
    mrr := mean.add tally.mrr (if firstHit = 0 then mean.zero else mean.inverse firstHit) }

/-- The counts after an answer. -/
def Tally.answer (tally : Tally R) (noEvidence ok : Bool) : Tally R :=
  { tally with
    answered := tally.answered + 1
    answerHits := if ok then tally.answerHits + 1 else tally.answerHits
    abstainTotal := if noEvidence then tally.abstainTotal + 1 else tally.abstainTotal
    abstainOk := if noEvidence && ok then tally.abstainOk + 1 else tally.abstainOk }

/-- The body of the loop over the cases. -/
def evaluateCase (tally : Tally R) (item : Case) : Harness (Tally R) := do
  let text ← runCommand (queryArgv o item) (answers.query tally.count)
  let retrieved := parseChunks text
  let hit := firstHit retrieved item.expectSubstring
  let next := tally.retrieved mean hit
  if o.generate then do
    let text ← runCommand (askArgv o item) (answers.ask tally.count)
    let ok := contains text item.expectSubstring
    report (.row item.id hit retrieved.length (some ok))
    pure { next.answer item.noEvidence ok with count := tally.count + 1 }
  else do
    report (.row item.id hit retrieved.length none)
    pure { next with count := tally.count + 1 }

/-- The loop over the cases. -/
def evaluateCases (tally : Tally R) : List Json → Harness (Tally R)
  | [] => pure tally
  | c :: cases =>
      if o.limit ≠ 0 ∧ tally.count ≥ o.limit.toNat then pure tally
      else do
        let item ← ofResult (readCase c)
        let tally ← evaluateCase mean o answers tally item
        evaluateCases tally cases

/-- `main` from the index command on. -/
def evaluateDocuments (root : Json) (documents : List Bytes) : Harness (Tally R) := do
  let indexed ← runCommand (indexArgv o documents) answers.index
  (parseChunks indexed).forM fun line => report (.echo line)
  let cases ← ofResult (root.at? (ascii "cases"))
  evaluateCases mean o answers (Tally.start mean) cases.itemsMember

/-- `main` from the parsed file of cases to the counts. -/
def evaluate (root : Json) : Harness (Tally R) := do
  let _ ← ofResult (root.at? (ascii "provenance"))
  ofResult answers.created
  let documents ← ofResult (root.at? (ascii "documents"))
  evaluateDocuments mean o answers root (documents.itemsMember.map Json.stringMember)

end Run

end CppRag
