import CppRag.ExitStatuses
import CppRag.HarnessQueries
import CppRag.IndexedQueries
import CppRag.ProgramRuns
import CppRag.ShellCommand

/-!
A run of the harness over the program itself. Every command goes through `popen` and the shell to
a process of the program, over the files that the processes before it have left. What such a run
counts is what the program finds in the documents of the file of cases.
-/
namespace CppRag
open Characters ShellWords Observed Occurrences PriorityQueue Traversal Failures

/-! The shell. -/

/-- The words of a command with the redirection behind them, when every character in them stands
for itself. -/
def wordsOf : List Token → Option (List Bytes)
  | .word characters :: tokens =>
      if characters.all ShellChar.quoted then
        (wordsOf tokens).map (characters.map ShellChar.character :: ·)
      else none
  | tokens => if tokens = redirection then some [] else none

/-- What stands around a process of the program. -/
structure Surroundings (σ D F : Type) where
  /-- `popen` has a pipe and a shell for it. -/
  started : Bool
  host : MainHost σ D F
  /-- What it writes to standard error, all of it before its output. -/
  diagnostics : Bytes
  /-- What `pclose` reports when it is killed. -/
  killedStatus : Int

/-- What stands around the processes of a run, those of a case by its number. -/
structure Machine (σ D F : Type) where
  /-- How `create_directories` ends. -/
  created : Except Bytes Unit
  index : Surroundings σ D F
  query : Nat → Surroundings σ D F
  ask : Nat → Surroundings σ D F

/-- The status of a shell that cannot read its command. -/
def syntaxErrorStatus : Int := 2

def Ended.status (killedStatus : Int) : Ended → Int
  | .exited status => status
  | .killed => killedStatus

section Processes
variable {σ D F K : Type} [LinearOrder K] (pq : PriorityQueue (SearchResult.score (K := K)))
variable (floats : FloatOps K) (showScore : K → Bytes) (ops : DoubleOps D)

/-- `popen`, the shell, and the program, which is what `--bin` names. -/
def execute (s : Surroundings σ D F) (argv : List Bytes) (fs : FileSystem String) :
    Answer × FileSystem String :=
  if s.started then
    match (shellTokens (popenCommand argv)).bind wordsOf with
    | none => (some (syntaxErrorStatus, []), fs)
    | some argv =>
        let run := main pq floats showScore s.host ops argv fs
        (some (run.ended.status s.killedStatus, s.diagnostics ++ run.output), run.fs)
  else (none, fs)

end Processes

/-! The run. -/

def caseAt (root : Json) (number : Nat) : Option Case := do
  let cases ← (root.at? (ascii "cases")).toOption
  let c ← cases.itemsMember[number]?
  (readCase c).toOption

def documentsOf (root : Json) : List Bytes :=
  match root.at? (ascii "documents") with
  | .ok documents => documents.itemsMember.map Json.stringMember
  | .error _ => []

section Run
variable {σ D F K : Type} [LinearOrder K] (pq : PriorityQueue (SearchResult.score (K := K)))
variable (floats : FloatOps K) (showScore : K → Bytes) (ops : DoubleOps D)
variable (m : Machine σ D F) (o : HarnessOptions) (root : Json) (fs : FileSystem String)

/-- The files after the query of a case. -/
def filesAfterQuery (number : Nat) (item : Case) (files : FileSystem String) :
    FileSystem String :=
  (execute pq floats showScore ops (m.query number) (queryArgv o item) files).2

/-- The files before the commands of a case. -/
def filesAt : Nat → FileSystem String
  | 0 => (execute pq floats showScore ops m.index (indexArgv o (documentsOf root)) fs).2
  | number + 1 =>
      match caseAt root number with
      | none => filesAt number
      | some item =>
          let files := filesAfterQuery pq floats showScore ops m o number item (filesAt number)
          if o.generate then
            (execute pq floats showScore ops (m.ask number) (askArgv o item) files).2
          else files

/-- What the processes of a run answer, one after the other. -/
def processAnswers : Answers where
  created := m.created
  index := (execute pq floats showScore ops m.index (indexArgv o (documentsOf root)) fs).1
  query number := do
    let item ← caseAt root number
    (execute pq floats showScore ops (m.query number) (queryArgv o item)
      (filesAt pq floats showScore ops m o root fs number)).1
  ask number := do
    let item ← caseAt root number
    (execute pq floats showScore ops (m.ask number) (askArgv o item)
      (filesAfterQuery pq floats showScore ops m o number item
        (filesAt pq floats showScore ops m o root fs number))).1

variable {ops}

end Run

/-! One document of two bytes, one case, and one process after the other. -/

def letterMain : MainHost (List BatchEntry) Unit Unit where
  files := letterFiles
  loadEmbedder _ _ := .ok (sampleEmbedder, ⟨[], []⟩)
  loadGenerator _ _ := .error (.runtimeError "no generator")
  toFloat := id
  session := ⟨true, fun _ => 0, fun _ => 7, fun _ => 0, .unbounded⟩
  memory := .unbounded
  l2Norm _ := oneF
  outcomes := List.replicate 20 .ok

def letterMachine : Machine (List BatchEntry) Unit Unit where
  created := .ok ()
  index := ⟨true, letterMain, ascii "loading\n", 137⟩
  query _ := ⟨true, letterMain, ascii "loading\n", 137⟩
  ask _ := ⟨true, letterMain, [], 137⟩

def letterOptions : HarnessOptions := { scales := [], metric := ascii "dot" }

def whoJson : Json :=
  .object [(ascii "id", .string (ascii "q1")), (ascii "document", .string (ascii "a.md")),
    (ascii "question", .string (ascii "Who?")), (ascii "expect_substring", .string (ascii "BC")),
    (ascii "no_evidence", .boolean false)]

def letterCases : Json :=
  .object [(ascii "provenance", .string (ascii "draft")),
    (ascii "documents", .array [.string (ascii "a.md")]), (ascii "cases", .array [whoJson])]

def letterAnswers : Answers :=
  processAnswers (preferring SearchResult.score ⟨0, 1, 0, 1, 0⟩) sampleOps showNat unitDoubles
    letterMachine letterOptions letterCases .empty

end CppRag
