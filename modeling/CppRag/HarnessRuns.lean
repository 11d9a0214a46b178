import CppRag.Harness
import CppRag.Foundation.Plans
import CppRag.Foundation.Traversal

/-!
What a run of the harness measures: the counts of its loop are the counts over the measures of
its cases, each from the answers to its own commands, and the commands are those planned up to
the first failure.
-/
namespace CppRag
open Observed Plans Traversal

/-- What is measured of a case. -/
structure Measure where
  firstHit : Nat
  noEvidence : Bool
  /-- Whether the answer matches, when one was asked for. -/
  answer : Option Bool
  deriving DecidableEq, Repr

/-- The text read from a command that succeeds. -/
def answerText : Answer → Except Bytes Bytes
  | none => throw (ascii "popen failed")
  | some (status, output) =>
      if status ≠ 0 then throw (ascii "cpp-rag invocation failed") else pure (pipeText output)

def commandOf : HarnessEvent → Option (List Bytes)
  | .command argv => some argv
  | _ => none

/-- The commands that are started. -/
abbrev commands (events : List HarnessEvent) : List (List Bytes) := named commandOf events

theorem runCommand_eq (argv : List Bytes) (answer : Answer) :
    runCommand argv answer = (do
      report (.command argv)
      ofResult (answerText answer)) := by
  cases answer with
  | none => rfl
  | some answer =>
      obtain ⟨status, output⟩ := answer
      by_cases hstatus : status = 0
      · subst hstatus
        rfl
      · simp only [runCommand, answerText, failIf, ne_eq, hstatus, not_false_eq_true, decide_true,
          if_true]
        rfl

theorem runCommand_performs (argv : List Bytes) (answer : Answer) :
    Performs commandOf [argv] (answerText answer) (runCommand argv answer) := by
  have hreport : Performs commandOf [argv] (.ok ()) (report (.command argv) : Harness Unit) :=
    performs_report rfl
  rw [runCommand_eq]
  exact hreport.bind fun _ _ => performs_ofResult (answerText answer)

section Measures
variable (o : HarnessOptions) (answers : Answers)

/-- The measure of the case with a number, from the answers to its commands. -/
def measureCase (number : Nat) (item : Case) : Except Bytes Measure := do
  let text ← answerText (answers.query number)
  let hit := firstHit (parseChunks text) item.expectSubstring
  if o.generate then do
    let answer ← answerText (answers.ask number)
    pure ⟨hit, item.noEvidence, some (contains answer item.expectSubstring)⟩
  else pure ⟨hit, item.noEvidence, none⟩

def measure (number : Nat) (c : Json) : Except Bytes Measure := do
  let item ← readCase c
  measureCase o answers number item

/-- The cases a run goes through from the one with the number on. -/
def casesFrom (number : Nat) (cases : List Json) : List Json :=
  if o.limit = 0 then cases else cases.take (o.limit.toNat - number)

def commandsOfCase (item : Case) : List (List Bytes) :=
  queryArgv o item :: if o.generate then [askArgv o item] else []

/-- A case that cannot be read has no commands. -/
def plannedCommands (c : Json) : List (List Bytes) :=
  match readCase c with
  | .ok item => commandsOfCase o item
  | .error _ => []

end Measures

/-- The counts over the measures of the cases after those counted before. -/
def Tally.plus {R : Type} (mean : MeanOps R) (tally : Tally R) (measures : List Measure) :
    Tally R where
  hits := tally.hits + measures.countP (·.firstHit ≠ 0)
  mrr := measures.foldl (fun mrr m =>
    mean.add mrr (if m.firstHit = 0 then mean.zero else mean.inverse m.firstHit)) tally.mrr
  answered := tally.answered + measures.countP (·.answer.isSome)
  answerHits := tally.answerHits + measures.countP (·.answer = some true)
  abstainTotal := tally.abstainTotal + measures.countP fun m => m.noEvidence && m.answer.isSome
  abstainOk := tally.abstainOk + measures.countP fun m => m.noEvidence && m.answer = some true
  count := tally.count + measures.length

section Loop
variable {R : Type} (mean : MeanOps R) (o : HarnessOptions) (answers : Answers)

/-- The counts after one case. -/
def Tally.after (tally : Tally R) (m : Measure) : Tally R :=
  match m.answer with
  | some ok =>
      { (tally.retrieved mean m.firstHit).answer m.noEvidence ok with count := tally.count + 1 }
  | none => { tally.retrieved mean m.firstHit with count := tally.count + 1 }

theorem plus_cons (tally : Tally R) (m : Measure) (measures : List Measure) :
    tally.plus mean (m :: measures) = (tally.after mean m).plus mean measures := by
  have hcount (p : Measure → Bool) :
      (m :: measures).countP p = measures.countP p + if p m then 1 else 0 := List.countP_cons
  obtain ⟨hit, noEvidence, answer⟩ := m
  simp only [Tally.plus, hcount, List.foldl_cons, List.length_cons, Tally.mk.injEq]
  cases answer with
  | none =>
      refine ⟨?_, rfl, rfl, rfl, ?_, ?_, ?_⟩ <;>
        simp only [Tally.after, Tally.retrieved] <;> grind
  | some ok =>
      refine ⟨?_, rfl, ?_, ?_, ?_, ?_, ?_⟩ <;>
        simp only [Tally.after, Tally.retrieved, Tally.answer] <;> grind

/-! The loop. -/

theorem casesFrom_cons {number : Nat} (c : Json) (cases : List Json)
    (h : ¬(o.limit ≠ 0 ∧ number ≥ o.limit.toNat)) :
    casesFrom o number (c :: cases) = c :: casesFrom o (number + 1) cases := by
  by_cases hlimit : o.limit = 0
  · simp only [casesFrom, if_pos hlimit]
  · have hsub : o.limit.toNat - number = o.limit.toNat - (number + 1) + 1 := by
      have hlt : ¬number ≥ o.limit.toNat := fun hge => h ⟨hlimit, hge⟩
      omega
    simp only [casesFrom, if_neg hlimit, hsub, List.take_succ_cons]

theorem casesFrom_limit {number : Nat} (cases : List Json)
    (h : o.limit ≠ 0 ∧ number ≥ o.limit.toNat) : casesFrom o number cases = [] := by
  simp only [casesFrom, if_neg h.1, Nat.sub_eq_zero_of_le h.2, List.take_zero]

theorem plannedCommands_of_read {c : Json} {item : Case} (h : readCase c = .ok item) :
    plannedCommands o c = commandsOfCase o item := by
  simp only [plannedCommands, h]

theorem evaluateCase_performs (tally : Tally R) (item : Case) :
    Performs commandOf (commandsOfCase o item)
      ((measureCase o answers tally.count item).map (tally.after mean))
      (evaluateCase mean o answers tally item) := by
  have hquery := runCommand_performs (queryArgv o item) (answers.query tally.count)
  have hask := runCommand_performs (askArgv o item) (answers.ask tally.count)
  rw [evaluateCase, measureCase, commandsOfCase]
  cases o.generate with
  | false =>
      have hmap : ∀ text : Except Bytes Bytes, (text >>= fun text =>
            (pure ⟨firstHit (parseChunks text) item.expectSubstring, item.noEvidence, none⟩ :
              Except Bytes Measure)).map (tally.after mean) =
          text >>= fun text => .ok { tally.retrieved mean
            (firstHit (parseChunks text) item.expectSubstring) with count := tally.count + 1 } :=
        fun text => by cases text <;> rfl
      exact hmap _ ▸ hquery.bind fun _ _ =>
        (performs_unnamed rfl).bind fun _ _ => performs_pure _
  | true =>
      have hmap : ∀ text answer : Except Bytes Bytes, (text >>= fun text => answer >>= fun answer =>
            (pure ⟨firstHit (parseChunks text) item.expectSubstring, item.noEvidence,
              some (contains answer item.expectSubstring)⟩ : Except Bytes Measure)).map
                (tally.after mean) =
          text >>= fun text => answer >>= fun answer => .ok
            { (tally.retrieved mean (firstHit (parseChunks text) item.expectSubstring)).answer
                item.noEvidence (contains answer item.expectSubstring) with
              count := tally.count + 1 } :=
        fun text answer => by cases text <;> cases answer <;> rfl
      exact hmap _ _ ▸ hquery.bind fun _ _ => hask.bind fun _ _ =>
        (performs_unnamed rfl).bind fun _ _ => performs_pure _

def measureCases (number : Nat) (cases : List Json) : Except Bytes (List Measure) :=
  ((casesFrom o number cases).zipIdx number).mapM fun entry => measure o answers entry.2 entry.1

theorem count_after (tally : Tally R) (m : Measure) :
    (tally.after mean m).count = tally.count + 1 := by
  rw [Tally.after]
  split <;> rfl

/-- By induction on the cases: the counts before carry over, the numbers go on. -/
theorem evaluateCases_performs (tally : Tally R) (cases : List Json) :
    Performs commandOf ((casesFrom o tally.count cases).flatMap (plannedCommands o))
      ((measureCases o answers tally.count cases).map (tally.plus mean))
      (evaluateCases mean o answers tally cases) := by
  induction cases generalizing tally with
  | nil =>
      have hnil : casesFrom o tally.count [] = [] := by simp [casesFrom]
      rw [measureCases, hnil]
      exact performs_pure _
  | cons c cases ih =>
      rw [evaluateCases]
      split
      · rename_i hlimit
        rw [measureCases, casesFrom_limit o (c :: cases) hlimit]
        exact performs_pure _
      · rename_i hlimit
        have hrest : ∀ tally', tally'.count = tally.count + 1 →
            Performs commandOf ((casesFrom o (tally.count + 1) cases).flatMap (plannedCommands o))
              ((measureCases o answers (tally.count + 1) cases).map (tally'.plus mean))
              (evaluateCases mean o answers tally' cases) :=
          fun tally' hcount => hcount ▸ ih tally'
        rw [measureCases, casesFrom_cons o c cases hlimit, List.zipIdx_cons, List.mapM_cons,
          List.flatMap_cons]
        cases hitem : readCase c with
        | error error =>
            rw [measure, hitem]
            exact performs_fail _ error
        | ok item =>
            rw [measure, hitem, plannedCommands_of_read o hitem]
            have hplus : ∀ (m : Except Bytes Measure) (ms : Except Bytes (List Measure)),
                (do let m ← m; let ms ← ms; pure (m :: ms)).map (tally.plus mean) =
                  m.map (tally.after mean) >>= fun tally' => ms.map (tally'.plus mean) := by
              intro m ms
              cases m with
              | error error => rfl
              | ok m =>
                  cases ms with
                  | error error => rfl
                  | ok ms => exact congrArg Except.ok (plus_cons mean tally m ms)
            refine hplus _ _ ▸ (evaluateCase_performs mean o answers tally item).bind
              fun tally' htally => hrest tally' ?_
            cases hmeasured : measureCase o answers tally.count item with
            | error error =>
                rw [hmeasured] at htally
                cases htally
            | ok m =>
                rw [hmeasured] at htally
                cases htally
                exact count_after mean tally m

end Loop

/-! The whole run. -/

section Run
variable {R : Type} (mean : MeanOps R) (o : HarnessOptions) (answers : Answers)

/-- A run that succeeds has measured its cases. -/
theorem evaluate_ok {root : Json} {tally : Tally R}
    (h : (evaluate mean o answers root).result = .ok tally) :
    ∃ cases text measures, root.at? (ascii "cases") = .ok cases ∧
      answerText answers.index = .ok text ∧
      measureCases o answers 0 cases.itemsMember = .ok measures ∧
      tally = (Tally.start mean).plus mean measures := by
  obtain ⟨_, -, h⟩ := (bind_ok_iff _ _ _).mp h
  obtain ⟨_, -, h⟩ := (bind_ok_iff _ _ _).mp h
  obtain ⟨documents, -, h⟩ := (bind_ok_iff _ _ _).mp h
  obtain ⟨text, htext, h⟩ := (bind_ok_iff _ _ _).mp h
  obtain ⟨_, -, h⟩ := (bind_ok_iff _ _ _).mp h
  obtain ⟨cases, hcases, h⟩ := (bind_ok_iff _ _ _).mp h
  rw [(runCommand_performs _ _).result_eq] at htext
  rw [(evaluateCases_performs mean o answers _ _).result_eq] at h
  refine ⟨cases, text, ?_⟩
  cases hmeasures : measureCases o answers 0 cases.itemsMember with
  | error error =>
      rw [show (Tally.start mean).count = 0 from rfl, hmeasures] at h
      cases h
  | ok measures =>
      rw [show (Tally.start mean).count = 0 from rfl, hmeasures] at h
      exact ⟨measures, hcases, htext, rfl, (Except.ok.inj h).symm⟩

/-- The commands of the cases, when the file has any. -/
def plannedCases (root : Json) : List (List Bytes) :=
  match root.at? (ascii "cases") with
  | .ok cases => (casesFrom o 0 cases.itemsMember).flatMap (plannedCommands o)
  | .error _ => []

/-- The commands that a file of cases asks for; none without a provenance and documents. -/
def plannedRun (root : Json) : List (List Bytes) :=
  match root.at? (ascii "provenance"), root.at? (ascii "documents") with
  | .ok _, .ok documents =>
      indexArgv o (documents.itemsMember.map Json.stringMember) :: plannedCases o root
  | _, _ => []

theorem evaluateDocuments_performs (root : Json) (documents : List Bytes) :
    Performs commandOf (indexArgv o documents :: plannedCases o root)
      (do
        let _ ← answerText answers.index
        let cases ← root.at? (ascii "cases")
        (measureCases o answers 0 cases.itemsMember).map ((Tally.start mean).plus mean))
      (evaluateDocuments mean o answers root documents) := by
  rw [plannedCases]
  refine (runCommand_performs _ _).bind fun text _ => ?_
  have hechoed : Performs commandOf [] (.ok ())
      ((parseChunks text).forM fun line => report (.echo line) : Harness Unit) :=
    performs_forM fun _ _ => performs_unnamed rfl
  refine hechoed.before ?_
  cases root.at? (ascii "cases") with
  | error error => exact performs_fail _ error
  | ok cases => exact evaluateCases_performs mean o answers (Tally.start mean) cases.itemsMember

/-- For every file of cases and all answers: the run measures the cases up to the limit by their
own commands and counts over the measures, or ends with the first failure; and it starts the
planned commands in their order, all of them unless it fails. -/
theorem evaluate_exact (root : Json) :
    (evaluate mean o answers root).result = (do
      let _ ← root.at? (ascii "provenance")
      answers.created
      let _ ← root.at? (ascii "documents")
      let _ ← answerText answers.index
      let cases ← root.at? (ascii "cases")
      (measureCases o answers 0 cases.itemsMember).map ((Tally.start mean).plus mean)) ∧
    commands (evaluate mean o answers root).events <+: plannedRun o root ∧
    ∀ tally, (evaluate mean o answers root).result = .ok tally →
      commands (evaluate mean o answers root).events = plannedRun o root := by
  have hrun : Performs commandOf (plannedRun o root) (do
      let _ ← root.at? (ascii "provenance")
      answers.created
      let _ ← root.at? (ascii "documents")
      let _ ← answerText answers.index
      let cases ← root.at? (ascii "cases")
      (measureCases o answers 0 cases.itemsMember).map ((Tally.start mean).plus mean))
      (evaluate mean o answers root) := by
    rw [evaluate, plannedRun]
    cases root.at? (ascii "provenance") with
    | error error => exact performs_fail _ error
    | ok provenance =>
        refine (performs_ofResult answers.created).bind fun _ _ => ?_
        cases root.at? (ascii "documents") with
        | error error => exact performs_fail _ error
        | ok documents => exact evaluateDocuments_performs mean o answers root _
  exact ⟨hrun.result_eq, hrun.started, fun tally h => hrun.finished tally (hrun.result_eq ▸ h)⟩

end Run

end CppRag
