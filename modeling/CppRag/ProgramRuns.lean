import CppRag.IndexCommandRuns
import CppRag.Program
import CppRag.QueryListing

/-!
What a run of the program can change and print. Only `index` writes to files, and only to its
output and the temporary file beside it; a run that fails prints nothing, but for the results a
query has already listed; and a run that ends in the usage does neither.
-/
namespace CppRag
open Observed Failures

/-! Files. -/

section Files
variable {path : String} {image : Bytes} {held : Option Bytes} {name : String}

theorem read_rename_elsewhere {fs : FileSystem String} {outcome : Outcome} {failed : Phase}
    (hpath : name ≠ path) (htemporary : name ≠ temporary path) :
    (match tryRename fs (temporary path) path outcome with
      | some fs => (⟨fs, .returned⟩ : WriteState)
      | none => ⟨fs, failed⟩).fs.read name = fs.read name := by
  cases outcome with
  | fails written => rfl
  | ok =>
      simp only [tryRename]
      cases hrename : fs.rename (temporary path) path with
      | none => rfl
      | some fs' => exact fs.read_rename_other fs' hrename htemporary hpath

/-- An operation of `write` touches its path and the temporary file, and no other name. -/
theorem read_step_elsewhere {s : WriteState} {outcome : Outcome}
    (h : Holds path image held s.fs s.phase) (hpath : name ≠ path)
    (htemporary : name ≠ temporary path) :
    (s.step path outcome).fs.read name = s.fs.read name := by
  obtain ⟨fs, phase⟩ := s
  cases phase with
  | opening ops =>
      cases outcome with
      | fails written => rfl
      | ok => exact fs.read_openTruncate_other htemporary
  | writing fd position ops =>
      cases ops with
      | nil => cases outcome <;> rfl
      | cons op ops =>
          cases op with
          | seekp target => cases outcome <;> rfl
          | write data =>
              have hentry := h.2.1
              cases outcome with
              | fails written => exact fs.read_setContents_other _ hentry htemporary
              | ok =>
                  simp only [WriteState.step, writeStep]
                  split <;> exact fs.read_setContents_other _ hentry htemporary
  | closing => rfl
  | discarding =>
      cases outcome with
      | fails written => rfl
      | ok => exact fs.read_remove_other htemporary
  | installing => exact read_rename_elsewhere hpath htemporary
  | removingTarget =>
      cases outcome with
      | fails written => rfl
      | ok => exact fs.read_remove_other hpath
  | retrying => exact read_rename_elsewhere hpath htemporary
  | abandoning =>
      cases outcome with
      | fails written => rfl
      | ok => exact fs.read_remove_other htemporary
  | returned => rfl
  | thrown error => rfl

theorem read_runWrite_elsewhere {l2Norm : List FloatBits → FloatBits} {items : List IndexItem}
    (fs : FileSystem String) (outcomes : List Outcome) (hpath : name ≠ path)
    (htemporary : name ≠ temporary path) :
    (runWrite l2Norm path items fs outcomes).fs.read name = fs.read name := by
  cases hcheck : checkItems items with
  | error error => rw [runWrite_rejected fs hcheck]
  | ok dimensions =>
      induction outcomes using List.reverseRecOn with
      | nil => rfl
      | append_singleton outcomes outcome ih =>
          obtain ⟨held, hholds⟩ := exists_holds_run l2Norm path fs hcheck outcomes
          rw [runWrite_append, read_step_elsewhere hholds hpath htemporary, ih]

end Files

section IndexFiles
variable {σ D F : Type} {host : MainHost σ D F} {args : Arguments D} {fs : FileSystem String}

theorem writeItems_fs (host : IndexHost σ) (args : Arguments D) (items : List IndexItem)
    (dimensions : Nat) (fs : FileSystem String) :
    (writeItems host args items dimensions fs).2 =
      (runWrite host.l2Norm (pathName args.output) items fs host.outcomes).fs := by
  rw [writeItems]
  split <;> rfl

theorem writeItems_not_usage (host : IndexHost σ) (args : Arguments D) (items : List IndexItem)
    (dimensions : Nat) (fs : FileSystem String) (error : Bytes) :
    (writeItems host args items dimensions fs).1 ≠ .error (.failure (.usage error)) := by
  rw [writeItems]
  split <;> (intro h; cases h)

theorem runIndex_fs (host : IndexHost σ) (args : Arguments D) (fs : FileSystem String) :
    (runIndex host args fs).2 = fs ∨ ∃ items, (runIndex host args fs).2 =
      (runWrite host.l2Norm (pathName args.output) items fs host.outcomes).fs := by
  rw [runIndex]
  split
  · exact .inl rfl
  · rename_i items dimensions hprepared
    exact .inr ⟨items, writeItems_fs host args items dimensions fs⟩

theorem indexProcess_fs : (indexProcess host args fs).fs =
    (runIndex (indexHost host args) args fs).2 := by
  rw [indexProcess]
  cases hrun : runIndex (indexHost host args) args fs with
  | mk result fs' => cases result <;> rfl

theorem read_indexProcess_elsewhere {name : String} (hpath : name ≠ pathName args.output)
    (htemporary : name ≠ temporary (pathName args.output)) :
    (indexProcess host args fs).fs.read name = fs.read name := by
  rw [indexProcess_fs]
  rcases runIndex_fs (indexHost host args) args fs with hfs | ⟨items, hfs⟩
  · rw [hfs]
  · rw [hfs, read_runWrite_elsewhere fs _ hpath htemporary]

theorem indexProcess_output (h : (indexProcess host args fs).output ≠ []) :
    (indexProcess host args fs).ended = .exited 0 := by
  rw [indexProcess] at h ⊢
  cases hrun : runIndex (indexHost host args) args fs with
  | mk result fs' =>
      rw [hrun] at h
      cases result with
      | ok line => rfl
      | error stop => exact absurd rfl h

/-- A usage error of the command comes before its first operation on files. -/
theorem indexProcess_usage (h : (indexProcess host args fs).ended = .exited 2) :
    (indexProcess host args fs).fs = fs ∧ (indexProcess host args fs).output = [] := by
  rw [indexProcess, runIndex] at h ⊢
  cases hprepared : prepareIndex (indexHost host args) args with
  | error stop => exact ⟨rfl, rfl⟩
  | ok prepared =>
      obtain ⟨items, dimensions⟩ := prepared
      simp only [hprepared] at h
      cases hwrite : writeItems (indexHost host args) args items dimensions fs with
      | mk result fs' =>
          have hnot := writeItems_not_usage (indexHost host args) args items dimensions fs
          rw [hwrite] at h hnot
          cases result with
          | ok line => cases h
          | error stop =>
              cases stop with
              | killed => cases h
              | failure failure =>
                  cases failure with
                  | usage error => exact absurd rfl (hnot error)
                  | exception exception => cases h

end IndexFiles

/-! Standard output. -/

theorem answerOutput_eq_nil {events : List AskEvent} (h : ∀ event ∈ events, event.Quiet) :
    answerOutput events = [] := by
  rw [answerOutput, List.flatMap_eq_nil_iff]
  intro event hevent
  cases event with
  | answer text => exact absurd rfl (h _ hevent text)
  | _ => rfl

theorem failsAfter_runGenerate {σ D F : Type} (host : MainHost σ D F) (args : Arguments D) :
    FailsAfter AskEvent.Quiet Failure.Spoken (runGenerate host args) := by
  refine (within_requires (by decide)).failsAfter fun _ => ?_
  refine (within_requires (by decide)).failsAfter fun _ => ?_
  refine (within_requires (by decide)).failsAfter fun _ => ?_
  refine (within_attempt _).failsAfter fun prompt => ?_
  exact (within_attempt _).failsAfter fun generator => failsAfter_printAnswer _ _ _ _

/-! The process. -/

section Process
variable {fs : FileSystem String} {output : Bytes} {result : Except Failure Unit}

theorem ofResult_fs : (Process.ofResult result output fs).fs = fs := by
  cases result <;> rfl

theorem ofResult_output : (Process.ofResult result output fs).output = output := by
  cases result <;> rfl

theorem ofResult_exited (h : (Process.ofResult result output fs).ended ≠ .exited 0) :
    ∃ failure, result = .error failure := by
  cases result with
  | ok value => exact absurd rfl h
  | error failure => exact ⟨failure, rfl⟩

theorem ofResult_usage (h : (Process.ofResult result output fs).ended = .exited 2) :
    ∃ error, result = .error (.usage error) := by
  cases result with
  | ok value => cases h
  | error failure =>
      cases failure with
      | usage error => exact ⟨error, rfl⟩
      | exception exception => cases h

theorem ofResult_not_killed : (Process.ofResult result output fs).ended ≠ .killed := by
  cases result with
  | ok value => exact nofun
  | error failure => cases failure <;> exact nofun

end Process

/-- What a run leaves alone. -/
structure Contained (indexing : Option String) (querying : Bool) (fs : FileSystem String)
    (run : Process) : Prop where
  files : ∀ name, run.fs.read name ≠ fs.read name →
    ∃ path, indexing = some path ∧ (name = path ∨ name = temporary path)
  output : run.output ≠ [] → run.ended = .exited 0 ∨ querying = true
  usage : run.ended = .exited 2 → run.fs = fs ∧ run.output = []
  killed : run.ended = .killed → indexing ≠ none

/-- A command that changes no file and prints only when it succeeds. -/
theorem contained_answer {m : Ask Unit} (h : FailsAfter AskEvent.Quiet Failure.Spoken m)
    (querying : Bool) (fs : FileSystem String) :
    Contained none querying fs (.ofResult m.result (answerOutput m.events) fs) := by
  refine ⟨fun name hname => absurd (by rw [ofResult_fs]) hname, fun houtput => .inl ?_,
    fun husage => ⟨ofResult_fs, ?_⟩, fun hkilled => absurd hkilled ofResult_not_killed⟩
  · by_contra hended
    obtain ⟨failure, hfailure⟩ := ofResult_exited hended
    rw [ofResult_output] at houtput
    exact houtput (answerOutput_eq_nil (h failure hfailure).2)
  · obtain ⟨error, herror⟩ := ofResult_usage husage
    rw [ofResult_output]
    exact answerOutput_eq_nil (h _ herror).2

theorem contained_quiet (result : Except Failure Unit) (fs : FileSystem String) :
    Contained none false fs (.ofResult result [] fs) :=
  ⟨fun name hname => absurd (by rw [ofResult_fs]) hname,
    fun houtput => absurd ofResult_output houtput, fun _ => ⟨ofResult_fs, ofResult_output⟩,
    fun hkilled => absurd hkilled ofResult_not_killed⟩

section Main
variable {σ D F K : Type} [LinearOrder K] (pq : PriorityQueue (SearchResult.score (K := K)))
variable (floats : FloatOps K) (showScore : K → Bytes) (host : MainHost σ D F)
variable (ops : DoubleOps D)

/-- The file that a command line asks `index` to write. -/
def indexedPath (argv : List Bytes) : Option String :=
  match parse ops argv with
  | .ok args => if args.command = ascii "index" then some (pathName args.output) else none
  | .error _ => none

def isQuery (argv : List Bytes) : Bool :=
  match parse ops argv with
  | .ok args => args.command = ascii "query"
  | .error _ => false

/-- For all command lines, models, files and outcomes of the operations on files: no file changes
but the output of `index` and its temporary file; a run that does not succeed prints nothing,
unless it is a query; one that ends in a usage error has changed and printed nothing; and only
`index` depends on how the operations on files end. -/
theorem main_contained (argv : List Bytes) (fs : FileSystem String) :
    Contained (indexedPath ops argv) (isQuery ops argv) fs
      (main pq floats showScore host ops argv fs) := by
  rw [main, indexedPath, isQuery]
  cases hparse : parse ops argv with
  | error failure => exact contained_quiet _ fs
  | ok args =>
      simp only [runCommandLine]
      by_cases hindex : args.command = ascii "index"
      · rw [if_pos hindex, if_pos hindex]
        refine ⟨fun name hname => ⟨_, rfl, ?_⟩, fun houtput => .inl (indexProcess_output houtput),
          indexProcess_usage, fun _ => nofun⟩
        by_contra helsewhere
        rw [not_or] at helsewhere
        exact hname (read_indexProcess_elsewhere helsewhere.1 helsewhere.2)
      · rw [if_neg hindex, if_neg hindex]
        by_cases hquery : args.command = ascii "query"
        · rw [if_pos hquery, decide_eq_true hquery]
          refine ⟨fun name hname => absurd (by rw [ofResult_fs]) hname, fun _ => .inr rfl,
            fun husage => ⟨ofResult_fs, ?_⟩, fun hkilled => absurd hkilled ofResult_not_killed⟩
          obtain ⟨error, herror⟩ := ofResult_usage husage
          rw [ofResult_output]
          exact (usageFirst_runQuery _ _ _ _ _ error herror).2
        · rw [if_neg hquery, decide_eq_false hquery]
          by_cases hgenerate : args.command = ascii "generate"
          · rw [if_pos hgenerate]
            exact contained_answer (failsAfter_runGenerate host args) _ fs
          · rw [if_neg hgenerate]
            by_cases hask : args.command = ascii "ask"
            · rw [if_pos hask]
              exact contained_answer (failsAfter_runAsk _ pq floats _) _ fs
            · rw [if_neg hask]
              exact contained_quiet _ fs

end Main

end CppRag
