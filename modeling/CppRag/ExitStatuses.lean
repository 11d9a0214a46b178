import CppRag.ProgramRuns
import CppRag.UnsignedOptions

/-!
What status 0 says. No command fails in the way `main` answers a request for help, so a process
exits with 0 only when its command has completed, or when help is what was asked for.
-/
namespace CppRag
open Characters Observed Failures

def Stop.Spoken : Stop → Prop
  | .failure cause => cause.Spoken
  | .killed => True

/-! Values. -/

theorem spoken_sizeValue (option value : Bytes) :
    FailsIn Failure.Spoken (sizeValue option value) := by
  have hspoken : Failure.Spoken (.usage (ascii "invalid numeric value for " ++ option)) :=
    List.append_ne_nil_of_left_ne_nil (by decide) option
  rw [sizeValue]
  split
  · exact failsIn_error hspoken
  · split
    · exact failsIn_error hspoken
    · exact failsIn_ok

theorem spoken_parseScale (item : Bytes) : FailsIn Failure.Spoken (parseScale item) := by
  rw [parseScale]
  split
  · exact failsIn_error (show ascii _ ≠ [] by decide)
  · refine (spoken_sizeValue _ _).bind fun bytes => ?_
    refine (spoken_sizeValue _ _).bind fun overlap => ?_
    split
    · exact failsIn_error (show ascii _ ≠ [] by decide)
    · exact failsIn_ok

/-- By induction on the length of the list. -/
theorem spoken_parseScalesFrom (spec : Bytes) :
    FailsIn Failure.Spoken (parseScalesFrom spec) := by
  induction hlength : spec.length using Nat.strongRecOn generalizing spec with
  | ind n ih =>
      by_cases hcomma : comma ∈ spec
      · obtain ⟨item, rest, rfl, hitem⟩ := List.eq_append_cons_of_mem hcomma
        rw [List.length_append, List.length_cons] at hlength
        rw [parseScalesFrom_cons hitem]
        refine (spoken_parseScale item).bind fun scale => ?_
        exact (ih rest.length (by omega) rest rfl).bind fun scales => failsIn_ok
      · rw [parseScalesFrom_last hcomma]
        intro error herror
        cases hscale : parseScale spec with
        | ok scale =>
            rw [hscale] at herror
            cases herror
        | error failure =>
            rw [hscale] at herror
            cases herror
            exact spoken_parseScale spec error hscale

theorem spoken_parseScales (spec : Bytes) : FailsIn Failure.Spoken (parseScales spec) := by
  rw [parseScales]
  split
  · exact failsIn_ok
  · exact spoken_parseScalesFrom spec

section Index
variable {σ D : Type} {host : IndexHost σ} {args : Arguments D}

theorem spoken_requires {present : Bool} {error : String} (h : ascii error ≠ []) :
    FailsIn Stop.Spoken (Stop.requires present error) := by
  rw [Stop.requires]
  split
  · exact failsIn_ok
  · exact failsIn_error h

theorem spoken_attempt {α : Type} (result : Except Exception α) :
    FailsIn Stop.Spoken (Stop.attempt result) := failsIn_mapError fun _ => trivial

/-- By induction on the inputs. -/
theorem spoken_indexInputs (files : Files) (embedder : LlamaEmbedder σ) (options : ChunkOptions)
    (scales : List ChunkOptions) (state : EmbedderState σ) (inputs : List Bytes) :
    FailsIn Stop.Spoken (indexInputs files embedder options scales state inputs) := by
  induction inputs generalizing state with
  | nil => exact failsIn_ok
  | cons input inputs ih =>
      refine (spoken_attempt _).bind fun text => (spoken_attempt _).bind fun chunks => ?_
      cases chunks with
      | none => exact failsIn_error trivial
      | some chunks =>
          refine (spoken_attempt _).bind fun embeddings => ?_
          split
          · exact failsIn_error trivial
          · exact (ih _).bind fun items => failsIn_ok

theorem spoken_prepareIndex : FailsIn Stop.Spoken (prepareIndex host args) := by
  refine (spoken_requires (by decide)).bind fun _ => (spoken_requires (by decide)).bind fun _ => ?_
  have hscales : FailsIn Stop.Spoken ((parseScales args.scales).mapError Stop.failure) :=
    (spoken_parseScales args.scales).mapError fun _ h => h
  refine hscales.bind fun scales => ?_
  refine (spoken_requires (by decide)).bind fun _ => (spoken_attempt _).bind fun made => ?_
  exact (spoken_indexInputs _ _ _ _ _ _).bind fun items => failsIn_ok

theorem spoken_runIndex (fs : FileSystem String) :
    FailsIn Stop.Spoken (runIndex host args fs).1 := by
  rw [runIndex]
  cases hprepared : prepareIndex host args with
  | error stop => exact failsIn_error (spoken_prepareIndex stop hprepared)
  | ok prepared =>
      obtain ⟨items, dimensions⟩ := prepared
      simp only [writeItems]
      split
      · exact failsIn_ok
      · exact failsIn_error trivial
      · exact failsIn_error trivial

end Index

/-! The process. -/

theorem Failure.Spoken.ended_ne {failure : Failure} (h : failure.Spoken) :
    failure.ended ≠ .exited 0 := by
  cases failure with
  | usage error =>
      have hempty : error.isEmpty = false := List.isEmpty_eq_false_iff.mpr h
      simp only [Failure.ended, hempty]
      exact nofun
  | exception exception => exact nofun

theorem Stop.Spoken.ended_ne {stop : Stop} (h : stop.Spoken) : stop.ended ≠ .exited 0 := by
  cases stop with
  | failure failure => exact Failure.Spoken.ended_ne h
  | killed => exact nofun

theorem ofResult_exited_zero_iff {result : Except Failure Unit} {output : Bytes}
    {fs : FileSystem String} (h : FailsIn Failure.Spoken result) :
    (Process.ofResult result output fs).ended = .exited 0 ↔ result = .ok () := by
  cases result with
  | ok value => exact iff_of_true rfl rfl
  | error failure => exact iff_of_false (h failure rfl).ended_ne nofun

section Main
variable {σ D F K : Type} [LinearOrder K] (pq : PriorityQueue (SearchResult.score (K := K)))
variable (floats : FloatOps K) (showScore : K → Bytes) (host : MainHost σ D F)
variable (ops : DoubleOps D)

/-- The command has run to its end. -/
inductive Completes (args : Arguments D) (fs : FileSystem String) : Prop
  | index {line : Bytes} {fs' : FileSystem String} (hcommand : args.command = ascii "index")
      (h : runIndex (indexHost host args) args fs = (.ok line, fs'))
  | query (hcommand : args.command = ascii "query")
      (h : (runQuery pq floats showScore (queryHost host args fs) args).result = .ok ())
  | generate (hcommand : args.command = ascii "generate")
      (h : (runGenerate host args).result = .ok ())
  | ask (hcommand : args.command = ascii "ask")
      (h : (runAsk pq floats (askHost host args fs) (askArguments args)).result = .ok ())

theorem indexProcess_exited_zero_iff (args : Arguments D) (fs : FileSystem String) :
    (indexProcess host args fs).ended = .exited 0 ↔
      ∃ line fs', runIndex (indexHost host args) args fs = (.ok line, fs') := by
  have hspoken : FailsIn Stop.Spoken (runIndex (indexHost host args) args fs).1 :=
    spoken_runIndex fs
  rw [indexProcess]
  cases hrun : runIndex (indexHost host args) args fs with
  | mk result fs' =>
      rw [hrun] at hspoken
      cases result with
      | ok line => exact iff_of_true rfl ⟨line, fs', rfl⟩
      | error stop =>
          refine iff_of_false (hspoken stop rfl).ended_ne ?_
          rintro ⟨line, fs', h⟩
          cases h

theorem runCommandLine_exited_zero_iff (args : Arguments D) (fs : FileSystem String) :
    (runCommandLine pq floats showScore host args fs).ended = .exited 0 ↔
      Completes pq floats showScore host args fs := by
  rw [runCommandLine]
  by_cases hindex : args.command = ascii "index"
  · rw [if_pos hindex, indexProcess_exited_zero_iff]
    constructor
    · rintro ⟨line, fs', h⟩
      exact .index hindex h
    · intro h
      cases h with
      | index hcommand h => exact ⟨_, _, h⟩
      | query hcommand h => exact absurd (hindex.symm.trans hcommand) (by decide)
      | generate hcommand h => exact absurd (hindex.symm.trans hcommand) (by decide)
      | ask hcommand h => exact absurd (hindex.symm.trans hcommand) (by decide)
  · rw [if_neg hindex]
    by_cases hquery : args.command = ascii "query"
    · rw [if_pos hquery, ofResult_exited_zero_iff ((usageFirst_runQuery _ _ _ _ _).spoken)]
      refine ⟨.query hquery, fun h => ?_⟩
      cases h with
      | index hcommand h => exact absurd hcommand hindex
      | query hcommand h => exact h
      | generate hcommand h => exact absurd (hquery.symm.trans hcommand) (by decide)
      | ask hcommand h => exact absurd (hquery.symm.trans hcommand) (by decide)
    · rw [if_neg hquery]
      by_cases hgenerate : args.command = ascii "generate"
      · rw [if_pos hgenerate, ofResult_exited_zero_iff ((failsAfter_runGenerate _ _).failsIn)]
        refine ⟨.generate hgenerate, fun h => ?_⟩
        cases h with
        | index hcommand h => exact absurd hcommand hindex
        | query hcommand h => exact absurd hcommand hquery
        | generate hcommand h => exact h
        | ask hcommand h => exact absurd (hgenerate.symm.trans hcommand) (by decide)
      · rw [if_neg hgenerate]
        by_cases hask : args.command = ascii "ask"
        · rw [if_pos hask, ofResult_exited_zero_iff ((failsAfter_runAsk _ _ _ _).failsIn)]
          refine ⟨.ask hask, fun h => ?_⟩
          cases h with
          | index hcommand h => exact absurd hcommand hindex
          | query hcommand h => exact absurd hcommand hquery
          | generate hcommand h => exact absurd hcommand hgenerate
          | ask hcommand h => exact h
        · have hspoken : Failure.Spoken
              (.usage (ascii "command must be index, query, generate, or ask")) :=
            show ascii _ ≠ [] by decide
          rw [if_neg hask, ofResult_exited_zero_iff (failsIn_error hspoken)]
          have hnot : (.error (.usage (ascii "command must be index, query, generate, or ask")) :
              Except Failure Unit) ≠ .ok () := by
            intro h
            cases h
          refine iff_of_false hnot fun h => ?_
          cases h with
          | index hcommand h => exact hindex hcommand
          | query hcommand h => exact hquery hcommand
          | generate hcommand h => exact hgenerate hcommand
          | ask hcommand h => exact hask hcommand

/-- For every command line, all models, files and outcomes of the operations on files: the status
is 0 just when the command has run to its end, or when the usage is shown without an error. -/
theorem main_exits_zero_iff (argv : List Bytes) (fs : FileSystem String) :
    (main pq floats showScore host ops argv fs).ended = .exited 0 ↔
      parse ops argv = .error (.usage []) ∨
        ∃ args, parse ops argv = .ok args ∧ Completes pq floats showScore host args fs := by
  rw [main]
  cases hparse : parse ops argv with
  | ok args =>
      rw [runCommandLine_exited_zero_iff]
      constructor
      · exact fun h => .inr ⟨args, rfl, h⟩
      · rintro (h | ⟨_, h, hcompletes⟩)
        · cases h
        · cases h
          exact hcompletes
  | error failure =>
      refine ⟨fun h => .inl ?_, ?_⟩
      · cases failure with
        | exception exception => cases h
        | usage error =>
            cases error with
            | nil => rfl
            | cons first rest => cases h
      · rintro (h | ⟨_, h, -⟩)
        · cases h
          rfl
        · cases h

end Main

end CppRag
