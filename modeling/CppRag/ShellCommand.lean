import CppRag.PromptBuilder
import CppRag.Foundation.ShellWords
import Mathlib.Data.List.TakeWhile

/-!
The command line of the evaluation harness. `shell_quote` puts every argument between single
quotes; the shell reads the arguments back as its words, with every character quoted.
-/
namespace CppRag
open Characters ShellWords

def quoteChar (c : UInt8) : Bytes :=
  if c = singleQuote then [singleQuote, backslash, singleQuote, singleQuote] else [c]

def shellQuote (value : Bytes) : Bytes :=
  singleQuote :: (value.flatMap quoteChar ++ [singleQuote])

/-- The command `run_command` builds. -/
def commandLine (argv : List Bytes) : Bytes :=
  argv.flatMap (fun arg => shellQuote arg ++ [space]) ++ ascii "2>&1"

/-- What a function of C sees of a `std::string`. -/
def cStr (value : Bytes) : Bytes := value.takeWhile (· ≠ 0)

/-- What `run_command` gives to `popen`. -/
def popenCommand (argv : List Bytes) : Bytes := cStr (commandLine argv)

/-- An argument as a word, each of its characters standing for itself. -/
def literalWord (arg : Bytes) : Token := .word (arg.map literal)

/-- `2>&1` -/
def redirection : List Token :=
  [.ioNumber [50], .operator [greater, ampersand], .word [⟨49, false⟩]]

/-! One argument. -/

section Argument
variable {characters : List ShellChar} {tokens : List Token}

theorem scan_quoteChar (c : UInt8) :
    State.scan ⟨.single, .word characters, tokens⟩ (quoteChar c) =
      ⟨.single, .word (characters ++ [literal c]), tokens⟩ := by
  by_cases hquote : c = singleQuote
  · rw [quoteChar, if_pos hquote, hquote, State.scan_cons, feed_closeSingle]
    have hsplit : [backslash, singleQuote, singleQuote] =
        [backslash, singleQuote] ++ [singleQuote] := rfl
    rw [hsplit, State.scan_append, scan_backslash (by decide), State.scan_cons, feed_reopenSingle]
    rfl
  · rw [quoteChar, if_neg hquote, State.scan_cons, feed_single hquote]
    rfl

/-- The characters between the quotes, by induction on the argument. -/
theorem scan_quoted (value : Bytes) :
    State.scan ⟨.single, .word characters, tokens⟩ (value.flatMap quoteChar) =
      ⟨.single, .word (characters ++ value.map literal), tokens⟩ := by
  induction value generalizing characters with
  | nil =>
      rw [List.map_nil, List.append_nil]
      rfl
  | cons c value ih =>
      rw [List.flatMap_cons, State.scan_append, scan_quoteChar, ih, List.map_cons,
        List.append_assoc]
      rfl

theorem scan_shellQuote (value : Bytes) :
    State.scan ⟨.none, .nothing, tokens⟩ (shellQuote value ++ [space]) =
      ⟨.none, .nothing, tokens ++ [literalWord value]⟩ := by
  rw [shellQuote, List.cons_append, State.scan_cons, feed_openSingle, List.append_assoc,
    State.scan_append, scan_quoted, List.nil_append, List.singleton_append, State.scan_cons,
    feed_closeSingle, State.scan_cons, space, feed_blank]
  rfl

end Argument

/-! The command. -/

theorem scan_arguments (argv : List Bytes) (tokens : List Token) :
    State.scan ⟨.none, .nothing, tokens⟩ (argv.flatMap fun arg => shellQuote arg ++ [space]) =
      ⟨.none, .nothing, tokens ++ argv.map literalWord⟩ := by
  induction argv generalizing tokens with
  | nil =>
      rw [List.map_nil, List.append_nil]
      rfl
  | cons arg argv ih =>
      rw [List.flatMap_cons, State.scan_append, scan_shellQuote, ih, List.map_cons,
        List.append_assoc]
      rfl

theorem finish_redirection (tokens : List Token) :
    (State.scan ⟨.none, .nothing, tokens⟩ (ascii "2>&1")).finish =
      some (tokens ++ redirection) := by
  have hread : (State.scan ⟨.none, .nothing, tokens⟩ (ascii "2>&1")).finish =
      some (((tokens ++ [.ioNumber [50]]) ++ [.operator [greater, ampersand]]) ++
        [.word [⟨49, false⟩]]) := rfl
  rw [hread, List.append_assoc, List.append_assoc]
  rfl

theorem cStr_of_nul_free {value : Bytes} (h : 0 ∉ value) : cStr value = value :=
  List.takeWhile_eq_self_iff.mpr fun _ hmem => decide_eq_true fun hzero => h (hzero ▸ hmem)

theorem nul_free_shellQuote {value : Bytes} (h : 0 ∉ value) : 0 ∉ shellQuote value := by
  rw [shellQuote, List.mem_cons, List.mem_append, List.mem_flatMap]
  rintro (hquote | ⟨c, hc, hzero⟩ | hquote)
  · cases hquote
  · by_cases hquoted : c = singleQuote
    · rw [quoteChar, if_pos hquoted] at hzero
      exact absurd hzero (by decide)
    · rw [quoteChar, if_neg hquoted] at hzero
      exact h (List.mem_singleton.mp hzero ▸ hc)
  · exact absurd hquote (by decide)

theorem nul_free_commandLine {argv : List Bytes} (h : ∀ arg ∈ argv, 0 ∉ arg) :
    0 ∉ commandLine argv := by
  rw [commandLine, List.mem_append, List.mem_flatMap]
  rintro (⟨arg, harg, hzero⟩ | hzero)
  · rcases List.mem_append.mp hzero with hzero | hzero
    · exact nul_free_shellQuote (h arg harg) hzero
    · exact absurd hzero (by decide)
  · exact absurd hzero (by decide)

/-- For every list of arguments without NUL: the shell reads exactly these words, in order and
with every character quoted, and then the redirection. -/
theorem popen_words_exact (argv : List Bytes) (h : ∀ arg ∈ argv, 0 ∉ arg) :
    shellTokens (popenCommand argv) = some (argv.map literalWord ++ redirection) := by
  rw [popenCommand, cStr_of_nul_free (nul_free_commandLine h), shellTokens, commandLine,
    State.scan_append, State.start, scan_arguments, finish_redirection, List.nil_append]

/-- An apostrophe, a backslash before one, a newline, and an empty argument. -/
theorem popen_words_exact_quotes :
    shellTokens (popenCommand [ascii "it's", ascii "\\'$x\n", []]) =
      some ([literalWord (ascii "it's"), literalWord (ascii "\\'$x\n"), literalWord []] ++
        redirection) :=
  popen_words_exact [ascii "it's", ascii "\\'$x\n", []] (by decide)

end CppRag
