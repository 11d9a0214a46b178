import CppRag.Foundation.Characters

/-!
How a POSIX shell splits its input into tokens and removes the quotes: single quotes, double
quotes, backslashes, blanks, operators, numbers before a redirection, and comments. Every
character of a word says whether it was quoted. A quoted character stands for itself; one that
was not quoted can still be interpreted (by expansions, patterns or as part of a name), and so
can a `$` or a backquote between double quotes.
-/
namespace ShellWords
open Characters

structure ShellChar where
  character : UInt8
  quoted : Bool
  deriving DecidableEq, Repr

inductive Token where
  | word (characters : List ShellChar)
  /-- Digits before `<` or `>`. -/
  | ioNumber (digits : List UInt8)
  | operator (characters : List UInt8)
  | newline
  deriving DecidableEq, Repr

/-- What the characters read last belong to. -/
inductive Pending where
  | nothing
  | word (characters : List ShellChar)
  | operator (characters : List UInt8)
  deriving DecidableEq, Repr

inductive Quoting where
  | none
  | backslash
  | single
  | double
  /-- After a backslash between double quotes. -/
  | doubleBackslash
  | comment
  deriving DecidableEq, Repr

structure State where
  quoting : Quoting
  pending : Pending
  tokens : List Token
  deriving DecidableEq, Repr

/-- The operators: `&`, `(`, `)`, `;`, `<`, `>`, `|`, `&&`, `||`, `;;`, `<<`, `>>`, `<&`, `>&`,
`<>`, `>|` and `<<-`. -/
def operators : List (List UInt8) :=
  [[38], [40], [41], [59], [60], [62], [124], [38, 38], [124, 124], [59, 59], [60, 60], [62, 62],
    [60, 38], [62, 38], [60, 62], [62, 124], [60, 60, 45]]

def isBlank (character : UInt8) : Bool := character = 32 || character = 9

/-! Token recognition. -/

def Pending.append (pending : Pending) (character : UInt8) (quoted : Bool) : Pending :=
  match pending with
  | .word characters => .word (characters ++ [⟨character, quoted⟩])
  | _ => .word [⟨character, quoted⟩]

/-- A quote begins a word, which may stay empty. -/
def Pending.start : Pending → Pending
  | .word characters => .word characters
  | _ => .word []

/-- The token that ends before `next`. -/
def Pending.tokens (pending : Pending) (next : Option UInt8) : List Token :=
  match pending with
  | .nothing => []
  | .operator characters => [.operator characters]
  | .word characters =>
      if characters ≠ [] ∧ characters.all (fun c => !c.quoted && isDigit c.character) ∧
          (next = some less ∨ next = some greater) then
        [.ioNumber (characters.map ShellChar.character)]
      else [.word characters]

def State.delimit (state : State) (next : Option UInt8) : State :=
  { state with pending := .nothing, tokens := state.tokens ++ state.pending.tokens next }

/-- An unquoted character, where no operator is under way or the operator has ended. -/
def State.plain (state : State) (character : UInt8) : State :=
  if character = backslash then { state with quoting := .backslash }
  else if character = singleQuote then
    { state with quoting := .single, pending := state.pending.start }
  else if character = doubleQuote then
    { state with quoting := .double, pending := state.pending.start }
  else if [character] ∈ operators then
    { state.delimit (some character) with pending := .operator [character] }
  else if character = newline then
    let state := state.delimit (some character)
    { state with tokens := state.tokens ++ [.newline] }
  else if isBlank character then state.delimit (some character)
  else if character = numberSign ∧ state.pending = .nothing then { state with quoting := .comment }
  else { state with pending := state.pending.append character false }

/-- One character of the input. -/
def State.feed (state : State) (character : UInt8) : State :=
  match state.quoting with
  | .none =>
      match state.pending with
      | .operator characters =>
          if characters ++ [character] ∈ operators then
            { state with pending := .operator (characters ++ [character]) }
          else (state.delimit (some character)).plain character
      | _ => state.plain character
  | .backslash =>
      if character = newline then { state with quoting := .none }
      else { state with quoting := .none, pending := state.pending.append character true }
  | .single =>
      if character = singleQuote then { state with quoting := .none }
      else { state with pending := state.pending.append character true }
  | .double =>
      if character = doubleQuote then { state with quoting := .none }
      else if character = backslash then { state with quoting := .doubleBackslash }
      else
        { state with
          pending := state.pending.append character (character ≠ dollar ∧ character ≠ backquote) }
  | .doubleBackslash =>
      if character = newline then { state with quoting := .double }
      else if character ∈ [dollar, backquote, doubleQuote, backslash] then
        { state with quoting := .double, pending := state.pending.append character true }
      else
        { state with
          quoting := .double
          pending := (state.pending.append backslash true).append character true }
  | .comment =>
      if character = newline then
        { state with quoting := .none, tokens := state.tokens ++ [.newline] }
      else state

def State.start : State := ⟨.none, .nothing, []⟩

def State.scan (state : State) (text : List UInt8) : State := text.foldl State.feed state

/-- The tokens at the end of the input, none inside quotes. -/
def State.finish (state : State) : Option (List Token) :=
  if state.quoting = .none ∨ state.quoting = .comment then
    some (state.delimit none).tokens
  else none

/-- The tokens of a complete input. -/
def shellTokens (text : List UInt8) : Option (List Token) := (State.start.scan text).finish

/-! Reading on. -/

theorem State.scan_append (state : State) (front back : List UInt8) :
    state.scan (front ++ back) = (state.scan front).scan back := List.foldl_append

theorem State.scan_cons (state : State) (character : UInt8) (text : List UInt8) :
    state.scan (character :: text) = (state.feed character).scan text := rfl

/-- A character that stands for itself. -/
def literal (character : UInt8) : ShellChar := ⟨character, true⟩

section Quotes
variable {pending : Pending} {characters : List ShellChar} {tokens : List Token}

theorem feed_openSingle :
    State.feed ⟨.none, .nothing, tokens⟩ singleQuote = ⟨.single, .word [], tokens⟩ := rfl

theorem feed_reopenSingle :
    State.feed ⟨.none, .word characters, tokens⟩ singleQuote =
      ⟨.single, .word characters, tokens⟩ := rfl

theorem feed_closeSingle :
    State.feed ⟨.single, pending, tokens⟩ singleQuote = ⟨.none, pending, tokens⟩ := rfl

theorem feed_single {character : UInt8} (h : character ≠ singleQuote) :
    State.feed ⟨.single, .word characters, tokens⟩ character =
      ⟨.single, .word (characters ++ [literal character]), tokens⟩ := by
  simp only [State.feed, if_neg h, Pending.append, literal]

/-- A backslash outside quotes quotes the character after it. -/
theorem scan_backslash {character : UInt8} (h : character ≠ newline) :
    State.scan ⟨.none, .word characters, tokens⟩ [backslash, character] =
      ⟨.none, .word (characters ++ [literal character]), tokens⟩ := by
  have hfirst : State.feed ⟨.none, .word characters, tokens⟩ backslash =
      ⟨.backslash, .word characters, tokens⟩ := rfl
  rw [State.scan_cons, State.scan_cons, hfirst]
  simp only [State.feed, if_neg h, Pending.append, literal]
  rfl

theorem feed_blank :
    State.feed ⟨.none, .word characters, tokens⟩ 32 =
      ⟨.none, .nothing, tokens ++ [.word characters]⟩ := by
  have hword : Pending.tokens (.word characters) (some 32) = [.word characters] :=
    if_neg fun h => absurd h.2.2 (by decide)
  have hdelimit : State.feed ⟨.none, .word characters, tokens⟩ 32 =
      State.delimit ⟨.none, .word characters, tokens⟩ (some 32) := rfl
  rw [hdelimit, State.delimit, hword]

end Quotes
end ShellWords
