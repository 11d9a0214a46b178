import CppRag.Arguments

/-!
What a command line asks for: its options as items, the first thing that is refused, and the
arguments as what the last value of each option says.
-/
namespace CppRag
open Characters Numerals
variable {D : Type} (ops : DoubleOps D)

inductive Item where
  | chat
  | option (name : OptionName) (value : Bytes)
  deriving DecidableEq, Repr

def Item.words : Item → List Bytes
  | chat => [chatFlag]
  | option name value => [name.text, value]

/-! The values of an option. -/

inductive ValueKind where
  | text | size | int | double | metric
  deriving DecidableEq, Repr

def OptionName.kind : OptionName → ValueKind
  | model | index | output | input | query | prompt | generator | system | scales => .text
  | chunkBytes | overlapBytes | seed | ctx | embedCtx | batch | maxTokens | topK | perScale =>
      .size
  | temp | topP => .double
  | gpuLayers | threads => .int
  | metric => .metric

/-- The texts that are values of the kind. -/
def ValueKind.Admits (value : Bytes) : ValueKind → Prop
  | .text => True
  | .size => ∃ z, Spelled value z ∧ z.natAbs < 2 ^ 64
  | .int => ∃ z, Spelled value z ∧ -2 ^ 31 ≤ z ∧ z < 2 ^ 31
  | .double => ∃ result, ops.stod value = some (result, value.length)
  | .metric => value = ascii "cosine" ∨ value = ascii "dot"

/-- The error for a value that is not accepted. -/
def OptionName.refusal (name : OptionName) : Bytes :=
  match name.kind with
  | .int => ascii "invalid integer value for " ++ name.text
  | .metric => ascii "--metric must be cosine or dot"
  | _ => ascii "invalid numeric value for " ++ name.text

def readSize (value : Bytes) : UInt64 := (sizeValue [] value).toOption.getD 0

def readInt (value : Bytes) : Int32 := (intValue [] value).toOption.getD 0

def readDouble (value : Bytes) : D := (doubleValue ops [] value).toOption.getD ops.zero

def readMetric (value : Bytes) : Metric := (metricValue value).toOption.getD .cosine

/-- A conversion returns what it reads or stops with its error, as the value is accepted. -/
def Converts {α : Type} (accepted : Prop) (value : α) (refusal : Bytes)
    (result : Except Failure α) : Prop :=
  (accepted ∧ result = .ok value) ∨ (¬accepted ∧ result = .error (.usage refusal))

theorem sizeValue_error {option value : Bytes} {failure : Failure}
    (h : sizeValue option value = .error failure) :
    failure = .usage (ascii "invalid numeric value for " ++ option) := by
  rw [sizeValue] at h
  split at h
  · cases h
    rfl
  · split at h
    · cases h
      rfl
    · cases h

theorem sizeValue_converts (option value : Bytes) :
    Converts (ValueKind.Admits ops value .size) (readSize value)
      (ascii "invalid numeric value for " ++ option) (sizeValue option value) := by
  cases h : sizeValue option value with
  | ok result =>
      obtain ⟨z, hspelled, hsmall, rfl⟩ := sizeValue_ok_iff.mp h
      have hread : sizeValue [] value = .ok (UInt64.ofInt z) :=
        sizeValue_ok_iff.mpr ⟨z, hspelled, hsmall, rfl⟩
      refine .inl ⟨⟨z, hspelled, hsmall⟩, ?_⟩
      rw [readSize, hread]
      rfl
  | error failure =>
      refine .inr ⟨?_, by rw [sizeValue_error h]⟩
      rintro ⟨z, hspelled, hsmall⟩
      rw [sizeValue_ok_iff.mpr ⟨z, hspelled, hsmall, rfl⟩] at h
      cases h

theorem intValue_ok_iff {option value : Bytes} {result : Int32} :
    intValue option value = .ok result ↔
      ∃ z, Spelled value z ∧ -2 ^ 31 ≤ z ∧ z < 2 ^ 31 ∧ result = Int32.ofInt z := by
  have hwhole (z : Int) : stoll isSpace value = .ok (z, value.length) ↔ _ :=
    stoll_whole_iff separating_isSpace
  rw [intValue]
  cases hread : stoll isSpace value with
  | error error =>
      refine iff_of_false nofun ?_
      rintro ⟨z, hspelled, hlow, hhigh, -⟩
      rw [(hwhole z).mpr ⟨hspelled, by omega, by omega⟩] at hread
      cases hread
  | ok read =>
      obtain ⟨z, consumed⟩ := read
      simp only
      constructor
      · intro h
        split at h
        · cases h
        split at h
        · cases h
        rename_i hconsumed hrange
        cases h
        rw [not_not.mp hconsumed] at hread
        exact ⟨z, ((hwhole z).mp hread).1, by omega, by omega, rfl⟩
      · rintro ⟨y, hspelled, hlow, hhigh, rfl⟩
        rw [(hwhole y).mpr ⟨hspelled, by omega, by omega⟩] at hread
        cases hread
        rw [if_neg (by simp), if_neg (by omega)]

theorem intValue_error {option value : Bytes} {failure : Failure}
    (h : intValue option value = .error failure) :
    failure = .usage (ascii "invalid integer value for " ++ option) := by
  rw [intValue] at h
  split at h
  · cases h
    rfl
  · split at h
    · cases h
      rfl
    · split at h
      · cases h
        rfl
      · cases h

theorem intValue_converts (option value : Bytes) :
    Converts (ValueKind.Admits ops value .int) (readInt value)
      (ascii "invalid integer value for " ++ option) (intValue option value) := by
  cases h : intValue option value with
  | ok result =>
      obtain ⟨z, hspelled, hlow, hhigh, rfl⟩ := intValue_ok_iff.mp h
      have hread : intValue [] value = .ok (Int32.ofInt z) :=
        intValue_ok_iff.mpr ⟨z, hspelled, hlow, hhigh, rfl⟩
      refine .inl ⟨⟨z, hspelled, hlow, hhigh⟩, ?_⟩
      rw [readInt, hread]
      rfl
  | error failure =>
      refine .inr ⟨?_, by rw [intValue_error h]⟩
      rintro ⟨z, hspelled, hlow, hhigh⟩
      rw [intValue_ok_iff.mpr ⟨z, hspelled, hlow, hhigh, rfl⟩] at h
      cases h

theorem doubleValue_converts (option value : Bytes) :
    Converts (ValueKind.Admits ops value .double) (readDouble ops value)
      (ascii "invalid numeric value for " ++ option) (doubleValue ops option value) := by
  simp only [Converts, ValueKind.Admits, readDouble, doubleValue]
  cases hread : ops.stod value with
  | none => exact .inr ⟨nofun, rfl⟩
  | some read =>
      obtain ⟨result, consumed⟩ := read
      by_cases hwhole : consumed = value.length
      · subst hwhole
        exact .inl ⟨⟨result, rfl⟩, by simp [Except.toOption]⟩
      · refine .inr ⟨?_, if_pos hwhole⟩
        rintro ⟨other, hother⟩
        cases hother
        exact hwhole rfl

theorem metricValue_converts (value : Bytes) :
    Converts (ValueKind.Admits ops value .metric) (readMetric value)
      (ascii "--metric must be cosine or dot") (metricValue value) := by
  simp only [Converts, ValueKind.Admits, readMetric, metricValue]
  by_cases hcosine : value = ascii "cosine"
  · exact .inl ⟨.inl hcosine, by rw [if_pos hcosine]; rfl⟩
  · by_cases hdot : value = ascii "dot"
    · exact .inl ⟨.inr hdot, by rw [if_neg hcosine, if_pos hdot]; rfl⟩
    · exact .inr ⟨by tauto, by rw [if_neg hcosine, if_neg hdot]⟩

/-! The arguments. -/

def Item.valueOf (name : OptionName) : Item → Option Bytes
  | .option other value => if other = name then some value else none
  | .chat => none

/-- The values of an option, in order. -/
def valuesOf (name : OptionName) (items : List Item) : List Bytes :=
  items.filterMap (Item.valueOf name)

def lastValue {α : Type} (read : Bytes → α) (name : OptionName) (default : α)
    (items : List Item) : α :=
  ((valuesOf name items).getLast?.map read).getD default

/-- The last value of each option, and all the inputs. -/
def Arguments.ofItems (command : Bytes) (items : List Item) : Arguments D where
  command := command
  model := lastValue id .model [] items
  index := lastValue id .index [] items
  output := lastValue id .output [] items
  query := lastValue id .query [] items
  prompt := lastValue id .prompt [] items
  generator := lastValue id .generator [] items
  systemPrompt := lastValue id .system kDefaultSystemPrompt items
  chat := .chat ∈ items
  inputs := valuesOf .input items
  scales := lastValue id .scales [] items
  chunkBytes := lastValue readSize .chunkBytes 1000 items
  overlapBytes := lastValue readSize .overlapBytes 150 items
  contextTokens := lastValue readSize .ctx 2048 items
  embedContextTokens := lastValue readSize .embedCtx 0 items
  batchTokens := lastValue readSize .batch 512 items
  maxResponseTokens := lastValue readSize .maxTokens 256 items
  topK := lastValue readSize .topK 5 items
  perScale := lastValue readSize .perScale 0 items
  temperature := lastValue (readDouble ops) .temp ops.zero items
  topP := lastValue (readDouble ops) .topP ops.defaultTopP items
  seed := lastValue readSize .seed 0xFFFFFFFF items
  gpuLayers := lastValue readInt .gpuLayers 0 items
  threads := lastValue readInt .threads 0 items
  metric := lastValue readMetric .metric .cosine items

theorem valuesOf_snoc (name : OptionName) (items : List Item) (item : Item) :
    valuesOf name (items ++ [item]) = valuesOf name items ++ (item.valueOf name).toList := by
  rw [valuesOf, List.filterMap_append, List.filterMap_cons, List.filterMap_nil]
  cases item.valueOf name <;> rfl

theorem lastValue_nil {α : Type} (read : Bytes → α) (name : OptionName) (default : α) :
    lastValue read name default [] = default := by
  rw [lastValue, valuesOf, List.filterMap_nil, List.getLast?_nil, Option.map_none,
    Option.getD_none]

theorem start_eq_ofItems (command : Bytes) :
    Arguments.start ops command = Arguments.ofItems ops command [] := by
  have hchat : decide (Item.chat ∈ []) = false := rfl
  have hinputs : valuesOf .input [] = [] := rfl
  simp only [Arguments.ofItems, lastValue_nil, hchat, hinputs]
  rw [Arguments.start]

section Snoc
variable {α : Type} {read : Bytes → α} {name other : OptionName} {default : α}
  {items : List Item} {value : Bytes}

@[simp] theorem lastValue_self :
    lastValue read name default (items ++ [.option name value]) = read value := by
  simp [lastValue, valuesOf_snoc, Item.valueOf]

@[simp] theorem lastValue_other (h : other ≠ name) :
    lastValue read name default (items ++ [.option other value]) =
      lastValue read name default items := by
  simp [lastValue, valuesOf_snoc, Item.valueOf, h]

@[simp] theorem lastValue_chat :
    lastValue read name default (items ++ [.chat]) = lastValue read name default items := by
  simp [lastValue, valuesOf_snoc, Item.valueOf]

@[simp] theorem valuesOf_self :
    valuesOf name (items ++ [.option name value]) = valuesOf name items ++ [value] := by
  simp [valuesOf_snoc, Item.valueOf]

@[simp] theorem valuesOf_other (h : other ≠ name) :
    valuesOf name (items ++ [.option other value]) = valuesOf name items := by
  simp [valuesOf_snoc, Item.valueOf, h]

@[simp] theorem valuesOf_chat :
    valuesOf name (items ++ [.chat]) = valuesOf name items := by
  simp [valuesOf_snoc, Item.valueOf]

end Snoc

theorem Converts.ok {α : Type} {accepted : Prop} {value : α} {refusal : Bytes}
    {result : Except Failure α} (h : Converts accepted value refusal result)
    (haccepted : accepted) : result = .ok value := by
  rcases h with ⟨-, h⟩ | ⟨hnot, -⟩
  · exact h
  · exact absurd haccepted hnot

theorem Converts.error {α : Type} {accepted : Prop} {value : α} {refusal : Bytes}
    {result : Except Failure α} (h : Converts accepted value refusal result)
    (hnot : ¬accepted) : result = .error (.usage refusal) := by
  rcases h with ⟨haccepted, -⟩ | ⟨-, h⟩
  · exact absurd haccepted hnot
  · exact h

theorem assign_admitted {name : OptionName} {value : Bytes} (command : Bytes)
    (items : List Item) (h : name.kind.Admits ops value) :
    (Arguments.ofItems ops command items).assign ops name value =
      .ok (Arguments.ofItems ops command (items ++ [.option name value])) := by
  -- Each branch converts the value and assigns it; no other option has a new last value.
  cases name with
  | chunkBytes | overlapBytes | seed | ctx | embedCtx | batch | maxTokens | topK | perScale =>
      have hvalue := fun option => (sizeValue_converts ops option value).ok h
      simp [Arguments.assign, Arguments.ofItems, hvalue]
  | temp | topP =>
      have hvalue := fun option => (doubleValue_converts ops option value).ok h
      simp [Arguments.assign, Arguments.ofItems, hvalue]
  | gpuLayers | threads =>
      have hvalue := fun option => (intValue_converts ops option value).ok h
      simp [Arguments.assign, Arguments.ofItems, hvalue]
  | metric =>
      have hvalue := (metricValue_converts ops value).ok h
      simp [Arguments.assign, Arguments.ofItems, hvalue]
  | model | index | output | input | query | prompt | generator | system | scales =>
      simp only [Arguments.assign, Arguments.ofItems, lastValue_self, valuesOf_self, ne_eq,
        reduceCtorEq, not_false_eq_true, lastValue_other, valuesOf_other, List.mem_append,
        List.mem_singleton, or_false, id_eq]
      rfl

theorem assign_refused {name : OptionName} {value : Bytes} (args : Arguments D)
    (h : ¬name.kind.Admits ops value) :
    args.assign ops name value = .error (.usage name.refusal) := by
  cases name with
  | chunkBytes | overlapBytes | seed | ctx | embedCtx | batch | maxTokens | topK | perScale =>
      rw [Arguments.assign, (sizeValue_converts ops _ value).error h]
      rfl
  | temp | topP =>
      rw [Arguments.assign, (doubleValue_converts ops _ value).error h]
      rfl
  | gpuLayers | threads =>
      rw [Arguments.assign, (intValue_converts ops _ value).error h]
      rfl
  | metric =>
      rw [Arguments.assign, (metricValue_converts ops value).error h]
      rfl
  | model | index | output | input | query | prompt | generator | system | scales =>
      exact absurd trivial h

/-! The loop over the options. -/

theorem OptionName.ofText_text (name : OptionName) : OptionName.ofText name.text = some name := by
  cases name <;> decide

theorem OptionName.text_of_ofText {text : Bytes} {name : OptionName}
    (h : OptionName.ofText text = some name) : name.text = text := by
  rw [OptionName.ofText] at h
  have hfound := List.find?_some h
  exact of_decide_eq_true hfound

theorem OptionName.text_ne (name : OptionName) : name.text ≠ help ∧ name.text ≠ chatFlag := by
  cases name <;> decide

def Item.Accepted : Item → Prop
  | .chat => True
  | .option name value => name.kind.Admits ops value

/-- What the loop stops at, and the error; `--help` has none. -/
inductive StopsAt : List Bytes → Bytes → Prop
  | help {rest : List Bytes} : StopsAt (help :: rest) []
  | missing {option : Bytes} (hhelp : option ≠ help) (hchat : option ≠ chatFlag) :
      StopsAt [option] (ascii "missing value for " ++ option)
  | unknown {option value : Bytes} {rest : List Bytes} (hhelp : option ≠ help)
      (hchat : option ≠ chatFlag) (hname : ∀ name : OptionName, name.text ≠ option) :
      StopsAt (option :: value :: rest) (ascii "unknown option: " ++ option)
  | value {name : OptionName} {value : Bytes} {rest : List Bytes}
      (h : ¬name.kind.Admits ops value) : StopsAt (name.text :: value :: rest) name.refusal

theorem parseOptions_help (args : Arguments D) (rest : List Bytes) :
    parseOptions ops args (help :: rest) = .error (.usage []) := by
  rw [parseOptions.eq_def]
  exact if_pos rfl

theorem parseOptions_chat (args : Arguments D) (rest : List Bytes) :
    parseOptions ops args (chatFlag :: rest) =
      parseOptions ops { args with chat := true } rest := by
  rw [parseOptions.eq_def]
  exact (if_neg (by decide)).trans (if_pos rfl)

theorem parseOptions_value (args : Arguments D) (name : OptionName) (value : Bytes)
    (rest : List Bytes) : parseOptions ops args (name.text :: value :: rest) = (do
      let args ← args.assign ops name value
      parseOptions ops args rest) := by
  obtain ⟨hhelp, hchat⟩ := name.text_ne
  rw [parseOptions, if_neg hhelp, if_neg hchat]
  simp only [OptionName.ofText_text]

theorem parseOptions_items (command : Bytes) (before : List Item) {items : List Item}
    (h : ∀ item ∈ items, item.Accepted ops) (rest : List Bytes) :
    parseOptions ops (Arguments.ofItems ops command before) (items.flatMap Item.words ++ rest) =
      parseOptions ops (Arguments.ofItems ops command (before ++ items)) rest := by
  induction items generalizing before with
  | nil => rw [List.append_nil, List.flatMap_nil, List.nil_append]
  | cons item items ih =>
      obtain ⟨hitem, hitems⟩ := List.forall_mem_cons.mp h
      have hrest := ih (before ++ [item]) hitems
      rw [List.append_assoc, List.singleton_append] at hrest
      rw [List.flatMap_cons, List.append_assoc]
      cases item with
      | chat =>
          have hargs : { Arguments.ofItems ops command before with chat := true } =
              Arguments.ofItems ops command (before ++ [.chat]) := by simp [Arguments.ofItems]
          rw [Item.words, List.singleton_append, parseOptions_chat, hargs, hrest]
      | option name value =>
          rw [Item.words, List.cons_append, List.singleton_append, parseOptions_value,
            assign_admitted ops command before hitem]
          exact hrest

theorem parseOptions_refused (args : Arguments D) {rest : List Bytes} {error : Bytes}
    (h : StopsAt ops rest error) : parseOptions ops args rest = .error (.usage error) := by
  cases h with
  | help => exact parseOptions_help ops args _
  | missing hhelp hchat => rw [parseOptions, if_neg hhelp, if_neg hchat]
  | @unknown option _ _ hhelp hchat hname =>
      have hnone : OptionName.ofText option = none := by
        cases h : OptionName.ofText option with
        | none => rfl
        | some name => exact absurd (OptionName.text_of_ofText h) (hname name)
      rw [parseOptions, if_neg hhelp, if_neg hchat]
      simp only [hnone]
  | value h =>
      rw [parseOptions_value, assign_refused ops args h]
      rfl

/-- What a command line gives: the arguments of its items, or the error of the first thing
that is refused or of the first range that is not kept. -/
inductive Parses : List Bytes → Except Bytes (Arguments D) → Prop
  | short {argv : List Bytes} (h : argv.length < 2) : Parses argv (.error [])
  | help {program : Bytes} {options : List Bytes} :
      Parses (program :: help :: options) (.error [])
  | refused {program command error : Bytes} {items : List Item} {rest : List Bytes}
      (hcommand : command ≠ CppRag.help) (hitems : ∀ item ∈ items, item.Accepted ops)
      (hrest : StopsAt ops rest error) :
      Parses (program :: command :: (items.flatMap Item.words ++ rest)) (.error error)
  | outOfRange {program command error : Bytes} {items : List Item}
      (hcommand : command ≠ CppRag.help) (hitems : ∀ item ∈ items, item.Accepted ops)
      (hrange : rangeError ops (Arguments.ofItems ops command items) = some error) :
      Parses (program :: command :: items.flatMap Item.words) (.error error)
  | accepted {program command : Bytes} {items : List Item}
      (hcommand : command ≠ CppRag.help) (hitems : ∀ item ∈ items, item.Accepted ops)
      (hrange : rangeError ops (Arguments.ofItems ops command items) = none) :
      Parses (program :: command :: items.flatMap Item.words)
        (.ok (Arguments.ofItems ops command items))

theorem parse_of_parses {argv : List Bytes} {result : Except Bytes (Arguments D)}
    (h : Parses ops argv result) : parse ops argv = result.mapError .usage := by
  have hitemsOnly (command : Bytes) {items : List Item}
      (hitems : ∀ item ∈ items, item.Accepted ops) :
      parseOptions ops (Arguments.ofItems ops command []) (items.flatMap Item.words) =
        .ok (Arguments.ofItems ops command items) := by
    have hall := parseOptions_items ops command [] hitems []
    rwa [List.append_nil, List.nil_append] at hall
  cases h with
  | short h =>
      match argv, h with
      | [], _ => rfl
      | [_], _ => rfl
  | help => rw [parse, if_pos rfl]; rfl
  | refused hcommand hitems hrest =>
      rw [parse, if_neg hcommand, start_eq_ofItems, parseOptions_items ops _ [] hitems,
        parseOptions_refused ops _ hrest]
      rfl
  | outOfRange hcommand hitems hrange =>
      rw [parse, if_neg hcommand, start_eq_ofItems, hitemsOnly _ hitems]
      simp only [bind, Except.bind, hrange]
      rfl
  | accepted hcommand hitems hrange =>
      rw [parse, if_neg hcommand, start_eq_ofItems, hitemsOnly _ hitems]
      simp only [bind, Except.bind, hrange]
      rfl

end CppRag
