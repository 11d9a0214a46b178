import CppRag.ArgumentItems
import CppRag.Harness
import CppRag.PromptTurns

/-!
What the program reads from the commands the harness builds: the options of the harness, with
every number as it was and the defaults of the program for the rest. Only a metric that the
program does not know is refused.
-/
namespace CppRag
open Numerals

/-! Numbers. -/

@[simp] theorem readSize_decimal (value : UInt64) : readSize (decimal value) = value := by
  rw [readSize, sizeValue_decimal]
  rfl

variable {D : Type} (ops : DoubleOps D)

theorem admits_decimal (value : UInt64) : ValueKind.size.Admits ops (decimal value) :=
  ⟨value.toNat, spelled_decimal value, by rw [Int.natAbs_natCast]; exact value.toNat_lt⟩

/-- The defaults of the options with a `double` are in their ranges. -/
structure DefaultsInRange : Prop where
  zero : ops.atLeastZero ops.zero = true
  topP : ops.inUnit ops.defaultTopP = true

/-! The items. -/

section Items
variable (o : HarnessOptions)

def perScaleItems : List Item :=
  if o.perScale ≠ 0 then [.option .perScale (decimal o.perScale)] else []

def indexCommandItems (documents : List Bytes) : List Item :=
  [.option .model o.embed, .option .output (indexPath o)] ++
    documents.map (.option .input) ++
    if o.scales.isEmpty then [] else [.option .scales o.scales]

def queryItems (item : Case) : List Item :=
  [.option .model o.embed, .option .index (indexPath o), .option .query item.question,
    .option .topK (decimal o.topK)]

def askItems (item : Case) : List Item :=
  [.option .model o.embed, .option .generator o.generator, .option .index (indexPath o),
    .option .query item.question, .option .topK (decimal o.topK)]

def askLimitItems : List Item :=
  [.option .maxTokens (decimal o.maxTokens), .option .ctx (ascii "4096"),
    .option .gpuLayers (ascii "99")]

theorem perScaleItems_words : (perScaleItems o).flatMap Item.words = perScaleWords o := by
  rw [perScaleItems, perScaleWords]
  split <;> rfl

theorem indexArgv_eq (documents : List Bytes) : indexArgv o documents =
    o.bin :: ascii "index" :: (indexCommandItems o documents).flatMap Item.words := by
  have hinputs : (documents.map (Item.option .input)).flatMap Item.words =
      documents.flatMap fun document => [ascii "--input", document] := by
    rw [List.flatMap_map]
    rfl
  have hscales : (if o.scales.isEmpty then [] else [Item.option .scales o.scales]).flatMap
      Item.words = if o.scales.isEmpty then [] else [ascii "--scales", o.scales] := by
    split <;> rfl
  rw [indexCommandItems, List.flatMap_append, List.flatMap_append, hinputs, hscales]
  rfl

theorem queryArgv_eq (item : Case) : queryArgv o item = o.bin :: ascii "query" ::
    (queryItems o item ++ .option .metric o.metric :: perScaleItems o).flatMap Item.words := by
  rw [List.flatMap_append, List.flatMap_cons, perScaleItems_words]
  rfl

theorem askArgv_eq (item : Case) : askArgv o item = o.bin :: ascii "ask" ::
    (askItems o item ++ .option .metric o.metric ::
      (askLimitItems o ++ perScaleItems o)).flatMap Item.words := by
  rw [List.flatMap_append, List.flatMap_cons, List.flatMap_append, perScaleItems_words]
  rfl

end Items

/-! What is read. -/

/-- A command with one metric, whose other items are accepted. -/
theorem parse_metric {program command value : Bytes} (hcommand : command ≠ help)
    {before after : List Item} (hbefore : ∀ item ∈ before, item.Accepted ops)
    (hafter : ∀ item ∈ after, item.Accepted ops)
    (hrange : rangeError ops (Arguments.ofItems ops command
      (before ++ .option .metric value :: after)) = none) :
    parse ops (program :: command ::
        (before ++ .option .metric value :: after).flatMap Item.words) =
      (metricValue value).map fun _ =>
        Arguments.ofItems ops command (before ++ .option .metric value :: after) := by
  by_cases hvalue : ValueKind.metric.Admits ops value
  · have hitems : ∀ item ∈ before ++ .option .metric value :: after, item.Accepted ops :=
      List.forall_mem_append.mpr ⟨hbefore, List.forall_mem_cons.mpr ⟨hvalue, hafter⟩⟩
    rw [(metricValue_converts ops value).ok hvalue]
    exact parse_of_parses ops (.accepted hcommand hitems hrange)
  · have hstop : StopsAt ops ([OptionName.metric.text, value] ++ after.flatMap Item.words)
        OptionName.metric.refusal := .value hvalue
    have hrefused := parse_of_parses ops
      (.refused hcommand hbefore hstop : Parses ops (program :: _) _)
    rw [(metricValue_converts ops value).error hvalue, List.flatMap_append, List.flatMap_cons]
    exact hrefused

section Read
variable (o : HarnessOptions) (item : Case)

theorem perScaleItems_accepted : ∀ item ∈ perScaleItems o, item.Accepted ops := by
  rw [perScaleItems]
  split
  · exact List.forall_mem_singleton.mpr (admits_decimal ops o.perScale)
  · exact nofun

theorem queryItems_accepted : ∀ entry ∈ queryItems o item, entry.Accepted ops := by
  simp only [queryItems, List.forall_mem_cons, List.not_mem_nil, false_imp_iff, implies_true,
    and_true]
  exact ⟨trivial, trivial, trivial, admits_decimal ops o.topK⟩

theorem askItems_accepted : ∀ entry ∈ askItems o item, entry.Accepted ops := by
  simp only [askItems, List.forall_mem_cons, List.not_mem_nil, false_imp_iff, implies_true,
    and_true]
  exact ⟨trivial, trivial, trivial, trivial, admits_decimal ops o.topK⟩

theorem intValue_99 (option : Bytes) : intValue option (ascii "99") = .ok 99 := rfl

theorem sizeValue_4096 (option : Bytes) : sizeValue option (ascii "4096") = .ok 4096 := rfl

theorem askLimitItems_accepted :
    ∀ entry ∈ askLimitItems o ++ perScaleItems o, entry.Accepted ops := by
  refine List.forall_mem_append.mpr ⟨?_, perScaleItems_accepted ops o⟩
  simp only [askLimitItems, List.forall_mem_cons, List.not_mem_nil, false_imp_iff, implies_true,
    and_true]
  refine ⟨admits_decimal ops o.maxTokens, ?_, ?_⟩
  · obtain ⟨z, hspelled, hsmall, -⟩ := sizeValue_ok_iff.mp (sizeValue_4096 [])
    exact ⟨z, hspelled, hsmall⟩
  · obtain ⟨z, hspelled, hlow, hhigh, -⟩ := intValue_ok_iff.mp (intValue_99 [])
    exact ⟨z, hspelled, hlow, hhigh⟩

/-- The arguments of a query. -/
def queryArguments (metric : Metric) : Arguments D :=
  { Arguments.start ops (ascii "query") with
    model := o.embed, index := indexPath o, query := item.question, topK := o.topK,
    perScale := o.perScale, metric := metric }

def askCommandArguments (metric : Metric) : Arguments D :=
  { Arguments.start ops (ascii "ask") with
    model := o.embed, generator := o.generator, index := indexPath o, query := item.question,
    topK := o.topK, perScale := o.perScale, metric := metric,
    maxResponseTokens := o.maxTokens, contextTokens := 4096, gpuLayers := 99 }

def indexArguments (documents : List Bytes) : Arguments D :=
  { Arguments.start ops (ascii "index") with
    model := o.embed, output := indexPath o, inputs := documents, scales := o.scales }

theorem ofItems_query : Arguments.ofItems ops (ascii "query")
    (queryItems o item ++ .option .metric o.metric :: perScaleItems o) =
      queryArguments ops o item (readMetric o.metric) := by
  by_cases hper : o.perScale = 0 <;>
    simp [Arguments.ofItems, queryItems, perScaleItems, lastValue, valuesOf, Item.valueOf,
      queryArguments, Arguments.start, hper]

theorem ofItems_ask : Arguments.ofItems ops (ascii "ask")
    (askItems o item ++ .option .metric o.metric :: (askLimitItems o ++ perScaleItems o)) =
      askCommandArguments ops o item (readMetric o.metric) := by
  have hctx : readSize (ascii "4096") = 4096 := rfl
  have hlayers : readInt (ascii "99") = 99 := rfl
  by_cases hper : o.perScale = 0 <;>
    simp [Arguments.ofItems, askItems, askLimitItems, perScaleItems, lastValue, valuesOf,
      Item.valueOf, askCommandArguments, Arguments.start, hper, hctx, hlayers]

theorem valuesOf_documents (name : OptionName) (documents : List Bytes) :
    valuesOf name (documents.map (.option .input)) = if name = .input then documents else [] := by
  induction documents with
  | nil => simp [valuesOf]
  | cons document documents ih =>
      rw [valuesOf] at ih
      rw [List.map_cons, valuesOf, List.filterMap_cons, ih, Item.valueOf]
      by_cases hname : name = .input
      · subst hname
        simp
      · simp [hname, Ne.symm hname]

theorem valuesOf_index (name : OptionName) (documents : List Bytes) :
    valuesOf name (indexCommandItems o documents) =
      (if name = .model then [o.embed] else []) ++ (if name = .output then [indexPath o] else []) ++
        (if name = .input then documents else []) ++
        if name = .scales ∧ o.scales ≠ [] then [o.scales] else [] := by
  have hfront : valuesOf name [.option .model o.embed, .option .output (indexPath o)] =
      (if name = .model then [o.embed] else []) ++
        (if name = .output then [indexPath o] else []) := by
    cases name <;> rfl
  have hscales : valuesOf name (if o.scales.isEmpty then [] else [.option .scales o.scales]) =
      if name = .scales ∧ o.scales ≠ [] then [o.scales] else [] := by
    cases o.scales with
    | nil => simp [valuesOf]
    | cons byte rest => cases name <;> rfl
  have hdocuments := valuesOf_documents name documents
  rw [indexCommandItems]
  simp only [valuesOf, List.filterMap_append] at hfront hscales hdocuments ⊢
  rw [hfront, hscales, hdocuments]

theorem ofItems_index (documents : List Bytes) : Arguments.ofItems ops (ascii "index")
    (indexCommandItems o documents) = indexArguments ops o documents := by
  have hchat : decide (Item.chat ∈ indexCommandItems o documents) = false := by
    simp [indexCommandItems]
  have hscales : lastValue id .scales [] (indexCommandItems o documents) = o.scales := by
    rw [lastValue, valuesOf_index]
    cases o.scales <;> simp
  simp only [Arguments.ofItems, hchat, hscales]
  simp [lastValue, valuesOf_index, indexArguments, Arguments.start]

theorem indexItems_accepted (documents : List Bytes) :
    ∀ item ∈ indexCommandItems o documents, item.Accepted ops := by
  intro item hitem
  simp only [indexCommandItems, List.mem_append, List.mem_map] at hitem
  rcases hitem with (hitem | ⟨document, -, rfl⟩) | hitem
  · simp only [List.mem_cons, List.not_mem_nil, or_false] at hitem
    rcases hitem with rfl | rfl <;> exact trivial
  · exact trivial
  · split at hitem
    · cases hitem
    · rw [List.mem_singleton.mp hitem]
      exact trivial

theorem rangeError_none (h : DefaultsInRange ops) {args : Arguments D}
    (htemperature : args.temperature = ops.zero) (htopP : args.topP = ops.defaultTopP)
    (hseed : args.seed = 0xFFFFFFFF) (hlayers : ¬args.gpuLayers < 0) (hthreads : args.threads = 0) :
    rangeError ops args = none := by
  have hseedRange : ¬args.seed > 0xFFFFFFFF := by
    rw [hseed]
    decide
  have hthreadsRange : ¬args.threads < 0 := by
    rw [hthreads]
    decide
  rw [rangeError, htemperature, htopP, h.zero, h.topP]
  simp only [Bool.not_true, Bool.false_eq_true, if_false, if_neg hseedRange, if_neg hlayers,
    if_neg hthreadsRange]

theorem map_metric {α : Type} (value : Bytes) (f : Metric → α) :
    (metricValue value).map (fun _ => f (readMetric value)) = (metricValue value).map f := by
  cases hvalue : metricValue value with
  | error failure => rfl
  | ok metric =>
      have hread : readMetric value = metric := by
        rw [readMetric, hvalue]
        rfl
      rw [hread]
      rfl

theorem indexArgv_read (h : DefaultsInRange ops) (documents : List Bytes) :
    parse ops (indexArgv o documents) = .ok (indexArguments ops o documents) := by
  have hargs := ofItems_index ops o documents
  have hrange : rangeError ops (Arguments.ofItems ops (ascii "index")
      (indexCommandItems o documents)) = none := by
    rw [hargs]
    exact rangeError_none ops h rfl rfl rfl (by decide : ¬(0 : Int32) < 0) rfl
  have hparse := parse_of_parses ops (.accepted (by decide)
    (indexItems_accepted ops o documents) hrange : Parses ops (o.bin :: ascii "index" :: _) _)
  rw [hargs] at hparse
  rw [indexArgv_eq]
  exact hparse

theorem queryArgv_read (h : DefaultsInRange ops) :
    parse ops (queryArgv o item) = (metricValue o.metric).map (queryArguments ops o item) := by
  have hargs := ofItems_query ops o item
  have hrange : rangeError ops (Arguments.ofItems ops (ascii "query")
      (queryItems o item ++ .option .metric o.metric :: perScaleItems o)) = none := by
    rw [hargs]
    exact rangeError_none ops h rfl rfl rfl (by decide : ¬(0 : Int32) < 0) rfl
  rw [queryArgv_eq, parse_metric ops (by decide) (queryItems_accepted ops o item)
    (perScaleItems_accepted ops o) hrange, hargs]
  exact map_metric o.metric (queryArguments ops o item)

theorem askArgv_read (h : DefaultsInRange ops) :
    parse ops (askArgv o item) = (metricValue o.metric).map (askCommandArguments ops o item) := by
  have hargs := ofItems_ask ops o item
  have hrange : rangeError ops (Arguments.ofItems ops (ascii "ask") (askItems o item ++
      .option .metric o.metric :: (askLimitItems o ++ perScaleItems o))) = none := by
    rw [hargs]
    exact rangeError_none ops h rfl rfl rfl (by decide : ¬(99 : Int32) < 0) rfl
  rw [askArgv_eq, parse_metric ops (by decide) (askItems_accepted ops o item)
    (askLimitItems_accepted ops o) hrange, hargs]
  exact map_metric o.metric (askCommandArguments ops o item)

/-- For all options of the harness, documents and cases: the program reads the harness's values,
each number unchanged, and its own defaults for the rest; a query and a question are refused just
when the metric is unknown. -/
theorem harness_commands_read (h : DefaultsInRange ops) (documents : List Bytes) :
    parse ops (indexArgv o documents) = .ok (indexArguments ops o documents) ∧
      parse ops (queryArgv o item) = (metricValue o.metric).map (queryArguments ops o item) ∧
      parse ops (askArgv o item) = (metricValue o.metric).map (askCommandArguments ops o item) :=
  ⟨indexArgv_read ops o h documents, queryArgv_read ops o item h, askArgv_read ops o item h⟩

end Read

/-- Values that are all in range. -/
def unitDoubles : DoubleOps Unit := ⟨fun _ => none, (), (), fun _ => true, fun _ => true⟩

def whereCase : Case := ⟨ascii "q1", ascii "a.md", ascii "Where?", ascii "Here", false⟩

theorem harness_commands_read_where :
    parse unitDoubles (queryArgv {} whereCase) =
      .ok (queryArguments unitDoubles {} whereCase .cosine) :=
  (harness_commands_read unitDoubles {} whereCase ⟨rfl, rfl⟩ []).2.1

end CppRag
