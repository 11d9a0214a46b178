import CppRag.CommandEvents
import CppRag.SearchQuota

/-!
From the results of a query to what the harness counts: the listing is read back result by
result, unless a path or a text looks like the listing itself.
-/
namespace CppRag
open Characters Observed Failures Occurrences HeadedRecords PriorityQueue

/-! One result. -/

section Lines
variable {K : Type} {showScore : K → Bytes}

end Lines

/-! The listing. -/

section Listing
variable {K : Type} {showScore : K → Bytes}

/-- The listing of the results with their chunks. -/
def listing (showScore : K → Bytes) (found : List (SearchResult K × Chunk)) : List Bytes :=
  found.map fun entry => resultLines showScore entry.1 entry.2

end Listing

/-! The command. -/

/-- A step that prints nothing, in a computation that returns. -/
theorem bind_quiet {α β : Type} {m : Query α} {f : α → Query β} {b : β}
    (h : (m >>= f).result = .ok b) (hm : Within QueryEvent.Quiet Failure.Spoken m) :
    ∃ a, m.result = .ok a ∧ (f a).result = .ok b ∧
      outputText (m >>= f).events = outputText (f a).events := by
  obtain ⟨a, hresult, hf⟩ := (bind_ok_iff m f b).mp h
  refine ⟨a, hresult, hf, ?_⟩
  rw [events_bind_of_ok hresult, outputText_append, outputText_eq_nil hm.events, List.nil_append]

theorem result_ofChecked {α : Type} {m : Checked α} {a : α}
    (h : (Query.ofChecked m).result = .ok a) : m.result = .ok a := by
  rw [Query.ofChecked] at h
  cases hm : m.result with
  | ok value =>
      rw [Observed.mapError, Observed.mapEvents, hm] at h
      exact congrArg Except.ok (Except.ok.inj h)
  | error error =>
      rw [Observed.mapError, Observed.mapEvents, hm] at h
      cases h

theorem result_attempt {α : Type} {result : Except Exception α} {a : α}
    (h : (Query.attempt result).result = .ok a) : result = .ok a := by
  cases result with
  | ok value => exact congrArg Except.ok (Except.ok.inj h)
  | error error => cases h

theorem printResults_ok {K : Type} (showScore : K → Bytes) (index : MmapIndex)
    {results : List (SearchResult K)}
    (h : (printResults showScore index results).result = .ok ()) :
    ∃ found : List (SearchResult K × Chunk), found.map Prod.fst = results ∧
      (∀ entry ∈ found, (index.chunk (UInt64.ofNat entry.1.index)).result = .ok entry.2) ∧
      outputText (printResults showScore index results).events =
        (listing showScore found).flatten := by
  induction results with
  | nil => exact ⟨[], rfl, nofun, rfl⟩
  | cons result results ih =>
      rw [printResults] at h ⊢
      obtain ⟨chunk, hchunk, hrest, houtput⟩ := bind_quiet h (within_calls (fun _ _ => nofun) _)
      rw [houtput, events_bind_of_ok (result_report _), outputText_append]
      rw [report_bind_result] at hrest
      obtain ⟨found, hresults, hchunks, hlater⟩ := ih hrest
      refine ⟨(result, chunk) :: found, by rw [List.map_cons, hresults],
        List.forall_mem_cons.mpr ⟨result_ofChecked hchunk, hchunks⟩, ?_⟩
      have hone (text : Bytes) : outputText (report (.output text) : Query Unit).events = text := by
        simp [report, outputText]
      have hcons : listing showScore ((result, chunk) :: found) =
          resultLines showScore result chunk :: listing showScore found := rfl
      rw [hone, hlater, hcons, List.flatten_cons]

section Command
variable {K D : Type} [LinearOrder K] (pq : PriorityQueue (SearchResult.score (K := K)))
  (ops : FloatOps K) (showScore : K → Bytes) (host : QueryHost) (args : Arguments D)

/-- What a query has found: the results of the search for the embedding of its text, each with
its chunk. -/
def Found (found : List (SearchResult K × Chunk)) : Prop :=
  ∃ img index embed queryEmbedding, host.mapFile args.index = .ok img ∧
    (MmapIndex.openImage img).result = .ok index ∧ host.loadEmbedder = .ok embed ∧
    embed args.query = .ok queryEmbedding ∧
    (search pq host.memory ops index queryEmbedding args.topK.toNat
      ⟨args.metric, args.perScale.toNat⟩).result = .ok (found.map Prod.fst) ∧
    ∀ entry ∈ found, (index.chunk (UInt64.ofNat entry.1.index)).result = .ok entry.2

theorem runQuery_ok (h : (runQuery pq ops showScore host args).result = .ok ()) :
    ∃ found, Found pq ops host args found ∧
      outputText (runQuery pq ops showScore host args).events =
        (listing showScore found).flatten := by
  rw [runQuery] at h ⊢
  obtain ⟨-, -, h, e1⟩ := bind_quiet h (within_requires (by decide))
  obtain ⟨-, -, h, e2⟩ := bind_quiet h (within_requires (by decide))
  obtain ⟨-, -, h, e3⟩ := bind_quiet h (within_requires (by decide))
  obtain ⟨-, -, h, e4⟩ := bind_quiet h (within_requires (by decide))
  obtain ⟨embed, hembed, h, e5⟩ := bind_quiet h (within_attempt _)
  obtain ⟨img, himg, h, e6⟩ := bind_quiet h (within_attempt _)
  obtain ⟨index, hindex, h, e7⟩ := bind_quiet h (within_calls (fun _ _ => nofun) _)
  obtain ⟨queryEmbedding, hquery, h, e8⟩ := bind_quiet h (within_attempt _)
  obtain ⟨results, hresults, h, e9⟩ := bind_quiet h (within_calls (fun _ _ => nofun) _)
  obtain ⟨found, rfl, hchunks, houtput⟩ := printResults_ok showScore index h
  refine ⟨found, ⟨img, index, embed, queryEmbedding, result_attempt himg,
    result_ofChecked hindex, result_attempt hembed, result_attempt hquery,
    result_ofChecked hresults, hchunks⟩, ?_⟩
  rw [e1, e2, e3, e4, e5, e6, e7, e8, e9, houtput]

variable {pq ops showScore host args}

end Command

/-! A query with two results. -/

def showNat (score : Nat) : Bytes := decimal (UInt64.ofNat score)

end CppRag
