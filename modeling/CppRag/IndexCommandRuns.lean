import CppRag.EmbeddedTexts
import CppRag.IndexCommand
import CppRag.IndexWritten

/-!
What the `index` command assembles and when it completes. Every item is cut from one of the
inputs as it was read; what is assembled passes the checks of `write` unless all inputs are empty
or the vectors do not fit the format; and then only the file system can stop the command.
-/
namespace CppRag
open Observed Interactive Traversal

/-! The items of the command. -/

/-- The document of an input, as it was read. -/
def Loaded (files : Files) (input : Bytes) (document : Document) : Prop :=
  document.path = input ∧ loadDocumentText files input = .ok document.text

theorem attempt_ok_iff {α : Type} {result : Except Exception α} {a : α} :
    Stop.attempt result = .ok a ↔ result = .ok a := by
  cases result with
  | ok value => exact ⟨fun h => congrArg Except.ok (Except.ok.inj h), fun h => by rw [h]; rfl⟩
  | error error => exact iff_of_false nofun nofun

section Inputs
variable {σ : Type} {files : Files} {embedder : LlamaEmbedder σ} {options : ChunkOptions}
variable {scales : List ChunkOptions}

theorem accepted_of_chunkInput {document : Document} {steps : Nat} {chunks : List Chunk}
    (h : (chunkInput options scales steps document).result = .ok (some chunks)) :
    AcceptedScales (chunkEntries options scales) := by
  rw [chunkInput] at h
  rw [chunkEntries]
  split at h
  · next hempty =>
      rw [if_pos hempty]
      have haccepted := accepted_of_chunkText h
      exact ⟨List.cons_ne_nil _ _, (by decide : 1 < 2 ^ 32),
        List.forall_mem_singleton.mpr haccepted⟩
  · next hscales =>
      rw [if_neg hscales]
      exact (chunkTextMultiScale_ok_iff document.text document.path scales).mp ⟨steps, chunks, h⟩

theorem cut_of_chunkInput {document : Document} {chunks : List Chunk}
    (h : (chunkInput options scales document.text.bytes.length document).result =
      .ok (some chunks)) :
    ∀ chunk ∈ chunks, CutAtScale document.text.bytes document.path
      (chunkEntries options scales) chunk := by
  obtain ⟨cut, hcut, hchunks, -⟩ := chunkInput_cut (accepted_of_chunkInput h) document
  have hsame := (hcut _ (Nat.le_refl _)).symm.trans h
  cases hsame
  exact hchunks

theorem chunkInput_ne_nil_iff {document : Document} {chunks : List Chunk}
    (h : (chunkInput options scales document.text.bytes.length document).result =
      .ok (some chunks)) : chunks ≠ [] ↔ document.text.bytes ≠ [] := by
  obtain ⟨cut, hcut, hchunks, hsome⟩ := chunkInput_cut (accepted_of_chunkInput h) document
  have hsame : cut = chunks :=
    Option.some.inj (Except.ok.inj ((hcut _ (Nat.le_refl _)).symm.trans h))
  subst hsame
  refine ⟨fun hne hempty => ?_, hsome⟩
  obtain ⟨chunk, hchunk⟩ := List.exists_mem_of_ne_nil cut hne
  have hrange := UInt64.lt_iff_toNat_lt.mp (hchunks chunk hchunk).begin_lt
  have hend := (hchunks chunk hchunk).end_le
  rw [hempty, List.length_nil] at hend
  omega

/-- Items that are cut from the documents, with vectors of one length, and at least one unless
all documents are empty. -/
structure Assembled (dimensions : Nat) (documents : List Document)
    (entries : List ChunkOptions) (items : List IndexItem) : Prop where
  cut : ∀ item ∈ items, CutFrom documents entries item.chunk
  length : ∀ item ∈ items, item.embedding.length = dimensions
  nonempty : items ≠ [] ↔ ∃ document ∈ documents, document.text.bytes ≠ []

theorem assembled_nil (dimensions : Nat) (entries : List ChunkOptions) :
    Assembled dimensions [] entries [] := by
  refine ⟨nofun, nofun, iff_of_false (fun h => h rfl) ?_⟩
  rintro ⟨document, hdocument, -⟩
  cases hdocument

/-- One more document in front, with an embedding for each of its chunks. -/
theorem assembled_cons {dimensions : Nat} {document : Document} {documents : List Document}
    {entries : List ChunkOptions} {chunks : List Chunk} {embeddings : List (List FloatBits)}
    {items : List IndexItem}
    (hcut : ∀ chunk ∈ chunks, CutAtScale document.text.bytes document.path entries chunk)
    (hsome : chunks ≠ [] ↔ document.text.bytes ≠ [])
    (hcount : embeddings.length = chunks.length)
    (hlength : ∀ embedding ∈ embeddings, embedding.length = dimensions)
    (h : Assembled dimensions documents entries items) :
    Assembled dimensions (document :: documents) entries
      (List.zipWith IndexItem.mk chunks embeddings ++ items) := by
  refine ⟨fun item hitem => ?_, fun item hitem => ?_, ?_⟩
  · rcases List.mem_append.mp hitem with hfirst | hlater
    · obtain ⟨i, hi, rfl⟩ := List.mem_iff_getElem.mp hfirst
      rw [List.getElem_zipWith]
      exact ⟨document, List.mem_cons_self, hcut _ (List.getElem_mem _)⟩
    · exact (h.cut item hlater).mono fun d hd => List.mem_cons_of_mem _ hd
  · rcases List.mem_append.mp hitem with hfirst | hlater
    · obtain ⟨i, hi, rfl⟩ := List.mem_iff_getElem.mp hfirst
      rw [List.getElem_zipWith]
      exact hlength _ (List.getElem_mem _)
    · exact h.length item hlater
  · have hfirst : List.zipWith IndexItem.mk chunks embeddings ≠ [] ↔
        document.text.bytes ≠ [] := by
      rw [← hsome, ← List.length_pos_iff, ← List.length_pos_iff, List.length_zipWith, hcount,
        Nat.min_self]
    rw [ne_eq, List.append_eq_nil_iff, not_and_or, ← ne_eq, ← ne_eq, hfirst, h.nonempty,
      List.exists_mem_cons_iff]

/-- The items of the inputs, read as documents. -/
theorem indexInputs_ok {inputs : List Bytes} {state : EmbedderState σ} {items : List IndexItem}
    (h : indexInputs files embedder options scales state inputs = .ok items) :
    ∃ documents, List.Forall₂ (Loaded files) inputs documents ∧
      (inputs ≠ [] → AcceptedScales (chunkEntries options scales)) ∧
      Assembled embedder.dimensions documents (chunkEntries options scales) items := by
  induction inputs generalizing state items with
  | nil =>
      cases h
      exact ⟨[], .nil, fun hne => absurd rfl hne, assembled_nil _ _⟩
  | cons input inputs ih =>
      rw [indexInputs, except_bind_ok_iff] at h
      obtain ⟨text, htext, h⟩ := h
      rw [attempt_ok_iff] at htext
      obtain ⟨chunks, hchunks, h⟩ := except_bind_ok_iff.mp h
      rw [attempt_ok_iff] at hchunks
      cases chunks with
      | none => cases h
      | some chunks =>
          obtain ⟨embeddings, hembeddings, h⟩ := except_bind_ok_iff.mp h
          rw [attempt_ok_iff] at hembeddings
          split at h
          · cases h
          · obtain ⟨rest, hrest, h⟩ := except_bind_ok_iff.mp h
            cases h
            obtain ⟨documents, hloaded, -, hassembled⟩ := ih hrest
            obtain ⟨hcount, hlength⟩ := embedder.embedAll_lengths hembeddings
            rw [List.length_map] at hcount
            exact ⟨⟨input, text⟩ :: documents, .cons ⟨rfl, htext⟩ hloaded,
              fun _ => accepted_of_chunkInput hchunks,
              assembled_cons (cut_of_chunkInput hchunks) (chunkInput_ne_nil_iff hchunks) hcount
                hlength hassembled⟩

end Inputs

/-! What a completed `index` command leaves. -/

/-- What the command was given: the documents of its inputs and the entries of its scales. -/
structure Indexed {σ D : Type} (host : IndexHost σ) (args : Arguments D)
    (documents : List Document) (entries : List ChunkOptions) : Prop where
  loaded : List.Forall₂ (Loaded host.files) args.inputs documents
  scales : ∃ scales, parseScales args.scales = .ok scales ∧
    entries = chunkEntries ⟨args.chunkBytes, args.overlapBytes⟩ scales
  accepted : AcceptedScales entries

section Left
variable {σ D : Type} {host : IndexHost σ} {args : Arguments D}

theorem requires_ok_iff {present : Bool} {error : String} {u : Unit} :
    Stop.requires present error = .ok u ↔ present = true := by
  cases present with
  | true => exact iff_of_true rfl rfl
  | false => exact iff_of_false nofun nofun

theorem prepareIndex_ok {items : List IndexItem} {dimensions : Nat}
    (h : prepareIndex host args = .ok (items, dimensions)) :
    ∃ documents entries, Indexed host args documents entries ∧
      Assembled dimensions documents entries items := by
  obtain ⟨-, -, h⟩ := except_bind_ok_iff.mp h
  obtain ⟨_, hinputs, h⟩ := except_bind_ok_iff.mp h
  rw [requires_ok_iff, Bool.not_eq_true', List.isEmpty_eq_false_iff] at hinputs
  obtain ⟨scales, hscales, h⟩ := except_bind_ok_iff.mp h
  obtain ⟨-, -, h⟩ := except_bind_ok_iff.mp h
  obtain ⟨⟨embedder, state⟩, -, h⟩ := except_bind_ok_iff.mp h
  obtain ⟨made, hmade, h⟩ := except_bind_ok_iff.mp h
  cases h
  obtain ⟨documents, hloaded, haccepted, hassembled⟩ := indexInputs_ok hmade
  refine ⟨documents, _, ⟨hloaded, ⟨scales, ?_, rfl⟩, haccepted hinputs⟩, hassembled⟩
  cases hparse : parseScales args.scales with
  | ok parsed =>
      rw [hparse] at hscales
      exact congrArg Except.ok (Except.ok.inj hscales)
  | error error =>
      rw [hparse] at hscales
      cases hscales

/-- The command has returned just when its call of `write` has. -/
theorem runIndex_ok {fs fs' : FileSystem String} {line : Bytes}
    (h : runIndex host args fs = (.ok line, fs')) :
    ∃ items dimensions, prepareIndex host args = .ok (items, dimensions) ∧
      (runWrite host.l2Norm (pathName args.output) items fs host.outcomes).phase = .returned ∧
      fs' = (runWrite host.l2Norm (pathName args.output) items fs host.outcomes).fs ∧
      line = indexedLine items dimensions args.output := by
  rw [runIndex] at h
  split at h
  · cases h
  · rename_i items dimensions hprepared
    refine ⟨items, dimensions, hprepared, ?_⟩
    cases hphase : (runWrite host.l2Norm (pathName args.output) items fs host.outcomes).phase with
    | returned =>
        simp only [writeItems, hphase, Prod.mk.injEq, Except.ok.injEq] at h
        exact ⟨rfl, h.2.symm, h.1.symm⟩
    | _ =>
        simp only [writeItems, hphase] at h
        cases h

end Left

/-! When the command completes. -/

section Completes
variable {σ D : Type} {host : IndexHost σ} {args : Arguments D}

theorem assembled_writable_iff {dimensions : Nat} {documents : List Document}
    {entries : List ChunkOptions} {items : List IndexItem}
    (h : Assembled dimensions documents entries items) :
    Writable items dimensions ↔ (∃ document ∈ documents, document.text.bytes ≠ []) ∧
      0 < dimensions ∧ dimensions < 2 ^ 32 := by
  rw [← h.nonempty]
  constructor
  · exact fun hw => ⟨hw.nonempty, hw.dimensions_pos, hw.dimensions_lt⟩
  · exact fun hw => ⟨hw.1, hw.2.1, hw.2.2, h.length⟩

/-- A call that has returned stays returned. -/
theorem runWrite_stays {l2Norm : List FloatBits → FloatBits} {path : String}
    {items : List IndexItem} {fs : FileSystem String} {outcomes : List Outcome}
    (h : (runWrite l2Norm path items fs outcomes).phase = .returned) (later : List Outcome) :
    runWrite l2Norm path items fs (outcomes ++ later) = runWrite l2Norm path items fs outcomes := by
  have hstep : ∀ (s : WriteState) (outcome : Outcome), s.phase = .returned →
      s.step path outcome = s := by
    rintro ⟨fs, phase⟩ outcome rfl
    rfl
  induction later using List.reverseRecOn with
  | nil => rw [List.append_nil]
  | append_singleton later outcome ih =>
      rw [← List.append_assoc, runWrite_append, ih, hstep _ outcome h]

/-- For all inputs, options and embedding models: once the items are assembled, the checks of
`write` pass just when some input holds text and the vectors fit the format; and then, if the
image fits into a file and no operation fails, the command completes over every file system and
leaves the image at its output. -/
theorem index_completes {items : List IndexItem} {dimensions : Nat}
    (hprepared : prepareIndex host args = .ok (items, dimensions)) :
    ∃ documents entries, Indexed host args documents entries ∧
      (checkItems items = .ok dimensions ↔
        (∃ document ∈ documents, document.text.bytes ≠ []) ∧ 0 < dimensions ∧
          dimensions < 2 ^ 32) ∧
      (checkItems items = .ok dimensions →
        (indexImage host.l2Norm items dimensions).length ≤ maxFileSize → ∀ fs, ∃ count,
          ∀ more, count ≤ more →
            (runIndex { host with outcomes := List.replicate more .ok } args fs).1 =
              .ok (indexedLine items dimensions args.output) ∧
            (runIndex { host with outcomes := List.replicate more .ok } args fs).2.read
              (pathName args.output) = some (indexImage host.l2Norm items dimensions)) := by
  obtain ⟨documents, entries, hindexed, hassembled⟩ := prepareIndex_ok hprepared
  refine ⟨documents, entries, hindexed, ?_, fun hcheck hfile fs => ?_⟩
  · rw [checkItems_ok_iff, assembled_writable_iff hassembled]
  · have hw := (checkItems_ok_iff items dimensions).mp hcheck
    obtain ⟨count, hreturned⟩ := write_returns host.l2Norm (pathName args.output) hw hfile fs
    refine ⟨count, fun more hmore => ?_⟩
    obtain ⟨extra, rfl⟩ := Nat.exists_eq_add_of_le hmore
    have hstays := runWrite_stays hreturned (List.replicate extra .ok)
    rw [← List.replicate_add] at hstays
    rw [← hstays] at hreturned
    have hprepared' :
        prepareIndex { host with outcomes := List.replicate (count + extra) .ok } args =
          .ok (items, dimensions) := hprepared
    have hrun : runIndex { host with outcomes := List.replicate (count + extra) .ok } args fs =
        (.ok (indexedLine items dimensions args.output), (runWrite host.l2Norm
          (pathName args.output) items fs (List.replicate (count + extra) .ok)).fs) := by
      simp only [runIndex, writeItems, hprepared', hreturned]
    obtain ⟨d, hwritable, -, hread⟩ := returned_image hreturned
    have hsame : d = dimensions :=
      Except.ok.inj (((checkItems_ok_iff items d).mpr hwritable).symm.trans hcheck)
    subst hsame
    rw [hrun]
    exact ⟨rfl, hread⟩

end Completes

/-! One file of two bytes. -/

def letterFiles : Files where
  extractPdfText _ := .error (.runtimeError "")
  open? _ := some ⟨ascii "bc", by decide⟩

def letterHost : IndexHost (List BatchEntry) where
  files := letterFiles
  loadEmbedder := .ok (sampleEmbedder, ⟨[], []⟩)
  l2Norm _ := oneF
  outcomes := List.replicate 20 .ok

def letterArguments : Arguments Unit :=
  { command := ascii "index", model := ascii "m", output := ascii "i", inputs := [ascii "a"],
    temperature := (), topP := () }

def letterFileItems : List IndexItem := [⟨⟨ascii "a", ascii "bc", 0, 2, 0, 1000⟩, [2]⟩]

theorem index_completes_letter :
    ∃ documents entries, Indexed letterHost letterArguments documents entries ∧
      (checkItems letterFileItems = .ok 1 ↔
        (∃ document ∈ documents, document.text.bytes ≠ []) ∧ 0 < 1 ∧ 1 < 2 ^ 32) ∧
      (checkItems letterFileItems = .ok 1 →
        (indexImage letterHost.l2Norm letterFileItems 1).length ≤ maxFileSize → ∀ fs, ∃ count,
          ∀ more, count ≤ more →
            (runIndex { letterHost with outcomes := List.replicate more .ok }
              letterArguments fs).1 = .ok (indexedLine letterFileItems 1 letterArguments.output) ∧
            (runIndex { letterHost with outcomes := List.replicate more .ok }
              letterArguments fs).2.read (pathName letterArguments.output) =
                some (indexImage letterHost.l2Norm letterFileItems 1)) :=
  index_completes (by decide +kernel)

end CppRag
