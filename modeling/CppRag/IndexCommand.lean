import CppRag.Arguments
import CppRag.DocumentLoader
import CppRag.IndexAssembly
import CppRag.IndexInstall
import CppRag.LlamaEmbedder

/-!
`run_index`: the checks of its options, the loop over the inputs, and the call of `write` on the
file system. Loading files, the embedder and the outcomes of the operations on files are
parameters.
-/
namespace CppRag
open Interactive

/-- How a command ends that does not complete. -/
inductive Stop where
  | failure (failure : Failure)
  /-- The process is killed. -/
  | killed
  deriving DecidableEq, Repr

namespace Stop

def attempt {α : Type} (result : Except Exception α) : Except Stop α :=
  result.mapError fun exception => failure (.exception exception)

def requires (present : Bool) (error : String) : Except Stop Unit :=
  if present then pure () else throw (failure (.usage (ascii error)))

end Stop

open Stop

/-- What the command gets from outside. -/
structure IndexHost (σ : Type) where
  files : Files
  /-- The constructor of the embedder, with the options of the command. -/
  loadEmbedder : Except Exception (LlamaEmbedder σ × EmbedderState σ)
  l2Norm : List FloatBits → FloatBits
  /-- How the operations of `write` end; the process is killed after the last of them. -/
  outcomes : List Outcome

/-- The name of a path in the file system. -/
def pathName (path : Bytes) : String :=
  String.ofList (path.map fun character => Char.ofNat character.toNat)

section Command
variable {σ D : Type}

/-- The loop over the inputs. -/
def indexInputs (files : Files) (embedder : LlamaEmbedder σ) (options : ChunkOptions)
    (scales : List ChunkOptions) (state : EmbedderState σ) :
    List Bytes → Except Stop (List IndexItem)
  | [] => pure []
  | input :: inputs => do
      let text ← attempt (loadDocumentText files input)
      let chunks ← attempt (chunkInput options scales text.bytes.length ⟨input, text⟩).result
      match chunks with
      | none => throw .killed
      | some chunks => do
          let run := exec (embedder.embedAll (chunks.map Chunk.text)) state
          let embeddings ← attempt run.1
          if embeddings.length ≠ chunks.length then
            throw (.failure
              (.exception (.runtimeError "embedding count does not match chunk count")))
          else do
            let items ← indexInputs files embedder options scales run.2 inputs
            pure (List.zipWith IndexItem.mk chunks embeddings ++ items)

/-- From the options to the items, and the length of the vectors. -/
def prepareIndex (host : IndexHost σ) (args : Arguments D) :
    Except Stop (List IndexItem × Nat) := do
  requires (!args.output.isEmpty) "--output is required"
  requires (!args.inputs.isEmpty) "at least one --input is required"
  let scales ← (parseScales args.scales).mapError failure
  requires (!args.model.isEmpty) "--model is required"
  let (embedder, state) ← attempt host.loadEmbedder
  let items ← indexInputs host.files embedder ⟨args.chunkBytes, args.overlapBytes⟩ scales state
    args.inputs
  pure (items, embedder.dimensions)

def indexedLine (items : List IndexItem) (dimensions : Nat) (output : Bytes) : Bytes :=
  ascii "indexed " ++ decimal (UInt64.ofNat items.length) ++ ascii " chunks (" ++
    decimal (UInt64.ofNat dimensions) ++ ascii " dimensions) into " ++ output ++ ascii "\n"

/-- The call of `write`, and the line on standard output. -/
def writeItems (host : IndexHost σ) (args : Arguments D) (items : List IndexItem)
    (dimensions : Nat) (fs : FileSystem String) : Except Stop Bytes × FileSystem String :=
  let s := runWrite host.l2Norm (pathName args.output) items fs host.outcomes
  match s.phase with
  | .returned => (.ok (indexedLine items dimensions args.output), s.fs)
  | .thrown exception => (.error (.failure (.exception exception)), s.fs)
  | _ => (.error .killed, s.fs)

/-- The command, with what it writes to standard output and the files it leaves. -/
def runIndex (host : IndexHost σ) (args : Arguments D) (fs : FileSystem String) :
    Except Stop Bytes × FileSystem String :=
  match prepareIndex host args with
  | .error stop => (.error stop, fs)
  | .ok (items, dimensions) => writeItems host args items dimensions fs

end Command

/-- The file under a path, as the constructor of `MmapIndex` maps it. -/
def mapFile (fs : FileSystem String) (path : Bytes) : Except Exception Image :=
  match fs.read (pathName path) with
  | none => throw (.runtimeError (withPath "unable to open index: " path))
  | some bytes =>
      if bytes.isEmpty then throw (.runtimeError (withPath "unable to stat index: " path))
      else if h : bytes.length < 2 ^ 64 then pure ⟨bytes, h⟩
      else throw (.runtimeError (withPath "unable to memory-map index: " path))

end CppRag
