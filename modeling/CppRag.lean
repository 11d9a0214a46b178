import CppRag.IndexSafety
import CppRag.IndexRebuilds
import CppRag.IndexAlignment
import CppRag.IndexOwnership
import CppRag.HeaderCorruption
import CppRag.SearchTies
import CppRag.DotProduct
import CppRag.CosineSimilarity
import CppRag.Citations
import CppRag.PromptTurns
import CppRag.PromptEscaping
import CppRag.ChunkCoverage
import CppRag.ChunkEnds
import CppRag.ChunkUtf8
import CppRag.GeneratedText
import CppRag.DecodedPositions
import CppRag.AskEvidence
import CppRag.UnsignedOptions
import CppRag.ShellCommand
import CppRag.JsonRenderings
import CppRag.BackendLifetimes
import CppRag.EmbeddedTexts
import CppRag.ResultListing
import CppRag.ArgumentItems
import CppRag.QueryListing
import CppRag.HarnessQueries
import CppRag.HarnessProcesses
import CppRag.ServedIndexes
import CppRag.IndexedQueries
import CppRag.ProgramRuns
import CppRag.ExitStatuses
import CppRag.OwnedRuns
import CppRag.HarnessCommands
import CppRag.SearchGrowth
import CppRag.PromptReading
