import CppRag.HarnessCommands
import CppRag.HarnessRuns
import CppRag.QueryListing

/-!
What the measure of a case is made of: the query is run with the harness's own values, and its
first hit is the place of the first result that shows the expected text.
-/
namespace CppRag
open Observed PriorityQueue Traversal

section Rank
variable {K : Type} {showScore : K → Bytes}

end Rank

end CppRag
