import CppRag.Foundation.Occurrences

/-!
Records that begin with a header and follow each other line by line. The end of a line does
not occur in the header, so a header at the beginning of a line separates: a list of records
whose other lines do not begin with it is the only one with its text.
-/
namespace HeadedRecords
open Occurrences
variable {α : Type}

section
variable (newline : α) (header : List α)

/-- Only the first line begins with the header. -/
structure Record (record : List α) : Prop where
  headed : header <+: record
  single : ¬(newline :: header) <:+: record

end

variable {newline : α} {header : List α}

variable [DecidableEq α]

end HeadedRecords
