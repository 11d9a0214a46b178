import CppRag.Chunker
import CppRag.PromptBuilder
import Mathlib.Data.List.DropRight

/-!
`load_document_text`: a path whose extension is that of a PDF goes to the PDF loader, every other
path is read as it is. The extension is that of `std::filesystem::path`.
-/
namespace CppRag
open Characters

/-- `filename()`, what follows the last slash. -/
def filename (path : Bytes) : Bytes := path.rtakeWhile (· ≠ slash)

/-- `extension()`, from the last dot of the filename on, unless the filename begins with that dot
or is one of the two directories. -/
def extension (path : Bytes) : Bytes :=
  let name := filename path
  if name = [dot] ∨ name = [dot, dot] then []
  else if (name.rdropWhile (· ≠ dot)).length ≤ 1 then []
  else dot :: name.rtakeWhile (· ≠ dot)

/-- What the loader gets from outside: the text of a PDF, and the bytes of a file that opens. -/
structure Files where
  extractPdfText : Bytes → Except Exception StringView
  open? : Bytes → Option StringView

/-- A message with the characters of a path. -/
def withPath (message : String) (path : Bytes) : String :=
  message ++ String.ofList (path.map fun character => Char.ofNat character.toNat)

def loadDocumentText (files : Files) (path : Bytes) : Except Exception StringView :=
  if (extension path).map toLower = ascii ".pdf" then do
    let text ← files.extractPdfText path
    if text.bytes.isEmpty then
      throw (.runtimeError
        (withPath "PDF contains no extractable text; scanned PDFs require OCR: " path))
    else pure text
  else
    match files.open? path with
    | none => throw (.runtimeError (withPath "unable to open input file: " path))
    | some text => pure text

/-! The last component. -/

section Last
variable {separator : UInt8}

theorem rtakeWhile_append {back : Bytes} (front : Bytes) (hfront : front.getLast? = some separator)
    (hback : separator ∉ back) : (front ++ back).rtakeWhile (· ≠ separator) = back := by
  have hall : ∀ x ∈ back.reverse, decide (x ≠ separator) = true := fun x hx =>
    decide_eq_true fun he => hback (he ▸ List.mem_reverse.mp hx)
  obtain ⟨init, rfl⟩ := List.getLast?_eq_some_iff.mp hfront
  rw [List.rtakeWhile, List.reverse_append, List.takeWhile_append_of_pos hall, List.reverse_concat,
    List.takeWhile_cons_of_neg (by simp), List.append_nil, List.reverse_reverse]

theorem rtakeWhile_whole {text : Bytes} (h : separator ∉ text) :
    text.rtakeWhile (· ≠ separator) = text :=
  List.rtakeWhile_eq_self_iff.mpr fun _ hx => decide_eq_true fun he => h (he ▸ hx)

theorem notMem_rtakeWhile (text : Bytes) : separator ∉ text.rtakeWhile (· ≠ separator) :=
  fun hmem => by
    have hne := List.mem_rtakeWhile_imp hmem
    rw [decide_eq_true_eq] at hne
    exact hne rfl

/-- The front ends with the separator unless it is empty. -/
theorem getLast_rdropWhile {text : Bytes} (h : text.rdropWhile (· ≠ separator) ≠ []) :
    (text.rdropWhile (· ≠ separator)).getLast? = some separator := by
  have hlast := List.rdropWhile_last_not _ _ h
  rw [List.getLast?_eq_some_getLast h]
  simpa using hlast

end Last

/-! What is a PDF. -/

/-- A filename of at least one character before the extension, in some directory. -/
structure NamesPdf (path : Bytes) : Prop where
  split : ∃ directory stem ending, path = directory ++ (stem ++ ending) ∧
    (directory = [] ∨ directory.getLast? = some slash) ∧ slash ∉ stem ∧ stem ≠ [] ∧
    ending.map toLower = ascii ".pdf"

theorem eq_dot_of_toLower {c : UInt8} (h : toLower c = dot) : c = dot := by
  simp only [toLower] at h
  split at h
  · next hupper =>
      -- No capital letter becomes a dot.
      simp only [Bool.and_eq_true, decide_eq_true_eq, UInt8.le_iff_toNat_le] at hupper
      have hnat := congrArg UInt8.toNat h
      rw [UInt8.toNat_add] at hnat
      simp only [dot, UInt8.reduceToNat] at hupper hnat
      omega
  · exact h

/-- An extension of four characters, of which only the first is a dot and none a slash. -/
theorem ending_split {ending : Bytes} (h : ending.map toLower = ascii ".pdf") :
    ∃ rest, ending = dot :: rest ∧ dot ∉ rest ∧ slash ∉ rest := by
  have hpdf : ascii ".pdf" = dot :: ascii "pdf" := rfl
  rw [hpdf] at h
  cases ending with
  | nil => cases h
  | cons c rest =>
      rw [List.map_cons, List.cons_eq_cons] at h
      have hrest : ∀ x, x = dot ∨ x = slash → x ∉ rest := fun x hx hmem => by
        have hlower : toLower x = x := by rcases hx with rfl | rfl <;> rfl
        have hmapped := List.mem_map_of_mem (f := toLower) hmem
        rw [h.2, hlower] at hmapped
        rcases hx with rfl | rfl <;> exact absurd hmapped (by decide)
      exact ⟨rest, by rw [eq_dot_of_toLower h.1], hrest dot (.inl rfl), hrest slash (.inr rfl)⟩

theorem split_filename (path : Bytes) : ∃ directory, path = directory ++ filename path ∧
    (directory = [] ∨ directory.getLast? = some slash) := by
  refine ⟨path.rdropWhile (· ≠ slash), List.rdropWhile_append_rtakeWhile.symm, ?_⟩
  by_cases hdirectory : path.rdropWhile (· ≠ slash) = []
  · exact .inl hdirectory
  · exact .inr (getLast_rdropWhile hdirectory)

theorem filename_append {directory name : Bytes}
    (hdirectory : directory = [] ∨ directory.getLast? = some slash) (hname : slash ∉ name) :
    filename (directory ++ name) = name := by
  rcases hdirectory with rfl | hlast
  · exact rtakeWhile_whole hname
  · exact rtakeWhile_append directory hlast hname

/-- An extension has something of the filename before it. -/
theorem split_extension {path : Bytes} (h : extension path ≠ []) :
    ∃ stem, stem ≠ [] ∧ filename path = stem ++ extension path := by
  rw [extension] at h
  split at h
  · exact absurd rfl h
  · next hplain =>
      split at h
      · exact absurd rfl h
      · next hlong =>
          have hsome : (filename path).rdropWhile (· ≠ dot) ≠ [] := fun hnil =>
            hlong (by rw [hnil]; exact Nat.zero_le _)
          obtain ⟨stem, hstem⟩ := List.getLast?_eq_some_iff.mp (getLast_rdropWhile hsome)
          have hname : (filename path).rdropWhile (· ≠ dot) ++
              (filename path).rtakeWhile (· ≠ dot) = filename path :=
            List.rdropWhile_append_rtakeWhile
          rw [hstem, List.append_assoc, List.singleton_append] at hname
          refine ⟨stem, fun hnil => ?_, ?_⟩
          · rw [hstem, hnil] at hlong
            exact hlong (Nat.le_refl 1)
          · simp only [extension]
            rw [if_neg hplain, if_neg hlong, hname]

theorem extension_of_filename {path stem rest : Bytes} (hstem : stem ≠ []) (hrest : rest ≠ [])
    (hdot : dot ∉ rest) (hname : filename path = stem ++ dot :: rest) :
    extension path = dot :: rest := by
  have hfront : stem ++ dot :: rest = (stem ++ [dot]) ++ rest := by
    rw [List.append_assoc, List.singleton_append]
  have hafter : (stem ++ dot :: rest).rtakeWhile (· ≠ dot) = rest := by
    rw [hfront]
    exact rtakeWhile_append _ List.getLast?_concat hdot
  have hbefore : (stem ++ dot :: rest).rdropWhile (· ≠ dot) = stem ++ [dot] := by
    have hwhole : (stem ++ dot :: rest).rdropWhile (· ≠ dot) ++
        (stem ++ dot :: rest).rtakeWhile (· ≠ dot) = stem ++ dot :: rest :=
      List.rdropWhile_append_rtakeWhile
    rw [hafter, hfront] at hwhole
    rw [hfront]
    exact List.append_cancel_right hwhole
  have hstempos := List.length_pos_of_ne_nil hstem
  have hrestpos := List.length_pos_of_ne_nil hrest
  -- Three characters at least, so neither of the two directories.
  have hlong : 3 ≤ (stem ++ dot :: rest).length := by
    rw [List.length_append, List.length_cons]
    omega
  have hplain : ¬(stem ++ dot :: rest = [dot] ∨ stem ++ dot :: rest = [dot, dot]) := by
    rintro (hone | htwo)
    · rw [hone] at hlong
      exact absurd hlong (by decide)
    · rw [htwo] at hlong
      exact absurd hlong (by decide)
  have hkept : ¬(stem ++ [dot]).length ≤ 1 := by
    rw [List.length_append, List.length_singleton]
    omega
  simp only [extension, hname]
  rw [if_neg hplain, hbefore, hafter, if_neg hkept]

/-- The loader takes the PDF branch just for paths that name one. -/
theorem extension_pdf_iff (path : Bytes) :
    (extension path).map toLower = ascii ".pdf" ↔ NamesPdf path := by
  constructor
  · intro h
    have hne : extension path ≠ [] := fun hnil => by
      rw [hnil] at h
      cases h
    obtain ⟨directory, hpath, hdirectory⟩ := split_filename path
    obtain ⟨stem, hstem, hname⟩ := split_extension hne
    have hslash : slash ∉ filename path := notMem_rtakeWhile path
    rw [hname, List.mem_append, not_or] at hslash
    refine ⟨directory, stem, extension path, ?_, hdirectory, hslash.1, hstem, h⟩
    rw [← hname]
    exact hpath
  · rintro ⟨directory, stem, ending, rfl, hdirectory, hslash, hstem, hending⟩
    obtain ⟨rest, rfl, hdot, hrest⟩ := ending_split hending
    have hfree : slash ∉ stem ++ dot :: rest := by
      rw [List.mem_append, List.mem_cons, not_or, not_or]
      exact ⟨hslash, by decide, hrest⟩
    have hsome : rest ≠ [] := by
      rintro rfl
      cases hending
    rw [extension_of_filename hstem hsome hdot (filename_append hdirectory hfree)]
    exact hending

example : (extension (ascii "a.b/Report.PDF")).map toLower = ascii ".pdf" := by decide

example : extension (ascii "a.pdf/.pdf") = [] := by decide

end CppRag
