import CppRag.IndexRoundTrip
import CppRag.Foundation.FileSystem
import Mathlib.Data.List.Induction

/-!
`MmapIndex::write` as a process on the file system. Each step is one operation on the
path or on the temporary file beside it, the environment decides whether it succeeds,
and the process can die before any step, so what a reader may find is what the path
holds after any prefix of a run.
-/
namespace CppRag
open OutputStream

/-- How one operation ends. A failed write leaves the first `written` bytes behind. -/
inductive Outcome where
  | ok
  | fails (written : Nat)
  deriving DecidableEq, Repr

/-- The point a call of `write` has reached, and what it still holds there. -/
inductive Phase where
  | opening (ops : List StreamOp)
  | writing (fd position : Nat) (ops : List StreamOp)
  /-- The stream has failed and drops every operation up to its close. -/
  | closing
  | discarding
  | installing
  | removingTarget
  | retrying
  | abandoning
  | returned
  | thrown (error : Exception)
  deriving DecidableEq, Repr

def temporary (path : String) : String := path ++ ".tmp"

theorem path_ne_temporary (path : String) : path ≠ temporary path := by
  intro h
  have hlen := congrArg String.length h
  rw [temporary, String.length_append] at hlen
  have htmp : ".tmp".length = 4 := rfl
  omega

/-- The largest offset a file can reach. -/
def maxFileSize : Nat := 2 ^ 63 - 1

structure WriteState where
  fs : FileSystem String
  phase : Phase

def tryRename (fs : FileSystem String) (old new : String) : Outcome → Option (FileSystem String)
  | .ok => fs.rename old new
  | .fails _ => none

/-- One write to the stream; a write that does not fit fails after filling the room left. -/
def writeStep (fs : FileSystem String) (fd position : Nat) (data : Bytes)
    (ops : List StreamOp) : Outcome → WriteState
  | .ok =>
      if position + data.length ≤ maxFileSize then
        ⟨fs.writeAt fd position data, .writing fd (position + data.length) ops⟩
      else ⟨fs.writeAt fd position (data.take (maxFileSize - position)), .closing⟩
  | .fails written =>
      ⟨fs.writeAt fd position (data.take (min written (maxFileSize - position))), .closing⟩

/-- The next operation of a call on `path`. -/
def WriteState.step (path : String) (s : WriteState) (outcome : Outcome) : WriteState :=
  match s.phase, outcome with
  | .opening ops, .ok =>
      let opened := s.fs.openTruncate (temporary path)
      ⟨opened.1, .writing opened.2 0 ops⟩
  | .opening _, .fails _ =>
      ⟨s.fs, .thrown (.runtimeError ("unable to create index: " ++ temporary path))⟩
  | .writing fd position (.write data :: ops), outcome =>
      writeStep s.fs fd position data ops outcome
  | .writing fd _ (.seekp target :: ops), .ok => ⟨s.fs, .writing fd target ops⟩
  | .writing _ _ (.seekp _ :: _), .fails _ => ⟨s.fs, .closing⟩
  | .writing _ _ [], .ok => ⟨s.fs, .installing⟩
  | .writing _ _ [], .fails _ => ⟨s.fs, .discarding⟩
  | .closing, _ => ⟨s.fs, .discarding⟩
  | .discarding, .ok =>
      ⟨s.fs.remove (temporary path),
        .thrown (.runtimeError ("failed while writing index: " ++ temporary path))⟩
  | .discarding, .fails _ => ⟨s.fs, .thrown (.filesystemError (temporary path))⟩
  | .installing, outcome =>
      match tryRename s.fs (temporary path) path outcome with
      | some fs => ⟨fs, .returned⟩
      | none => ⟨s.fs, .removingTarget⟩
  -- The error of this removal is overwritten by the rename that follows.
  | .removingTarget, .ok => ⟨s.fs.remove path, .retrying⟩
  | .removingTarget, .fails _ => ⟨s.fs, .retrying⟩
  | .retrying, outcome =>
      match tryRename s.fs (temporary path) path outcome with
      | some fs => ⟨fs, .returned⟩
      | none => ⟨s.fs, .abandoning⟩
  | .abandoning, .ok =>
      ⟨s.fs.remove (temporary path), .thrown (.systemError "unable to install index")⟩
  | .abandoning, .fails _ => ⟨s.fs, .thrown (.filesystemError (temporary path))⟩
  | .returned, _ => s
  | .thrown _, _ => s

section Start
variable (l2Norm : List FloatBits → FloatBits)

/-- A call that has made its input checks. -/
def startPhase (items : List IndexItem) : Phase :=
  match checkItems items with
  | .error error => .thrown error
  | .ok dimensions => .opening (writeOps l2Norm items dimensions)

/-- A call after the operations whose outcomes are listed. -/
def runWrite (path : String) (items : List IndexItem) (fs : FileSystem String)
    (outcomes : List Outcome) : WriteState :=
  outcomes.foldl (WriteState.step path) ⟨fs, startPhase l2Norm items⟩

end Start

/-! What a call knows of the file system in each phase. -/

/-- The path holds `held` until it holds `image`, and the temporary file grows into
`image`, which the remaining operations complete. -/
def Holds (path : String) (image : Bytes) (held : Option Bytes) (fs : FileSystem String) :
    Phase → Prop
  | .opening ops => fs.read path = held ∧ (File.empty.run ops).contents = image
  | .writing fd position ops =>
      fs.read path = held ∧ fs.entries (temporary path) = some fd ∧
        (fs.contents fd).length ≤ maxFileSize ∧
        (File.run ⟨fs.contents fd, position⟩ ops).contents = image
  | .installing | .removingTarget | .retrying =>
      fs.read path = held ∧ fs.read (temporary path) = some image ∧
        image.length ≤ maxFileSize
  | .returned => fs.read path = some image ∧ image.length ≤ maxFileSize
  | .closing | .discarding | .abandoning | .thrown _ => fs.read path = held

/-- What the path is left with when it is not the image. -/
def heldAfter (held : Option Bytes) : Phase → Outcome → Option Bytes
  | .removingTarget, .ok => none
  | _, _ => held

section Step
variable {path : String} {image : Bytes} {held : Option Bytes}

theorem holds_read {fs : FileSystem String} {phase : Phase}
    (h : Holds path image held fs phase) :
    (phase ≠ .returned → fs.read path = held) ∧
      (phase = .returned → fs.read path = some image) := by
  cases phase with
  | opening ops => exact ⟨fun _ => h.1, nofun⟩
  | writing fd position ops => exact ⟨fun _ => h.1, nofun⟩
  | installing => exact ⟨fun _ => h.1, nofun⟩
  | removingTarget => exact ⟨fun _ => h.1, nofun⟩
  | retrying => exact ⟨fun _ => h.1, nofun⟩
  | returned => exact ⟨fun hne => absurd rfl hne, fun _ => h.1⟩
  | closing => exact ⟨fun _ => h, nofun⟩
  | discarding => exact ⟨fun _ => h, nofun⟩
  | abandoning => exact ⟨fun _ => h, nofun⟩
  | thrown error => exact ⟨fun _ => h, nofun⟩

theorem read_writeAt_temporary {fs : FileSystem String} {fd : Nat} (position : Nat)
    (data : Bytes) (hentry : fs.entries (temporary path) = some fd) :
    (fs.writeAt fd position data).read path = fs.read path :=
  fs.read_setContents_other _ hentry (path_ne_temporary path)

theorem holds_writeStep {fs : FileSystem String} {fd position : Nat} {data : Bytes}
    {ops : List StreamOp} (outcome : Outcome)
    (h : Holds path image held fs (.writing fd position (.write data :: ops))) :
    Holds path image held (writeStep fs fd position data ops outcome).fs
      (writeStep fs fd position data ops outcome).phase := by
  obtain ⟨hread, hentry, hlen, himage⟩ := h
  have hkeep := fun bytes => read_writeAt_temporary position bytes hentry
  cases outcome with
  | fails written => exact (hkeep _).trans hread
  | ok =>
      simp only [writeStep]
      split
      · next hfits =>
          refine ⟨(hkeep _).trans hread, hentry, ?_, ?_⟩
          · rw [FileSystem.writeAt, FileSystem.contents_setContents]
            exact (length_overwrite_le _ _ _).trans (Nat.max_le.mpr ⟨hlen, hfits⟩)
          · rw [FileSystem.writeAt, FileSystem.contents_setContents]
            exact himage
      · exact (hkeep _).trans hread

theorem holds_rename {fs : FileSystem String} {outcome : Outcome} {failed : Phase}
    (htmp : fs.read (temporary path) = some image) (hlen : image.length ≤ maxFileSize)
    (hfailed : Holds path image held fs failed) :
    let s : WriteState := match tryRename fs (temporary path) path outcome with
      | some fs => ⟨fs, .returned⟩
      | none => ⟨fs, failed⟩
    Holds path image held s.fs s.phase := by
  cases outcome with
  | fails written => exact hfailed
  | ok =>
      cases hrename : fs.rename (temporary path) path with
      | none => simpa only [tryRename, hrename] using hfailed
      | some fs' =>
          have hread := fs.read_rename fs' hrename
          simpa only [tryRename, hrename, Holds] using ⟨hread.trans htmp, hlen⟩

/-- One operation keeps what the call knows; only the removal of the target changes
what the path holds before the image does. -/
theorem holds_step {s : WriteState} (outcome : Outcome)
    (h : Holds path image held s.fs s.phase) :
    Holds path image (heldAfter held s.phase outcome) (s.step path outcome).fs
      (s.step path outcome).phase := by
  obtain ⟨fs, phase⟩ := s
  have hne := path_ne_temporary path
  cases phase with
  | opening ops =>
      obtain ⟨hread, himage⟩ := h
      cases outcome with
      | fails written => exact hread
      | ok =>
          simp only [WriteState.step, Holds, fs.openTruncate_contents]
          exact ⟨(fs.read_openTruncate_other hne).trans hread, fs.openTruncate_entry _,
            Nat.zero_le _, himage⟩
  | writing fd position ops =>
      cases ops with
      | nil =>
          obtain ⟨hread, hentry, hlen, himage⟩ := h
          cases outcome with
          | fails written => exact hread
          | ok =>
              have htmp : fs.read (temporary path) = some image := by
                rw [fs.read_eq hentry, ← himage]
                rfl
              refine ⟨hread, htmp, ?_⟩
              rw [← himage]
              exact hlen
      | cons op ops =>
          cases op with
          | write data => exact holds_writeStep outcome h
          | seekp target =>
              cases outcome with
              | fails written => exact h.1
              | ok => exact h
  | closing => exact h
  | discarding =>
      cases outcome with
      | fails written => exact h
      | ok => exact (fs.read_remove_other hne).trans h
  | installing => exact holds_rename h.2.1 h.2.2 h
  | removingTarget =>
      cases outcome with
      | fails written => exact h
      | ok => exact ⟨fs.read_remove_self path, (fs.read_remove_other hne.symm).trans h.2.1, h.2.2⟩
  | retrying => exact holds_rename h.2.1 h.2.2 h.1
  | abandoning =>
      cases outcome with
      | fails written => exact h
      | ok => exact (fs.read_remove_other hne).trans h
  | returned => exact h
  | thrown error => exact h

theorem heldAfter_eq {s : WriteState} {outcome : Outcome}
    (h : Holds path image held s.fs s.phase)
    (hkeep : s.phase = .removingTarget → outcome = .ok → s.fs.entries path = none) :
    heldAfter held s.phase outcome = held := by
  obtain ⟨fs, phase⟩ := s
  cases phase with
  | removingTarget =>
      cases outcome with
      | fails written => rfl
      | ok =>
          have hread := (holds_read h).1 nofun
          rw [(fs.read_eq_none_iff path).mpr (hkeep rfl rfl)] at hread
          exact hread
  | _ => rfl

/-- A call returns only by renaming the temporary file, and stays returned. -/
theorem step_returned {s : WriteState} {outcome : Outcome}
    (h : (s.step path outcome).phase = .returned) :
    s.phase = .returned ∨
      (s.phase = .installing ∨ s.phase = .retrying) ∧ outcome = .ok := by
  obtain ⟨fs, phase⟩ := s
  cases phase with
  | returned => exact .inl rfl
  | installing =>
      cases outcome with
      | ok => exact .inr ⟨.inl rfl, rfl⟩
      | fails written => cases h
  | retrying =>
      cases outcome with
      | ok => exact .inr ⟨.inr rfl, rfl⟩
      | fails written => cases h
  | writing fd position ops =>
      cases ops with
      | nil => cases outcome <;> cases h
      | cons op ops =>
          cases op with
          | seekp target => cases outcome <;> cases h
          | write data =>
              cases outcome with
              | fails written => cases h
              | ok =>
                  simp only [WriteState.step, writeStep] at h
                  split at h <;> cases h
  | closing => cases h
  | thrown error => cases h
  | _ => cases outcome <;> cases h

end Step

/-! The installation property and when it holds. -/

section Install
variable (l2Norm : List FloatBits → FloatBits) (path : String) (items : List IndexItem)

/-- What a reader of `path` may find, given what the path held before the call. -/
def Installed (previous : Option Bytes) (s : WriteState) : Prop :=
  (s.fs.read path = previous ∨ ∃ img : Image, writeBytes l2Norm items = .ok img.bytes ∧
    (validate img).result = .ok () ∧ s.fs.read path = some img.bytes) ∧
  ∀ error, s.phase = .thrown error → s.fs.read path = previous

/-- A step that neither removes an existing target nor publishes an image with a chunk
the reader rejects over different bytes. -/
structure SafeStep (s : WriteState) (outcome : Outcome) : Prop where
  keeps : s.phase = .removingTarget → outcome = .ok → s.fs.entries path = none
  publishes : s.phase = .installing ∨ s.phase = .retrying → outcome = .ok →
    (∀ item, item ∈ items → Recordable item.chunk) ∨
      s.fs.read path = s.fs.read (temporary path)

variable {l2Norm path items}
variable {dimensions : Nat} {previous : Option Bytes}

/-- The reader's verdict on a written image that fits in a file. -/
theorem installable_iff (hw : Writable items dimensions)
    (hsize : (indexImage l2Norm items dimensions).length ≤ maxFileSize) :
    (∃ img : Image, writeBytes l2Norm items = .ok img.bytes ∧
        (validate img).result = .ok () ∧
        some (indexImage l2Norm items dimensions) = some img.bytes) ↔
      ∀ item, item ∈ items → Recordable item.chunk := by
  have hlt : (indexImage l2Norm items dimensions).length < 2 ^ 63 := by
    have hmax : maxFileSize = 2 ^ 63 - 1 := rfl
    omega
  have htotal := totalSize_lt hw hlt
  constructor
  · rintro ⟨img, -, hok, himg⟩
    exact (accepts_written_iff hw (Option.some.inj himg).symm htotal).mp
      ((validate_ok_iff img).mp hok)
  · intro hitems
    refine ⟨⟨indexImage l2Norm items dimensions, by omega⟩,
      (writeBytes_ok_iff l2Norm items _).mpr ⟨dimensions, hw, rfl⟩, ?_, rfl⟩
    exact (validate_ok_iff _).mpr ((accepts_written_iff hw rfl htotal).mpr hitems)

theorem installed_iff (hw : Writable items dimensions) {s : WriteState}
    (h : Holds path (indexImage l2Norm items dimensions) previous s.fs s.phase) :
    Installed l2Norm path items previous s ↔
      (s.phase = .returned → (∀ item, item ∈ items → Recordable item.chunk) ∨
        previous = some (indexImage l2Norm items dimensions)) := by
  by_cases hphase : s.phase = .returned
  · have hread := (holds_read h).2 hphase
    rw [hphase] at h
    have hinstallable := @installable_iff l2Norm _ _ hw h.2
    simp only [Installed, hread, hinstallable, hphase, true_implies]
    constructor
    · rintro ⟨hprev | hitems, -⟩
      · exact .inr hprev.symm
      · exact .inl hitems
    · rintro (hitems | hprev)
      · exact ⟨.inr hitems, nofun⟩
      · exact ⟨.inl hprev.symm, nofun⟩
  · have hread := (holds_read h).1 hphase
    exact ⟨fun _ hr => absurd hr hphase, fun _ => ⟨.inl hread, fun _ _ => hread⟩⟩

theorem keeps_of_installed {s : WriteState} {image : Bytes} {outcome : Outcome}
    (h : Holds path image previous s.fs s.phase)
    (hnext : Installed l2Norm path items previous (s.step path outcome)) :
    s.phase = .removingTarget → outcome = .ok → s.fs.entries path = none := by
  obtain ⟨fs, phase⟩ := s
  rintro rfl rfl
  have hgone : (fs.remove path).read path = none := fs.read_remove_self path
  rw [← FileSystem.read_eq_none_iff]
  rcases hnext.1 with hprev | ⟨img, -, -, himg⟩
  · exact h.1.trans (hprev.symm.trans hgone)
  · cases himg.symm.trans hgone

/-- A step from a good state leads to a good state exactly when it is safe. -/
theorem installed_step_iff (hw : Writable items dimensions) {s : WriteState}
    (outcome : Outcome)
    (h : Holds path (indexImage l2Norm items dimensions) previous s.fs s.phase)
    (hs : Installed l2Norm path items previous s) :
    Installed l2Norm path items previous (s.step path outcome) ↔
      SafeStep path items s outcome := by
  have hrenaming : s.phase = .installing ∨ s.phase = .retrying →
      s.fs.read path = previous ∧ s.fs.read (temporary path) =
        some (indexImage l2Norm items dimensions) := by
    rintro (hphase | hphase) <;> rw [hphase] at h <;> exact ⟨h.1, h.2.1⟩
  have hstep := holds_step outcome h
  constructor
  · intro hnext
    have hkeeps := keeps_of_installed h hnext
    refine ⟨hkeeps, ?_⟩
    intro hphase hok
    obtain ⟨hread, htmp⟩ := hrenaming hphase
    rw [heldAfter_eq h hkeeps] at hstep
    have hreturned : (s.step path outcome).phase = .returned := by
      cases hrename : s.fs.rename (temporary path) path with
      | none =>
          rw [FileSystem.rename_eq_none_iff, ← FileSystem.read_eq_none_iff, htmp] at hrename
          cases hrename
      | some fs' => rcases hphase with hphase | hphase <;>
          simp only [WriteState.step, hphase, hok, tryRename, hrename]
    rw [hread, htmp]
    exact (installed_iff hw hstep).mp hnext hreturned
  · intro hsafe
    rw [heldAfter_eq h hsafe.keeps] at hstep
    refine (installed_iff hw hstep).mpr fun hreturned => ?_
    rcases step_returned hreturned with hphase | ⟨hphase, hok⟩
    · exact (installed_iff hw h).mp hs hphase
    · obtain ⟨hread, htmp⟩ := hrenaming hphase
      rw [← hread, ← htmp]
      exact hsafe.publishes hphase hok

theorem runWrite_append (fs : FileSystem String) (outcomes : List Outcome)
    (outcome : Outcome) :
    runWrite l2Norm path items fs (outcomes ++ [outcome]) =
      (runWrite l2Norm path items fs outcomes).step path outcome := by
  simp only [runWrite, List.foldl_append, List.foldl_cons, List.foldl_nil]

theorem runWrite_rejected (fs : FileSystem String) {error : Exception}
    (hcheck : checkItems items = .error error) (outcomes : List Outcome) :
    runWrite l2Norm path items fs outcomes = ⟨fs, .thrown error⟩ := by
  induction outcomes using List.reverseRecOn with
  | nil => simp only [runWrite, startPhase, hcheck, List.foldl_nil]
  | append_singleton outcomes outcome ih =>
      rw [runWrite_append, ih]
      rfl

theorem holds_start (fs : FileSystem String) (hcheck : checkItems items = .ok dimensions) :
    Holds path (indexImage l2Norm items dimensions) (fs.read path) fs
      (startPhase l2Norm items) := by
  simp only [startPhase, hcheck]
  exact ⟨rfl, writeOps_contents l2Norm items dimensions⟩

/-- Safe steps keep both what the call knows and what a reader finds. -/
theorem installed_run_of_safe {fs : FileSystem String} {outcomes : List Outcome}
    (hcheck : checkItems items = .ok dimensions)
    (hsafe : ∀ before outcome, before ++ [outcome] <+: outcomes →
      SafeStep path items (runWrite l2Norm path items fs before) outcome) :
    ∀ before, before <+: outcomes →
      Holds path (indexImage l2Norm items dimensions) (fs.read path)
        (runWrite l2Norm path items fs before).fs
        (runWrite l2Norm path items fs before).phase ∧
      Installed l2Norm path items (fs.read path) (runWrite l2Norm path items fs before) := by
  have hw := (checkItems_ok_iff items dimensions).mp hcheck
  intro before hpre
  induction before using List.reverseRecOn with
  | nil => exact ⟨holds_start fs hcheck, .inl rfl, fun _ _ => rfl⟩
  | append_singleton before outcome ih =>
      obtain ⟨hholds, hinstalled⟩ := ih ((List.prefix_append before [outcome]).trans hpre)
      have hsafe := hsafe before outcome hpre
      have hstep := holds_step outcome hholds
      rw [heldAfter_eq hholds hsafe.keeps] at hstep
      rw [runWrite_append]
      exact ⟨hstep, (installed_step_iff hw outcome hholds hinstalled).mpr hsafe⟩

theorem holds_run_of_installed {fs : FileSystem String} {outcomes : List Outcome}
    (hcheck : checkItems items = .ok dimensions)
    (hinstalled : ∀ before, before <+: outcomes →
      Installed l2Norm path items (fs.read path) (runWrite l2Norm path items fs before)) :
    ∀ before, before <+: outcomes →
      Holds path (indexImage l2Norm items dimensions) (fs.read path)
        (runWrite l2Norm path items fs before).fs
        (runWrite l2Norm path items fs before).phase := by
  intro before hpre
  induction before using List.reverseRecOn with
  | nil => exact holds_start fs hcheck
  | append_singleton before outcome ih =>
      have hholds := ih ((List.prefix_append before [outcome]).trans hpre)
      have hnext := hinstalled _ hpre
      have hstep := holds_step outcome hholds
      rw [runWrite_append] at hnext ⊢
      rwa [heldAfter_eq hholds (keeps_of_installed hholds hnext)] at hstep

end Install

/-- Along every run the path holds its previous content or an image the reader accepts,
and a throwing call leaves the previous content, exactly when every step is safe. -/
theorem install_atomic_iff (l2Norm : List FloatBits → FloatBits) (path : String)
    (items : List IndexItem) (fs : FileSystem String) (outcomes : List Outcome) :
    (∀ before, before <+: outcomes →
      Installed l2Norm path items (fs.read path) (runWrite l2Norm path items fs before)) ↔
    ∀ before outcome, before ++ [outcome] <+: outcomes →
      SafeStep path items (runWrite l2Norm path items fs before) outcome := by
  cases hcheck : checkItems items with
  | error error =>
      simp only [runWrite_rejected fs hcheck]
      exact ⟨fun _ _ _ _ => ⟨nofun, nofun⟩, fun _ _ _ => ⟨.inl rfl, fun _ _ => rfl⟩⟩
  | ok dimensions =>
      have hw := (checkItems_ok_iff items dimensions).mp hcheck
      constructor
      · intro hinstalled before outcome hpre
        have hshort := (List.prefix_append before [outcome]).trans hpre
        have hnext := hinstalled _ hpre
        rw [runWrite_append] at hnext
        exact (installed_step_iff hw outcome (holds_run_of_installed hcheck hinstalled before
          hshort) (hinstalled before hshort)).mp hnext
      · intro hsafe before hpre
        exact (installed_run_of_safe hcheck hsafe before hpre).2

section Lost

private def oneItem : List IndexItem := [⟨⟨[97], [98], 0, 1, 0, 1⟩, [0]⟩]

private def oneFile : FileSystem String :=
  { entries := fun name => if name = "index" then some 0 else none
    contents := fun _ => [7]
    next := 1
    entries_lt := by
      intro name inode h
      split at h
      · cases h
        exact Nat.zero_lt_one
      · cases h
    entries_inj := by
      intro a b inode ha hb
      split at ha
      · next ha' =>
          split at hb
          · next hb' => rw [ha', hb']
          · cases hb
      · cases ha }

/-- The first rename fails, the old index is removed and the second rename fails too:
the call throws and neither the old index nor the new one is there. -/
theorem install_loses_previous :
    ¬ ∀ before, before <+: List.replicate 10 .ok ++ [.fails 0, .ok, .fails 0, .ok] →
      Installed (fun _ => 0) "index" oneItem (oneFile.read "index")
        (runWrite (fun _ => 0) "index" oneItem oneFile before) := by
  intro h
  have hlast := h _ (List.prefix_refl _)
  have hgone : (runWrite (fun _ => 0) "index" oneItem oneFile
      (List.replicate 10 .ok ++ [.fails 0, .ok, .fails 0, .ok])).fs.read "index" = none := by
    decide +kernel
  have hbefore : oneFile.read "index" = some [7] := by decide +kernel
  rcases hlast.1 with hprev | ⟨img, -, -, himg⟩
  · rw [hgone, hbefore] at hprev
    cases hprev
  · rw [hgone] at himg
    cases himg

end Lost

end CppRag
