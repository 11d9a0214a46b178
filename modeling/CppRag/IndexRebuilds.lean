import CppRag.IndexInstall

/-!
Several processes rebuilding one index. Every call of `write` on a path uses the same
temporary name, so what one call has open another may truncate, write to or rename.
The calls take steps in any order and no operation fails by itself; a rename still
fails when the temporary file is gone.
-/
namespace CppRag
open OutputStream

/-- Between opening the temporary file and the end of the call. -/
def Phase.busy : Phase → Bool
  | .opening _ | .returned | .thrown _ => false
  | _ => true

section Rebuilds
variable {ι : Type}

structure Rebuilds (ι : Type) where
  fs : FileSystem String
  phases : ι → Phase
  /-- The call that opened the temporary file last; no step reads it. -/
  opener : Option ι

def Rebuilds.start (l2Norm : List FloatBits → FloatBits) (calls : ι → List IndexItem)
    (fs : FileSystem String) : Rebuilds ι :=
  ⟨fs, fun call => startPhase l2Norm (calls call), none⟩

/-- No other call has opened the temporary file since this one did. -/
def Rebuilds.Exclusive (sys : Rebuilds ι) (call : ι) : Prop :=
  (sys.phases call).busy = true → sys.opener = some call

variable [DecidableEq ι]

def Rebuilds.step (path : String) (sys : Rebuilds ι) (call : ι) : Rebuilds ι :=
  let s := WriteState.step path ⟨sys.fs, sys.phases call⟩ .ok
  { fs := s.fs
    phases := Function.update sys.phases call s.phase
    opener := match sys.phases call with
      | .opening _ => some call
      | _ => sys.opener }

def Rebuilds.run (path : String) (sys : Rebuilds ι) (schedule : List ι) : Rebuilds ι :=
  schedule.foldl (Rebuilds.step path) sys

instance (sys : Rebuilds ι) (call : ι) : Decidable (sys.Exclusive call) :=
  inferInstanceAs (Decidable (_ → _))

/-- Every step of the schedule is taken by a call that is exclusive at that moment. -/
def Rebuilds.ExclusiveRun (path : String) (sys : Rebuilds ι) : List ι → Prop
  | [] => True
  | call :: schedule =>
      sys.Exclusive call ∧ Rebuilds.ExclusiveRun path (sys.step path call) schedule

instance Rebuilds.decidableExclusiveRun (path : String) (sys : Rebuilds ι) :
    (schedule : List ι) → Decidable (sys.ExclusiveRun path schedule)
  | [] => isTrue trivial
  | call :: schedule =>
      have := Rebuilds.decidableExclusiveRun path (sys.step path call) schedule
      inferInstanceAs (Decidable (_ ∧ _))

end Rebuilds

/-! The invariant of exclusive runs. -/

section Owned
variable {ι : Type}

section Invariant
variable (l2Norm : List FloatBits → FloatBits) (calls : ι → List IndexItem)
variable (path : String) (original : Option Bytes)

/-- The original content, or the complete image of one of the calls. -/
def Published (content : Option Bytes) : Prop :=
  content = original ∨
    ∃ call bytes, writeBytes l2Norm (calls call) = .ok bytes ∧ content = some bytes

/-- The last opener alone owns the temporary file, on the way from its open to its first
rename; the path holds something published. -/
structure Owned (sys : Rebuilds ι) : Prop where
  published : Published l2Norm calls original (sys.fs.read path)
  opening : ∀ call ops, sys.phases call = .opening ops →
    writeBytes l2Norm (calls call) = .ok (File.empty.run ops).contents
  opener : ∀ call, sys.opener = some call → ∃ bytes held,
    writeBytes l2Norm (calls call) = .ok bytes ∧ Published l2Norm calls original held ∧
      Holds path bytes held sys.fs (sys.phases call) ∧
      sys.phases call ≠ .removingTarget ∧ sys.phases call ≠ .retrying

end Invariant

variable {l2Norm : List FloatBits → FloatBits} {calls : ι → List IndexItem}
variable {path : String} {original : Option Bytes}

/-- A call that knows its temporary file is there never reaches the recovery branch. -/
theorem step_direct {s : WriteState} {image : Bytes} {held : Option Bytes}
    (h : Holds path image held s.fs s.phase)
    (hdirect : s.phase ≠ .removingTarget ∧ s.phase ≠ .retrying) :
    (s.step path .ok).phase ≠ .removingTarget ∧ (s.step path .ok).phase ≠ .retrying := by
  obtain ⟨fs, phase⟩ := s
  cases phase with
  | removingTarget => exact absurd rfl hdirect.1
  | retrying => exact absurd rfl hdirect.2
  | installing =>
      cases hrename : fs.rename (temporary path) path with
      | none =>
          rw [FileSystem.rename_eq_none_iff, ← FileSystem.read_eq_none_iff] at hrename
          cases h.2.1.symm.trans hrename
      | some fs' =>
          simp only [WriteState.step, tryRename, hrename]
          constructor <;> (intro heq; cases heq)
  | writing fd position ops =>
      cases ops with
      | nil => constructor <;> (intro heq; cases heq)
      | cons op ops =>
          cases op with
          | seekp target => constructor <;> (intro heq; cases heq)
          | write data =>
              simp only [WriteState.step, writeStep]
              split <;> constructor <;> (intro heq; cases heq)
  | returned => exact hdirect
  | thrown error => exact hdirect
  | _ => constructor <;> (intro heq; cases heq)

theorem published_of_holds {call : ι} {fs : FileSystem String} {phase : Phase} {bytes : Bytes}
    {held : Option Bytes} (hbytes : writeBytes l2Norm (calls call) = .ok bytes)
    (hheld : Published l2Norm calls original held) (h : Holds path bytes held fs phase) :
    Published l2Norm calls original (fs.read path) := by
  by_cases hphase : phase = .returned
  · rw [(holds_read h).2 hphase]
    exact .inr ⟨call, bytes, hbytes, rfl⟩
  · rwa [(holds_read h).1 hphase]

theorem owned_start (fs : FileSystem String) :
    Owned l2Norm calls path (fs.read path) (Rebuilds.start l2Norm calls fs) := by
  refine ⟨.inl rfl, ?_, nofun⟩
  intro call ops hphase
  simp only [Rebuilds.start, startPhase] at hphase
  unfold writeBytes
  split at hphase
  · cases hphase
  · next dimensions hcheck =>
      cases hphase
      rw [hcheck]
      rfl

variable [DecidableEq ι]

/-- Only a call that has not made its input checks is about to open its file. -/
theorem step_not_opening (s : WriteState) (outcome : Outcome) (ops : List StreamOp) :
    (s.step path outcome).phase ≠ .opening ops := by
  obtain ⟨fs, phase⟩ := s
  intro hphase
  cases phase with
  | writing fd position ops =>
      cases ops with
      | nil => cases outcome <;> cases hphase
      | cons op ops =>
          cases op with
          | seekp target => cases outcome <;> cases hphase
          | write data =>
              cases outcome with
              | fails written => cases hphase
              | ok =>
                  simp only [WriteState.step, writeStep] at hphase
                  split at hphase <;> cases hphase
  | installing =>
      simp only [WriteState.step] at hphase
      split at hphase <;> cases hphase
  | retrying =>
      simp only [WriteState.step] at hphase
      split at hphase <;> cases hphase
  | closing => cases hphase
  | returned => cases hphase
  | thrown error => cases hphase
  | _ => cases outcome <;> cases hphase

/-- A finished call changes nothing. -/
theorem rebuilds_step_finished {sys : Rebuilds ι} {call : ι}
    (hbusy : (sys.phases call).busy = false) (hopening : ∀ ops, sys.phases call ≠ .opening ops) :
    sys.step path call = sys := by
  obtain ⟨fs, phases, opener⟩ := sys
  cases hphase : phases call with
  | opening ops => exact absurd hphase (hopening ops)
  | returned =>
      simp only [Rebuilds.step, WriteState.step, hphase]
      rw [← hphase, Function.update_eq_self]
  | thrown error =>
      simp only [Rebuilds.step, WriteState.step, hphase]
      rw [← hphase, Function.update_eq_self]
  | _ =>
      simp only [hphase] at hbusy
      cases hbusy

theorem rebuilds_step_opener {sys : Rebuilds ι} {call : ι}
    (hopening : ∀ ops, sys.phases call ≠ .opening ops) :
    (sys.step path call).opener = sys.opener := by
  simp only [Rebuilds.step]

theorem owned_step {sys : Rebuilds ι} {call : ι} (h : Owned l2Norm calls path original sys)
    (hexclusive : sys.Exclusive call) :
    Owned l2Norm calls path original (sys.step path call) := by
  have hopening : ∀ other ops, (sys.step path call).phases other = .opening ops →
      writeBytes l2Norm (calls other) = .ok (File.empty.run ops).contents := by
    intro other ops hother
    simp only [Rebuilds.step, Function.update_apply] at hother
    split at hother
    · exact absurd hother (step_not_opening _ .ok ops)
    · exact h.opening other ops hother
  have hself : (sys.step path call).phases call =
      (WriteState.step path ⟨sys.fs, sys.phases call⟩ .ok).phase :=
    Function.update_self ..
  by_cases hopens : ∃ ops, sys.phases call = .opening ops
  · -- The opener changes; what the path holds does not.
    obtain ⟨ops, hphase⟩ := hopens
    have hbytes := h.opening call ops hphase
    have hholds : Holds path (File.empty.run ops).contents (sys.fs.read path) sys.fs
        (sys.phases call) := by
      rw [hphase]
      exact ⟨rfl, rfl⟩
    have hstep := holds_step (s := ⟨sys.fs, sys.phases call⟩) .ok hholds
    have hheld : heldAfter (sys.fs.read path) (sys.phases call) .ok = sys.fs.read path := by
      rw [hphase]
      rfl
    rw [hheld] at hstep
    refine ⟨published_of_holds hbytes h.published hstep, hopening, ?_⟩
    intro other hother
    have hopener : (sys.step path call).opener = some call := by
      simp only [Rebuilds.step, hphase]
    rw [hopener] at hother
    cases hother
    rw [hself]
    exact ⟨_, _, hbytes, h.published, hstep,
      step_direct (s := ⟨sys.fs, sys.phases call⟩) hholds (by rw [hphase]; exact ⟨nofun, nofun⟩)⟩
  · have hnot : ∀ ops, sys.phases call ≠ .opening ops := fun ops hops => hopens ⟨ops, hops⟩
    cases hbusy : (sys.phases call).busy with
    | false =>
        rw [rebuilds_step_finished hbusy hnot]
        exact h
    | true =>
        have hopener := hexclusive hbusy
        obtain ⟨bytes, held, hbytes, hheld, hholds, hdirect⟩ := h.opener call hopener
        have hstep := holds_step (s := ⟨sys.fs, sys.phases call⟩) .ok hholds
        rw [heldAfter_eq (s := ⟨sys.fs, sys.phases call⟩) hholds
          (fun hremoving => absurd hremoving hdirect.1)] at hstep
        refine ⟨published_of_holds hbytes hheld hstep, hopening, ?_⟩
        intro other hother
        rw [rebuilds_step_opener hnot, hopener] at hother
        cases hother
        rw [hself]
        exact ⟨bytes, held, hbytes, hheld, hstep,
          step_direct (s := ⟨sys.fs, sys.phases call⟩) hholds hdirect⟩

theorem owned_run {sys : Rebuilds ι} {schedule : List ι}
    (h : Owned l2Norm calls path original sys) (hexclusive : sys.ExclusiveRun path schedule) :
    ∀ before, before <+: schedule →
      Owned l2Norm calls path original (sys.run path before) := by
  induction schedule generalizing sys with
  | nil =>
      intro before hpre
      rw [List.prefix_nil.mp hpre]
      exact h
  | cons call schedule ih =>
      intro before hpre
      cases before with
      | nil => exact h
      | cons first before =>
          obtain ⟨rfl, hrest⟩ := List.cons_prefix_cons.mp hpre
          exact ih (owned_step h hexclusive.1) hexclusive.2 before hrest

end Owned

/-- While no call touches the temporary file after another has opened it, the path holds
its original content or the complete image of one of the calls. -/
theorem rebuilds_published {ι : Type} [DecidableEq ι] (l2Norm : List FloatBits → FloatBits)
    (calls : ι → List IndexItem) (path : String) (fs : FileSystem String) (schedule : List ι)
    (hexclusive : (Rebuilds.start l2Norm calls fs).ExclusiveRun path schedule) :
    ∀ before, before <+: schedule → Published l2Norm calls (fs.read path)
      (((Rebuilds.start l2Norm calls fs).run path before).fs.read path) :=
  fun before hpre => (owned_run (owned_start fs) hexclusive before hpre).published

section Overlap

private def emptyDirectory : FileSystem String :=
  ⟨fun _ => none, fun _ => [], 0, nofun, nofun⟩

private def twoCalls : Bool → List IndexItem
  | false => [⟨⟨[97], [98], 0, 1, 0, 1⟩, [0]⟩]
  | true => [⟨⟨[97], [99, 100], 0, 2, 0, 1⟩, [0]⟩]

/-- One call after the other, each to its end. -/
theorem rebuilds_published_sequential :
    Published (fun _ => 0) twoCalls (emptyDirectory.read "index")
      (((Rebuilds.start (fun _ => 0) twoCalls emptyDirectory).run "index"
        (List.replicate 11 false ++ List.replicate 11 true)).fs.read "index") :=
  rebuilds_published (fun _ => 0) twoCalls "index" emptyDirectory
    (List.replicate 11 false ++ List.replicate 11 true) (by decide +kernel) _
    (List.prefix_refl _)

/-- The first call has written and closed its file when the second truncates it; the
first then installs an empty index. -/
theorem rebuilds_publish_truncated :
    ¬ ∀ before, before <+: List.replicate 10 false ++ [true, false] →
      Published (fun _ => 0) twoCalls (emptyDirectory.read "index")
        (((Rebuilds.start (fun _ => 0) twoCalls emptyDirectory).run "index"
          before).fs.read "index") := by
  intro h
  have hread : ((Rebuilds.start (fun _ => 0) twoCalls emptyDirectory).run "index"
      (List.replicate 10 false ++ [true, false])).fs.read "index" = some [] := by
    decide +kernel
  rcases h _ (List.prefix_refl _) with hempty | ⟨call, bytes, hbytes, himage⟩
  · rw [hread] at hempty
    cases hempty
  · rw [hread] at himage
    obtain ⟨dimensions, -, rfl⟩ := (writeBytes_ok_iff _ _ _).mp hbytes
    have hlen := congrArg List.length (Option.some.inj himage)
    rw [indexImage, List.length_append, Header.length_encode _ rfl, sizeofHeader] at hlen
    rw [List.length_nil] at hlen
    omega

end Overlap

end CppRag
