import CppRag.IndexRebuilds
import CppRag.Foundation.Simulation
import CppRag.Foundation.SnapshotRegister

/-!
An index in service. Calls of `write` rebuild it while readers map what its path leads to. Any
operation of a call may fail, and a call may stop for good at any point. A mapping keeps its
inode whatever happens to the path, so what a reader sees is up to the calls after it too.
-/
namespace CppRag
open OutputStream Simulation

namespace Service

inductive Action (ι ρ : Type) where
  | operate (call : ι) (outcome : Outcome)
  /-- The constructor of `MmapIndex` opens the path and maps the file. -/
  | map (reader : ρ)
  deriving DecidableEq, Repr

end Service

structure Service (ι ρ : Type) where
  fs : FileSystem String
  phases : ι → Phase
  /-- The call that opened the temporary file last; no step reads it. -/
  opener : Option ι
  mappings : ρ → Option Nat

namespace Service
variable {ι ρ : Type}

def start (l2Norm : List FloatBits → FloatBits) (calls : ι → List IndexItem)
    (fs : FileSystem String) : Service ι ρ :=
  ⟨fs, fun call => startPhase l2Norm (calls call), none, fun _ => none⟩

section Steps
variable [DecidableEq ι] [DecidableEq ρ] (path : String)

def step (sys : Service ι ρ) : Action ι ρ → Service ι ρ
  | .operate call outcome =>
      let s := WriteState.step path ⟨sys.fs, sys.phases call⟩ outcome
      { sys with
        fs := s.fs
        phases := Function.update sys.phases call s.phase
        opener := match sys.phases call, outcome with
          | .opening _, .ok => some call
          | _, _ => sys.opener }
  | .map reader =>
      { sys with mappings := Function.update sys.mappings reader (sys.fs.entries path) }

abbrev run (sys : Service ι ρ) (actions : List (Action ι ρ)) : Service ι ρ :=
  actions.foldl (step path) sys

/-- No call touches the temporary file after another has opened it. -/
def Exclusive (sys : Service ι ρ) : Action ι ρ → Prop
  | .operate call _ => (sys.phases call).busy = true → sys.opener = some call
  | .map _ => True

/-- What an action does to the index as its readers know it. -/
def events (sys : Service ι ρ) : Action ι ρ → List (Register.Event ι ρ)
  | .operate call outcome =>
      if sys.phases call ≠ .returned ∧
          (WriteState.step path ⟨sys.fs, sys.phases call⟩ outcome).phase = .returned then
        [.publish call]
      else if sys.phases call = .removingTarget ∧ outcome = .ok then [.erase call]
      else []
  | .map reader => [.take reader]

/-- What the path holds, and what every reader sees in its mapping. -/
def observe (sys : Service ι ρ) : Register Bytes ρ :=
  ⟨sys.fs.read path, fun reader => (sys.mappings reader).map sys.fs.contents⟩

end Steps

end Service

/-- The image of the items; nothing when the checks of `write` refuse them. -/
def imageOf (l2Norm : List FloatBits → FloatBits) (items : List IndexItem) : Bytes :=
  (writeBytes l2Norm items).toOption.getD []

section Facts
variable {l2Norm : List FloatBits → FloatBits} {items : List IndexItem} {path : String}

theorem imageOf_eq {dimensions : Nat} (hw : Writable items dimensions) :
    imageOf l2Norm items = indexImage l2Norm items dimensions := by
  rw [imageOf, (writeBytes_ok_iff l2Norm items _).mpr ⟨dimensions, hw, rfl⟩]
  rfl

/-- Only the removal of the target changes what a call holds. -/
theorem heldAfter_kept (held : Option Bytes) {phase : Phase} {outcome : Outcome}
    (h : ¬(phase = .removingTarget ∧ outcome = .ok)) : heldAfter held phase outcome = held := by
  cases phase with
  | removingTarget =>
      cases outcome with
      | ok => exact absurd ⟨rfl, rfl⟩ h
      | fails written => rfl
  | _ => rfl

theorem spares_tryRename {fs fs' : FileSystem String} {outcome : Outcome} {inode : Nat}
    (hapart : fs.Apart (temporary path) inode)
    (h : tryRename fs (temporary path) path outcome = some fs') :
    fs.Spares fs' (temporary path) inode := by
  cases outcome with
  | fails written => cases h
  | ok => exact hapart.spares_rename (path_ne_temporary path) h

/-- No operation of a call touches a file that the temporary name does not lead to. -/
theorem spares_step {s : WriteState} {outcome : Outcome} {image : Bytes} {held : Option Bytes}
    {inode : Nat} (h : Holds path image held s.fs s.phase)
    (hapart : s.fs.Apart (temporary path) inode) :
    s.fs.Spares (s.step path outcome).fs (temporary path) inode := by
  obtain ⟨fs, phase⟩ := s
  cases phase with
  | opening ops =>
      cases outcome with
      | fails written => exact hapart.spares
      | ok => exact hapart.spares_openTruncate
  | writing fd position ops =>
      cases ops with
      | nil => cases outcome <;> exact hapart.spares
      | cons op ops =>
          cases op with
          | seekp target => cases outcome <;> exact hapart.spares
          | write data =>
              have hentry := h.2.1
              cases outcome with
              | fails written => exact hapart.spares_setContents _ hentry
              | ok =>
                  simp only [WriteState.step, writeStep]
                  split <;> exact hapart.spares_setContents _ hentry
  | closing => exact hapart.spares
  | discarding =>
      cases outcome with
      | fails written => exact hapart.spares
      | ok => exact hapart.spares_remove _
  | installing =>
      simp only [WriteState.step]
      split
      · exact spares_tryRename hapart ‹_›
      · exact hapart.spares
  | removingTarget =>
      cases outcome with
      | fails written => exact hapart.spares
      | ok => exact hapart.spares_remove _
  | retrying =>
      simp only [WriteState.step]
      split
      · exact spares_tryRename hapart ‹_›
      · exact hapart.spares
  | abandoning =>
      cases outcome with
      | fails written => exact hapart.spares
      | ok => exact hapart.spares_remove _
  | returned => exact hapart.spares
  | thrown error => exact hapart.spares

end Facts

/-! What holds while the calls stay exclusive. -/

section Invariant
variable {ι ρ : Type} (l2Norm : List FloatBits → FloatBits) (calls : ι → List IndexItem)
variable (path : String)

/-- What a call knows of the file system. -/
def Knows (fs : FileSystem String) (call : ι) (phase : Phase) : Prop :=
  ∃ dimensions held, Writable (calls call) dimensions ∧
    Holds path (indexImage l2Norm (calls call) dimensions) held fs phase

/-- The call has installed an image that its checks have passed and that fits in a file. -/
def Completed (call : ι) : Prop :=
  ∃ dimensions, Writable (calls call) dimensions ∧
    (indexImage l2Norm (calls call) dimensions).length ≤ maxFileSize

structure Consistent (sys : Service ι ρ) : Prop where
  opening : ∀ call ops, sys.phases call = .opening ops →
    sys.phases call = startPhase l2Norm (calls call)
  opener : ∀ call, sys.opener = some call → Knows l2Norm calls path sys.fs call (sys.phases call)
  completed : ∀ call, sys.phases call = .returned → Completed l2Norm calls call
  mapped : ∀ reader inode, sys.mappings reader = some inode →
    sys.fs.Apart (temporary path) inode

end Invariant

section Simulation
variable {ι ρ : Type} {l2Norm : List FloatBits → FloatBits} {calls : ι → List IndexItem}
variable {path : String}

theorem knows_start {call : ι} {ops : List StreamOp} (fs : FileSystem String)
    (h : startPhase l2Norm (calls call) = .opening ops) :
    Knows l2Norm calls path fs call (.opening ops) := by
  cases hcheck : checkItems (calls call) with
  | error error =>
      simp only [startPhase, hcheck] at h
      cases h
  | ok dimensions =>
      rw [← h]
      exact ⟨dimensions, _, (checkItems_ok_iff _ _).mp hcheck, holds_start fs hcheck⟩

theorem consistent_start (fs : FileSystem String) :
    Consistent l2Norm calls path (Service.start l2Norm calls fs : Service ι ρ) := by
  refine ⟨fun call ops _ => rfl, nofun, fun call hphase => ?_, nofun⟩
  simp only [Service.start, startPhase] at hphase
  split at hphase <;> cases hphase

/-- A call that has ended. -/
def Phase.ended : Phase → Bool
  | .returned | .thrown _ => true
  | _ => false

theorem step_ended {s : WriteState} (h : s.phase.ended = true) (outcome : Outcome) :
    s.step path outcome = s := by
  obtain ⟨fs, phase⟩ := s
  cases phase with
  | returned => rfl
  | thrown error => rfl
  | _ => cases h

theorem ended_or_opening_or_busy (phase : Phase) :
    phase.ended = true ∨ (∃ ops, phase = .opening ops) ∨ phase.busy = true := by
  cases phase with
  | returned => exact .inl rfl
  | thrown error => exact .inl rfl
  | opening ops => exact .inr (.inl ⟨ops, rfl⟩)
  | _ => exact .inr (.inr rfl)

/-- A call that acts alone knows what it has reached. -/
theorem knows_acting {sys : Service ι ρ} {call : ι} {outcome : Outcome}
    (h : Consistent l2Norm calls path sys) (hexclusive : sys.Exclusive (.operate call outcome))
    (hrunning : (sys.phases call).ended = false) :
    Knows l2Norm calls path sys.fs call (sys.phases call) := by
  rcases ended_or_opening_or_busy (sys.phases call) with hended | ⟨ops, hops⟩ | hbusy
  · rw [hrunning] at hended
    cases hended
  · have hstart := h.opening call ops hops
    rw [hops] at hstart ⊢
    exact knows_start sys.fs hstart.symm
  · exact h.opener call (hexclusive hbusy)

variable [DecidableEq ι] [DecidableEq ρ]

theorem operate_ended {sys : Service ι ρ} {call : ι} (h : (sys.phases call).ended = true)
    (outcome : Outcome) : sys.step path (.operate call outcome) = sys := by
  have hsame := @step_ended path ⟨sys.fs, sys.phases call⟩ h outcome
  obtain ⟨fs, phases, opener, mappings⟩ := sys
  simp only [Service.step, hsame, Function.update_eq_self]
  cases hphase : phases call with
  | opening ops =>
      simp only [hphase] at h
      cases h
  | _ => rfl

theorem phases_operate (sys : Service ι ρ) (call other : ι) (outcome : Outcome) :
    (sys.step path (.operate call outcome)).phases other =
      if other = call then (WriteState.step path ⟨sys.fs, sys.phases call⟩ outcome).phase
      else sys.phases other :=
  Function.update_apply ..

/-- Only the call that acts becomes the opener; another stays it when nothing is opened. -/
theorem opener_operate {sys : Service ι ρ} {call other : ι} {outcome : Outcome}
    (hexclusive : sys.Exclusive (.operate call outcome))
    (hrunning : (sys.phases call).ended = false) (hne : other ≠ call)
    (hopener : (sys.step path (.operate call outcome)).opener = some other) :
    sys.opener = some other ∧ (sys.step path (.operate call outcome)).fs = sys.fs := by
  rcases ended_or_opening_or_busy (sys.phases call) with hended | ⟨ops, hops⟩ | hbusy
  · rw [hrunning] at hended
    cases hended
  · cases outcome with
    | ok =>
        simp only [Service.step, hops, Option.some.injEq] at hopener
        exact absurd hopener.symm hne
    | fails written =>
        simp only [Service.step, hops] at hopener ⊢
        exact ⟨hopener, rfl⟩
  · have hsame : (sys.step path (.operate call outcome)).opener = sys.opener := by
      cases hphase : sys.phases call with
      | opening ops =>
          rw [hphase] at hbusy
          cases hbusy
      | _ => simp only [Service.step, hphase]
    rw [hsame, hexclusive hbusy] at hopener
    exact absurd (Option.some.inj hopener).symm hne

theorem consistent_operate {sys : Service ι ρ} {call : ι} {outcome : Outcome}
    (h : Consistent l2Norm calls path sys) (hexclusive : sys.Exclusive (.operate call outcome))
    (hrunning : (sys.phases call).ended = false) :
    Consistent l2Norm calls path (sys.step path (.operate call outcome)) := by
  have hknows := knows_acting h hexclusive hrunning
  obtain ⟨dimensions, held, hw, hholds⟩ := hknows
  have hstep := holds_step (s := ⟨sys.fs, sys.phases call⟩) outcome hholds
  refine ⟨fun other ops hops => ?_, fun other hopener => ?_, fun other hreturned => ?_,
    fun reader inode hmapped => ?_⟩
  · rw [phases_operate] at hops ⊢
    split at hops
    · exact absurd hops (step_not_opening _ outcome ops)
    · next hne =>
        rw [if_neg hne]
        exact h.opening other ops hops
  · rw [phases_operate]
    split
    · next hself =>
        subst hself
        exact ⟨dimensions, _, hw, hstep⟩
    · next hne =>
        obtain ⟨hbefore, hfs⟩ := opener_operate hexclusive hrunning hne hopener
        rw [hfs]
        exact h.opener other hbefore
  · rw [phases_operate] at hreturned
    split at hreturned
    · next hself =>
        subst hself
        rw [hreturned] at hstep
        exact ⟨dimensions, hw, hstep.2⟩
    · exact h.completed other hreturned
  · exact (spares_step (s := ⟨sys.fs, sys.phases call⟩) hholds
      (h.mapped reader inode hmapped)).apart

theorem consistent_map {sys : Service ι ρ} (h : Consistent l2Norm calls path sys) (reader : ρ) :
    Consistent l2Norm calls path (sys.step path (.map reader)) := by
  refine ⟨h.opening, h.opener, h.completed, fun other inode hmapped => ?_⟩
  simp only [Service.step, Function.update_apply] at hmapped
  split at hmapped
  · exact FileSystem.apart_of_entry (path_ne_temporary path) hmapped
  · exact h.mapped other inode hmapped

theorem observe_map (sys : Service ι ρ) (reader : ρ) (value : ι → Bytes) :
    (sys.step path (.map reader)).observe path =
      (sys.observe path).act value (.take reader) := by
  have hsnapshots : (fun other => (Function.update sys.mappings reader
      (sys.fs.entries path) other).map sys.fs.contents) =
        Function.update (fun other => (sys.mappings other).map sys.fs.contents) reader
          (sys.fs.read path) := by
    funext other
    simp only [Function.update_apply]
    split <;> rfl
  simp only [Service.observe, Service.step, Register.act, hsnapshots]

/-- Readers see one operation of a call as what its events say. -/
theorem observe_operate {sys : Service ι ρ} {call : ι} {outcome : Outcome}
    (h : Consistent l2Norm calls path sys) (hexclusive : sys.Exclusive (.operate call outcome))
    (hrunning : (sys.phases call).ended = false) :
    (sys.step path (.operate call outcome)).observe path =
      (sys.observe path).run (fun call => imageOf l2Norm (calls call))
        (sys.events path (.operate call outcome)) := by
  obtain ⟨dimensions, held, hw, hholds⟩ := knows_acting h hexclusive hrunning
  have hstep := holds_step (s := ⟨sys.fs, sys.phases call⟩) outcome hholds
  have hbefore : sys.phases call ≠ .returned := fun he => by
    rw [he] at hrunning
    cases hrunning
  have hheld := (holds_read hholds).1 hbefore
  -- The mappings see the contents they saw.
  have hsnapshots : (fun reader => (sys.mappings reader).map
      (sys.step path (.operate call outcome)).fs.contents) =
        fun reader => (sys.mappings reader).map sys.fs.contents := by
    funext reader
    cases hmapped : sys.mappings reader with
    | none => rfl
    | some inode => exact congrArg some (spares_step (s := ⟨sys.fs, sys.phases call⟩) hholds
        (h.mapped reader inode hmapped)).contents
  have hobserve : (sys.step path (.operate call outcome)).observe path =
      ⟨(sys.step path (.operate call outcome)).fs.read path, (sys.observe path).snapshots⟩ :=
    congrArg (Register.mk _) hsnapshots
  rw [hobserve, Service.events]
  by_cases hreturned :
      (WriteState.step path ⟨sys.fs, sys.phases call⟩ outcome).phase = .returned
  · have hread := (holds_read hstep).2 hreturned
    rw [if_pos ⟨hbefore, hreturned⟩]
    change Register.mk ((WriteState.step path ⟨sys.fs, sys.phases call⟩ outcome).fs.read path) _ = _
    rw [hread, ← imageOf_eq hw]
    rfl
  · have hread := (holds_read hstep).1 hreturned
    rw [if_neg fun hboth => hreturned hboth.2]
    change Register.mk ((WriteState.step path ⟨sys.fs, sys.phases call⟩ outcome).fs.read path) _ = _
    rw [hread]
    split
    · next herase =>
        rw [herase.1, herase.2]
        rfl
    · next hkeep =>
        rw [heldAfter_kept held hkeep, ← hheld]
        rfl

/-- While the calls are exclusive, the service is a register with snapshots. -/
theorem service_simulates : Simulates (Service.step path) Service.Exclusive
    (Service.events path) (Register.act fun call : ι => imageOf l2Norm (calls call))
    (Service.observe path) (Consistent l2Norm calls path : Service ι ρ → Prop) := by
  constructor
  · intro sys action h hexclusive
    cases action with
    | map reader => exact consistent_map h reader
    | operate call outcome =>
        cases hended : (sys.phases call).ended with
        | true =>
            rw [operate_ended hended]
            exact h
        | false => exact consistent_operate h hexclusive hended
  · intro sys action h hexclusive
    cases action with
    | map reader => exact observe_map sys reader fun call => imageOf l2Norm (calls call)
    | operate call outcome =>
        cases hended : (sys.phases call).ended with
        | false => exact observe_operate h hexclusive hended
        | true =>
            have hnone : sys.events path (.operate call outcome) = [] := by
              rw [Service.events, @step_ended path ⟨sys.fs, sys.phases call⟩ hended]
              cases hphase : sys.phases call with
              | returned => rfl
              | thrown error => rfl
              | _ =>
                  rw [hphase] at hended
                  cases hended
            rw [operate_ended hended, hnone]
            rfl

end Simulation

end CppRag
