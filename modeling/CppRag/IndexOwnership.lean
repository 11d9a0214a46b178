import CppRag.IndexObjects
import CppRag.IndexChecksum

/-!
Who owns the descriptors and the mappings. Over every sequence of operations on any number
of indexes each of them has one owner, none is released twice, and nothing remains once all
objects are destroyed.
-/
namespace CppRag
open Observed Function Ledger

/-! One object. -/

namespace IndexObject

theorem close_eq (resources : Resources) (object : IndexObject) : object.close resources =
    (⟨resources.descriptors.releaseHeld object.descriptor,
      resources.mappings.releaseHeld object.mapping⟩, ⟨-1, 0, 0⟩) := by
  unfold close descriptor mapping
  by_cases hdata : object.data = 0 <;> by_cases hfd : object.fd ≥ 0 <;>
    simp [hdata, hfd, releaseHeld]

theorem moveAssign_eq (resources : Resources) (object other : IndexObject) :
    moveAssign resources object other =
      (⟨resources.descriptors.releaseHeld object.descriptor,
        resources.mappings.releaseHeld object.mapping⟩, other, ⟨-1, 0, 0⟩) := by
  rw [moveAssign, close_eq]

/-- The object owns neither a descriptor nor a mapping. -/
def OwnsNothing (object : IndexObject) : Prop := object.descriptor = none ∧ object.mapping = none

theorem ownsNothing_closed : OwnsNothing ⟨-1, 0, 0⟩ := ⟨rfl, rfl⟩

/-- Closing right after the descriptor was opened. -/
theorem close_opened {resources : Resources} {fd : Descriptor} (hfd : ¬fd < 0) (size : UInt64) :
    close { resources with descriptors := resources.descriptors.acquire fd } ⟨fd, 0, size⟩ =
      (resources, ⟨-1, 0, 0⟩) := by
  rw [close_eq]
  simp only [descriptor, mapping, ne_eq, not_true_eq_false, if_false, if_pos (Int.not_lt.mp hfd),
    releaseHeld, release_acquire]

theorem close_mapped {resources : Resources} {fd : Descriptor} (hfd : ¬fd < 0) {address : UInt64}
    (haddress : address ≠ 0) (size : UInt64) :
    close ⟨resources.descriptors.acquire fd, resources.mappings.acquire (address, size)⟩
      ⟨fd, address, size⟩ = (resources, ⟨-1, 0, 0⟩) := by
  rw [close_eq]
  simp only [descriptor, mapping, if_pos haddress, if_pos (Int.not_lt.mp hfd), releaseHeld,
    release_acquire]

/-- A construction that fails leaves the resources as they were, one that succeeds has
acquired a descriptor and a mapping. -/
theorem construct_cases {resources resources' : Resources} {path : String}
    {answers : OpenAnswers} {object : IndexObject} {result : Except Exception Unit}
    (hvalid : answers.Valid resources)
    (h : construct resources path answers = (resources', object, result)) :
    (∃ error, result = .error error ∧ resources' = resources ∧ object.OwnsNothing) ∨
      ∃ address size, result = .ok () ∧ 0 ≤ answers.fd ∧ answers.mapping = some address ∧
        resources' = ⟨resources.descriptors.acquire answers.fd,
          resources.mappings.acquire (address, size)⟩ ∧
        object = ⟨answers.fd, address, size⟩ := by
  unfold construct at h
  by_cases hfd : answers.fd < 0
  · simp only [if_pos hfd] at h
    cases h
    refine .inl ⟨_, rfl, rfl, ?_, rfl⟩
    rw [descriptor, if_neg (by simpa using hfd)]
  simp only [if_neg hfd] at h
  cases hstatus : answers.status with
  | none =>
      simp only [hstatus, close_opened hfd] at h
      cases h
      exact .inl ⟨_, rfl, rfl, ownsNothing_closed⟩
  | some size =>
      simp only [hstatus] at h
      by_cases hsize : size ≤ 0
      · simp only [if_pos hsize, close_opened hfd] at h
        cases h
        exact .inl ⟨_, rfl, rfl, ownsNothing_closed⟩
      simp only [if_neg hsize] at h
      cases hmapping : answers.mapping with
      | none =>
          simp only [hmapping, close_opened hfd] at h
          cases h
          exact .inl ⟨_, rfl, rfl, ownsNothing_closed⟩
      | some address =>
          simp only [hmapping] at h
          cases hvalidate : (validate answers.image).result with
          | error error =>
              simp only [hvalidate, close_mapped hfd (hvalid.address_ne address hmapping)] at h
              cases h
              exact .inl ⟨_, rfl, rfl, ownsNothing_closed⟩
          | ok _ =>
              simp only [hvalidate] at h
              cases h
              exact .inr ⟨address, _, rfl, Int.not_lt.mp hfd, rfl, rfl, rfl⟩

theorem construct_opens (resources : Resources) (path : String) (answers : OpenAnswers)
    {size : Int} {address : UInt64} (hfd : 0 ≤ answers.fd) (hstatus : answers.status = some size)
    (hsize : 0 < size) (hmapping : answers.mapping = some address)
    (hvalidate : (validate answers.image).result = .ok ()) :
    construct resources path answers =
      (⟨resources.descriptors.acquire answers.fd,
        resources.mappings.acquire (address, UInt64.ofNat size.toNat)⟩,
        ⟨answers.fd, address, UInt64.ofNat size.toNat⟩, .ok ()) := by
  unfold construct
  simp only [if_neg (Int.not_lt.mpr hfd), hstatus, if_neg (Int.not_le.mpr hsize), hmapping,
    hvalidate]

theorem isOpen_iff (object : IndexObject) :
    object.isOpen = true ↔ ∃ mapping, object.mapping = some mapping := by
  unfold isOpen mapping
  by_cases hdata : object.data = 0 <;> simp [hdata]

end IndexObject

/-! The accessors. -/

inductive Accessor where
  | size
  | dimensions
  | chunk (i : UInt64)
  | embedding (i : UInt64)
  | norm (i : UInt64)
  | scale (i : UInt64)
  | scaleBytes (i : UInt64)

/-- How a call of the accessor ends. -/
def Accessor.outcome (index : MmapIndex) : Accessor → Except Exception Unit
  | .size => index.size.result.map fun _ => ()
  | .dimensions => index.dimensions.result.map fun _ => ()
  | .chunk i => (index.chunk i).result.map fun _ => ()
  | .embedding i => (index.embedding i).result.map fun _ => ()
  | .norm i => (index.norm i).result.map fun _ => ()
  | .scale i => (index.scale i).result.map fun _ => ()
  | .scaleBytes i => (index.scaleBytes i).result.map fun _ => ()

theorem Accessor.outcome_closed (accessor : Accessor) :
    accessor.outcome ⟨none⟩ = .error (.logicError "index is not open") := by
  cases accessor <;> rfl

/-- An open index answers, or says that there is no such item. -/
theorem Accessor.outcome_open (img : Image) (accessor : Accessor) :
    accessor.outcome ⟨some img⟩ = .ok () ∨
      accessor.outcome ⟨some img⟩ = .error (.outOfRange "index item out of range") := by
  have hitem : ∀ {α : Type} (i : UInt64) (f : Image × Record → Checked α),
      (∀ found, ∃ value, (f found).result = .ok value) →
      ((MmapIndex.item ⟨some img⟩ i >>= f).result.map fun _ => ()) = .ok () ∨
        ((MmapIndex.item ⟨some img⟩ i >>= f).result.map fun _ => ()) =
          .error (.outOfRange "index item out of range") := by
    intro α i f hf
    by_cases hi : i < img.header.itemCount
    · obtain ⟨value, hvalue⟩ := hf (img, img.record i)
      rw [bind_of_ok (MmapIndex.item_result hi), hvalue]
      exact .inl rfl
    · rw [bind_of_error (MmapIndex.item_error hi)]
      exact .inr rfl
  cases accessor with
  | size => rw [outcome, MmapIndex.size_result]; exact .inl rfl
  | dimensions => rw [outcome, MmapIndex.dimensions_result]; exact .inl rfl
  | chunk i => exact hitem i _ fun _ => ⟨_, rfl⟩
  | embedding i => exact hitem i _ fun _ => ⟨_, rfl⟩
  | norm i => exact hitem i _ fun _ => ⟨_, rfl⟩
  | scale i => exact hitem i _ fun _ => ⟨_, rfl⟩
  | scaleBytes i => exact hitem i _ fun _ => ⟨_, rfl⟩

theorem IndexObject.accessor_iff (object : IndexObject) (memory : UInt64 → Image)
    (accessor : Accessor) :
    (∃ what, accessor.outcome (object.index memory) = .error (.logicError what)) ↔
      object.mapping = none := by
  unfold index mapping
  by_cases hdata : object.data = 0
  · rw [if_pos hdata, accessor.outcome_closed, if_neg (not_not_intro hdata)]
    exact iff_of_true ⟨_, rfl⟩ rfl
  · rw [if_neg hdata, if_pos hdata]
    refine iff_of_false ?_ nofun
    rintro ⟨what, hthrows⟩
    rcases accessor.outcome_open (memory object.data) with hok | hpast
    · rw [hok] at hthrows
      cases hthrows
    · rw [hpast] at hthrows
      cases hthrows

/-! The invariant. -/

namespace Indexes

def descriptorOf (state : Indexes) (id : Nat) : Option Descriptor :=
  (state.objects id).bind IndexObject.descriptor

def mappingOf (state : Indexes) (id : Nat) : Option Mapping :=
  (state.objects id).bind IndexObject.mapping

/-- Every descriptor and every mapping has one owner, and no release was a fault. -/
structure Sound (state : Indexes) : Prop where
  descriptors : state.resources.descriptors.Balanced state.descriptorOf
  mappings : state.resources.mappings.Balanced state.mappingOf

theorem sound_start : start.Sound := ⟨balanced_empty, balanced_empty⟩

theorem bind_update {R : Type} (objects : Nat → Option IndexObject) (id : Nat)
    (object : Option IndexObject) (owned : IndexObject → Option R) :
    (fun k => (update objects id object k).bind owned) =
      update (fun k => (objects k).bind owned) id (object.bind owned) := by
  funext k
  by_cases hk : k = id
  · rw [hk, update_self, update_self]
  · rw [update_of_ne hk, update_of_ne hk]

theorem descriptorOf_update (resources : Resources) (objects : Nat → Option IndexObject) (id : Nat)
    (object : Option IndexObject) :
    descriptorOf ⟨resources, update objects id object⟩ =
      update (descriptorOf ⟨resources, objects⟩) id (object.bind IndexObject.descriptor) :=
  bind_update objects id object IndexObject.descriptor

theorem mappingOf_update (resources : Resources) (objects : Nat → Option IndexObject) (id : Nat)
    (object : Option IndexObject) :
    mappingOf ⟨resources, update objects id object⟩ =
      update (mappingOf ⟨resources, objects⟩) id (object.bind IndexObject.mapping) :=
  bind_update objects id object IndexObject.mapping

section Step
variable {state : Indexes} {id other : Nat} {source target : IndexObject}

theorem descriptorOf_alive (h : state.objects id = some source) :
    state.descriptorOf id = source.descriptor := by rw [descriptorOf, h, Option.bind_some]

theorem mappingOf_alive (h : state.objects id = some source) :
    state.mappingOf id = source.mapping := by rw [mappingOf, h, Option.bind_some]

theorem descriptorOf_new (h : state.objects id = none) : state.descriptorOf id = none := by
  rw [descriptorOf, h, Option.bind_none]

theorem mappingOf_new (h : state.objects id = none) : state.mappingOf id = none := by
  rw [mappingOf, h, Option.bind_none]

/-- A new object that owns nothing. -/
theorem Sound.add (h : state.Sound) (hnew : state.objects id = none) {object : IndexObject}
    (hnothing : object.OwnsNothing) :
    Sound ⟨state.resources, update state.objects id (some object)⟩ := by
  refine ⟨?_, ?_⟩
  · rw [descriptorOf_update, Option.bind_some, hnothing.1, ← descriptorOf_new hnew, update_eq_self]
    exact h.descriptors
  · rw [mappingOf_update, Option.bind_some, hnothing.2, ← mappingOf_new hnew, update_eq_self]
    exact h.mappings

/-- An object takes over from another what that one owns, after it has closed itself. -/
theorem Sound.take (h : state.Sound) (hne : id ≠ other)
    (hsource : state.objects other = some source) (resources : Resources)
    (hdescriptors : resources.descriptors =
      state.resources.descriptors.releaseHeld (state.descriptorOf id))
    (hmappings : resources.mappings = state.resources.mappings.releaseHeld (state.mappingOf id)) :
    Sound ⟨resources,
      update (update state.objects id (some source)) other (some ⟨-1, 0, 0⟩)⟩ := by
  refine ⟨?_, ?_⟩
  · rw [descriptorOf_update, descriptorOf_update, Option.bind_some, ← descriptorOf_alive hsource]
    have hreplaced := h.descriptors.replace hne
    rw [← hdescriptors] at hreplaced
    exact hreplaced
  · rw [mappingOf_update, mappingOf_update, Option.bind_some, ← mappingOf_alive hsource]
    have hreplaced := h.mappings.replace hne
    rw [← hmappings] at hreplaced
    exact hreplaced

theorem Sound.destroy (h : state.Sound) (halive : state.objects id = some source) :
    Sound ⟨(source.close state.resources).1, update state.objects id none⟩ := by
  rw [IndexObject.close_eq, ← descriptorOf_alive halive, ← mappingOf_alive halive]
  refine ⟨?_, ?_⟩
  · rw [descriptorOf_update]
    exact h.descriptors.releaseHeld id
  · rw [mappingOf_update]
    exact h.mappings.releaseHeld id

end Step

theorem Sound.opened {state : Indexes} {id : Nat} {answers : OpenAnswers} (h : state.Sound)
    (hnew : state.objects id = none) (hvalid : answers.Valid state.resources)
    (hfd : 0 ≤ answers.fd) {address : UInt64} (hmapping : answers.mapping = some address)
    (size : UInt64) :
    Sound ⟨⟨state.resources.descriptors.acquire answers.fd,
        state.resources.mappings.acquire (address, size)⟩,
      update state.objects id (some ⟨answers.fd, address, size⟩)⟩ := by
  refine ⟨?_, ?_⟩
  · rw [descriptorOf_update, Option.bind_some, IndexObject.descriptor, if_pos hfd]
    exact h.descriptors.acquire (hvalid.descriptor_fresh hfd) (descriptorOf_new hnew)
  · rw [mappingOf_update, Option.bind_some, IndexObject.mapping,
      if_pos (hvalid.address_ne address hmapping)]
    exact h.mappings.acquire
      (fun hlive => hvalid.mapping_fresh address hmapping _ hlive rfl) (mappingOf_new hnew)

/-- One step keeps the invariant. -/
theorem Sound.step {state state' : Indexes} {operation : IndexOperation} (h : state.Sound)
    (hstep : Step state operation state') : state'.Sound := by
  cases hstep with
  | construct hnew => exact h.add hnew IndexObject.ownsNothing_closed
  | opened hnew hvalid hresult =>
      rcases IndexObject.construct_cases hvalid hresult with
        ⟨error, herror, -⟩ | ⟨address, size, -, hfd, hmapping, rfl, rfl⟩
      · cases herror
      · exact h.opened hnew hvalid hfd hmapping size
  | failed hnew hvalid hresult =>
      rcases IndexObject.construct_cases hvalid hresult with
        ⟨error, -, rfl, -⟩ | ⟨address, size, hok, -⟩
      · exact h
      · cases hok
  | moveConstruct hnew hsource hresult =>
      rw [IndexObject.moveAssign_eq] at hresult
      cases hresult
      refine h.take (fun heq => ?_) hsource _ ?_ ?_
      · rw [heq, hsource] at hnew
        cases hnew
      · rw [descriptorOf_new hnew]
        rfl
      · rw [mappingOf_new hnew]
        rfl
  | moveAssign hne htarget hsource hresult =>
      rw [IndexObject.moveAssign_eq] at hresult
      cases hresult
      refine h.take hne hsource _ ?_ ?_
      · rw [descriptorOf_alive htarget]
      · rw [mappingOf_alive htarget]
  | selfAssign halive => exact h
  | destroy halive => exact h.destroy halive

/-! Runs. -/

/-- The states after a sequence of operations. -/
inductive Run : List IndexOperation → Indexes → Prop
  | start : Run [] start
  | step {operations : List IndexOperation} {operation : IndexOperation} {state state' : Indexes}
      (hrun : Run operations state) (hstep : Step state operation state') :
      Run (operations ++ [operation]) state'

theorem Run.sound {operations : List IndexOperation} {state : Indexes}
    (h : Run operations state) : state.Sound := by
  induction h with
  | start => exact sound_start
  | step hrun hstep ih => exact ih.step hstep

/-- The objects that were moved from and neither assigned to nor renewed since. -/
def movedFrom (moved : Nat → Bool) : IndexOperation → Nat → Bool
  | .construct id => update moved id false
  | .openPath id _ _ => update moved id false
  | .moveConstruct id other => update (update moved id false) other true
  | .moveAssign id other =>
      if id = other then moved else update (update moved id false) other true
  | .destroy id => update moved id false

/-- The objects that are moved-from after a sequence of operations. -/
def allMovedFrom (operations : List IndexOperation) : Nat → Bool :=
  operations.foldl movedFrom fun _ => false

/-- Moved-from objects are as default constructed ones. -/
def Emptied (objects : Nat → Option IndexObject) (moved : Nat → Bool) : Prop :=
  ∀ id object, moved id = true → objects id = some object → object = ⟨-1, 0, 0⟩

section Emptied
variable {objects : Nat → Option IndexObject} {moved : Nat → Bool}

theorem Emptied.renew (h : Emptied objects moved) (id : Nat) (object : Option IndexObject) :
    Emptied (update objects id object) (update moved id false) := by
  intro k found hmoved hfound
  by_cases hk : k = id
  · rw [hk, update_self] at hmoved
    cases hmoved
  · rw [update_of_ne hk] at hmoved hfound
    exact h k found hmoved hfound

theorem Emptied.empty (h : Emptied objects moved) (id : Nat) :
    Emptied (update objects id (some ⟨-1, 0, 0⟩)) (update moved id true) := by
  intro k found hmoved hfound
  by_cases hk : k = id
  · rw [hk, update_self] at hfound
    exact (Option.some.inj hfound).symm
  · rw [update_of_ne hk] at hmoved hfound
    exact h k found hmoved hfound

theorem Emptied.step {state state' : Indexes} {operation : IndexOperation}
    (h : Emptied state.objects moved) (hstep : Step state operation state') :
    Emptied state'.objects (movedFrom moved operation) := by
  cases hstep with
  | construct hnew => exact h.renew _ _
  | opened hnew hvalid hresult => exact h.renew _ _
  | @failed id path answers resources object error hnew hvalid hresult =>
      have hrenewed := h.renew id (state.objects id)
      rw [update_eq_self] at hrenewed
      exact hrenewed
  | moveConstruct hnew hsource hresult =>
      rw [IndexObject.moveAssign_eq] at hresult
      cases hresult
      exact (h.renew _ _).empty _
  | moveAssign hne htarget hsource hresult =>
      rw [IndexObject.moveAssign_eq] at hresult
      cases hresult
      rw [movedFrom, if_neg hne]
      exact (h.renew _ _).empty _
  | selfAssign halive =>
      rw [movedFrom, if_pos rfl]
      exact h
  | destroy halive => exact h.renew _ _

theorem Run.emptied {operations : List IndexOperation} {state : Indexes}
    (h : Run operations state) : Emptied state.objects (allMovedFrom operations) := by
  induction h with
  | start => exact fun _ _ hmoved => nomatch hmoved
  | step hrun hstep ih =>
      rw [allMovedFrom, List.foldl_append]
      exact ih.step hstep

end Emptied

/-- For every sequence of operations: each live descriptor and mapping is owned by exactly one
object and what is owned is live; no release was a fault; moved-from objects own nothing, nor
does one whose construction fails; the accessors throw `logic_error` on just the objects
without a mapping; and without objects nothing is live. -/
theorem ownership_exact {operations : List IndexOperation} {state : Indexes}
    (h : Run operations state) :
    (∀ fd ∈ state.resources.descriptors.live, ∃! id, state.descriptorOf id = some fd) ∧
    (∀ mapping ∈ state.resources.mappings.live, ∃! id, state.mappingOf id = some mapping) ∧
    (∀ id fd, state.descriptorOf id = some fd → fd ∈ state.resources.descriptors.live) ∧
    (∀ id mapping, state.mappingOf id = some mapping → mapping ∈ state.resources.mappings.live) ∧
    state.resources.descriptors.faults = [] ∧ state.resources.mappings.faults = [] ∧
    (∀ id object, allMovedFrom operations id = true → state.objects id = some object →
      object.OwnsNothing) ∧
    (∀ path (answers : OpenAnswers) resources (object : IndexObject) error,
      answers.Valid state.resources →
      IndexObject.construct state.resources path answers = (resources, object, .error error) →
      object.OwnsNothing ∧ resources = state.resources) ∧
    (∀ id object (memory : UInt64 → Image) (accessor : Accessor),
      state.objects id = some object →
      ((∃ what, accessor.outcome (object.index memory) = .error (.logicError what)) ↔
        state.mappingOf id = none)) ∧
    ((∀ id, state.objects id = none) →
      state.resources.descriptors.live = [] ∧ state.resources.mappings.live = []) := by
  have hsound := h.sound
  refine ⟨fun fd => hsound.descriptors.existsUnique, fun mapping => hsound.mappings.existsUnique,
    fun id fd howned => (hsound.descriptors.live_iff fd).mpr ⟨id, howned⟩,
    fun id mapping howned => (hsound.mappings.live_iff mapping).mpr ⟨id, howned⟩,
    hsound.descriptors.faultless, hsound.mappings.faultless, fun id object hmoved hobject => ?_,
    fun path answers resources object error hvalid hresult => ?_,
    fun id object memory accessor hobject => ?_, fun hnone => ⟨?_, ?_⟩⟩
  · rw [h.emptied id object hmoved hobject]
    exact IndexObject.ownsNothing_closed
  · rcases IndexObject.construct_cases hvalid hresult with
      ⟨-, -, hsame, hnothing⟩ | ⟨address, size, hok, -⟩
    · exact ⟨hnothing, hsame⟩
    · cases hok
  · rw [mappingOf_alive hobject]
    exact object.accessor_iff memory accessor
  · exact hsound.descriptors.live_eq_nil fun id => descriptorOf_new (hnone id)
  · exact hsound.mappings.live_eq_nil fun id => mappingOf_new (hnone id)

section Moved

def letterAnswers : OpenAnswers :=
  ⟨3, some letterImage.bytes.length, some 4096, letterImage⟩

/-- An index is opened, and a default constructed one takes it over. -/
def handedOver : List IndexOperation :=
  [.openPath 0 "index" letterAnswers, .construct 1, .moveAssign 1 0]

theorem handedOver_run : ∃ state, Run handedOver state ∧
    state.resources.descriptors.live = [3] ∧ state.objects 0 = some ⟨-1, 0, 0⟩ := by
  have hopened := IndexObject.construct_opens start.resources "index" letterAnswers (by decide) rfl
    (by decide +kernel) rfl letterImage_accepted
  have hvalid : letterAnswers.Valid start.resources := by
    refine ⟨fun _ => List.not_mem_nil, fun address haddress => ?_, fun _ _ _ hlive => ?_,
      fun size hsize _ => ?_⟩
    · cases haddress
      decide
    · cases hlive
    · cases hsize
      rfl
  have hfirst : Run [.openPath 0 "index" letterAnswers] _ :=
    Run.start.step (.opened rfl hvalid hopened)
  have hsecond : Run [.openPath 0 "index" letterAnswers, .construct 1] _ :=
    hfirst.step (.construct rfl)
  have hthird : Run handedOver _ :=
    hsecond.step (.moveAssign (by decide) rfl rfl (IndexObject.moveAssign_eq _ _ _))
  exact ⟨_, hthird, rfl, rfl⟩

theorem ownership_exact_handedOver : ∃ state, Run handedOver state ∧
    (∃! id, state.descriptorOf id = some 3) ∧
    (∃ object, state.objects 0 = some object ∧ object.OwnsNothing) ∧
    state.resources.mappings.faults = [] := by
  obtain ⟨state, hrun, hlive, hmoved⟩ := handedOver_run
  obtain ⟨hdescriptors, -, -, -, -, hfaults, hemptied, -⟩ := ownership_exact hrun
  exact ⟨state, hrun, hdescriptors 3 (by rw [hlive]; exact List.mem_singleton_self 3),
    ⟨_, hmoved, hemptied 0 _ (by decide) hmoved⟩, hfaults⟩

end Moved

end Indexes
end CppRag
