import CppRag.Citations
import CppRag.IndexService
import Mathlib.Algebra.Order.BigOperators.Group.List

/-!
What readers of an index get while it is rebuilt. Runs of `run_index` follow each other, each
with any outcomes and each possibly cut short; a reader that has mapped the index keeps seeing
what the path held at that moment, which is the index of one run and cites just its documents.
-/
namespace CppRag
open Simulation

/-! Every call publishes at most once. -/

/-- How many images a call has published at the point it has reached. -/
def Phase.published : Phase → Nat
  | .returned => 1
  | _ => 0

theorem published_of_ne {phase : Phase} (h : phase ≠ .returned) : phase.published = 0 := by
  cases phase with
  | returned => exact absurd rfl h
  | _ => rfl

section Once
variable {ι ρ : Type} [DecidableEq ι] [DecidableEq ρ] {path : String}

theorem count_publish_step (sys : Service ι ρ) (action : Service.Action ι ρ) (call : ι) :
    (sys.events path action).count (.publish call) + (sys.phases call).published =
      ((sys.step path action).phases call).published := by
  cases action with
  | map reader => exact Nat.zero_add _
  | operate other outcome =>
      rw [phases_operate, Service.events]
      by_cases hself : call = other
      · subst hself
        rw [if_pos rfl]
        by_cases hbefore : sys.phases call = .returned
        · rw [@step_ended path ⟨sys.fs, sys.phases call⟩ (by rw [hbefore]; rfl) outcome, hbefore]
          rfl
        · rw [published_of_ne hbefore, Nat.add_zero]
          by_cases hafter :
            (WriteState.step path ⟨sys.fs, sys.phases call⟩ outcome).phase = .returned
          · rw [if_pos ⟨hbefore, hafter⟩, hafter]
            exact List.count_singleton_self
          · rw [if_neg fun hboth => hafter hboth.2, published_of_ne hafter]
            split <;> simp
      · rw [if_neg hself, Nat.add_eq_right]
        split
        · simp [Ne.symm hself]
        · split <;> simp

theorem count_publish_run (sys : Service ι ρ) (actions : List (Service.Action ι ρ)) (call : ι) :
    (trace (Service.step path) (Service.events path) sys actions).count (.publish call) +
        (sys.phases call).published = ((sys.run path actions).phases call).published := by
  induction actions generalizing sys with
  | nil => exact Nat.zero_add _
  | cons action actions ih =>
      have hstep := @count_publish_step _ _ _ _ path sys action call
      have hrest := ih (sys.step path action)
      rw [trace, List.count_append]
      rw [← hstep] at hrest
      calc _ = (trace (Service.step path) (Service.events path) (sys.step path action)
            actions).count (.publish call) + ((sys.events path action).count (.publish call) +
              (sys.phases call).published) := by omega
        _ = _ := hrest

end Once

section Refines
variable {ι ρ : Type} (l2Norm : List FloatBits → FloatBits) (calls : ι → List IndexItem)
variable (path : String) (fs : FileSystem String)

theorem start_not_returned (call : ι) :
    (Service.start l2Norm calls fs : Service ι ρ).phases call ≠ .returned := by
  simp only [Service.start, startPhase]
  split <;> (intro h; cases h)

variable [DecidableEq ι] [DecidableEq ρ]

/-- While no call touches the temporary file after another has opened it, the path and the
mappings are a register with snapshots of whole images, whatever fails: a call publishes its
image when it returns, and never twice. -/
theorem service_refines (actions : List (Service.Action ι ρ))
    (hexclusive : Allowed (Service.step path) Service.Exclusive
      (Service.start l2Norm calls fs) actions) :
    ((Service.start l2Norm calls fs).run path actions).observe path =
        Register.run (fun call => imageOf l2Norm (calls call)) ⟨fs.read path, fun _ => none⟩
          (trace (Service.step path) (Service.events path)
            (Service.start l2Norm calls fs) actions) ∧
      ∀ call, (trace (Service.step path) (Service.events path)
          (Service.start l2Norm calls fs) actions).count (.publish call) =
        (((Service.start l2Norm calls fs).run path actions).phases call).published := by
  refine ⟨service_simulates.run (consistent_start fs) hexclusive, fun call => ?_⟩
  rw [← count_publish_run, published_of_ne (start_not_returned l2Norm calls fs call),
    Nat.add_zero]

end Refines

/-! One run after the other. -/

/-- One call with the outcomes of its operations, and the readers that map meanwhile. It need not
be at its end when its last operation is done. -/
structure IndexSession (ι ρ : Type) where
  call : ι
  actions : List (Outcome ⊕ ρ)

namespace IndexSession
variable {ι ρ : Type}

def schedule (session : IndexSession ι ρ) : List (Service.Action ι ρ) :=
  session.actions.map (Sum.elim (.operate session.call) .map)

variable [DecidableEq ι] [DecidableEq ρ] {path : String}

/-- A call that nobody has followed stays alone, and the others stay where they are. -/
theorem alone_step {sys : Service ι ρ} {call : ι}
    (h : (sys.phases call).busy = true → sys.opener = some call) (action : Outcome ⊕ ρ) :
    sys.Exclusive (action.elim (.operate call) .map) ∧
      (((sys.step path (action.elim (.operate call) .map)).phases call).busy = true →
        (sys.step path (action.elim (.operate call) .map)).opener = some call) ∧
      ∀ other, other ≠ call →
        (sys.step path (action.elim (.operate call) .map)).phases other = sys.phases other := by
  cases action with
  | inr reader => exact ⟨trivial, h, fun _ _ => rfl⟩
  | inl outcome =>
      simp only [Sum.elim_inl]
      refine ⟨h, fun hbusy => ?_, fun other hne => by rw [phases_operate, if_neg hne]⟩
      rcases ended_or_opening_or_busy (sys.phases call) with hended | ⟨ops, hops⟩ | hbefore
      · rw [operate_ended hended] at hbusy ⊢
        exact h hbusy
      · rw [phases_operate, if_pos rfl, hops] at hbusy
        cases outcome with
        | ok => simp only [Service.step, hops]
        | fails written => cases hbusy
      · cases hphase : sys.phases call with
        | opening ops =>
            rw [hphase] at hbefore
            cases hbefore
        | _ => simp only [Service.step, hphase, h hbefore]

theorem alone_run {sys : Service ι ρ} {call : ι}
    (h : (sys.phases call).busy = true → sys.opener = some call) (actions : List (Outcome ⊕ ρ)) :
    Allowed (Service.step path) Service.Exclusive sys
        (actions.map (Sum.elim (.operate call) .map)) ∧
      ∀ other, other ≠ call →
        (sys.run path (actions.map (Sum.elim (.operate call) .map))).phases other =
          sys.phases other := by
  induction actions generalizing sys with
  | nil => exact ⟨trivial, fun _ _ => rfl⟩
  | cons action actions ih =>
      obtain ⟨hexclusive, halone, hothers⟩ := @alone_step _ _ _ _ path _ _ h action
      obtain ⟨hallowed, hlater⟩ := ih halone
      exact ⟨⟨hexclusive, hallowed⟩, fun other hne => (hlater other hne).trans (hothers other hne)⟩

/-- Runs that follow each other never meet at the temporary file. -/
theorem allowed_sessions {sys : Service ι ρ} {sessions : List (IndexSession ι ρ)}
    (hnodup : (sessions.map IndexSession.call).Nodup)
    (hfresh : ∀ session ∈ sessions, (sys.phases session.call).busy = false) :
    Allowed (Service.step path) Service.Exclusive sys (sessions.flatMap schedule) := by
  induction sessions generalizing sys with
  | nil => trivial
  | cons session sessions ih =>
      obtain ⟨hcall, hnodup⟩ := List.nodup_cons.mp hnodup
      obtain ⟨hfirst, hfresh⟩ := List.forall_mem_cons.mp hfresh
      have halone : (sys.phases session.call).busy = true → sys.opener = some session.call :=
        fun hbusy => by rw [hfirst] at hbusy; cases hbusy
      obtain ⟨hallowed, hothers⟩ := @alone_run _ _ _ _ path _ _ halone session.actions
      refine allowed_append.mpr ⟨hallowed, ih hnodup fun later hlater => ?_⟩
      have hne : later.call ≠ session.call := fun he =>
        hcall (he ▸ List.mem_map_of_mem hlater)
      have hsame := hothers later.call hne
      rw [schedule, hsame]
      exact hfresh later hlater

end IndexSession

/-! What a reader sees. -/

/-- What `run_index` is given, with the embedder it has loaded. -/
structure Build where
  documents : List Document
  options : ChunkOptions
  scales : List ChunkOptions
  embed : Bytes → List FloatBits

namespace Build

def entries (build : Build) : List ChunkOptions := chunkEntries build.options build.scales

/-- The items are those that `run_index` assembles. -/
def Assembles (build : Build) (items : List IndexItem) : Prop :=
  ∀ steps, (∀ document ∈ build.documents, document.text.bytes.length ≤ steps) →
    (indexItems (List.map build.embed) build.options build.scales steps build.documents).result =
      .ok (some items)

/-- The bytes are an index that opens, and whatever is asked of it, every result cites the
documents of this run. -/
def Answers (build : Build) (bytes : Bytes) : Prop :=
  ∃ (img : Image) (index : MmapIndex), img.bytes = bytes ∧
    (MmapIndex.openImage img).result = .ok index ∧
    ∀ (K : Type) [LinearOrder K] (pq : PriorityQueue (SearchResult.score (K := K)))
        (memory : Memory) (ops : FloatOps K) (query : List FloatBits) (topK : Nat)
        (searchOptions : SearchOptions) (results : List (SearchResult K)),
      (search pq memory ops index query topK searchOptions).result = .ok results →
      ∀ r ∈ results, Cited build.documents build.entries build.embed index r.index

/-- A completed image answers for its run. -/
theorem answers_of_image {build : Build} {items : List IndexItem}
    {l2Norm : List FloatBits → FloatBits} {dimensions : Nat}
    (haccepted : AcceptedScales build.entries) (hassembles : build.Assembles items)
    (hw : Writable items dimensions)
    (hfile : (indexImage l2Norm items dimensions).length ≤ maxFileSize) :
    build.Answers (imageOf l2Norm items) := by
  have hlt : (indexImage l2Norm items dimensions).length < 2 ^ 63 := by
    have hmax : maxFileSize = 2 ^ 63 - 1 := rfl
    omega
  have hsize := totalSize_lt hw hlt
  obtain ⟨assembled, hresult, hcut, -⟩ :=
    indexItems_cut haccepted (fun _ => rfl : ∀ texts, List.map build.embed texts = _)
      build.documents
  -- Both are the result of the same assembly, with enough steps for every document.
  have hsame : assembled = items := by
    have hsteps : ∀ document ∈ build.documents, document.text.bytes.length ≤
        (build.documents.map fun document => document.text.bytes.length).sum :=
      fun document hdocument => List.single_le_sum (fun _ _ => Nat.zero_le _) _
        (List.mem_map_of_mem hdocument)
    have hboth := (hresult _ hsteps).symm.trans (hassembles _ hsteps)
    exact Option.some.inj (Except.ok.inj hboth)
  subst hsame
  let img : Image := ⟨indexImage l2Norm assembled dimensions, by omega⟩
  have ha : Accepts img := (accepts_written_iff hw rfl hsize).mpr
    fun item hitem => (hcut item hitem).1.recordable haccepted
  refine ⟨img, ⟨some img⟩, (imageOf_eq hw).symm, (MmapIndex.openImage_ok_iff img _).mpr ⟨ha, rfl⟩,
    ?_⟩
  intro K _ pq memory ops query topK searchOptions results hresults r hr
  have hindex := search_index_lt ha hresults hr
  rw [(written_layout hw rfl hsize).count_eq] at hindex
  exact written_cited haccepted hw rfl hsize ha hcut hindex

end Build

section Served
variable {ι ρ : Type} [DecidableEq ι] [DecidableEq ρ]

/-- What a reader of the path can find there. -/
def Served (builds : ι → Build) (original : Option Bytes) (completed : ι → Prop) :
    Option Bytes → Prop
  | none => True
  | some bytes => some bytes = original ∨ ∃ call, completed call ∧ (builds call).Answers bytes

variable {l2Norm : List FloatBits → FloatBits} {calls : ι → List IndexItem} {path : String}
variable {builds : ι → Build} {fs : FileSystem String}

theorem mem_of_published {sys : Service ι ρ} {actions : List (Service.Action ι ρ)} {call : ι}
    (h : .publish call ∈ trace (Service.step path) (Service.events path) sys actions) :
    (sys.run path actions).phases call = .returned := by
  have hcount := @count_publish_run _ _ _ _ path sys actions call
  by_contra hne
  rw [published_of_ne hne] at hcount
  have hpos := List.count_pos_iff.mpr h
  omega

/-- The path holds the original index, none, or one that answers for a single completed run. -/
theorem served_path (haccepted : ∀ call, AcceptedScales (builds call).entries)
    (hassembles : ∀ call, (builds call).Assembles (calls call))
    {actions : List (Service.Action ι ρ)}
    (hexclusive : Allowed (Service.step path) Service.Exclusive
      (Service.start l2Norm calls fs) actions) :
    Served builds (fs.read path)
      (fun call => ((Service.start l2Norm calls fs).run path actions).phases call = .returned)
      (((Service.start l2Norm calls fs).run path actions).fs.read path) := by
  have hconsistent := kept service_simulates.keeps (consistent_start fs) hexclusive
  have hobserve := service_simulates.run (consistent_start fs) hexclusive
  have hcurrent := congrArg Register.current hobserve
  change (Service.run path (Service.start l2Norm calls fs) actions).fs.read path = _ at hcurrent
  rw [hcurrent]
  refine (Register.held_run ⟨?_, fun _ => trivial⟩ trivial ?_).1
  · change Served _ _ _ (fs.read path)
    cases hread : fs.read path with
    | none => trivial
    | some bytes => exact .inl rfl
  · intro call hpublished
    have hreturned := mem_of_published hpublished
    obtain ⟨dimensions, hw, hfile⟩ := hconsistent.completed call hreturned
    exact .inr ⟨call, hreturned,
      Build.answers_of_image (haccepted call) (hassembles call) hw hfile⟩

theorem mem_of_taken {sys : Service ι ρ} {actions : List (Service.Action ι ρ)} {reader : ρ}
    (h : .take reader ∈ trace (Service.step path) (Service.events path) sys actions) :
    .map reader ∈ actions := by
  induction actions generalizing sys with
  | nil => cases h
  | cons action actions ih =>
      rcases List.mem_append.mp h with hfirst | hlater
      · refine List.mem_cons.mpr (.inl ?_)
        cases action with
        | map other =>
            cases List.mem_singleton.mp hfirst
            rfl
        | operate call outcome =>
            simp only [Service.events] at hfirst
            split at hfirst
            · cases List.mem_singleton.mp hfirst
            · split at hfirst
              · cases List.mem_singleton.mp hfirst
              · cases hfirst
      · exact List.mem_cons_of_mem _ (ih hlater)

/-- A mapping sees for good what the path held when it was made. -/
theorem mapped_kept {before after : List (Service.Action ι ρ)} {reader : ρ}
    (hexclusive : Allowed (Service.step path) Service.Exclusive
      (Service.start l2Norm calls fs) (before ++ .map reader :: after))
    (hlast : .map reader ∉ after) :
    (((Service.start l2Norm calls fs).run path (before ++ .map reader :: after)).observe
        path).snapshots reader =
      ((Service.start l2Norm calls fs).run path before).fs.read path := by
  obtain ⟨hbefore, -, hafter⟩ := allowed_append.mp hexclusive
  have hconsistent := kept service_simulates.keeps (consistent_start fs) hbefore
  have hmapped := consistent_map hconsistent reader
  have hrun := service_simulates.run hmapped hafter
  rw [Service.run, List.foldl_append, List.foldl_cons, hrun,
    Register.snapshot_run fun htaken => hlast (mem_of_taken htaken),
    observe_map _ _ fun call => imageOf l2Norm (calls call), Register.snapshot_take]
  rfl

end Served

/-- For all documents and accepted scales, and runs one after the other, each with any outcomes
and each possibly cut short: a reader sees for good what the path held when it mapped it. That is
the original index, none, or one that opens and answers every search with the documents of a
single run that had returned. -/
theorem sessions_cite_one_run {ι ρ : Type} [DecidableEq ι] [DecidableEq ρ]
    (l2Norm : List FloatBits → FloatBits) (calls : ι → List IndexItem) (path : String)
    (builds : ι → Build) (fs : FileSystem String)
    (haccepted : ∀ call, AcceptedScales (builds call).entries)
    (hassembles : ∀ call, (builds call).Assembles (calls call))
    (sessions : List (IndexSession ι ρ)) (hnodup : (sessions.map IndexSession.call).Nodup)
    {before after : List (Service.Action ι ρ)} {reader : ρ}
    (hschedule : sessions.flatMap IndexSession.schedule = before ++ .map reader :: after)
    (hlast : .map reader ∉ after) :
    (((Service.start l2Norm calls fs).run path (sessions.flatMap IndexSession.schedule)).observe
        path).snapshots reader =
      ((Service.start l2Norm calls fs).run path before).fs.read path ∧
    Served builds (fs.read path)
      (fun call => ((Service.start l2Norm calls fs : Service ι ρ).run path before).phases call =
        .returned)
      (((Service.start l2Norm calls fs).run path before).fs.read path) := by
  have hallowed : Allowed (Service.step path) Service.Exclusive
      (Service.start l2Norm calls fs : Service ι ρ) (sessions.flatMap IndexSession.schedule) :=
    IndexSession.allowed_sessions hnodup fun session _ => by
      simp only [Service.start, startPhase]
      split <;> rfl
  rw [hschedule] at hallowed ⊢
  exact ⟨mapped_kept hallowed hlast,
    served_path haccepted hassembles (allowed_append.mp hallowed).1⟩

section Two

def pairBuild : Build := ⟨[pairDocument], ⟨1000, 150⟩, pairScales, fun _ => [oneF]⟩

theorem pairBuild_accepted : AcceptedScales pairBuild.entries :=
  ⟨by decide, by decide, fun options hoptions => by
    simp only [Build.entries, pairBuild, chunkEntries, pairScales, List.isEmpty_cons,
      Bool.false_eq_true, if_false, List.mem_cons, List.not_mem_nil, or_false] at hoptions
    rcases hoptions with rfl | rfl <;> exact ⟨by decide, by decide⟩⟩

theorem pairBuild_assembles : pairBuild.Assembles pairItems := by
  obtain ⟨items, hassembled, -⟩ := indexItems_cut pairBuild_accepted
    (fun _ => rfl : ∀ texts, List.map pairBuild.embed texts = _) pairBuild.documents
  have hitems : items = pairItems := by
    have hsame := hassembled 2 (by decide)
    have hpair := pairItems_assembled
    exact Option.some.inj (Except.ok.inj (hsame.symm.trans hpair))
  rw [← hitems]
  exact hassembled

/-- A run, a reader, and a second run that is cut short. -/
def twoSessions : List (IndexSession Bool Unit) :=
  [⟨false, List.replicate 17 (.inl .ok) ++ [.inr ()]⟩, ⟨true, List.replicate 5 (.inl .ok)⟩]

def firstRun : List (Service.Action Bool Unit) := List.replicate 17 (.operate false .ok)

def secondRun : List (Service.Action Bool Unit) := List.replicate 5 (.operate true .ok)

def pairService : Service Bool Unit :=
  Service.start (fun _ => 0) (fun _ : Bool => pairItems) .empty

theorem service_refines_two :
    (pairService.run "index" (twoSessions.flatMap IndexSession.schedule)).observe "index" =
        Register.run (fun _ : Bool => imageOf (fun _ => 0) pairItems)
          ⟨FileSystem.empty.read "index", fun _ => none⟩
          (trace (Service.step "index") (Service.events "index") pairService
            (twoSessions.flatMap IndexSession.schedule)) ∧
      ∀ call, (trace (Service.step "index") (Service.events "index") pairService
          (twoSessions.flatMap IndexSession.schedule)).count (.publish call) =
        ((pairService.run "index" (twoSessions.flatMap IndexSession.schedule)).phases
          call).published :=
  service_refines (fun _ => 0) (fun _ => pairItems) "index" .empty _
    (IndexSession.allowed_sessions (by decide) (by decide +kernel))

theorem sessions_cite_one_run_two :
    ((pairService.run "index" (twoSessions.flatMap IndexSession.schedule)).observe
        "index").snapshots () = (pairService.run "index" firstRun).fs.read "index" ∧
      Served (fun _ => pairBuild) (FileSystem.empty.read "index")
        (fun call => (pairService.run "index" firstRun).phases call = .returned)
        ((pairService.run "index" firstRun).fs.read "index") := by
  have hschedule : twoSessions.flatMap IndexSession.schedule =
      firstRun ++ .map () :: secondRun := rfl
  exact sessions_cite_one_run (fun _ => 0) (fun _ => pairItems) "index" (fun _ => pairBuild) .empty
    (fun _ => pairBuild_accepted) (fun _ => pairBuild_assembles) twoSessions (by decide) hschedule
    (by decide)

/-- The reader has an index to see. -/
example : (pairService.run "index" firstRun).phases false = .returned := by decide +kernel

end Two

end CppRag
