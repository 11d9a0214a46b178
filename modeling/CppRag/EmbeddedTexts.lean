import CppRag.EmbedderRuns
import CppRag.Foundation.Traversal

/-!
All the texts of a call: one batch serves them, whatever was evaluated before, and it is freed
on every path. When a cleared memory shows nothing of the texts before, each embedding is the
one the text has on its own.
-/
namespace CppRag
open Interactive Traversal

namespace LlamaEmbedder
variable {σ : Type} (embedder : LlamaEmbedder σ)

/-! The calls. -/

/-- The texts fit a batch. -/
def Fit (capacity : Nat) (tokenized : List (List LlamaToken)) : Prop :=
  ∀ tokens ∈ tokenized, tokens.length ≤ capacity ∧ tokens.length < 2 ^ 31

theorem outcome_length {answer : Int32 × σ} {embedding : List FloatBits}
    (hlength : ∀ values, (embedder.normalise values).length = values.length)
    (h : embedder.outcome answer = .ok embedding) :
    embedding.length = embedder.dimensions := by
  simp only [outcome] at h
  split at h
  · cases h
  split at h
  · cases h
  · cases h
    rw [hlength, List.length_map, List.length_range]

@[simp] theorem length_normalise (values : List FloatBits) :
    (embedder.normalise values).length = values.length := by
  simp only [normalise]
  split
  · exact List.length_map _
  · rfl

/-- What the evaluations of the texts give, one after the other in one context. -/
def outcomes (context : σ) :
    List (List LlamaToken) → List (Except Exception (List FloatBits))
  | [] => []
  | tokens :: tokenized =>
      embedder.outcome (embedder.answer context tokens) ::
        outcomes (embedder.answer context tokens).2 tokenized

theorem lengths_of_outcomes {context : σ} {tokenized : List (List LlamaToken)}
    {embeddings : List (List FloatBits)}
    (h : embedder.outcomes context tokenized = embeddings.map .ok) :
    embeddings.length = tokenized.length ∧
      ∀ embedding ∈ embeddings, embedding.length = embedder.dimensions := by
  induction tokenized generalizing context embeddings with
  | nil =>
      cases List.map_eq_nil_iff.mp h.symm
      exact ⟨rfl, nofun⟩
  | cons tokens tokenized ih =>
      obtain ⟨embedding, embeddings, rfl, hfirst, hrest⟩ := List.map_eq_cons_iff.mp h.symm
      obtain ⟨hlength, hall⟩ := ih hrest.symm
      refine ⟨by rw [List.length_cons, List.length_cons, hlength], List.forall_mem_cons.mpr
        ⟨embedder.outcome_length embedder.length_normalise hfirst.symm, hall⟩⟩

/-- What is left of the loop after the texts before, by how it ends: it has gone through
`count` texts, all of them when it returns, and when it stops up to the first that fails. -/
structure Through (capacity : Nat) (context : σ) (tokenized : List (List LlamaToken))
    (count : Nat) (before : List EmbedderCall)
    (run : Except Exception (List (List FloatBits)) × EmbedderState σ) : Prop where
  count_le : count ≤ tokenized.length
  calls : run.2.calls =
    before ++ (tokenized.take count).flatMap (embedder.textCalls capacity)
  returned : ∀ embeddings, run.1 = .ok embeddings → count = tokenized.length ∧
    embedder.outcomes context tokenized = embeddings.map .ok
  stopped : ∀ error, run.1 = .error error → ∃ embeddings : List (List FloatBits),
    embedder.outcomes context (tokenized.take count) = embeddings.map .ok ++ [.error error]

section Steps
variable {embedder} {capacity count : Nat} {context : σ} {tokens : List LlamaToken}
variable {tokenized : List (List LlamaToken)} {before : List EmbedderCall}

theorem through_failed {error : Exception} {s : EmbedderState σ}
    (houtcome : embedder.outcome (embedder.answer context tokens) = .error error)
    (hcalls : s.calls = before ++ embedder.textCalls capacity tokens) :
    embedder.Through capacity context (tokens :: tokenized) 1 before (.error error, s) where
  count_le := Nat.succ_le_succ (Nat.zero_le _)
  calls := by
    rw [hcalls, List.take_succ_cons, List.take_zero, List.flatMap_cons, List.flatMap_nil,
      List.append_nil]
  returned := nofun
  stopped error' h := by
    cases h
    exact ⟨[], congrArg ([·]) houtcome⟩

theorem Through.next {embedding : List FloatBits}
    {run : Except Exception (List (List FloatBits)) × EmbedderState σ}
    (houtcome : embedder.outcome (embedder.answer context tokens) = .ok embedding)
    (h : embedder.Through capacity (embedder.answer context tokens).2 tokenized count
      (before ++ embedder.textCalls capacity tokens) run) :
    embedder.Through capacity context (tokens :: tokenized) (count + 1) before
      (run.1.map (embedding :: ·), run.2) where
  count_le := Nat.succ_le_succ h.count_le
  calls := by rw [h.calls, List.take_succ_cons, List.flatMap_cons, List.append_assoc]
  returned embeddings hok := by
    cases hrun : run.1 with
    | error error =>
        rw [hrun] at hok
        cases hok
    | ok rest =>
        rw [hrun] at hok
        cases hok
        obtain ⟨rfl, houtcomes⟩ := h.returned rest hrun
        exact ⟨rfl, by rw [outcomes, houtcome, houtcomes, List.map_cons]⟩
  stopped error herror := by
    cases hrun : run.1 with
    | ok rest =>
        rw [hrun] at herror
        cases herror
    | error error' =>
        rw [hrun] at herror
        cases herror
        obtain ⟨embeddings, houtcomes⟩ := h.stopped error hrun
        refine ⟨embedding :: embeddings, ?_⟩
        rw [List.take_succ_cons, outcomes, houtcome, houtcomes, List.map_cons, List.cons_append]

end Steps

theorem pooledAll_through {tokenized : List (List LlamaToken)} {cells : List BatchEntry}
    (hfit : Fit cells.length tokenized) (s : EmbedderState σ) :
    ∃ count, embedder.Through cells.length s.context tokenized count s.calls
      (exec (embedder.pooledAll tokenized cells) s) := by
  induction tokenized generalizing cells s with
  | nil =>
      refine ⟨0, Nat.le_refl 0, (List.append_nil _).symm, fun embeddings h => ?_, nofun⟩
      cases h
      exact ⟨rfl, rfl⟩
  | cons tokens tokenized ih =>
      have hfirst := hfit tokens (List.mem_cons_self ..)
      have hpooled := embedder.exec_pooled hfirst.1 hfirst.2 s
      cases houtcome : embedder.outcome (embedder.answer s.context tokens) with
      | error error =>
          rw [houtcome] at hpooled
          rw [pooledAll, exec_bind_error hpooled]
          exact ⟨1, through_failed houtcome rfl⟩
      | ok embedding =>
          rw [houtcome] at hpooled
          have hrest : Fit (fill 0 tokens cells).length tokenized := fun tokens hmem => by
            rw [length_fill]
            exact hfit tokens (List.mem_cons_of_mem _ hmem)
          obtain ⟨count, hthrough⟩ := ih hrest ⟨(embedder.answer s.context tokens).2,
            s.calls ++ embedder.textCalls cells.length tokens⟩
          rw [length_fill] at hthrough
          rw [pooledAll, exec_bind_ok hpooled, exec_bind_pure]
          exact ⟨count + 1, hthrough.next houtcome⟩

theorem batchCapacity_le {tokenized : List (List LlamaToken)} {bound : Nat}
    (h : ∀ tokens ∈ tokenized, tokens.length ≤ bound) : batchCapacity tokenized ≤ bound := by
  rw [batchCapacity]
  refine List.foldlRecOn (motive := fun capacity => capacity ≤ bound) tokenized _
    (Nat.zero_le _) ?_
  intro capacity hcapacity tokens hmem
  exact max_le hcapacity (h tokens hmem)

theorem le_batchCapacity {tokenized : List (List LlamaToken)} {tokens : List LlamaToken}
    (h : tokens ∈ tokenized) : tokens.length ≤ batchCapacity tokenized := by
  have hfold : ∀ (rest : List (List LlamaToken)) (capacity : Nat),
      capacity ≤ rest.foldl (fun capacity tokens => max capacity tokens.length) capacity ∧
      ∀ tokens ∈ rest, tokens.length ≤
        rest.foldl (fun capacity tokens => max capacity tokens.length) capacity := by
    intro rest
    induction rest with
    | nil => simp
    | cons first rest ih =>
        intro capacity
        obtain ⟨hle, hall⟩ := ih (max capacity first.length)
        refine ⟨le_trans (le_max_left _ _) hle, ?_⟩
        intro tokens hmem
        rcases List.mem_cons.1 hmem with rfl | hmem
        · exact le_trans (le_max_right _ _) hle
        · exact hall tokens hmem
  exact (hfold tokenized 0).2 tokens h

/-- What every tokenized text has carries over to the capacity. -/
structure Batched (tokenized : List (List LlamaToken)) : Prop where
  pos : 0 < batchCapacity tokenized
  le_batch : batchCapacity tokenized ≤ embedder.nBatch.toNat
  lt_int32 : batchCapacity tokenized < 2 ^ 31
  fit : Fit (batchCapacity tokenized) tokenized

theorem batched_of_tokensFor {texts : List Bytes} {tokenized : List (List LlamaToken)}
    (h : texts.mapM embedder.tokensFor = .ok tokenized) (hne : tokenized ≠ []) :
    embedder.Batched tokenized := by
  have hall : ∀ tokens ∈ tokenized, embedder.Embeddable tokens := fun tokens hmem => by
    obtain ⟨text, -, htext⟩ := exists_of_mapM_ok h hmem
    exact embedder.tokensFor_embeddable htext
  obtain ⟨first, hfirst⟩ := List.exists_mem_of_ne_nil tokenized hne
  have hpos := List.length_pos_iff.2 (hall first hfirst).nonempty
  have hcapacity := le_batchCapacity hfirst
  have hlt : batchCapacity tokenized ≤ 2 ^ 31 - 1 := batchCapacity_le fun tokens hmem => by
    have := (hall tokens hmem).lt_int32
    omega
  exact ⟨by omega, batchCapacity_le fun tokens hmem => (hall tokens hmem).le_batch, by omega,
    fun tokens hmem => ⟨le_batchCapacity hmem, (hall tokens hmem).lt_int32⟩⟩

theorem exec_batchInit (capacity : Nat) (s : EmbedderState σ) :
    exec (embedder.batchInit capacity) s =
      (.ok (embedder.allocate capacity),
        { s with calls := s.calls ++ [.batchInit capacity] }) := rfl

theorem exec_embedAll {texts : List Bytes} {tokenized : List (List LlamaToken)}
    (h : texts.mapM embedder.tokensFor = .ok tokenized) (hne : tokenized ≠ [])
    (s : EmbedderState σ) :
    exec (embedder.embedAll texts) s =
      ((exec (embedder.pooledAll tokenized (embedder.allocate (batchCapacity tokenized)))
          { s with calls := s.calls ++ [.batchInit (batchCapacity tokenized)] }).1,
        let left := (exec (embedder.pooledAll tokenized
          (embedder.allocate (batchCapacity tokenized)))
          { s with calls := s.calls ++ [.batchInit (batchCapacity tokenized)] }).2
        { left with calls := left.calls ++ [.batchFree] }) := by
  have htexts : exec (MonadExcept.ofExcept (texts.mapM embedder.tokensFor) :
      EmbedderM σ (List (List LlamaToken))) s = (.ok tokenized, s) := by
    rw [exec_ofExcept, h]
  have hnil : ¬tokenized.isEmpty = true := by simpa using hne
  rw [embedAll, exec_bind_ok htexts, if_neg hnil,
    castInt32_of_lt (embedder.batched_of_tokensFor h hne).lt_int32,
    exec_bind_ok (embedder.exec_batchInit _ s), exec_withCleanup (exec_record _)]

def batchCalls (tokenized : List (List LlamaToken)) (count : Nat) : List EmbedderCall :=
  [.batchInit (batchCapacity tokenized)] ++
    (tokenized.take count).flatMap (embedder.textCalls (batchCapacity tokenized)) ++
    [.batchFree]

/-- One batch, allocated for the longest text and freed at the end, serves the first `count`
texts. When the call returns these are all the texts, and it returns what their evaluations gave;
when it stops, all of these but the last were evaluated with success, and the error is that of
the last. -/
structure OneBatch (context : σ) (tokenized : List (List LlamaToken)) (count : Nat)
    (added : List EmbedderCall)
    (result : Except Exception (List (List FloatBits))) : Prop where
  batched : embedder.Batched tokenized
  count_le : count ≤ tokenized.length
  calls : added = embedder.batchCalls tokenized count
  returned : ∀ embeddings, result = .ok embeddings → count = tokenized.length ∧
    embedder.outcomes context tokenized = embeddings.map .ok
  lengths : ∀ embeddings, result = .ok embeddings → embeddings.length = tokenized.length ∧
    ∀ embedding ∈ embeddings, embedding.length = embedder.dimensions
  stopped : ∀ error, result = .error error → ∃ embeddings : List (List FloatBits),
    embedder.outcomes context (tokenized.take count) = embeddings.map .ok ++ [.error error]

theorem mem_writes {position count capacity : Nat} {call : EmbedderCall}
    (h : call ∈ writes position count capacity) :
    ∃ i, call = .write i capacity ∧ i < position + count := by
  obtain ⟨i, hi, rfl⟩ := List.mem_map.1 h
  rw [List.mem_range'_1] at hi
  exact ⟨i, rfl, hi.2⟩

/-- Every write is inside the arrays of the batch. -/
theorem OneBatch.inside {context : σ} {tokenized : List (List LlamaToken)} {count : Nat}
    {added : List EmbedderCall} {result : Except Exception (List (List FloatBits))}
    (h : embedder.OneBatch context tokenized count added result) {position capacity : Nat}
    (hmem : .write position capacity ∈ added) :
    capacity = batchCapacity tokenized ∧ position < capacity := by
  rw [h.calls] at hmem
  simp only [batchCalls, List.cons_append, List.nil_append, List.mem_cons, List.mem_append,
    List.mem_flatMap, List.not_mem_nil, reduceCtorEq, or_false, false_or] at hmem
  obtain ⟨tokens, htokens, hcall⟩ := hmem
  have hfits := (h.batched.fit tokens (List.mem_of_mem_take htokens)).1
  simp only [textCalls, List.mem_append, List.mem_singleton, reduceCtorEq, or_false] at hcall
  rcases hcall with hcall | hcall
  · obtain ⟨i, hi, hlt⟩ := mem_writes hcall
    cases hi
    exact ⟨rfl, by omega⟩
  · simp only [clearCalls] at hcall
    split at hcall <;> simp at hcall

theorem embedAll_oneBatch {texts : List Bytes} {tokenized : List (List LlamaToken)}
    (h : texts.mapM embedder.tokensFor = .ok tokenized) (hne : tokenized ≠ [])
    (s : EmbedderState σ) :
    ∃ count, embedder.OneBatch s.context tokenized count
        (embedder.batchCalls tokenized count) (exec (embedder.embedAll texts) s).1 ∧
      (exec (embedder.embedAll texts) s).2.calls =
        s.calls ++ embedder.batchCalls tokenized count := by
  have hbatched := embedder.batched_of_tokensFor h hne
  have hfit : Fit (embedder.allocate (batchCapacity tokenized)).length tokenized := by
    rw [embedder.length_allocate]
    exact hbatched.fit
  obtain ⟨count, hthrough⟩ := embedder.pooledAll_through hfit
    { s with calls := s.calls ++ [.batchInit (batchCapacity tokenized)] }
  refine ⟨count, ?_, ?_⟩
  · rw [embedder.exec_embedAll h hne]
    exact ⟨hbatched, hthrough.count_le, rfl, hthrough.returned,
      fun _ h => embedder.lengths_of_outcomes (hthrough.returned _ h).2, hthrough.stopped⟩
  · rw [embedder.exec_embedAll h hne]
    simp only [hthrough.calls, embedder.length_allocate, batchCalls, List.append_assoc]

/-- For all texts, contexts and answers: nothing is called when there is no text or one cannot be
tokenized; otherwise one batch serves the texts in order, up to the first failure. -/
theorem embedAll_calls (texts : List Bytes) (s : EmbedderState σ) :
    (texts = [] ∧ exec (embedder.embedAll texts) s = (.ok [], s)) ∨
    (∃ error, texts.mapM embedder.tokensFor = .error error ∧
      exec (embedder.embedAll texts) s = (.error error, s)) ∨
    ∃ tokenized count added, texts.mapM embedder.tokensFor = .ok tokenized ∧
      (exec (embedder.embedAll texts) s).2.calls = s.calls ++ added ∧
      embedder.OneBatch s.context tokenized count added (exec (embedder.embedAll texts) s).1 ∧
      ∀ position capacity, .write position capacity ∈ added →
        capacity = batchCapacity tokenized ∧ position < capacity := by
  cases htexts : texts.mapM embedder.tokensFor with
  | error error =>
      have hrun : exec (MonadExcept.ofExcept (texts.mapM embedder.tokensFor) :
          EmbedderM σ (List (List LlamaToken))) s = (.error error, s) := by
        rw [exec_ofExcept, htexts]
      exact .inr (.inl ⟨error, rfl, by rw [embedAll, exec_bind_error hrun]⟩)
  | ok tokenized =>
      by_cases hne : tokenized = []
      · subst hne
        have hnil := mapM_ok_iff.1 htexts
        rw [List.forall₂_nil_right_iff] at hnil
        subst hnil
        exact .inl ⟨rfl, rfl⟩
      · obtain ⟨count, hone, hcalls⟩ := embedder.embedAll_oneBatch htexts hne s
        exact .inr (.inr ⟨tokenized, count, _, rfl, hcalls, hone, fun _ _ => hone.inside⟩)

/-- A call that returns has an embedding for every text, all of the same length. -/
theorem embedAll_lengths {texts : List Bytes} {s : EmbedderState σ}
    {embeddings : List (List FloatBits)}
    (h : (exec (embedder.embedAll texts) s).1 = .ok embeddings) :
    embeddings.length = texts.length ∧
      ∀ embedding ∈ embeddings, embedding.length = embedder.dimensions := by
  cases htexts : texts.mapM embedder.tokensFor with
  | error error =>
      have hrun : exec (MonadExcept.ofExcept (texts.mapM embedder.tokensFor) :
          EmbedderM σ (List (List LlamaToken))) s = (.error error, s) := by
        rw [exec_ofExcept, htexts]
      rw [embedAll, exec_bind_error hrun] at h
      cases h
  | ok tokenized =>
      have hlength := (mapM_ok_iff.1 htexts).length_eq
      by_cases hne : tokenized = []
      · subst hne
        have hnil := mapM_ok_iff.1 htexts
        rw [List.forall₂_nil_right_iff] at hnil
        subst hnil
        cases h
        exact ⟨rfl, nofun⟩
      · obtain ⟨count, hone, -⟩ := embedder.embedAll_oneBatch htexts hne s
        obtain ⟨hcount, hall⟩ := hone.lengths embeddings h
        exact ⟨hcount.trans hlength.symm, hall⟩

/-! The embeddings. -/

/-- What a cleared memory shows of the evaluations before: nothing. -/
structure Isolated : Prop where
  result : ∀ context context' batch,
    (embedder.run (embedder.prepared context) batch).1 =
      (embedder.run (embedder.prepared context') batch).1
  embeddings : ∀ context context' batch,
    embedder.embeddingsSeq (embedder.run (embedder.prepared context) batch).2 =
      embedder.embeddingsSeq (embedder.run (embedder.prepared context') batch).2

theorem Isolated.outcome {embedder : LlamaEmbedder σ} (h : embedder.Isolated)
    (context context' : σ) (tokens : List LlamaToken) :
    embedder.outcome (embedder.answer context tokens) =
      embedder.outcome (embedder.answer context' tokens) := by
  rw [LlamaEmbedder.outcome, LlamaEmbedder.outcome]
  simp only [answer, h.result context context', h.embeddings context context']
  rfl

theorem Isolated.pooledAll {embedder : LlamaEmbedder σ} (h : embedder.Isolated)
    {tokenized : List (List LlamaToken)} {cells : List BatchEntry}
    (hfit : Fit cells.length tokenized) (s : EmbedderState σ) (context : σ) :
    (exec (embedder.pooledAll tokenized cells) s).1 =
      tokenized.mapM fun tokens => embedder.outcome (embedder.answer context tokens) := by
  induction tokenized generalizing cells s with
  | nil => rfl
  | cons tokens tokenized ih =>
      have hfirst := hfit tokens (List.mem_cons_self ..)
      have hpooled := embedder.exec_pooled hfirst.1 hfirst.2 s
      rw [h.outcome s.context context] at hpooled
      rw [List.mapM_cons]
      cases houtcome : embedder.outcome (embedder.answer context tokens) with
      | error error =>
          rw [houtcome] at hpooled
          rw [LlamaEmbedder.pooledAll, exec_bind_error hpooled]
          rfl
      | ok embedding =>
          rw [houtcome] at hpooled
          have hrest : Fit (fill 0 tokens cells).length tokenized := fun tokens hmem => by
            rw [length_fill]
            exact hfit tokens (List.mem_cons_of_mem _ hmem)
          have hrun := ih hrest ⟨(embedder.answer s.context tokens).2,
            s.calls ++ embedder.textCalls cells.length tokens⟩
          rw [LlamaEmbedder.pooledAll, exec_bind_ok hpooled, ← hrun]
          rcases hlast : exec (embedder.pooledAll tokenized (fill 0 tokens cells))
            ⟨(embedder.answer s.context tokens).2,
              s.calls ++ embedder.textCalls cells.length tokens⟩ with ⟨result, s'⟩
          cases result with
          | error error =>
              rw [exec_bind_error hlast]
              rfl
          | ok embeddings =>
              rw [exec_bind_ok hlast]
              rfl

theorem exec_embed {text : Bytes} {tokens : List LlamaToken}
    (h : embedder.tokensFor text = .ok tokens) (s : EmbedderState σ) :
    exec (embedder.embed text) s =
      (embedder.outcome (embedder.answer s.context tokens),
        ⟨(embedder.answer s.context tokens).2,
          s.calls ++ [.batchInit tokens.length] ++
            embedder.textCalls tokens.length tokens ++ [.batchFree]⟩) := by
  have htokens : exec (MonadExcept.ofExcept (embedder.tokensFor text) :
      EmbedderM σ (List LlamaToken)) s = (.ok tokens, s) := by rw [exec_ofExcept, h]
  have hlt := (embedder.tokensFor_embeddable h).lt_int32
  have hcells : tokens.length ≤ (embedder.allocate tokens.length).length := by
    rw [embedder.length_allocate]
  have hpooled := embedder.exec_pooled hcells hlt
    { s with calls := s.calls ++ [.batchInit tokens.length] }
  rw [embed, exec_bind_ok htokens, castInt32_of_lt hlt,
    exec_bind_ok (embedder.exec_batchInit _ s), exec_withCleanup (exec_record _)]
  rw [embedder.length_allocate] at hpooled
  cases houtcome : embedder.outcome (embedder.answer s.context tokens) with
  | error error =>
      rw [houtcome] at hpooled
      rw [exec_bind_error hpooled]
  | ok embedding =>
      rw [houtcome] at hpooled
      rw [exec_bind_ok hpooled]
      rfl

theorem exec_embed_error {text : Bytes} {error : Exception}
    (h : embedder.tokensFor text = .error error) (s : EmbedderState σ) :
    exec (embedder.embed text) s = (.error error, s) := by
  have htokens : exec (MonadExcept.ofExcept (embedder.tokensFor text) :
      EmbedderM σ (List LlamaToken)) s = (.error error, s) := by rw [exec_ofExcept, h]
  rw [embed, exec_bind_error htokens]

/-- A text on its own: one call for one text makes the same calls. -/
theorem embedAll_singleton (text : Bytes) (s : EmbedderState σ) :
    exec (embedder.embedAll [text]) s =
      ((exec (embedder.embed text) s).1.map ([·]), (exec (embedder.embed text) s).2) := by
  cases htokens : embedder.tokensFor text with
  | error error =>
      have hrun : exec (MonadExcept.ofExcept ([text].mapM embedder.tokensFor) :
          EmbedderM σ (List (List LlamaToken))) s = (.error error, s) := by
        rw [exec_ofExcept, List.mapM_cons, htokens]
        rfl
      rw [embedder.exec_embed_error htokens, embedAll, exec_bind_error hrun]
      rfl
  | ok tokens =>
      have htexts : [text].mapM embedder.tokensFor = .ok [tokens] :=
        mapM_ok_iff.2 (.cons htokens .nil)
      have hcapacity : batchCapacity [tokens] = tokens.length := Nat.zero_max _
      have hcells : tokens.length ≤ (embedder.allocate tokens.length).length := by
        rw [embedder.length_allocate]
      have hpooled := embedder.exec_pooled hcells
        (embedder.tokensFor_embeddable htokens).lt_int32
        { s with calls := s.calls ++ [.batchInit tokens.length] }
      rw [embedder.length_allocate] at hpooled
      rw [embedder.exec_embed htokens, embedder.exec_embedAll htexts (by simp), hcapacity]
      cases houtcome : embedder.outcome (embedder.answer s.context tokens) with
      | error error =>
          rw [houtcome] at hpooled
          simp only [pooledAll, exec_bind_error hpooled]
          rfl
      | ok embedding =>
          rw [houtcome] at hpooled
          simp only [pooledAll, exec_bind_ok hpooled]
          rfl

end LlamaEmbedder

/-! An encoder whose memory keeps what it has decoded, and whose pooled embedding counts the
entries there, until it is cleared. -/

def sampleEmbedder : LlamaEmbedder (List BatchEntry) where
  llamaTokenize text capacity :=
    if capacity = 0 then (-Int32.ofNat text.length, [])
    else (Int32.ofNat text.length, text.map fun byte => Int32.ofNat byte.toNat)
  nBatch := 4
  dimensions := 1
  hasEncoder := false
  hasDecoder := true
  hasMemory := true
  clearMemory _ := []
  encode memory _ := (-1, memory)
  decode memory batch := (0, memory ++ batch)
  embeddingsSeq memory := some fun _ => UInt32.ofNat memory.length
  allocate capacity := List.replicate capacity ⟨0, 0, [], false⟩
  length_allocate _ := List.length_replicate
  l2Norm _ := 0
  positive _ := false
  div value _ := value

end CppRag
