import SparseEngine.DataParallel.WorkerQueue

/-!
# Request identities of the data-parallel front end

A worker reports its own sequence ids, and `step` looks each of them up in
`_global_ids`.  `_owners` and `_global_ids` are inverse in every run.  That
every sequence a worker can still report is in them takes more: a chain that
was replaced after a prefix mismatch shares its global id with its successor,
and the front end releases that id when the tombstone of the replaced chain
expires.  The identities are kept in every run in which no reply makes the
front end forget a chain whose global id belongs to an active request.

A step counts as gone what the workers have finished before the front end has
heard of it, so `Maps` takes the live requests as a parameter, and `Halfway`
has those of the reports not yet read.
-/

open Routine

namespace DPAttentionEngine

variable {Fingerprint Digest Env : Type} {α : Type}
  {dp next last : DPAttentionEngine Fingerprint Digest Env} {live : ℕ → ℕ → Prop}

/-- The two tables of identities are inverse, and global ids are not reused. -/
structure Tables (dp : DPAttentionEngine Fingerprint Digest Env) : Prop where
  inverse : ∀ seqId identity,
    dp.owners.get? seqId = some identity ↔ dp.globalIds.get? identity = some seqId
  fresh : ∀ {seqId identity}, dp.owners.get? seqId = some identity → seqId < dp.nextId

/-- A worker's sequence has the global id that its admission returned, and the
front end knows the request as active. -/
def Mapped (dp : DPAttentionEngine Fingerprint Digest Env) (rank localId : ℕ) : Prop :=
  ∃ seqId, dp.globalIds.get? (rank, localId) = some seqId ∧
    dp.issued.get? (rank, localId) = some seqId ∧ seqId ∈ dp.active rank

/-- The tables are in order and map every live sequence. -/
structure Maps (live : ℕ → ℕ → Prop) (dp : DPAttentionEngine Fingerprint Digest Env) : Prop where
  tables : Tables dp
  mapped : ∀ {rank localId}, live rank localId → dp.Mapped rank localId

theorem Maps.mono {fewer : ℕ → ℕ → Prop} (h : Maps live dp)
    (himp : ∀ {rank localId}, fewer rank localId → live rank localId) : Maps fewer dp :=
  ⟨h.tables, fun hlive => h.mapped (himp hlive)⟩

variable {seqId rank localId other : ℕ} {identity : ℕ × ℕ}
  {bad : DPAttentionEngine Fingerprint Digest Env → Prop} {chainIds : List String}
  {chain : ChainRoutingSnapshot} {method : LLMEngine.Method Fingerprint Digest Env α}
  {worker after : DPWorker Fingerprint Digest Env}

/-- The sequence of a worker that owns a global id. -/
theorem Maps.eq_of_owner (h : Maps live dp) (howner : dp.owners.get? seqId = some (rank, localId))
    (hlive : live rank localId) :
    dp.issued.get? (rank, localId) = some seqId ∧ seqId ∈ dp.active rank := by
  obtain ⟨mapped, hmapped, hissued, hactive⟩ := h.mapped hlive
  have heq : mapped = seqId :=
    Option.some.inj (hmapped.symm.trans ((h.tables.inverse _ _).mp howner))
  exact ⟨heq ▸ hissued, heq ▸ hactive⟩

/-! ## Releasing an identity -/

theorem Tables.release (h : Tables dp) (howner : dp.owners.get? seqId = some identity) :
    Tables { dp with
      owners := dp.owners.erase seqId
      globalIds := dp.globalIds.erase identity } := by
  refine ⟨fun other otherIdentity => ?_, fun {other otherIdentity} hother => ?_⟩
  · show (dp.owners.erase seqId).get? other = some otherIdentity ↔
      (dp.globalIds.erase identity).get? otherIdentity = some other
    rw [Dict.get?_erase, Dict.get?_erase]
    by_cases hseq : other = seqId
    · rw [if_pos hseq, hseq]
      constructor
      · exact fun hnone => by cases hnone
      · intro hget
        split at hget
        · cases hget
        · next hne =>
            exact absurd (Option.some.inj (((h.inverse _ _).mpr hget).symm.trans howner)) hne
    · rw [if_neg hseq]
      by_cases hidentity : otherIdentity = identity
      · rw [if_pos hidentity, hidentity]
        constructor
        · intro hget
          have hglobal := (h.inverse _ _).mp hget
          exact absurd (Option.some.inj (hglobal.symm.trans ((h.inverse _ _).mp howner))) hseq
        · exact fun hnone => by cases hnone
      · rw [if_neg hidentity]
        exact h.inverse other otherIdentity
  · have hget : (dp.owners.erase seqId).get? other = some otherIdentity := hother
    rw [Dict.get?_erase] at hget
    split at hget
    · cases hget
    · exact h.fresh hget

/-- Releasing an id that no live sequence has. -/
theorem releaseRequestIdentity_wpe (h : Maps live dp)
    (hdead : ∀ rank localId, dp.owners.get? seqId = some (rank, localId) → ¬ live rank localId)
    {post : Unit → DPAttentionEngine Fingerprint Digest Env → Prop}
    (hpost : ∀ next, Maps live next →
      (∀ other identity, next.owners.get? other = some identity → dp.owners.get? other = some identity) →
      next = { dp with owners := next.owners, globalIds := next.globalIds } → post () next) :
    wpe (releaseRequestIdentity seqId) post bad dp := by
  unfold releaseRequestIdentity
  rw [wpe_write]
  cases howner : dp.owners.get? seqId with
  | none => exact hpost dp h (fun _ _ hget => hget) rfl
  | some identity =>
      dsimp only
      by_cases hchain : seqId ∈ dp.chainSeqIds
      · rw [if_pos hchain]
        exact hpost dp h (fun _ _ hget => hget) rfl
      · rw [if_neg hchain]
        refine hpost _ ⟨h.tables.release howner, fun {rank localId} hlive => ?_⟩ ?_ rfl
        · obtain ⟨mapped, hmapped, hissued, hactive⟩ := h.mapped hlive
          refine ⟨mapped, ?_, hissued, hactive⟩
          show (dp.globalIds.erase identity).get? (rank, localId) = some mapped
          rw [Dict.get?_erase, if_neg ?_]
          · exact hmapped
          · rintro rfl
            exact hdead rank localId howner hlive
        · intro other otherIdentity hget
          have herased : (dp.owners.erase seqId).get? other = some otherIdentity := hget
          rw [Dict.get?_erase] at herased
          split at herased
          · cases herased
          · exact herased

/-! ## Receiving a reply -/

/-- What forgetting chains may change: identities and chains go, nothing
else. -/
structure Forgets (dp next : DPAttentionEngine Fingerprint Digest Env) : Prop where
  owners : ∀ {seqId identity}, next.owners.get? seqId = some identity →
    dp.owners.get? seqId = some identity
  chainOwners : ∀ {chainId rank}, next.chainOwners.get? chainId = some rank →
    dp.chainOwners.get? chainId = some rank
  chainSequences : ∀ {chainId seqId}, next.chainSequences.get? chainId = some seqId →
    dp.chainSequences.get? chainId = some seqId
  rest : (next.workers, next.closed, next.nextId, next.active, next.issued) =
    (dp.workers, dp.closed, dp.nextId, dp.active, dp.issued)

namespace Forgets

theorem refl (dp : DPAttentionEngine Fingerprint Digest Env) : Forgets dp dp :=
  ⟨fun hget => hget, fun hget => hget, fun hget => hget, rfl⟩

theorem trans (hfirst : Forgets dp next) (hsecond : Forgets next last) : Forgets dp last :=
  ⟨fun hget => hfirst.owners (hsecond.owners hget), fun hget => hfirst.chainOwners (hsecond.chainOwners hget),
    fun hget => hfirst.chainSequences (hsecond.chainSequences hget),
    hsecond.rest.trans hfirst.rest⟩

theorem workers_eq (h : Forgets dp next) : next.workers = dp.workers :=
  congrArg Prod.fst h.rest

theorem active_eq (h : Forgets dp next) : next.active = dp.active :=
  congrArg (fun rest => rest.2.2.2.1) h.rest

theorem issued_eq (h : Forgets dp next) : next.issued = dp.issued :=
  congrArg (fun rest => rest.2.2.2.2) h.rest

end Forgets

/-- The chains do not share a global id with a live sequence. -/
def Unshared (live : ℕ → ℕ → Prop) (dp : DPAttentionEngine Fingerprint Digest Env)
    (chainIds : List String) : Prop :=
  ∀ chainId ∈ chainIds, ∀ seqId, dp.chainSequences.get? chainId = some seqId →
    ∀ rank localId, dp.owners.get? seqId = some (rank, localId) → ¬ live rank localId

theorem Unshared.forgets (h : Unshared live dp chainIds) (hforgets : Forgets dp next) :
    Unshared live next chainIds :=
  fun chainId hmem seqId hseq rank localId howner =>
    h chainId hmem seqId (hforgets.chainSequences hseq) rank localId (hforgets.owners howner)

/-- Forgetting chains that share no id with a live sequence. -/
theorem forgetChains_wpe (h : Maps live dp) (hunshared : Unshared live dp chainIds) :
    wpe (forgetChains chainIds) (fun _ next => Maps live next ∧ Forgets dp next) (fun _ => False) dp := by
  induction chainIds generalizing dp with
  | nil => exact ⟨h, Forgets.refl dp⟩
  | cons chainId rest ih =>
      unfold forgetChains
      rw [wpe_get, wpe_set, wpe_bind]
      -- the chain is forgotten, and no other:
      have herased : Forgets dp { dp with
          chainOwners := dp.chainOwners.erase chainId
          chainSequences := dp.chainSequences.erase chainId } := by
        have herase : ∀ {V : Type} {table : Dict String V} {other : String} {value : V},
            (table.erase chainId).get? other = some value → table.get? other = some value := by
          intro V table other value hget
          rw [Dict.get?_erase] at hget
          split at hget
          · exact nomatch hget
          · exact hget
        exact ⟨fun hget => hget, fun hget => herase hget, fun hget => herase hget, rfl⟩
      have hrest : Unshared live dp rest :=
        fun other hmem => hunshared other (List.mem_cons_of_mem _ hmem)
      cases hseq : dp.chainSequences.get? chainId with
      | none =>
          rw [wpe_pure]
          have hmaps : Maps live { dp with
              chainOwners := dp.chainOwners.erase chainId
              chainSequences := dp.chainSequences.erase chainId } :=
            ⟨⟨h.tables.inverse, h.tables.fresh⟩, h.mapped⟩
          refine wpe_mono (ih hmaps (hrest.forgets herased)) fun _ next hnext => ?_
          exact ⟨hnext.1, herased.trans hnext.2⟩
      | some seqId =>
          dsimp only
          rw [wpe_set]
          have hmaps : Maps live { dp with
              chainOwners := dp.chainOwners.erase chainId
              chainSequences := dp.chainSequences.erase chainId
              chainSeqIds := dp.chainSeqIds.erase seqId } :=
            ⟨⟨h.tables.inverse, h.tables.fresh⟩, h.mapped⟩
          -- its last request is forgotten with it, as no worker holds it any more
          refine releaseRequestIdentity_wpe hmaps
            (hunshared chainId List.mem_cons_self seqId hseq) fun next hnext howners heq => ?_
          have hforgets : Forgets dp next := by
            refine ⟨fun {other identity} hget => howners other identity hget, ?_, ?_, ?_⟩
            · rw [heq]
              exact herased.chainOwners
            · rw [heq]
              exact herased.chainSequences
            · rw [heq]
          refine wpe_mono (ih hnext (hrest.forgets hforgets)) fun _ last hlast => ?_
          exact ⟨hlast.1, hforgets.trans hlast.2⟩

/-- The reply does not make the front end forget a chain whose global id belongs
to an active request. -/
def KeepsActive (dp : DPAttentionEngine Fingerprint Digest Env) (rank : ℕ)
    (chain : ChainRoutingSnapshot) : Prop :=
  ∀ chainId ∈ dp.expiredChains rank chain, ∀ seqId,
    dp.chainSequences.get? chainId = some seqId → ∀ other, seqId ∉ dp.active other

theorem KeepsActive.unshared (h : Maps live dp) (hkeeps : dp.KeepsActive rank chain) :
    Unshared live dp (dp.expiredChains rank chain) :=
  fun chainId hmem seqId hseq owner _ howner hlive =>
    hkeeps chainId hmem seqId hseq owner (h.eq_of_owner howner hlive).2

theorem receiveSnapshot_wpe {chain : Option ChainRoutingSnapshot} (h : Maps live dp)
    (hkeeps : ∀ snapshot ∈ chain, dp.KeepsActive rank snapshot) :
    wpe (receiveSnapshot rank chain) (fun _ next => Maps live next ∧ Forgets dp next) (fun _ => False) dp := by
  cases chain with
  | none => exact ⟨h, Forgets.refl dp⟩
  | some snapshot =>
      unfold receiveSnapshot
      rw [wpe_get]
      exact forgetChains_wpe h ((hkeeps snapshot rfl).unshared h)

/-! ## A call of one worker -/

variable (config : EngineConfig Fingerprint Digest Env)

theorem chainCacheRoutingSnapshot_returns (engine : LLMEngine Fingerprint Digest Env) :
    ∃ chain after, LLMEngine.chainCacheRoutingSnapshot config engine = (.ok chain, after) := by
  unfold LLMEngine.chainCacheRoutingSnapshot
  split
  · unfold LLMEngine.onRuntime ChainRuntime.onIndex ChainCacheIndex.routingSnapshot
    simp only [bind_apply, read_apply]
    cases engine.runtime.index.routingSnapshotCache with
    | none => exact ⟨_, _, rfl⟩
    | some snapshot => exact ⟨_, _, rfl⟩
  · exact ⟨_, _, rfl⟩

/-- A worker replies as its engine does; the snapshot leaves the queue alone. -/
theorem serve_wpe (post : α → List ℕ → Prop) (bad : List ℕ → Prop)
    (hmethod : wpe method (fun a engine => post a engine.queue) (fun engine => bad engine.queue) worker.engine) :
    (∀ a chain, (serve config method worker).1 = .ok (a, chain) →
      post a (serve config method worker).2.engine.queue) ∧
    ∀ error, (serve config method worker).1 = .error error → bad (serve config method worker).2.engine.queue := by
  rw [wpe_def] at hmethod
  unfold serve
  rcases hrun : method worker.engine with ⟨error | a, engine⟩
  · rw [hrun] at hmethod
    dsimp only
    exact ⟨fun _ _ hok => (nomatch hok), fun _ _ => hmethod⟩
  · rw [hrun] at hmethod
    obtain ⟨chain, after, hsnapshot⟩ := chainCacheRoutingSnapshot_returns config engine
    have hqueue : after.queue = engine.queue := by
      have hpreserved := LLMEngine.preserves_chainCacheRoutingSnapshot config engine
      rw [hsnapshot] at hpreserved
      exact hpreserved
    dsimp only
    rw [hsnapshot]
    refine ⟨fun result snapshot hok => ?_, fun _ herror => (nomatch herror)⟩
    obtain ⟨rfl, -⟩ := Prod.mk.inj (Except.ok.inj hok)
    show post a after.queue
    rw [hqueue]
    exact hmethod

/-- The snapshot that a worker sends in reply to a call. -/
def replyTo (dp : DPAttentionEngine Fingerprint Digest Env) (rank : ℕ)
    (method : LLMEngine.Method Fingerprint Digest Env α) : Option ChainRoutingSnapshot :=
  if dp.closed then none
  else match dp.workers[rank]? with
    | none => none
    | some worker =>
        match (serve config method worker).1 with
        | .ok (_, chain) => chain
        | .error _ => none

/-- The front end after a worker served a call. -/
def served (dp : DPAttentionEngine Fingerprint Digest Env) (rank : ℕ)
    (worker : DPWorker Fingerprint Digest Env) : DPAttentionEngine Fingerprint Digest Env :=
  { dp with workers := dp.workers.set rank worker }

/-- A call of a worker keeps the identities of the sequences that were live
before it. -/
theorem callWorker_wpe (h : Maps live dp)
    (hkeeps : ∀ snapshot ∈ dp.replyTo config rank method, dp.KeepsActive rank snapshot)
    {post : α → DPAttentionEngine Fingerprint Digest Env → Prop} (hbad : bad dp)
    (hraised : ∀ worker, dp.workers[rank]? = some worker → ∀ error,
      (serve config method worker).1 = .error error → bad (dp.served rank (serve config method worker).2))
    (hpost : ∀ worker, dp.workers[rank]? = some worker → ∀ result chain,
      (serve config method worker).1 = .ok (result, chain) → ∀ next, Maps live next →
        Forgets (dp.served rank (serve config method worker).2) next → post result next) :
    wpe (callWorker config rank method) post bad dp := by
  unfold callWorker
  rw [wpe_get]
  refine wpe_guarded hbad fun hopen => ?_
  cases hworker : dp.workers[rank]? with
  | none => exact hbad
  | some worker =>
      dsimp only
      rw [wpe_set, wpe_bind]
      rcases hreply : (serve config method worker).1 with error | ⟨result, chain⟩
      · exact hraised worker hworker error hreply
      · have hsent : dp.replyTo config rank method = chain := by
          unfold replyTo
          rw [if_neg hopen, hworker]
          dsimp only
          rw [hreply]
        rw [hsent] at hkeeps
        have hserved : Maps live (dp.served rank (serve config method worker).2) :=
          ⟨⟨h.tables.inverse, h.tables.fresh⟩, h.mapped⟩
        show wpe (receiveSnapshot rank chain >>= fun _ => pure result) post bad
          (dp.served rank (serve config method worker).2)
        refine wpe_then_imp (receiveSnapshot_wpe hserved hkeeps) (fun _ next hnext => ?_) fun _ hfalse => hfalse.elim
        exact hpost worker hworker result chain hreply next hnext.1 hnext.2

/-! ## Queued sequences -/

/-- A worker can still report the sequence. -/
def Queued (dp : DPAttentionEngine Fingerprint Digest Env) (rank localId : ℕ) : Prop :=
  ∃ worker, dp.workers[rank]? = some worker ∧ localId ∈ worker.engine.queue

/-- Every sequence that a worker can still report is mapped. -/
def Identified (dp : DPAttentionEngine Fingerprint Digest Env) : Prop := Maps dp.Queued dp

theorem queued_served (h : (dp.served rank worker).Queued other localId) :
    (other = rank ∧ localId ∈ worker.engine.queue) ∨ (other ≠ rank ∧ dp.Queued other localId) := by
  obtain ⟨found, hfound, hmem⟩ := h
  have hget : (dp.workers.set rank worker)[other]? = some found := hfound
  rw [List.getElem?_set] at hget
  by_cases heq : rank = other
  · rw [if_pos heq] at hget
    split at hget
    · exact .inl ⟨heq.symm, by rwa [Option.some.inj hget]⟩
    · exact nomatch hget
  · rw [if_neg heq] at hget
    exact .inr ⟨fun h => heq h.symm, found, hget, hmem⟩

theorem queued_of_workers_eq (h : next.workers = dp.workers) (hqueued : next.Queued rank localId) :
    dp.Queued rank localId := by
  unfold Queued at hqueued ⊢
  rwa [h] at hqueued

/-- A call after which a worker's queue is no longer than before. -/
theorem queued_of_subset (hworker : dp.workers[rank]? = some worker)
    (hsubset : ∀ localId ∈ after.engine.queue, localId ∈ worker.engine.queue)
    (h : (dp.served rank after).Queued other localId) : dp.Queued other localId := by
  rcases queued_served h with ⟨rfl, hmem⟩ | ⟨-, hother⟩
  · exact ⟨worker, hworker, hsubset localId hmem⟩
  · exact hother

theorem Maps.served (h : Maps live dp) (rank : ℕ) (worker : DPWorker Fingerprint Digest Env) :
    Maps live (dp.served rank worker) :=
  ⟨⟨h.tables.inverse, h.tables.fresh⟩, h.mapped⟩

/-! ## The end of a request -/

/-- No live sequence owns the global id. -/
def Dead (live : ℕ → ℕ → Prop) (dp : DPAttentionEngine Fingerprint Digest Env)
    (seqId : ℕ) : Prop :=
  ∀ rank localId, dp.owners.get? seqId = some (rank, localId) → ¬ live rank localId

theorem Maps.discardActive (h : Maps live dp) (hdead : Dead live dp seqId) (rank : ℕ) :
    Maps live { dp with
      active := Function.update dp.active rank ((dp.active rank).erase seqId) } := by
  refine ⟨⟨h.tables.inverse, h.tables.fresh⟩, fun {other localId} hlive => ?_⟩
  obtain ⟨mapped, hmapped, hissued, hactive⟩ := h.mapped hlive
  have hne : mapped ≠ seqId := by
    rintro rfl
    exact hdead other localId ((h.tables.inverse _ _).mpr hmapped) hlive
  refine ⟨mapped, hmapped, hissued, ?_⟩
  show mapped ∈ Function.update dp.active rank ((dp.active rank).erase seqId) other
  by_cases heq : other = rank
  · rw [heq, Function.update_self]
    exact Finset.mem_erase.mpr ⟨hne, heq ▸ hactive⟩
  · rw [Function.update_of_ne heq]
    exact hactive

/-- The three writes at the end of an aborted or discarded request. -/
theorem endRequest_wpe (h : Maps live dp) (hdead : Dead live dp seqId) (rank : ℕ) :
    wpe (do
        discardActive rank seqId
        discardChainSeqId seqId
        releaseRequestIdentity seqId)
      (fun _ next => Maps live next ∧ next.workers = dp.workers) bad dp := by
  rw [wpe_bind]
  unfold discardActive
  rw [wpe_write, wpe_bind]
  unfold discardChainSeqId
  rw [wpe_write]
  have hdiscarded := h.discardActive hdead rank
  have hmaps : Maps live { dp with
      active := Function.update dp.active rank ((dp.active rank).erase seqId)
      chainSeqIds := dp.chainSeqIds.erase seqId } :=
    ⟨⟨h.tables.inverse, h.tables.fresh⟩, hdiscarded.mapped⟩
  refine releaseRequestIdentity_wpe hmaps hdead fun next hnext _ heq => ⟨hnext, ?_⟩
  rw [heq]

/-- The live sequences without one of them. -/
def Without (live : ℕ → ℕ → Prop) (rank localId : ℕ) (other otherId : ℕ) : Prop :=
  live other otherId ∧ (other, otherId) ≠ (rank, localId)

theorem queued_without (hworker : dp.workers[rank]? = some worker)
    (hqueue : after.engine.queue = LLMEngine.without worker.engine.queue localId) {otherId : ℕ}
    (h : (dp.served rank after).Queued other otherId) :
    Without dp.Queued rank localId other otherId := by
  rcases queued_served h with ⟨rfl, hmem⟩ | ⟨hne, hother⟩
  · rw [hqueue, LLMEngine.mem_without] at hmem
    exact ⟨⟨worker, hworker, hmem.1⟩, fun heq => hmem.2 (congrArg Prod.snd heq)⟩
  · exact ⟨hother, fun heq => hne (congrArg Prod.fst heq)⟩

/-- The owner of a global id is dead once its sequence is taken out. -/
theorem Dead.of_without (hforgets : Forgets dp next) (howner : dp.owners.get? seqId = some (rank, localId)) :
    Dead (Without live rank localId) next seqId := by
  intro other otherId hother hlive
  have hsame := Option.some.inj ((hforgets.owners hother).symm.trans howner)
  exact hlive.2 hsame

theorem abortRequest_identified (h : Identified dp) (seqId : ℕ)
    (hkeeps : ∀ rank localId, dp.owners.get? seqId = some (rank, localId) →
      ∀ snapshot ∈ dp.replyTo config rank (LLMEngine.abortRequest config localId), dp.KeepsActive rank snapshot) :
    wpe (abortRequest config seqId) (fun _ => Identified) Identified dp := by
  unfold abortRequest
  rw [wpe_get]
  cases howner : dp.owners.get? seqId with
  | none => exact h
  | some identity =>
      obtain ⟨rank, localId⟩ := identity
      dsimp only
      rw [wpe_bind]
      have hserve := fun worker : DPWorker Fingerprint Digest Env => serve_wpe config
        (fun _ queue => queue = LLMEngine.without worker.engine.queue localId)
        (fun queue => queue = worker.engine.queue)
        (LLMEngine.abortRequest_queue config localId worker.engine)
      refine callWorker_wpe config h (hkeeps rank localId howner) h ?_ ?_
      · intro worker hworker error herror
        have hqueue := (hserve worker).2 error herror
        exact (h.served rank _).mono (queued_of_subset hworker fun _ hmem => hqueue ▸ hmem)
      · intro worker hworker _ chain hok next hnext hforgets
        have hqueue := (hserve worker).1 _ _ hok
        have hfewer : Maps (Without dp.Queued rank localId) next := hnext.mono fun hlive => hlive.1
        refine wpe_imp (endRequest_wpe hfewer (Dead.of_without hforgets howner) rank)
          (fun _ last hlast => hlast.1.mono fun hqueued => ?_) fun _ hbad => hbad
        exact queued_without hworker hqueue (queued_of_workers_eq (hlast.2.trans hforgets.workers_eq) hqueued)

theorem discardChain_identified (h : Identified dp) (chainId : String) (expectedSeqId : ℕ)
    (hkeeps : ∀ rank localId, dp.owners.get? expectedSeqId = some (rank, localId) →
      dp.chainOwners.get? chainId = some rank →
      ∀ snapshot ∈ dp.replyTo config rank (LLMEngine.discardChain config chainId localId),
        dp.KeepsActive rank snapshot) :
    wpe (discardChain config chainId expectedSeqId) (fun _ => Identified) Identified dp := by
  unfold discardChain
  rw [wpe_get]
  cases howner : dp.owners.get? expectedSeqId with
  | none =>
      dsimp only
      rw [wpe_guard]
      exact ⟨fun _ => h, fun _ => h⟩
  | some identity =>
      obtain ⟨rank, localId⟩ := identity
      dsimp only
      refine wpe_guarded h fun hrank => ?_
      rw [wpe_bind]
      have hserve := fun worker : DPWorker Fingerprint Digest Env => serve_wpe config
        (fun (result : Bool) queue => queue =
          if result then LLMEngine.without worker.engine.queue localId else worker.engine.queue)
        (fun queue => queue = worker.engine.queue ∨ queue = LLMEngine.without worker.engine.queue localId)
        (LLMEngine.discardChain_queue config chainId localId worker.engine)
      refine callWorker_wpe config h (hkeeps rank localId howner (not_not.mp hrank)) h ?_ ?_
      · intro worker hworker error herror
        refine (h.served rank _).mono (queued_of_subset hworker fun localId hmem => ?_)
        -- a worker that raises may have dropped the request, but adds none
        rcases (hserve worker).2 error herror with hqueue | hqueue
        · exact hqueue ▸ hmem
        · rw [hqueue, LLMEngine.mem_without] at hmem
          exact hmem.1
      · intro worker hworker result chain hok next hnext hforgets
        have hqueue := (hserve worker).1 _ _ hok
        rw [wpe_bind, wpe_whenDo]
        cases result with
        | false =>
            refine ⟨fun hfalse => (nomatch hfalse), fun _ => ?_⟩
            rw [wpe_pure]
            rw [if_neg (by decide)] at hqueue
            refine hnext.mono fun hqueued => ?_
            exact queued_of_subset hworker (fun _ hmem => hqueue ▸ hmem)
              (queued_of_workers_eq hforgets.workers_eq hqueued)
        | true =>
            refine ⟨fun _ => ?_, fun hfalse => absurd rfl hfalse⟩
            have hfewer : Maps (Without dp.Queued rank localId) next :=
              hnext.mono fun hlive => hlive.1
            refine wpe_imp (endRequest_wpe hfewer (Dead.of_without hforgets howner) rank)
              (fun _ last hlast => hlast.1.mono fun hqueued => ?_) fun _ hbad => hbad
            exact queued_without hworker hqueue (queued_of_workers_eq (hlast.2.trans hforgets.workers_eq) hqueued)

/-- `invalidate_chain` of a worker leaves its queue alone. -/
theorem invalidateWorker_identified (h : Identified dp) (chainId : String) (rank : ℕ)
    (hkeeps : ∀ snapshot ∈ dp.replyTo config rank (LLMEngine.invalidateChain config chainId),
      dp.KeepsActive rank snapshot) :
    wpe (callWorker config rank (LLMEngine.invalidateChain config chainId)) (fun _ => Identified) Identified dp := by
  have hserve := fun worker : DPWorker Fingerprint Digest Env => serve_wpe config
    (fun _ queue => queue = worker.engine.queue) (fun queue => queue = worker.engine.queue)
    (LLMEngine.wpe_queue (LLMEngine.preserves_invalidateChain config chainId) rfl fun _ _ hnext => hnext)
  refine callWorker_wpe config h hkeeps h ?_ ?_
  · intro worker hworker error herror
    have hqueue := (hserve worker).2 error herror
    exact (h.served rank _).mono (queued_of_subset hworker fun _ hmem => hqueue ▸ hmem)
  · intro worker hworker _ chain hok next hnext hforgets
    have hqueue := (hserve worker).1 _ _ hok
    refine hnext.mono fun hqueued => ?_
    exact queued_of_subset hworker (fun _ hmem => hqueue ▸ hmem) (queued_of_workers_eq hforgets.workers_eq hqueued)

/-! ## Admission -/

/-- A new identity keeps the tables in order. -/
theorem Tables.enter (h : Tables dp) (hnew : dp.globalIds.get? identity = none) :
    Tables { dp with
      nextId := dp.nextId + 1
      globalIds := dp.globalIds.set identity dp.nextId
      owners := dp.owners.set dp.nextId identity } := by
  refine ⟨fun seqId other => ?_, fun {seqId other} hget => ?_⟩
  · show (dp.owners.set dp.nextId identity).get? seqId = some other ↔
      (dp.globalIds.set identity dp.nextId).get? other = some seqId
    rw [Dict.get?_set, Dict.get?_set]
    by_cases hseq : seqId = dp.nextId
    · rw [if_pos hseq, hseq]
      by_cases hother : other = identity
      · simp [hother]
      · rw [if_neg hother]
        constructor
        · intro hsome
          exact absurd (Option.some.inj hsome).symm hother
        · intro hglobal
          exact absurd (h.fresh ((h.inverse _ _).mpr hglobal)) (lt_irrefl _)
    · rw [if_neg hseq]
      by_cases hother : other = identity
      · rw [if_pos hother, hother]
        constructor
        · intro howner
          exact nomatch ((h.inverse _ _).mp howner).symm.trans hnew
        · intro hsome
          exact absurd (Option.some.inj hsome).symm hseq
      · rw [if_neg hother]
        exact h.inverse seqId other
  · have hset : (dp.owners.set dp.nextId identity).get? seqId = some other := hget
    rw [Dict.get?_set] at hset
    show seqId < dp.nextId + 1
    split at hset
    · omega
    · have := h.fresh hset
      omega

theorem Maps.enter (h : Maps live dp) (hnew : dp.globalIds.get? identity = none) :
    Maps live { dp with
      nextId := dp.nextId + 1
      globalIds := dp.globalIds.set identity dp.nextId
      owners := dp.owners.set dp.nextId identity } := by
  refine ⟨h.tables.enter hnew, fun {rank localId} hlive => ?_⟩
  obtain ⟨seqId, hmapped, hissued, hactive⟩ := h.mapped hlive
  refine ⟨seqId, ?_, hissued, hactive⟩
  show (dp.globalIds.set identity dp.nextId).get? (rank, localId) = some seqId
  rw [Dict.get?_set, if_neg]
  · exact hmapped
  · rintro rfl
    exact nomatch hmapped.symm.trans hnew

/-- The live sequences with one more. -/
def With (live : ℕ → ℕ → Prop) (rank localId : ℕ) (other otherId : ℕ) : Prop :=
  live other otherId ∨ (other, otherId) = (rank, localId)

/-- An admission of a mapped sequence makes it live. -/
theorem Maps.activate (h : Maps live dp) (hglobal : dp.globalIds.get? (rank, localId) = some seqId) :
    Maps (With live rank localId) { dp with
      active := Function.update dp.active rank (insert seqId (dp.active rank))
      issued := dp.issued.set (rank, localId) seqId } := by
  refine ⟨⟨h.tables.inverse, h.tables.fresh⟩, fun {other otherId} hlive => ?_⟩
  have hactive : ∀ {owner mapped}, mapped ∈ dp.active owner → mapped ∈
      Function.update dp.active rank (insert seqId (dp.active rank)) owner := by
    intro owner mapped hmem
    by_cases heq : owner = rank
    · rw [heq, Function.update_self]
      exact Finset.mem_insert_of_mem (heq ▸ hmem)
    · rwa [Function.update_of_ne heq]
  by_cases hsame : (other, otherId) = (rank, localId)
  · obtain ⟨rfl, rfl⟩ := Prod.mk.inj hsame
    refine ⟨seqId, hglobal, Dict.get?_set_self _ _ _, ?_⟩
    show seqId ∈ Function.update dp.active other (insert seqId (dp.active other)) other
    rw [Function.update_self]
    exact Finset.mem_insert_self _ _
  · obtain ⟨mapped, hmapped, hissued, hmem⟩ := h.mapped (hlive.resolve_right hsame)
    refine ⟨mapped, hmapped, ?_, hactive hmem⟩
    exact (Dict.get?_set_of_ne _ _ hsame).trans hissued

/-- Registering an admission maps its sequence to the id it returns. -/
theorem registerAdmission_wpe (h : Maps live dp) (rank : ℕ) (admission : RequestAdmission) :
    wpe (registerAdmission rank admission)
      (fun _ next => Maps (With live rank admission.seqId) next ∧ next.workers = dp.workers)
      (fun _ => False) dp := by
  have hchain : ∀ {current : DPAttentionEngine Fingerprint Digest Env} (seqId : ℕ) (chainId : String),
      Maps (With live rank admission.seqId) current → current.workers = dp.workers →
      wpe (whenDo (chainId ≠ "") (write fun dp =>
          { dp with
            chainOwners := dp.chainOwners.set chainId rank
            chainSeqIds := insert seqId dp.chainSeqIds
            chainSequences := dp.chainSequences.set chainId seqId }))
        (fun _ next => Maps (With live rank admission.seqId) next ∧ next.workers = dp.workers)
        (fun _ => False) current := by
    intro current seqId chainId hmaps hworkers
    rw [wpe_whenDo]
    refine ⟨fun _ => ?_, fun _ => ⟨hmaps, hworkers⟩⟩
    rw [wpe_write]
    exact ⟨⟨⟨hmaps.tables.inverse, hmaps.tables.fresh⟩, hmaps.mapped⟩, hworkers⟩
  unfold registerAdmission
  rw [wpe_get]
  dsimp only
  rw [wpe_bind, wpe_whenDo]
  cases hglobal : dp.globalIds.get? (rank, admission.seqId) with
  | some seqId =>
      refine ⟨fun hnew => absurd (Dict.mem_keys_of_get? hglobal) hnew, fun _ => ?_⟩
      rw [wpe_set, wpe_bind]
      rcases admission.chainId with _ | chainId
      · exact ⟨h.activate hglobal, rfl⟩
      · exact hchain seqId chainId (h.activate hglobal) rfl
  | none =>
      refine ⟨fun _ => ?_, fun hold => absurd (Dict.not_mem_keys_iff.mpr hglobal) hold⟩
      rw [wpe_write, wpe_set, wpe_bind]
      have hmaps := (h.enter hglobal).activate (Dict.get?_set_self _ _ _)
      rcases admission.chainId with _ | chainId
      · exact ⟨hmaps, rfl⟩
      · exact hchain dp.nextId chainId hmaps rfl

variable [DecidableEq Fingerprint] [DecidableEq Digest]

theorem admitRequest_identified (h : Identified dp) (request : AdmissionRequest)
    (radixMode : Bool) (matchedTokens : ℕ → ℕ) (freshId recreatedId : String) (addError : Option PyError)
    (hkeeps : ∀ snapshot ∈ dp.replyTo config (dp.chooseRank request.chainId radixMode matchedTokens)
        (LLMEngine.admitRequest config request freshId recreatedId addError),
      dp.KeepsActive (dp.chooseRank request.chainId radixMode matchedTokens) snapshot) :
    wpe (admitRequest config request radixMode matchedTokens freshId recreatedId addError)
      (fun _ => Identified) Identified dp := by
  unfold admitRequest
  rw [wpe_get]
  dsimp only
  generalize dp.chooseRank request.chainId radixMode matchedTokens = rank at hkeeps ⊢
  rw [wpe_bind]
  have hserve := fun worker : DPWorker Fingerprint Digest Env => serve_wpe config
    (fun (admission : RequestAdmission) queue =>
      queue = worker.engine.queue ++ [admission.seqId])
    (fun queue => queue = worker.engine.queue)
    (LLMEngine.admitRequest_queue config request freshId recreatedId addError worker.engine)
  refine callWorker_wpe config h hkeeps h ?_ ?_
  · intro worker hworker error herror
    have hqueue := (hserve worker).2 error herror
    exact (h.served rank _).mono (queued_of_subset hworker fun _ hmem => hqueue ▸ hmem)
  · intro worker hworker admission chain hok next hnext hforgets
    have hqueue := (hserve worker).1 _ _ hok
    refine wpe_imp (registerAdmission_wpe hnext rank admission) (fun _ last hlast => ?_) fun _ hfalse => hfalse.elim
    refine hlast.1.mono fun hqueued => ?_
    have hserved := queued_of_workers_eq (hlast.2.trans hforgets.workers_eq) hqueued
    rcases queued_served hserved with ⟨rfl, hmem⟩ | ⟨-, hother⟩
    · rw [hqueue, List.mem_append, List.mem_singleton] at hmem
      rcases hmem with hold | hnew
      · exact .inl ⟨worker, hworker, hold⟩
      · exact .inr (by rw [hnew])
    · exact .inl hother

/-! ## A step of all workers -/

omit [DecidableEq Fingerprint] [DecidableEq Digest]

theorem KeepsActive.forgets (h : dp.KeepsActive rank chain) (hforgets : Forgets dp next) :
    next.KeepsActive rank chain := by
  intro chainId hmem seqId hseq other
  rw [hforgets.active_eq]
  refine h chainId ?_ seqId (hforgets.chainSequences hseq) other
  unfold expiredChains at hmem ⊢
  obtain ⟨-, htest⟩ := List.mem_filter.mp hmem
  have htest' : next.chainOwners.get? chainId = some rank ∧ chainId ∉ knownChainIds chain := by
    simpa using htest
  have howner := hforgets.chainOwners htest'.1
  refine List.mem_filter.mpr ⟨Dict.mem_keys_of_get? howner, ?_⟩
  simpa using ⟨howner, htest'.2⟩

/-- Receiving the replies of a step: every one is processed, or one of them was
an error. -/
theorem receiveReplies_wpe (replies : List (Reply LLMEngine.StepReport)) (order : List ℕ) (h : Maps live dp)
    (hkeeps : ∀ rank report chain, replies[rank]? = some (.ok (report, some chain)) → dp.KeepsActive rank chain) :
    wpe (receiveReplies replies order)
      (fun _ next => (Maps live next ∧ Forgets dp next) ∧
        ∀ rank ∈ order, ∃ result, replies[rank]? = some (.ok result))
      (fun next => (Maps live next ∧ next.workers = dp.workers) ∧
        ∃ rank ∈ order, ∀ result, replies[rank]? ≠ some (.ok result)) dp := by
  induction order generalizing dp with
  | nil => exact ⟨⟨h, Forgets.refl dp⟩, fun _ hmem => nomatch hmem⟩
  | cons rank rest ih =>
      unfold receiveReplies
      cases hreply : replies[rank]? with
      | none =>
          refine ⟨⟨h, rfl⟩, rank, List.mem_cons_self, fun result heq => ?_⟩
          exact nomatch hreply.symm.trans heq
      | some reply =>
          rcases reply with error | ⟨report, chain⟩
          · dsimp only
            rw [wpe_set]
            refine ⟨⟨⟨⟨h.tables.inverse, h.tables.fresh⟩, h.mapped⟩, rfl⟩, rank,
              List.mem_cons_self, fun result heq => ?_⟩
            exact nomatch hreply.symm.trans heq
          · dsimp only
            refine wpe_then_imp (receiveSnapshot_wpe h fun snapshot hsnapshot => ?_)
              (fun _ next hnext => ?_) fun _ hfalse => hfalse.elim
            · obtain rfl := Option.mem_def.mp hsnapshot
              exact hkeeps rank report snapshot hreply
            · refine wpe_imp (ih hnext.1 fun other report chain hother =>
                  (hkeeps other report chain hother).forgets hnext.2)
                (fun _ last hlast => ⟨⟨hlast.1.1, hnext.2.trans hlast.1.2⟩, ?_⟩) fun last hlast => ?_
              · intro other hmem
                rcases List.mem_cons.mp hmem with rfl | hrest
                · exact ⟨_, hreply⟩
                · exact hlast.2 other hrest
              obtain ⟨⟨hmaps, hworkers⟩, other, hmem, hother⟩ := hlast
              exact ⟨⟨hmaps, hworkers.trans hnext.2.workers_eq⟩, other, List.mem_cons_of_mem _ hmem, hother⟩

/-- Each row has the global id that the admission of its sequence returned. -/
def Attributed (issued : Dict (ℕ × ℕ) ℕ) (rank : ℕ)
    (rows translated : List (ℕ × List ℤ)) : Prop :=
  List.Forall₂ (fun row out => issued.get? (rank, row.1) = some out.1 ∧ out.2 = row.2)
    rows translated

/-- The rows of mapped sequences are translated. -/
theorem translate_mapped {rows : List (ℕ × List ℤ)} (hrows : ∀ row ∈ rows, dp.Mapped rank row.1) :
    ∃ translated, dp.translate rank rows = .ok translated ∧ Attributed dp.issued rank rows translated ∧
      ∀ out ∈ translated, ∃ row ∈ rows, dp.globalIds.get? (rank, row.1) = some out.1 := by
  induction rows with
  | nil => exact ⟨[], rfl, .nil, fun out hout => nomatch hout⟩
  | cons row rest ih =>
      obtain ⟨localId, payload⟩ := row
      obtain ⟨seqId, hglobal, hissued, -⟩ := hrows _ List.mem_cons_self
      obtain ⟨translated, hrest, hattributed, howned⟩ :=
        ih fun other hother => hrows other (List.mem_cons_of_mem _ hother)
      refine ⟨(seqId, payload) :: translated, ?_, .cons ⟨hissued, rfl⟩ hattributed, ?_⟩
      · unfold translate
        dsimp only at hglobal
        rw [hglobal, hrest]
        rfl
      · intro out hout
        rcases List.mem_cons.mp hout with rfl | hout
        · exact ⟨_, List.mem_cons_self, hglobal⟩
        · obtain ⟨other, hother, hget⟩ := howned out hout
          exact ⟨other, List.mem_cons_of_mem _ hother, hget⟩

/-- Retiring requests that are not live. -/
theorem retireOutputs_wpe (rank : ℕ) (outputs : List (ℕ × List ℤ)) (h : Maps live dp)
    (hdead : ∀ out ∈ outputs, Dead live dp out.1) :
    wpe (retireOutputs rank outputs)
      (fun _ next => Maps live next ∧ next.workers = dp.workers ∧ next.issued = dp.issued)
      (fun _ => False) dp := by
  induction outputs generalizing dp with
  | nil => exact ⟨h, rfl, rfl⟩
  | cons out rest ih =>
      obtain ⟨seqId, payload⟩ := out
      unfold retireOutputs
      rw [wpe_bind]
      unfold discardActive
      rw [wpe_write, wpe_bind]
      have hhead : Dead live dp seqId := hdead _ List.mem_cons_self
      refine releaseRequestIdentity_wpe (h.discardActive hhead rank) hhead fun next hnext howners heq => ?_
      have hrest : ∀ out ∈ rest, Dead live next out.1 :=
        fun other hother owner localId howner =>
          hdead other (List.mem_cons_of_mem _ hother) owner localId (howners _ _ howner)
      refine wpe_mono (ih hnext hrest) fun _ last hlast => ⟨hlast.1, ?_, ?_⟩
      · rw [hlast.2.1, heq]
      · rw [hlast.2.2, heq]

/-- The translated report of a worker. -/
structure AttributedReport (issued : Dict (ℕ × ℕ) ℕ) (rank : ℕ)
    (report translated : LLMEngine.StepReport) : Prop where
  outputs : Attributed issued rank report.outputs translated.outputs
  tokenOutputs : Attributed issued rank report.tokenOutputs translated.tokenOutputs
  promptCacheHits : Attributed issued rank report.promptCacheHits translated.promptCacheHits
  logprobOutputs : Attributed issued rank report.logprobOutputs translated.logprobOutputs

/-- The live sequences without the finished ones of a worker. -/
def Unfinished (live : ℕ → ℕ → Prop) (rank : ℕ) (finished : List ℕ)
    (other localId : ℕ) : Prop :=
  live other localId ∧ (other = rank → localId ∉ finished)

/-- The report of a worker on live sequences is translated, and its outputs are
retired. -/
theorem translateReport_wpe (h : Maps live dp) {report : LLMEngine.StepReport} {queue : List ℕ}
    (habout : report.About queue) (hqueue : ∀ localId ∈ queue, live rank localId) :
    wpe (translateReport rank report)
      (fun translated next =>
        Maps (Unfinished live rank (report.outputs.map Prod.fst)) next ∧
        next.workers = dp.workers ∧ next.issued = dp.issued ∧
        AttributedReport dp.issued rank report translated)
      (fun _ => False) dp := by
  have hmapped : ∀ {rows : List (ℕ × List ℤ)}, (∀ row ∈ rows, row.1 ∈ queue) → ∀ row ∈ rows, dp.Mapped rank row.1 :=
    fun hrows row hrow => h.mapped (hqueue _ (hrows row hrow))
  obtain ⟨outputs, houtputs, hout, howned⟩ := translate_mapped (hmapped habout.outputs)
  obtain ⟨tokens, htokens, htoken, -⟩ := translate_mapped (hmapped habout.tokenOutputs)
  obtain ⟨hits, hhits, hhit, -⟩ := translate_mapped (hmapped habout.promptCacheHits)
  obtain ⟨logprobs, hlogprobs, hlogprob, -⟩ := translate_mapped (hmapped habout.logprobOutputs)
  unfold translateReport
  rw [wpe_get, houtputs, htokens, hhits, hlogprobs]
  show wpe (retireOutputs rank outputs >>= fun _ => pure _) _ _ dp
  rw [wpe_bind]
  have hfewer : Maps (Unfinished live rank (report.outputs.map Prod.fst)) dp :=
    h.mono fun hlive => hlive.1
  refine wpe_mono (retireOutputs_wpe rank outputs hfewer fun out hmem owner localId howner => ?_)
    fun _ next hnext => ⟨hnext.1, hnext.2.1, hnext.2.2, ⟨hout, htoken, hhit, hlogprob⟩⟩
  -- the owner of a finished output is the sequence that was reported
  obtain ⟨row, hrow, hglobal⟩ := howned out hmem
  have hsame := (h.tables.inverse _ _).mpr hglobal
  obtain ⟨rfl, rfl⟩ := Prod.mk.inj (Option.some.inj (howner.symm.trans hsame))
  exact fun hlive => hlive.2 rfl (List.mem_map_of_mem hrow)

/-- The translated reports of all workers from a rank on. -/
def Attributes (issued : Dict (ℕ × ℕ) ℕ) : ℕ → List (Reply LLMEngine.StepReport) →
    List LLMEngine.StepReport → Prop
  | _, [], [] => True
  | rank, .ok (report, _) :: rest, translated :: others =>
      AttributedReport issued rank report translated ∧ Attributes issued (rank + 1) rest others
  | _, _, _ => False

/-- What a worker's reply to `step` is about: sequences of its queue before the
step, and those it reports as finished are not queued any more. -/
def Reports (live queued : ℕ → ℕ → Prop) (rank : ℕ) (reply : Reply LLMEngine.StepReport) : Prop :=
  ∃ report chain queue, reply = .ok (report, chain) ∧ report.About queue ∧
    (∀ localId ∈ queue, live rank localId) ∧
    ∀ localId, queued rank localId → localId ∉ report.outputs.map Prod.fst

/-- The sequences that have to be mapped while the reports from a rank on are
translated. -/
def Halfway (queued live : ℕ → ℕ → Prop) (rank other localId : ℕ) : Prop :=
  if other < rank then queued other localId else live other localId

/-- Translating the reports from a rank on: the sequences that are still queued
stay mapped. -/
theorem translateReports_wpe {queued : ℕ → ℕ → Prop} (hle : ∀ {rank localId},
    queued rank localId → live rank localId) (replies : List (Reply LLMEngine.StepReport))
    (rank : ℕ) (h : Maps (Halfway queued live rank) dp)
    (hreports : ∀ index reply, replies[index]? = some reply → Reports live queued (rank + index) reply) :
    wpe (translateReports rank replies)
      (fun results next => Maps queued next ∧ next.workers = dp.workers ∧
        Attributes dp.issued rank replies results) (fun _ => False) dp := by
  induction replies generalizing dp rank with
  | nil =>
      refine ⟨h.mono fun {other localId} hqueued => ?_, rfl, trivial⟩
      unfold Halfway
      split
      · exact hqueued
      · exact hle hqueued
  | cons reply rest ih =>
      obtain ⟨report, chain, queue, rfl, habout, hqueue, hdone⟩ := hreports 0 reply rfl
      unfold translateReports
      rw [wpe_bind]
      have hlive : ∀ localId ∈ queue, Halfway queued live rank rank localId := by
        intro localId hmem
        unfold Halfway
        rw [if_neg (lt_irrefl rank)]
        exact hqueue localId hmem
      refine wpe_mono (translateReport_wpe h habout hlive) fun translated next hnext => ?_
      obtain ⟨hmaps, hworkers, hissued, hattributed⟩ := hnext
      -- the worker's sequences are now those that are still queued
      have hmaps' : Maps (Halfway queued live (rank + 1)) next := by
        refine hmaps.mono fun {other localId} hother => ?_
        unfold Halfway at hother
        unfold Unfinished Halfway
        rcases lt_trichotomy other rank with hbelow | hrank | habove
        · rw [if_pos (by omega)] at hother
          rw [if_pos hbelow]
          exact ⟨hother, fun heq => absurd heq (by omega)⟩
        · rw [if_pos (by omega)] at hother
          rw [if_neg (by omega)]
          exact ⟨hle hother, fun _ => hdone localId (hrank ▸ hother)⟩
        · rw [if_neg (by omega)] at hother
          rw [if_neg (by omega)]
          exact ⟨hother, fun heq => absurd heq (by omega)⟩
      have hrest : ∀ index reply, rest[index]? = some reply → Reports live queued (rank + 1 + index) reply := by
        intro index other hother
        rw [Nat.add_assoc, Nat.add_comm 1]
        exact hreports (index + 1) other hother
      refine wpe_then (ih (rank + 1) hmaps' hrest) fun results last hlast => ?_
      rw [hissued] at hlast
      exact ⟨hlast.1, hlast.2.1.trans hworkers, hattributed, hlast.2.2⟩

theorem mem_arrivalOrder {count : ℕ} {arrival : List ℕ} (hmem : rank ∈ arrivalOrder count arrival) :
    rank < count := by
  unfold arrivalOrder at hmem
  rcases List.mem_append.mp hmem with hfirst | hrest
  · simpa using (List.mem_filter.mp hfirst).2
  · exact List.mem_range.mp (List.mem_filter.mp hrest).1

theorem arrivalOrder_mem {count : ℕ} (arrival : List ℕ) (hrank : rank < count) :
    rank ∈ arrivalOrder count arrival := by
  unfold arrivalOrder
  by_cases harrived : rank ∈ arrival
  · exact List.mem_append_left _ (List.mem_filter.mpr ⟨List.mem_dedup.mpr harrived, by simpa using hrank⟩)
  · exact List.mem_append_right _ (List.mem_filter.mpr ⟨List.mem_range.mpr hrank, by simpa using harrived⟩)

variable [DecidableEq Digest]

/-- The reply of a worker to `step`. -/
theorem stepReplies_get (choices : ℕ → LLMEngine.StepChoice Env) (hworker : dp.workers[rank]? = some worker) :
    (dp.stepReplies config choices)[rank]? =
      some (serve config (LLMEngine.stepSync config (choices rank)) worker) := by
  unfold stepReplies
  rw [List.getElem?_mapIdx, hworker]
  rfl

/-- A worker's queue after a step, and what its reply is about. -/
theorem serve_stepSync (choice : LLMEngine.StepChoice Env) (worker : DPWorker Fingerprint Digest Env) :
    (∀ report chain, (serve config (LLMEngine.stepSync config choice) worker).1 =
        .ok (report, chain) → report.About worker.engine.queue ∧
        ∀ localId ∈ (serve config (LLMEngine.stepSync config choice) worker).2.engine.queue,
          localId ∉ report.outputs.map Prod.fst) ∧
    (serve config (LLMEngine.stepSync config choice) worker).2.engine.queue ⊆
      worker.engine.queue := by
  have hserve := serve_wpe config
    (fun (report : LLMEngine.StepReport) queue => report.About worker.engine.queue ∧
      ∀ localId ∈ queue, localId ∈ worker.engine.queue ∧ localId ∉ report.outputs.map Prod.fst)
    (fun queue => queue ⊆ worker.engine.queue)
    (LLMEngine.stepSync_queue config choice worker.engine)
  refine ⟨fun report chain hok => ?_, ?_⟩
  · obtain ⟨habout, hqueue⟩ := hserve.1 report chain hok
    exact ⟨habout, fun localId hmem => (hqueue localId hmem).2⟩
  · rcases hreply : (serve config (LLMEngine.stepSync config choice) worker).1 with
      error | ⟨report, chain⟩
    · exact hserve.2 error hreply
    · exact fun localId hmem => ((hserve.1 report chain hreply).2 localId hmem).1

/-- **A step of all workers.** It raises only if the front end is closed or a
worker failed; otherwise every row is translated to the id that the admission of
its sequence returned. -/
theorem step_wpe (h : Identified dp) (choices : ℕ → LLMEngine.StepChoice Env) (arrival : List ℕ)
    (hkeeps : dp.closed = false → ∀ rank report chain,
      ((dp.stepReplies config choices).map Prod.fst)[rank]? = some (.ok (report, some chain)) →
        dp.KeepsActive rank chain) :
    wpe (step config choices arrival)
      (fun results next => Identified next ∧
        Attributes dp.issued 0 ((dp.stepReplies config choices).map Prod.fst) results)
      (fun next => Identified next ∧ (dp.closed = true ∨
        ∃ error, .error error ∈ (dp.stepReplies config choices).map Prod.fst)) dp := by
  unfold step
  rw [wpe_get, wpe_guard]
  refine ⟨fun hclosed => ⟨h, .inl hclosed⟩, fun hopen => ?_⟩
  dsimp only
  rw [wpe_set]
  set stepped : DPAttentionEngine Fingerprint Digest Env :=
    { dp with workers := (dp.stepReplies config choices).map Prod.snd } with hstepped
  have hlength : (dp.stepReplies config choices).length = dp.workers.length := by
    unfold stepReplies
    rw [List.length_mapIdx]
  have hget : ∀ {rank worker}, stepped.workers[rank]? = some worker → ∃ before, dp.workers[rank]? = some before ∧
      worker = (serve config (LLMEngine.stepSync config (choices rank)) before).2 := by
    intro rank worker hworker
    have hmap : ((dp.stepReplies config choices).map Prod.snd)[rank]? = some worker := hworker
    rw [List.getElem?_map] at hmap
    obtain ⟨pair, hpair, rfl⟩ := Option.map_eq_some_iff.mp hmap
    unfold stepReplies at hpair
    rw [List.getElem?_mapIdx] at hpair
    obtain ⟨before, hbefore, rfl⟩ := Option.map_eq_some_iff.mp hpair
    exact ⟨before, hbefore, rfl⟩
  -- a step only takes requests out of the queues:
  have hle : ∀ {rank localId}, stepped.Queued rank localId → dp.Queued rank localId := by
    rintro rank localId ⟨worker, hworker, hmem⟩
    obtain ⟨before, hbefore, rfl⟩ := hget hworker
    exact ⟨before, hbefore, (serve_stepSync config (choices rank) before).2 hmem⟩
  have hmaps : Maps dp.Queued stepped := ⟨⟨h.tables.inverse, h.tables.fresh⟩, h.mapped⟩
  refine wpe_then_imp (receiveReplies_wpe _ _ hmaps (hkeeps (by simpa using hopen))) (fun _ next hnext => ?_)
    fun next hnext => ⟨hnext.1.1.mono fun hqueued =>
      hle (queued_of_workers_eq hnext.1.2 hqueued), .inr ?_⟩
  · obtain ⟨⟨hkept, hforgets⟩, hreplied⟩ := hnext
    have hstart : Maps (Halfway stepped.Queued dp.Queued 0) next := by
      refine hkept.mono fun {rank localId} hlive => ?_
      unfold Halfway at hlive
      rwa [if_neg (Nat.not_lt_zero rank)] at hlive
    -- each worker reports on requests that it had queued:
    have hreports : ∀ index reply,
        ((dp.stepReplies config choices).map Prod.fst)[index]? = some reply →
          Reports dp.Queued stepped.Queued (0 + index) reply := by
      intro index reply hreply
      rw [Nat.zero_add]
      have hbound : index < (dp.stepReplies config choices).length := by
        have hlt := (List.getElem?_eq_some_iff.mp hreply).1
        rwa [List.length_map] at hlt
      obtain ⟨before, hbefore⟩ : ∃ before, dp.workers[index]? = some before :=
        ⟨_, List.getElem?_eq_getElem (hlength ▸ hbound)⟩
      obtain ⟨⟨report, chain⟩, hok⟩ := hreplied index (arrivalOrder_mem arrival hbound)
      obtain rfl := Option.some.inj (hreply.symm.trans hok)
      rw [List.getElem?_map, stepReplies_get config choices hbefore] at hok
      obtain ⟨habout, hdone⟩ :=
        (serve_stepSync config (choices index) before).1 report chain (Option.some.inj hok)
      refine ⟨report, chain, before.engine.queue, rfl, habout,
        fun localId hmem => ⟨before, hbefore, hmem⟩, fun localId hqueued => ?_⟩
      obtain ⟨worker, hworker, hmem⟩ := hqueued
      obtain ⟨other, hother, rfl⟩ := hget hworker
      obtain rfl := Option.some.inj (hbefore.symm.trans hother)
      exact hdone localId hmem
    -- so their global ids are known when the reports are translated:
    refine wpe_imp (translateReports_wpe hle _ 0 hstart hreports) (fun results last hlast => ?_)
      fun _ hfalse => hfalse.elim
    obtain ⟨hmapped, hworkers, hattributed⟩ := hlast
    rw [hforgets.issued_eq] at hattributed
    exact ⟨hmapped.mono (queued_of_workers_eq (hworkers.trans hforgets.workers_eq)), hattributed⟩
  · obtain ⟨-, rank, hrank, hfailed⟩ := hnext
    -- a reply that was not a result is an error
    have hbound : rank < ((dp.stepReplies config choices).map Prod.fst).length := by
      rw [List.length_map]
      exact mem_arrivalOrder hrank
    rcases hreply : ((dp.stepReplies config choices).map Prod.fst)[rank] with error | result
    · exact ⟨error, hreply ▸ List.getElem_mem hbound⟩
    · exact absurd (List.getElem?_eq_some_iff.mpr ⟨hbound, hreply⟩) (hfailed result)

end DPAttentionEngine
