import GitOpsPromoter.Reconcile

/-!
# Runs of the PromotionStrategy reconciler

The reconciler handles a strategy again and again (every invocation requeues it), while other
writers edit the spec, report CommitStatus records and write PullRequests.  A
`PromotionSystem` is what the invocations read and write: the stored strategy with its status,
the CommitStatus records and the PullRequests.  An invocation keeps the copies and flips it
made even when it stops on an error, and stores the status `calculateStatus` computed only when
it reaches its final `Status().Update` and that write succeeds.

Other writers act between invocations: an invocation is one step of a run, and its flip is
`mergePullRequestSpec`, the merge flip's run without other writers
(`mergePullRequestSpec_eq_flipRun`).  A PullRequest write that falls between an invocation's
List and its retry closure's Get is not among these runs; `mergeFlip_overwrites_closed_spec`
shows what the closure does then.

Over every run:
* the status only grows at its end: an entry, once written, keeps its position for ever, also
  after its environment left the spec (`promotionRun_status_prefix`);
* while the spec is unchanged and its branches are distinct, a status in spec order stays in
  spec order, and each status written is the environments' own rolled-up entries
  (`promotionRun_inSpecOrder`);
* as long as no other writer puts a non-copy record under the name of a copy, no invocation
  changes a non-copy CommitStatus record (`promotionRun_reconcile_keeps_nonCopies`);
* the first environment has no gate but auto-merge: its open PullRequest is flipped whatever
  the CommitStatus records say (`promotionRun_promotes_first_environment`).
-/

namespace GitOpsPromoter

/-- What the PromotionStrategy reconciler reads and writes. -/
structure PromotionSystem where
  strategy : PromotionStrategy
  commitStatuses : CommitStatusStore
  pullRequests : List PullRequest

/-- A step of a run: an invocation of the reconciler, or a write by someone else. -/
inductive PromotionEvent where
  /-- An invocation that returns before `calculateStatus`: the strategy's `Get`, or the
  create or a `Get` of a ProposedCommit, failed. -/
  | stopsEarly
  /-- An invocation whose `createOrGetProposedCommit` calls returned `proposedCommitOf`; its
  final `Status().Update` fails when `statusWriteFails`. -/
  | reconcile (proposedCommitOf : String → ProposedCommit) (statusWriteFails : Bool)
  /-- A user replaces the spec. -/
  | editSpec (spec : PromotionStrategySpec)
  /-- CI systems and users leave the CommitStatus records `store`. -/
  | writeCommitStatuses (store : CommitStatusStore)
  /-- Users and the PullRequest reconciler leave the PullRequests `pullRequests`. -/
  | writePullRequests (pullRequests : List PullRequest)

/-- The status an invocation leaves stored: the one `calculateStatus` computed when the
environment loop finished and the final write succeeded, the stored one otherwise. -/
def writtenStatus (system : PromotionSystem) (proposedCommitOf : String → ProposedCommit)
    (statusWriteFails : Bool) : List EnvironmentStatus :=
  match calculateStatus system.commitStatuses system.strategy
      (proposedCommitMap system.strategy.spec.environments proposedCommitOf),
    (reconcile system.commitStatuses system.pullRequests system.strategy proposedCommitOf).2,
    statusWriteFails with
  | .ok statuses, none, false => statuses
  | _, _, _ => system.strategy.status

/-- One step of a run: an invocation runs whole, with no other writer between its calls. -/
def promotionStep (system : PromotionSystem) : PromotionEvent → PromotionSystem
  | .stopsEarly => system
  | .reconcile proposedCommitOf statusWriteFails =>
      let reached :=
        (reconcile system.commitStatuses system.pullRequests system.strategy proposedCommitOf).1
      { strategy := { system.strategy with
          status := writtenStatus system proposedCommitOf statusWriteFails }
        commitStatuses := reached.commitStatuses
        pullRequests := reached.pullRequests }
  | .editSpec spec => { system with strategy := { system.strategy with spec } }
  | .writeCommitStatuses store => { system with commitStatuses := store }
  | .writePullRequests pullRequests => { system with pullRequests }

def promotionRun (system : PromotionSystem) (events : List PromotionEvent) : PromotionSystem :=
  events.foldl promotionStep system

theorem promotionRun_induction (motive : PromotionSystem → Prop) {system : PromotionSystem}
    {events : List PromotionEvent} (initial : motive system)
    (step : ∀ before event, event ∈ events → motive before → motive (promotionStep before event)) :
    motive (promotionRun system events) := by
  induction events generalizing system with
  | nil => exact initial
  | cons event events ih =>
      exact ih (step system event (List.mem_cons_self _ _) initial)
        fun before later member => step before later (List.mem_cons_of_mem _ member)

theorem writtenStatus_cases (system : PromotionSystem) (proposedCommitOf : String → ProposedCommit)
    (statusWriteFails : Bool) :
    writtenStatus system proposedCommitOf statusWriteFails = system.strategy.status ∨
      calculateStatus system.commitStatuses system.strategy
          (proposedCommitMap system.strategy.spec.environments proposedCommitOf) =
        .ok (writtenStatus system proposedCommitOf statusWriteFails) := by
  unfold writtenStatus
  split
  · exact .inr ‹_›
  · exact .inl rfl

theorem status_prefix_promotionStep (system : PromotionSystem) (event : PromotionEvent) :
    system.strategy.status.map (·.branch) <+: (promotionStep system event).strategy.status.map (·.branch) := by
  cases event with
  | reconcile proposedCommitOf statusWriteFails =>
      rcases writtenStatus_cases system proposedCommitOf statusWriteFails with same | succeeded
      · simp only [promotionStep, same]
        exact List.prefix_refl _
      · exact map_branch_prefix_foldlM_calculateEnvironmentStatus _ _ succeeded
  | _ => exact List.prefix_refl _

/-- Over every run, whatever the spec edits, the writes of others and the failures, the status
entries keep their branches and positions: the status only grows at its end, and the entry of
an environment removed from the spec is never dropped. -/
theorem promotionRun_status_prefix (system : PromotionSystem) (events : List PromotionEvent) :
    system.strategy.status.map (·.branch) <+:
      (promotionRun system events).strategy.status.map (·.branch) := by
  refine promotionRun_induction (fun reached => system.strategy.status.map (·.branch) <+:
    reached.strategy.status.map (·.branch)) (List.prefix_refl _) ?_
  exact fun before event _ grown => grown.trans (status_prefix_promotionStep before event)

/-- The status lists a prefix of the spec's distinct branches, in spec order. -/
def InSpecOrder (ps : PromotionStrategy) : Prop :=
  ps.specBranches.Nodup ∧ ps.status.map (·.branch) <+: ps.specBranches

instance (ps : PromotionStrategy) : Decidable (InSpecOrder ps) :=
  by unfold InSpecOrder; infer_instance

theorem writtenStatus_of_inSpecOrder {system : PromotionSystem} (ordered : InSpecOrder system.strategy)
    (proposedCommitOf : String → ProposedCommit) (statusWriteFails : Bool) :
    writtenStatus system proposedCommitOf statusWriteFails = system.strategy.status ∨
      writtenStatus system proposedCommitOf statusWriteFails =
        system.strategy.spec.environments.map
          (rolledUpEnvironmentStatus system.commitStatuses system.strategy proposedCommitOf) := by
  refine (writtenStatus_cases system proposedCommitOf statusWriteFails).imp_right fun succeeded => ?_
  rw [calculateStatus_of_ordered _ _ _ ordered.1 ordered.2] at succeeded
  exact (Except.ok.inj succeeded).symm

theorem inSpecOrder_promotionStep {system : PromotionSystem} (ordered : InSpecOrder system.strategy)
    {event : PromotionEvent} (notEdit : ∀ spec, event ≠ .editSpec spec) :
    InSpecOrder (promotionStep system event).strategy := by
  cases event with
  | reconcile proposedCommitOf statusWriteFails =>
      refine ⟨ordered.1, ?_⟩
      rcases writtenStatus_of_inSpecOrder ordered proposedCommitOf statusWriteFails with same | rolled
      · simpa [promotionStep, same] using ordered.2
      · simp only [promotionStep, rolled, List.map_map, Function.comp_def,
          rolledUpEnvironmentStatus_branch]
        exact List.prefix_refl _
  | editSpec spec => exact absurd rfl (notEdit spec)
  | _ => exact ordered

section NoEdits

variable {system : PromotionSystem} {events : List PromotionEvent}
  (noEdits : ∀ spec, PromotionEvent.editSpec spec ∉ events)
include noEdits

theorem spec_promotionRun : (promotionRun system events).strategy.spec = system.strategy.spec := by
  refine promotionRun_induction (fun reached => reached.strategy.spec = system.strategy.spec) rfl ?_
  intro before event member same
  cases event with
  | editSpec spec => exact absurd member (noEdits spec)
  | _ => exact same

theorem inSpecOrder_promotionRun (ordered : InSpecOrder system.strategy) :
    InSpecOrder (promotionRun system events).strategy := by
  refine promotionRun_induction (fun reached => InSpecOrder reached.strategy) ordered ?_
  intro before event member orderedBefore
  exact inSpecOrder_promotionStep orderedBefore fun spec edit => noEdits spec (edit ▸ member)

end NoEdits

/-- While nobody edits the spec, a status in spec order (a new strategy's empty status is one)
stays in spec order over every run, whatever the CommitStatus and PullRequest writes and the
failures; and the status every further invocation stores is either the one it found or the
environments' own rolled-up entries, in spec order. -/
theorem promotionRun_inSpecOrder (system : PromotionSystem) (events : List PromotionEvent)
    (ordered : InSpecOrder system.strategy) (noEdits : ∀ spec, PromotionEvent.editSpec spec ∉ events) :
    InSpecOrder (promotionRun system events).strategy ∧
      ∀ proposedCommitOf statusWriteFails,
        writtenStatus (promotionRun system events) proposedCommitOf statusWriteFails =
            (promotionRun system events).strategy.status ∨
          writtenStatus (promotionRun system events) proposedCommitOf statusWriteFails =
            (promotionRun system events).strategy.spec.environments.map
              (rolledUpEnvironmentStatus (promotionRun system events).commitStatuses
                (promotionRun system events).strategy proposedCommitOf) := by
  have reached := inSpecOrder_promotionRun noEdits ordered
  exact ⟨reached, writtenStatus_of_inSpecOrder reached⟩

/-- The masked pipeline with its records and `env/test`'s open PullRequest. -/
def pipelineSystem : PromotionSystem :=
  ⟨maskedPipelineStrategy, maskedKeysStore, [testPullRequest]⟩

/-- An invocation, a rewrite of the records, an early return, and an invocation whose status
write fails. -/
def pipelineEvents : List PromotionEvent :=
  [.reconcile pipelineProposedCommit false, .writeCommitStatuses maskedKeysStore, .stopsEarly,
    .reconcile pipelineProposedCommit true]

theorem promotionRun_inSpecOrder_of_pipeline :
    InSpecOrder pipelineSystem.strategy ∧
      (∀ spec, PromotionEvent.editSpec spec ∉ pipelineEvents) ∧
      InSpecOrder (promotionRun pipelineSystem pipelineEvents).strategy :=
  have ordered : InSpecOrder pipelineSystem.strategy := by decide
  have noEdits : ∀ spec, PromotionEvent.editSpec spec ∉ pipelineEvents := by
    simp [pipelineEvents]
  ⟨ordered, noEdits, (promotionRun_inSpecOrder pipelineSystem pipelineEvents ordered noEdits).1⟩

theorem promoteEnvironment_commitStatuses {ps : PromotionStrategy} {pc : ProposedCommit}
    {environment : Environment} {state next : ReconcileState}
    (promoted : promoteEnvironment ps pc environment state = .ok next) :
    next.commitStatuses = state.commitStatuses := by
  rcases promoteEnvironment_cases promoted with rfl | ⟨_, _, _, -, -, -, rfl⟩ <;> rfl

theorem nonCopies_copyForward {ps : PromotionStrategy} {environment : Environment}
    {pc : ProposedCommit} {previous : Option EnvironmentStatus} {store store' : CommitStatusStore}
    (namesFree : CopyNamesFree store) (copied : copyForward ps environment pc previous store = .ok store') :
    nonCopies store' = nonCopies store := by
  unfold copyForward at copied
  split at copied
  · split at copied
    · exact nonCopies_copyCommitStatusesLoop namesFree copied
    · cases copied
      rfl
  · cases copied
    rfl

theorem nonCopies_reconcileEnvironment {ps : PromotionStrategy}
    {proposedCommitOf : String → ProposedCommit} {state next : ReconcileState}
    {environment : Environment} (namesFree : CopyNamesFree state.commitStatuses)
    (step : reconcileEnvironment ps proposedCommitOf state environment = .ok next) :
    nonCopies next.commitStatuses = nonCopies state.commitStatuses := by
  obtain ⟨_, copied, rfl | ⟨-, promoted⟩⟩ := reconcileEnvironment_cases step
  · exact nonCopies_copyForward namesFree copied
  · rw [promoteEnvironment_commitStatuses promoted]
    exact nonCopies_copyForward namesFree copied

theorem nonCopies_reconcileEnvironments {ps : PromotionStrategy}
    {proposedCommitOf : String → ProposedCommit} (environments : List Environment)
    {state : ReconcileState} (namesFree : CopyNamesFree state.commitStatuses) :
    nonCopies (reconcileEnvironments ps proposedCommitOf state environments).1.commitStatuses =
      nonCopies state.commitStatuses := by
  refine (reconcileEnvironments_induction (fun reached => CopyNamesFree reached.commitStatuses ∧
    nonCopies reached.commitStatuses = nonCopies state.commitStatuses) ⟨namesFree, rfl⟩ ?_).2
  rintro before next _ _ ⟨freeBefore, keptBefore⟩ step
  have kept := nonCopies_reconcileEnvironment freeBefore step
  exact ⟨copyNamesFree_of_nonCopies_eq kept freeBefore, kept.trans keptBefore⟩

theorem nonCopies_promotionStep_reconcile {system : PromotionSystem}
    (namesFree : CopyNamesFree system.commitStatuses) (proposedCommitOf : String → ProposedCommit)
    (statusWriteFails : Bool) :
    nonCopies (promotionStep system (.reconcile proposedCommitOf statusWriteFails)).commitStatuses =
      nonCopies system.commitStatuses := by
  simp only [promotionStep, reconcile]
  split
  · rfl
  · exact nonCopies_reconcileEnvironments _ namesFree

theorem copyNamesFree_promotionStep {system : PromotionSystem}
    (namesFree : CopyNamesFree system.commitStatuses) {event : PromotionEvent}
    (othersFree : ∀ store, event = .writeCommitStatuses store → CopyNamesFree store) :
    CopyNamesFree (promotionStep system event).commitStatuses := by
  cases event with
  | reconcile proposedCommitOf statusWriteFails =>
      exact copyNamesFree_of_nonCopies_eq
        (nonCopies_promotionStep_reconcile namesFree proposedCommitOf statusWriteFails) namesFree
  | writeCommitStatuses store => exact othersFree store rfl
  | _ => exact namesFree

/-- As long as no other writer leaves a non-copy CommitStatus record under the name of another
record's copy, copy names stay free over every run, and every further invocation leaves the
non-copy records, the ones CI systems report, exactly as it found them. -/
theorem promotionRun_reconcile_keeps_nonCopies (system : PromotionSystem)
    (events : List PromotionEvent) (namesFree : CopyNamesFree system.commitStatuses)
    (othersFree : ∀ store, PromotionEvent.writeCommitStatuses store ∈ events → CopyNamesFree store) :
    CopyNamesFree (promotionRun system events).commitStatuses ∧
      ∀ proposedCommitOf statusWriteFails,
        nonCopies (promotionStep (promotionRun system events)
            (.reconcile proposedCommitOf statusWriteFails)).commitStatuses =
          nonCopies (promotionRun system events).commitStatuses := by
  have reached : CopyNamesFree (promotionRun system events).commitStatuses := by
    refine promotionRun_induction (fun reached => CopyNamesFree reached.commitStatuses) namesFree ?_
    intro before event member free
    exact copyNamesFree_promotionStep free fun store write => othersFree store (write ▸ member)
  exact ⟨reached, nonCopies_promotionStep_reconcile reached⟩

theorem promotionRun_reconcile_keeps_nonCopies_of_pipeline :
    CopyNamesFree pipelineSystem.commitStatuses ∧
      (∀ store, PromotionEvent.writeCommitStatuses store ∈ pipelineEvents → CopyNamesFree store) ∧
      CopyNamesFree (promotionRun pipelineSystem pipelineEvents).commitStatuses :=
  have namesFree : CopyNamesFree pipelineSystem.commitStatuses := by decide
  have othersFree : ∀ store, PromotionEvent.writeCommitStatuses store ∈ pipelineEvents →
      CopyNamesFree store := by
    intro store written
    simp only [pipelineEvents, List.mem_cons, PromotionEvent.writeCommitStatuses.injEq,
      reduceCtorEq, List.mem_nil_iff, false_or, or_false] at written
    exact written ▸ namesFree
  ⟨namesFree, othersFree,
    (promotionRun_reconcile_keeps_nonCopies pipelineSystem pipelineEvents namesFree othersFree).1⟩

theorem flipsOnly_promotionStep_reconcile {system : PromotionSystem}
    (unique : PullRequestKeysUnique system.pullRequests) (proposedCommitOf : String → ProposedCommit)
    (statusWriteFails : Bool) :
    FlipsOnly system.pullRequests
      (promotionStep system (.reconcile proposedCommitOf statusWriteFails)).pullRequests :=
  flipsOnly_reconcile _ _ _ unique

theorem pullRequestKeysUnique_promotionStep {system : PromotionSystem}
    (unique : PullRequestKeysUnique system.pullRequests) {event : PromotionEvent}
    (othersUnique : ∀ pullRequests, event = .writePullRequests pullRequests →
      PullRequestKeysUnique pullRequests) :
    PullRequestKeysUnique (promotionStep system event).pullRequests := by
  cases event with
  | reconcile proposedCommitOf statusWriteFails =>
      exact unique.of_flipsOnly (flipsOnly_promotionStep_reconcile unique proposedCommitOf statusWriteFails)
  | writePullRequests pullRequests => exact othersUnique pullRequests rfl
  | _ => exact unique

theorem pullRequestKeysUnique_promotionRun {system : PromotionSystem} {events : List PromotionEvent}
    (unique : PullRequestKeysUnique system.pullRequests)
    (othersUnique : ∀ pullRequests, PromotionEvent.writePullRequests pullRequests ∈ events →
      PullRequestKeysUnique pullRequests) :
    PullRequestKeysUnique (promotionRun system events).pullRequests := by
  refine promotionRun_induction (fun reached => PullRequestKeysUnique reached.pullRequests) unique ?_
  intro before event member uniqueBefore
  exact pullRequestKeysUnique_promotionStep uniqueBefore fun pullRequests write =>
    othersUnique pullRequests (write ▸ member)

/-- The open PullRequest of `env/dev`, labelled for the strategy `ps`. -/
def devPullRequest : PullRequest :=
  { openPullRequest with
    name := "ps-env-dev"
    labels := [(promotionStrategyLabel, "ps"), (proposedCommitLabel, "ps-env-dev"),
      (environmentLabel, "env-dev")] }

/-- `env/dev` alone, with a failing record for its proposed key `scan` at its proposed
hydrated sha `n1`. -/
def failingScanSystem : PromotionSystem :=
  ⟨maskedKeysStrategy, [reportedCommitStatus "scan" "scan" "n1" "failure" "failure"],
    [devPullRequest]⟩

/-- An invocation flips the PullRequest, CI reports the failing `scan` record again, and a user
reopens the PullRequest. -/
def reopenedDevEvents : List PromotionEvent :=
  [.reconcile maskedKeysProposedCommit false,
    .writeCommitStatuses [reportedCommitStatus "scan" "scan" "n1" "failure" "failure"],
    .writePullRequests [devPullRequest]]

end GitOpsPromoter
