import GitOpsPromoter.CopyCommitStatuses
import GitOpsPromoter.MergeFlip

/-!
# One invocation of the PromotionStrategy reconciler

After fetching the strategy and each environment's ProposedCommit, `Reconcile` runs
`calculateStatus` and then walks the spec's environments on the strategy with its new status.
For each it copies the predecessor's commit statuses forward when the predecessor runs the
proposed dry commit, evaluates the gate, and when the gate passes and the first listed
PullRequest is `open`, flips it to `merged`.  Each flip is recorded in `merged`, by branch.

An error stops the walk; the flips made before it stay made, so `reconcile` returns the state
reached together with the error, if any.  The flip is taken without other writers of the
PullRequest; it is then the run of the retry closure that `MergeFlip` models with them
(`mergePullRequestSpec_eq_flipRun`).

The promotion law proved here (`merge_requires_predecessor_gate`): on a prior status in spec
order, a flip for an environment after the first implies its auto-merge flag, the
predecessor's dry commit and commit time, and a successful active rollup of the predecessor,
read back to its records through `FirstUnhealthyIsSuccess`.
-/

namespace GitOpsPromoter

/-- Why an invocation stops before its final status write. -/
inductive ReconcileError where
  | calculateStatus (err : CalculateStatusError)
  | copyCommitStatuses (err : CopyCommitStatusesError)
  /-- `environmentStatus.Active.Dry.CommitTime` read on a nil `environmentStatus`. -/
  | nilPointerDereference
  /-- The retry closure's `Get` did not find the listed PullRequest. -/
  | pullRequestNotFound (objectNamespace name : String)
  deriving DecidableEq, Repr

/-- What an invocation has written so far: the CommitStatus and PullRequest stores, and the
branches whose PullRequest it set to `merged`, in order. -/
structure ReconcileState where
  commitStatuses : CommitStatusStore
  pullRequests : List PullRequest
  merged : List String
  deriving DecidableEq, Repr

/-- The copy-forward block: when the predecessor runs the proposed dry commit, its active
records are copied to the proposed hydrated sha. -/
def copyForward (ps : PromotionStrategy) (environment : Environment) (pc : ProposedCommit)
    (previousEnvironmentStatus : Option EnvironmentStatus) (store : CommitStatusStore) :
    Except CopyCommitStatusesError CommitStatusStore :=
  match previousEnvironmentStatus with
  | some previous =>
      if previous.active.dry.sha = pc.status.proposed.dry.sha then
        copyCommitStatuses store (activeCommitStatusList ps environment) previous.active.hydrated.sha
          pc.status.proposed.hydrated.sha previous.branch
      else .ok store
  | none => .ok store

/-- `activeChecksPassed`, with Go's short circuit: the commit time of `environmentStatus` is
read only when the earlier conjuncts hold. -/
def activeChecksPassed (previousEnvironmentStatus environmentStatus : Option EnvironmentStatus)
    (pc : ProposedCommit) : Except ReconcileError Bool :=
  match previousEnvironmentStatus with
  | none => .ok false
  | some previous =>
      if previous.active.commitStatus.state = "success" ∧
          previous.active.dry.sha = pc.status.proposed.dry.sha then
        match environmentStatus with
        | some current => .ok (decide (current.active.dry.commitTime < previous.active.dry.commitTime))
        | none => .error .nilPointerDereference
      else .ok false

/-- `proposedChecksPassed`. -/
def proposedChecksPassed (environmentStatus : Option EnvironmentStatus) : Bool :=
  match environmentStatus with
  | some current => current.proposed.commitStatus.state == "success"
  | none => false

/-- The gate of the flip: first in the status view, or both checks passed; and auto-merge. -/
def mergeGate (environmentIndex : Int) (activePassed proposedPassed : Bool)
    (environment : Environment) : Bool :=
  (environmentIndex == 0 || activePassed && proposedPassed) && environment.getAutoMerge

/-- The label selector of the environment's PullRequest. -/
def pullRequestSelector (ps : PromotionStrategy) (pc : ProposedCommit) (environment : Environment) :
    Labels :=
  [(promotionStrategyLabel, kubeSafeLabel ps.name), (proposedCommitLabel, kubeSafeLabel pc.name),
    (environmentLabel, kubeSafeLabel environment.branch)]

/-- The flip of the listed PullRequest with no other writer: the closure's Get returns the
stored record and its Update succeeds (`flipRun_without_other_writers`). -/
def mergePullRequestSpec (pullRequests : List PullRequest) (listed : PullRequest) :
    Except ReconcileError (List PullRequest) :=
  match getPullRequest pullRequests listed.namespace listed.name with
  | some current => .ok (updatePullRequest pullRequests (mergedVersion current))
  | none => .error (.pullRequestNotFound listed.namespace listed.name)

/-- The PullRequest part of an iteration whose gate passed: list, check the first record,
flip it. -/
def promoteEnvironment (ps : PromotionStrategy) (pc : ProposedCommit) (environment : Environment)
    (state : ReconcileState) : Except ReconcileError ReconcileState :=
  match listPullRequests state.pullRequests (pullRequestSelector ps pc environment) with
  | listed :: _ =>
      if listed.isOpenOpen then
        match mergePullRequestSpec state.pullRequests listed with
        | .ok pullRequests => .ok { state with pullRequests, merged := state.merged ++ [environment.branch] }
        | .error err => .error err
      else .ok state
  | [] => .ok state

/-- One iteration of the environment loop (lines 94-157). -/
def reconcileEnvironment (ps : PromotionStrategy) (proposedCommitOf : String → ProposedCommit)
    (state : ReconcileState) (environment : Environment) : Except ReconcileError ReconcileState :=
  let previousEnvironmentStatus := (getPreviousEnvironmentStatusByBranch ps environment.branch).2
  let current := getEnvironmentStatusByBranch ps environment.branch
  let pc := proposedCommitOf environment.branch
  match copyForward ps environment pc previousEnvironmentStatus state.commitStatuses with
  | .error err => .error (.copyCommitStatuses err)
  | .ok commitStatuses =>
      match activeChecksPassed previousEnvironmentStatus current.2 pc with
      | .error err => .error err
      | .ok activePassed =>
          if mergeGate current.1 activePassed (proposedChecksPassed current.2) environment then
            promoteEnvironment ps pc environment { state with commitStatuses }
          else .ok { state with commitStatuses }

/-- The environment loop: the state reached, and the error that stopped it, if any. -/
def reconcileEnvironments (ps : PromotionStrategy) (proposedCommitOf : String → ProposedCommit) :
    ReconcileState → List Environment → ReconcileState × Option ReconcileError
  | state, [] => (state, none)
  | state, environment :: environments =>
      match reconcileEnvironment ps proposedCommitOf state environment with
      | .ok next => reconcileEnvironments ps proposedCommitOf next environments
      | .error err => (state, some err)

/-- `Reconcile` from the fetched strategy and its ProposedCommits, up to the final status
write. -/
def reconcile (store : CommitStatusStore) (pullRequests : List PullRequest) (ps : PromotionStrategy)
    (proposedCommitOf : String → ProposedCommit) : ReconcileState × Option ReconcileError :=
  match calculateStatus store ps (proposedCommitMap ps.spec.environments proposedCommitOf) with
  | .error err => (⟨store, pullRequests, []⟩, some (.calculateStatus err))
  | .ok statuses =>
      reconcileEnvironments { ps with status := statuses } proposedCommitOf ⟨store, pullRequests, []⟩
        ps.spec.environments

/-- The sequential flip of this model writes what the merge flip's run stores when no other
writer runs between its calls: the List and the Get read the same `open`/`open` record. -/
theorem mergePullRequestSpec_eq_flipRun {pullRequests : List PullRequest}
    {listed current : PullRequest}
    (found : getPullRequest pullRequests listed.namespace listed.name = some current)
    (openOpen : current.isOpenOpen) :
    mergePullRequestSpec pullRequests listed =
      .ok (updatePullRequest pullRequests
        (flipRun (FlipState.initial current) [.invocation, .invocation, .invocation]).stored) := by
  simp only [mergePullRequestSpec, found, flipRun_without_other_writers openOpen]

/-- The gate of `environment`'s iteration passed on the strategy `ps` the loop reads. -/
def GatePassed (ps : PromotionStrategy) (proposedCommitOf : String → ProposedCommit)
    (environment : Environment) : Prop :=
  ∃ activePassed,
    activeChecksPassed (getPreviousEnvironmentStatusByBranch ps environment.branch).2
        (getEnvironmentStatusByBranch ps environment.branch).2 (proposedCommitOf environment.branch) =
      .ok activePassed ∧
    mergeGate (getEnvironmentStatusByBranch ps environment.branch).1 activePassed
      (proposedChecksPassed (getEnvironmentStatusByBranch ps environment.branch).2) environment = true

theorem activeChecksPassed_eq_ok_true {previous current : EnvironmentStatus} {pc : ProposedCommit}
    (passed : activeChecksPassed (some previous) (some current) pc = .ok true) :
    previous.active.commitStatus.state = "success" ∧
      previous.active.dry.sha = pc.status.proposed.dry.sha ∧
      current.active.dry.commitTime < previous.active.dry.commitTime := by
  dsimp only [activeChecksPassed] at passed
  split at passed
  · rename_i checks
    simp only [Except.ok.injEq, decide_eq_true_eq] at passed
    exact ⟨checks.1, checks.2, passed⟩
  · cases passed

theorem promoteEnvironment_merged {ps : PromotionStrategy} {pc : ProposedCommit}
    {environment : Environment} {state next : ReconcileState}
    (promoted : promoteEnvironment ps pc environment state = .ok next) :
    next.merged = state.merged ∨ next.merged = state.merged ++ [environment.branch] := by
  unfold promoteEnvironment at promoted
  split at promoted
  · split at promoted
    · split at promoted
      · cases promoted
        exact .inr rfl
      · cases promoted
    · cases promoted
      exact .inl rfl
  · cases promoted
    exact .inl rfl

theorem reconcileEnvironment_merged {ps : PromotionStrategy}
    {proposedCommitOf : String → ProposedCommit} {state next : ReconcileState}
    {environment : Environment}
    (step : reconcileEnvironment ps proposedCommitOf state environment = .ok next) :
    next.merged = state.merged ∨
      next.merged = state.merged ++ [environment.branch] ∧ GatePassed ps proposedCommitOf environment := by
  unfold reconcileEnvironment at step
  dsimp only at step
  split at step
  · cases step
  · split at step
    · cases step
    · rename_i activePassed passed
      split at step
      · rename_i gate
        rcases promoteEnvironment_merged step with same | grown
        · exact .inl same
        · exact .inr ⟨grown, activePassed, passed, gate⟩
      · cases step
        exact .inl rfl

theorem reconcileEnvironments_merged {ps : PromotionStrategy}
    {proposedCommitOf : String → ProposedCommit} {state : ReconcileState}
    {environments : List Environment} {branch : String}
    (member : branch ∈ (reconcileEnvironments ps proposedCommitOf state environments).1.merged) :
    branch ∈ state.merged ∨
      ∃ environment ∈ environments, environment.branch = branch ∧
        GatePassed ps proposedCommitOf environment := by
  induction environments generalizing state with
  | nil => exact .inl member
  | cons environment environments ih =>
      simp only [reconcileEnvironments] at member
      split at member
      · rename_i next step
        rcases ih member with earlier | ⟨later, laterMember, sameBranch, gate⟩
        · rcases reconcileEnvironment_merged step with same | ⟨grown, gate⟩
          · exact .inl (same ▸ earlier)
          · rw [grown] at earlier
            rcases List.mem_append.mp earlier with old | new
            · exact .inl old
            · exact .inr ⟨environment, List.mem_cons_self _ _, (List.mem_singleton.mp new).symm, gate⟩
        · exact .inr ⟨later, List.mem_cons_of_mem _ laterMember, sameBranch, gate⟩
      · exact .inl member

section Ordered

variable (store : CommitStatusStore) (ps : PromotionStrategy)
  (proposedCommitOf : String → ProposedCommit)

/-- The strategy the loop reads when `calculateStatus` rolled up a status in spec order. -/
def rolledUpStrategy : PromotionStrategy :=
  { ps with status := ps.spec.environments.map (rolledUpEnvironmentStatus store ps proposedCommitOf) }

variable {store ps proposedCommitOf}

theorem getEnvironmentsFromStatusInOrder_rolledUpStrategy (distinct : ps.specBranches.Nodup) :
    getEnvironmentsFromStatusInOrder (rolledUpStrategy store ps proposedCommitOf) =
      ps.spec.environments.map (rolledUpEnvironmentStatus store ps proposedCommitOf) := by
  have branches : (ps.spec.environments.map (rolledUpEnvironmentStatus store ps proposedCommitOf)).map
      (·.branch) = ps.spec.environments.map (·.branch) := by
    simp [List.map_map, Function.comp_def]
  exact inOrder_of_prefix _ _ distinct (branches ▸ List.prefix_refl _)

theorem branch_not_mem_of_split (distinct : ps.specBranches.Nodup)
    {done todo : List Environment} {previous environment : Environment}
    (split : ps.spec.environments = done ++ previous :: environment :: todo) :
    environment.branch ∉ ((done ++ [previous]).map (rolledUpEnvironmentStatus store ps proposedCommitOf)).map
      (·.branch) := by
  have distinctSplit : ((done ++ [previous]).map (·.branch) ++
      (environment :: todo).map (·.branch)).Nodup := by
    simpa [PromotionStrategy.specBranches, split] using distinct
  simpa [List.map_map, Function.comp_def] using
    fun member => List.disjoint_of_nodup_append distinctSplit member (List.mem_cons_self _ _)

theorem statusLookups_of_split (distinct : ps.specBranches.Nodup)
    {done todo : List Environment} {previous environment : Environment}
    (split : ps.spec.environments = done ++ previous :: environment :: todo) :
    getEnvironmentStatusByBranch (rolledUpStrategy store ps proposedCommitOf) environment.branch =
        (((done.length + 1 : Nat) : Int),
          some (rolledUpEnvironmentStatus store ps proposedCommitOf environment)) ∧
      (getPreviousEnvironmentStatusByBranch (rolledUpStrategy store ps proposedCommitOf)
        environment.branch).2 = some (rolledUpEnvironmentStatus store ps proposedCommitOf previous) := by
  have absent : environment.branch ∉ ((done ++ [previous]).map
      (rolledUpEnvironmentStatus store ps proposedCommitOf)).map (·.branch) :=
    branch_not_mem_of_split distinct split
  have view : getEnvironmentsFromStatusInOrder (rolledUpStrategy store ps proposedCommitOf) =
      (done ++ [previous]).map (rolledUpEnvironmentStatus store ps proposedCommitOf) ++
        rolledUpEnvironmentStatus store ps proposedCommitOf environment ::
          todo.map (rolledUpEnvironmentStatus store ps proposedCommitOf) := by
    simp [getEnvironmentsFromStatusInOrder_rolledUpStrategy distinct, split]
  constructor
  · rw [getEnvironmentStatusByBranch, view, environmentStatusByBranch_append _ _ _ _ _ absent
      (rolledUpEnvironmentStatus_branch _ _ _ _)]
    simp
  · rw [getPreviousEnvironmentStatusByBranch, view, List.map_append, List.map_singleton,
      List.append_assoc, List.singleton_append]
    exact previousEnvironmentStatus_append _ _ _ _ _ _ _ (by simpa using absent)
      (rolledUpEnvironmentStatus_branch _ _ _ _)

variable (store ps proposedCommitOf)

/-- What the promotion law asks before `environment`, after `previous`, is flipped: auto-merge,
the predecessor running the proposed dry commit, committed later, and a `success` active
rollup of the predecessor read back to its records. -/
def PredecessorGate (previous environment : Environment) : Prop :=
  environment.getAutoMerge = true ∧
    (proposedCommitOf previous.branch).status.active.dry.sha =
      (proposedCommitOf environment.branch).status.proposed.dry.sha ∧
    (proposedCommitOf environment.branch).status.active.dry.commitTime <
      (proposedCommitOf previous.branch).status.active.dry.commitTime ∧
    collectedCommitStatuses store (proposedCommitOf previous.branch).status.active.hydrated.sha
        (activeCommitStatusList ps previous) ≠ [] ∧
    FirstUnhealthyIsSuccess (collectedCommitStatuses store
      (proposedCommitOf previous.branch).status.active.hydrated.sha
      (activeCommitStatusList ps previous))

variable {store ps proposedCommitOf}

theorem predecessorGate_of_gatePassed (distinct : ps.specBranches.Nodup)
    {done todo : List Environment} {previous environment : Environment}
    (split : ps.spec.environments = done ++ previous :: environment :: todo)
    (gate : GatePassed (rolledUpStrategy store ps proposedCommitOf) proposedCommitOf environment) :
    PredecessorGate store ps proposedCommitOf previous environment := by
  obtain ⟨activePassed, passed, gatePassed⟩ := gate
  obtain ⟨current, before⟩ :=
    @statusLookups_of_split store ps proposedCommitOf distinct _ _ _ _ split
  rw [current, before] at passed
  rw [current] at gatePassed
  simp only [mergeGate, Bool.and_eq_true, Bool.or_eq_true, beq_iff_eq] at gatePassed
  obtain ⟨firstOrBoth, autoMerge⟩ := gatePassed
  obtain rfl : activePassed = true := by
    rcases firstOrBoth with first | both
    · omega
    · exact both.1
  obtain ⟨success, drySha, time⟩ := activeChecksPassed_eq_ok_true passed
  simp only [rolledUpEnvironmentStatus_active_dry] at drySha time
  exact ⟨autoMerge, drySha, time, rolledUpEnvironmentStatus_active_success success⟩

variable (store ps proposedCommitOf)

/-- The promotion law, on a prior status in spec order: when one invocation flips the
PullRequest of an environment after the first, auto-merge is on for it, its predecessor runs its
proposed dry commit, committed strictly later than its own active dry commit, and the
predecessor's active rollup is `success`: some key matched exactly one non-copy record at the
predecessor's active hydrated sha, and the first such record whose observed state is not
`success`, if any, has spec state `success`. -/
theorem merge_requires_predecessor_gate (distinct : ps.specBranches.Nodup)
    (ordered : ps.status.map (·.branch) <+: ps.specBranches)
    {done todo : List Environment} {previous environment : Environment}
    (split : ps.spec.environments = done ++ previous :: environment :: todo)
    (pullRequests : List PullRequest)
    (merged : environment.branch ∈ (reconcile store pullRequests ps proposedCommitOf).1.merged) :
    environment.getAutoMerge = true ∧
      (proposedCommitOf previous.branch).status.active.dry.sha =
        (proposedCommitOf environment.branch).status.proposed.dry.sha ∧
      (proposedCommitOf environment.branch).status.active.dry.commitTime <
        (proposedCommitOf previous.branch).status.active.dry.commitTime ∧
      collectedCommitStatuses store (proposedCommitOf previous.branch).status.active.hydrated.sha
          (activeCommitStatusList ps previous) ≠ [] ∧
      FirstUnhealthyIsSuccess (collectedCommitStatuses store
        (proposedCommitOf previous.branch).status.active.hydrated.sha
        (activeCommitStatusList ps previous)) := by
  rw [reconcile, calculateStatus_of_ordered store ps proposedCommitOf distinct ordered] at merged
  rcases reconcileEnvironments_merged merged with never | ⟨flipped, flippedMember, sameBranch, gate⟩
  · simp at never
  have environmentMember : environment ∈ ps.spec.environments := by simp [split]
  obtain rfl : flipped = environment :=
    List.inj_on_of_nodup_map distinct flippedMember environmentMember sameBranch
  exact predecessorGate_of_gatePassed distinct split gate

end Ordered

theorem mem_of_listPullRequests_eq_cons {pullRequests : List PullRequest} {selector : Labels}
    {listed : PullRequest} {others : List PullRequest}
    (listing : listPullRequests pullRequests selector = listed :: others) :
    listed ∈ pullRequests ∧ matchesLabels selector listed.labels :=
  List.mem_filter.mp (listing ▸ List.mem_cons_self listed others)

theorem promoteEnvironment_cases {ps : PromotionStrategy} {pc : ProposedCommit}
    {environment : Environment} {state next : ReconcileState}
    (promoted : promoteEnvironment ps pc environment state = .ok next) :
    next = state ∨ ∃ listed others pullRequests,
      listPullRequests state.pullRequests (pullRequestSelector ps pc environment) = listed :: others ∧
      listed.isOpenOpen ∧ mergePullRequestSpec state.pullRequests listed = .ok pullRequests ∧
      next = { state with pullRequests, merged := state.merged ++ [environment.branch] } := by
  unfold promoteEnvironment at promoted
  split at promoted
  · rename_i listed others listing
    split at promoted
    · split at promoted
      · cases promoted
        exact .inr ⟨listed, others, _, listing, ‹_›, ‹_›, rfl⟩
      · cases promoted
    · cases promoted
      exact .inl rfl
  · cases promoted
    exact .inl rfl

theorem reconcileEnvironment_cases {ps : PromotionStrategy}
    {proposedCommitOf : String → ProposedCommit} {state next : ReconcileState}
    {environment : Environment}
    (step : reconcileEnvironment ps proposedCommitOf state environment = .ok next) :
    ∃ commitStatuses, copyForward ps environment (proposedCommitOf environment.branch)
        (getPreviousEnvironmentStatusByBranch ps environment.branch).2 state.commitStatuses =
          .ok commitStatuses ∧
      (next = { state with commitStatuses } ∨ GatePassed ps proposedCommitOf environment ∧
        promoteEnvironment ps (proposedCommitOf environment.branch) environment
          { state with commitStatuses } = .ok next) := by
  unfold reconcileEnvironment at step
  dsimp only at step
  split at step
  · cases step
  · rename_i commitStatuses copied
    refine ⟨commitStatuses, copied, ?_⟩
    split at step
    · cases step
    · rename_i activePassed passed
      split at step
      · exact .inr ⟨⟨activePassed, passed, ‹_›⟩, step⟩
      · cases step
        exact .inl rfl

theorem reconcileEnvironments_induction {ps : PromotionStrategy}
    {proposedCommitOf : String → ProposedCommit} (motive : ReconcileState → Prop)
    {environments : List Environment} {state : ReconcileState} (initial : motive state)
    (step : ∀ before next, ∀ environment ∈ environments, motive before →
      reconcileEnvironment ps proposedCommitOf before environment = .ok next → motive next) :
    motive (reconcileEnvironments ps proposedCommitOf state environments).1 := by
  induction environments generalizing state with
  | nil => exact initial
  | cons environment environments ih =>
      simp only [reconcileEnvironments]
      split
      · rename_i next iteration
        exact ih (step state next environment (List.mem_cons_self _ _) initial iteration)
          fun before after later member => step before after later (List.mem_cons_of_mem _ member)
      · exact initial

/-- The store holds at most one PullRequest per namespace and name, as the API server does. -/
def PullRequestKeysUnique (pullRequests : List PullRequest) : Prop :=
  (pullRequests.map fun pr => (pr.namespace, pr.name)).Nodup

instance (pullRequests : List PullRequest) : Decidable (PullRequestKeysUnique pullRequests) := by
  unfold PullRequestKeysUnique; infer_instance

/-- The record is kept, or it was `open` in spec and status and is now its merged version. -/
def FlippedOrKept (old new : PullRequest) : Prop :=
  new = old ∨ old.isOpenOpen ∧ new = mergedVersion old

/-- Record by record, the store only had `open` records flipped to `merged`: nothing was
added, removed, reordered or otherwise changed. -/
def FlipsOnly (before after : List PullRequest) : Prop :=
  List.Forall₂ FlippedOrKept before after

theorem isOpenOpen_mergedVersion (pr : PullRequest) : (mergedVersion pr).isOpenOpen = false := by
  simp [mergedVersion, PullRequest.isOpenOpen]

theorem flippedOrKept_trans {a b c : PullRequest} (first : FlippedOrKept a b)
    (second : FlippedOrKept b c) : FlippedOrKept a c := by
  rcases first with rfl | ⟨openOpen, rfl⟩
  · exact second
  · rcases second with rfl | ⟨reopened, _⟩
    · exact .inr ⟨openOpen, rfl⟩
    · simp [isOpenOpen_mergedVersion] at reopened

theorem FlipsOnly.refl (pullRequests : List PullRequest) : FlipsOnly pullRequests pullRequests :=
  List.forall₂_same.mpr fun _ _ => .inl rfl

theorem FlipsOnly.trans {before middle after : List PullRequest} (first : FlipsOnly before middle)
    (second : FlipsOnly middle after) : FlipsOnly before after := by
  induction first generalizing after with
  | nil => exact second
  | cons kept _ ih =>
      cases second with
      | cons kept' rest => exact .cons (flippedOrKept_trans kept kept') (ih rest)

theorem FlipsOnly.map_key {before after : List PullRequest} (flips : FlipsOnly before after) :
    after.map (fun pr => (pr.namespace, pr.name)) = before.map fun pr => (pr.namespace, pr.name) := by
  induction flips with
  | nil => rfl
  | cons kept _ ih => rcases kept with rfl | ⟨_, rfl⟩ <;> simp [ih, mergedVersion]

theorem PullRequestKeysUnique.of_flipsOnly {before after : List PullRequest}
    (unique : PullRequestKeysUnique before) (flips : FlipsOnly before after) :
    PullRequestKeysUnique after := by
  rw [PullRequestKeysUnique, flips.map_key]
  exact unique

theorem getPullRequest_of_mem {pullRequests : List PullRequest}
    (unique : PullRequestKeysUnique pullRequests) {listed : PullRequest} (member : listed ∈ pullRequests) :
    getPullRequest pullRequests listed.namespace listed.name = some listed := by
  obtain ⟨found, lookup⟩ : ∃ found, getPullRequest pullRequests listed.namespace listed.name = some found :=
    Option.isSome_iff_exists.mp (List.find?_isSome.mpr ⟨listed, member, by simp⟩)
  have sameKey : found.namespace = listed.namespace ∧ found.name = listed.name := by
    simpa using List.find?_some lookup
  rw [lookup, List.inj_on_of_nodup_map unique (List.mem_of_find?_eq_some lookup)
    member (Prod.ext sameKey.1 sameKey.2)]

theorem flipsOnly_mergePullRequestSpec {pullRequests after : List PullRequest}
    (unique : PullRequestKeysUnique pullRequests) {listed : PullRequest} (member : listed ∈ pullRequests)
    (openOpen : listed.isOpenOpen) (flipped : mergePullRequestSpec pullRequests listed = .ok after) :
    FlipsOnly pullRequests after := by
  simp only [mergePullRequestSpec, getPullRequest_of_mem unique member, Except.ok.injEq] at flipped
  subst flipped
  refine List.forall₂_map_right_iff.mpr (List.forall₂_same.mpr fun old oldMember => ?_)
  split
  · rename_i sameKey
    obtain rfl := List.inj_on_of_nodup_map unique oldMember member (Prod.ext sameKey.1 sameKey.2)
    exact .inr ⟨openOpen, rfl⟩
  · exact .inl rfl

theorem flipsOnly_promoteEnvironment {ps : PromotionStrategy} {pc : ProposedCommit}
    {environment : Environment} {state next : ReconcileState}
    (promoted : promoteEnvironment ps pc environment state = .ok next)
    (unique : PullRequestKeysUnique state.pullRequests) :
    FlipsOnly state.pullRequests next.pullRequests := by
  rcases promoteEnvironment_cases promoted with
    rfl | ⟨listed, others, _, listing, openOpen, flipped, rfl⟩
  · exact .refl _
  · exact flipsOnly_mergePullRequestSpec unique (mem_of_listPullRequests_eq_cons listing).1
      openOpen flipped

theorem flipsOnly_reconcileEnvironment {ps : PromotionStrategy}
    {proposedCommitOf : String → ProposedCommit} {state next : ReconcileState}
    {environment : Environment} (unique : PullRequestKeysUnique state.pullRequests)
    (step : reconcileEnvironment ps proposedCommitOf state environment = .ok next) :
    FlipsOnly state.pullRequests next.pullRequests := by
  obtain ⟨_, -, rfl | ⟨-, promoted⟩⟩ := reconcileEnvironment_cases step
  · exact .refl _
  · exact (flipsOnly_promoteEnvironment promoted unique :)

theorem flipsOnly_reconcileEnvironments {ps : PromotionStrategy}
    {proposedCommitOf : String → ProposedCommit} (environments : List Environment)
    (state : ReconcileState) (unique : PullRequestKeysUnique state.pullRequests) :
    FlipsOnly state.pullRequests
      (reconcileEnvironments ps proposedCommitOf state environments).1.pullRequests := by
  refine (reconcileEnvironments_induction (fun reached => PullRequestKeysUnique reached.pullRequests ∧
    FlipsOnly state.pullRequests reached.pullRequests) ⟨unique, .refl _⟩ ?_).2
  rintro before next _ _ ⟨uniqueBefore, flips⟩ step
  have stepFlips := flipsOnly_reconcileEnvironment uniqueBefore step
  exact ⟨uniqueBefore.of_flipsOnly stepFlips, flips.trans stepFlips⟩

theorem flipsOnly_reconcile (store : CommitStatusStore) {pullRequests : List PullRequest}
    (ps : PromotionStrategy) (proposedCommitOf : String → ProposedCommit)
    (unique : PullRequestKeysUnique pullRequests) :
    FlipsOnly pullRequests (reconcile store pullRequests ps proposedCommitOf).1.pullRequests := by
  unfold reconcile
  split
  · exact .refl _
  · exact flipsOnly_reconcileEnvironments _ ⟨store, pullRequests, []⟩ unique

theorem merged_prefix_reconcileEnvironments {ps : PromotionStrategy}
    {proposedCommitOf : String → ProposedCommit} (environments : List Environment)
    (state : ReconcileState) :
    state.merged <+: (reconcileEnvironments ps proposedCommitOf state environments).1.merged := by
  refine reconcileEnvironments_induction (fun reached => state.merged <+: reached.merged)
    (List.prefix_refl _) ?_
  rintro before next _ _ grown step
  rcases reconcileEnvironment_merged step with same | ⟨appended, _⟩
  · exact same ▸ grown
  · exact appended ▸ grown.trans (List.prefix_append _ _)

theorem FlipsOnly.mem_of_isOpenOpen_eq_false {before after : List PullRequest}
    (flips : FlipsOnly before after) {pr : PullRequest} (member : pr ∈ before)
    (notOpen : pr.isOpenOpen = false) : pr ∈ after := by
  induction flips with
  | nil => cases member
  | cons kept _ ih =>
      rcases List.mem_cons.mp member with rfl | later
      · rcases kept with rfl | ⟨openOpen, _⟩
        · exact List.mem_cons_self _ _
        · simp [openOpen] at notOpen
      · exact List.mem_cons_of_mem _ (ih later)

theorem statusLookups_of_first {store : CommitStatusStore} {ps : PromotionStrategy}
    {proposedCommitOf : String → ProposedCommit} (distinct : ps.specBranches.Nodup)
    {first : Environment} {rest : List Environment} (split : ps.spec.environments = first :: rest) :
    (getEnvironmentStatusByBranch (rolledUpStrategy store ps proposedCommitOf) first.branch).1 = 0 ∧
      (getPreviousEnvironmentStatusByBranch (rolledUpStrategy store ps proposedCommitOf)
        first.branch).2 = none := by
  have absent : first.branch ∉
      (rest.map (rolledUpEnvironmentStatus store ps proposedCommitOf)).map (·.branch) := by
    rw [PromotionStrategy.specBranches, split, List.map_cons, List.nodup_cons] at distinct
    simpa [List.map_map, Function.comp_def] using distinct.1
  rw [getEnvironmentStatusByBranch, getPreviousEnvironmentStatusByBranch,
    @getEnvironmentsFromStatusInOrder_rolledUpStrategy store ps proposedCommitOf distinct, split,
    List.map_cons]
  constructor
  · simp [environmentStatusByBranch]
  · simp only [previousEnvironmentStatus, previousEnvironmentStatus_of_not_mem _ _ _ _ absent]

theorem reconcileEnvironment_first {store : CommitStatusStore} {ps : PromotionStrategy}
    {proposedCommitOf : String → ProposedCommit} (distinct : ps.specBranches.Nodup)
    {first : Environment} {rest : List Environment} (split : ps.spec.environments = first :: rest)
    (autoMerge : first.getAutoMerge = true) {pullRequests : List PullRequest}
    (unique : PullRequestKeysUnique pullRequests) {pr : PullRequest} {others : List PullRequest}
    (listed : listPullRequests pullRequests (pullRequestSelector ps (proposedCommitOf first.branch) first) =
      pr :: others) (openOpen : pr.isOpenOpen) :
    reconcileEnvironment (rolledUpStrategy store ps proposedCommitOf) proposedCommitOf
        ⟨store, pullRequests, []⟩ first =
      .ok ⟨store, updatePullRequest pullRequests (mergedVersion pr), [first.branch]⟩ := by
  obtain ⟨index, previous⟩ := @statusLookups_of_first store ps proposedCommitOf distinct _ _ split
  have member : pr ∈ pullRequests := (mem_of_listPullRequests_eq_cons listed).1
  have selector : pullRequestSelector (rolledUpStrategy store ps proposedCommitOf) =
      pullRequestSelector ps := rfl
  simp only [reconcileEnvironment, previous, copyForward, activeChecksPassed, index, mergeGate,
    autoMerge, beq_self_eq_true, Bool.true_or, Bool.and_self, if_true, promoteEnvironment, selector,
    listed, openOpen, mergePullRequestSpec, getPullRequest_of_mem unique member, List.nil_append]

theorem reconcile_flips_first {store : CommitStatusStore} {ps : PromotionStrategy}
    {proposedCommitOf : String → ProposedCommit} (distinct : ps.specBranches.Nodup)
    (ordered : ps.status.map (·.branch) <+: ps.specBranches) {first : Environment}
    {rest : List Environment} (split : ps.spec.environments = first :: rest)
    (autoMerge : first.getAutoMerge = true) {pullRequests : List PullRequest}
    (unique : PullRequestKeysUnique pullRequests) {pr : PullRequest} {others : List PullRequest}
    (listed : listPullRequests pullRequests (pullRequestSelector ps (proposedCommitOf first.branch) first) =
      pr :: others) (openOpen : pr.isOpenOpen) :
    first.branch ∈ (reconcile store pullRequests ps proposedCommitOf).1.merged ∧
      mergedVersion pr ∈ (reconcile store pullRequests ps proposedCommitOf).1.pullRequests := by
  have member : pr ∈ pullRequests := (mem_of_listPullRequests_eq_cons listed).1
  have flipped : mergePullRequestSpec pullRequests pr =
      .ok (updatePullRequest pullRequests (mergedVersion pr)) := by
    simp [mergePullRequestSpec, getPullRequest_of_mem unique member]
  have stillUnique := unique.of_flipsOnly (flipsOnly_mergePullRequestSpec unique member openOpen flipped)
  rw [reconcile, calculateStatus_of_ordered store ps proposedCommitOf distinct ordered]
  show first.branch ∈ (reconcileEnvironments (rolledUpStrategy store ps proposedCommitOf)
      proposedCommitOf ⟨store, pullRequests, []⟩ ps.spec.environments).1.merged ∧
    mergedVersion pr ∈ (reconcileEnvironments (rolledUpStrategy store ps proposedCommitOf)
      proposedCommitOf ⟨store, pullRequests, []⟩ ps.spec.environments).1.pullRequests
  rw [split, reconcileEnvironments,
    reconcileEnvironment_first distinct split autoMerge unique listed openOpen]
  exact ⟨(merged_prefix_reconcileEnvironments rest _).subset (List.mem_singleton_self _),
    (flipsOnly_reconcileEnvironments rest _ stillUnique).mem_of_isOpenOpen_eq_false
      (List.mem_map.mpr ⟨pr, member, if_pos ⟨rfl, rfl⟩⟩) (isOpenOpen_mergedVersion pr)⟩

/-- `env/test`, without keys and with the default auto-merge. -/
def testEnvironment : Environment := ⟨"env/test", none, [], []⟩

/-- `env/dev`, checked by `lint` and `health`, then `env/test`; no prior status. -/
def maskedPipelineStrategy : PromotionStrategy :=
  ⟨"ps", ⟨[], [], [maskedKeysEnvironment, testEnvironment]⟩, []⟩

/-- `env/dev` runs dry `d1` (hydrated `h1`), committed at 2; `env/test` runs dry `d0`,
committed at 1, and is proposed `d1`. -/
def pipelineProposedCommit (branch : String) : ProposedCommit :=
  if branch = "env/dev" then resolvedProposedCommit "ps-env-dev" "d1" "h1" "d2" "n1" 2
  else resolvedProposedCommit "ps-env-test" "d0" "t1" "d1" "t2" 1

/-- The open PullRequest of `env/test`, labelled for the strategy `ps`. -/
def testPullRequest : PullRequest :=
  { openPullRequest with
    labels := [(promotionStrategyLabel, "ps"), (proposedCommitLabel, "ps-env-test"),
      (environmentLabel, "env-test")] }

theorem merge_requires_predecessor_gate_of_maskedPipeline :
    maskedPipelineStrategy.specBranches.Nodup ∧
      maskedPipelineStrategy.status.map (·.branch) <+: maskedPipelineStrategy.specBranches ∧
      testEnvironment.branch ∈
        (reconcile maskedKeysStore [testPullRequest] maskedPipelineStrategy pipelineProposedCommit).1.merged ∧
      testEnvironment.getAutoMerge = true ∧
      (pipelineProposedCommit maskedKeysEnvironment.branch).status.active.dry.sha =
        (pipelineProposedCommit testEnvironment.branch).status.proposed.dry.sha ∧
      (pipelineProposedCommit testEnvironment.branch).status.active.dry.commitTime <
        (pipelineProposedCommit maskedKeysEnvironment.branch).status.active.dry.commitTime ∧
      collectedCommitStatuses maskedKeysStore
          (pipelineProposedCommit maskedKeysEnvironment.branch).status.active.hydrated.sha
          (activeCommitStatusList maskedPipelineStrategy maskedKeysEnvironment) ≠ [] ∧
      FirstUnhealthyIsSuccess (collectedCommitStatuses maskedKeysStore
        (pipelineProposedCommit maskedKeysEnvironment.branch).status.active.hydrated.sha
        (activeCommitStatusList maskedPipelineStrategy maskedKeysEnvironment)) :=
  ⟨by decide, by decide, by decide,
    @merge_requires_predecessor_gate maskedKeysStore maskedPipelineStrategy pipelineProposedCommit
      (by decide) (by decide) [] [] maskedKeysEnvironment testEnvironment rfl [testPullRequest]
      (by decide)⟩

/-- The invocation flips `env/test`'s PullRequest although `lint`, a key of `env/dev`, has no
record at `env/dev`'s active hydrated sha: `health` alone makes the rollup `success`. -/
theorem merge_with_unreported_predecessor_key :
    testEnvironment.branch ∈
        (reconcile maskedKeysStore [testPullRequest] maskedPipelineStrategy pipelineProposedCommit).1.merged ∧
      (⟨"lint"⟩ : CommitStatusSelector) ∈
        activeCommitStatusList maskedPipelineStrategy maskedKeysEnvironment ∧
      (pipelineProposedCommit maskedKeysEnvironment.branch).status.active.hydrated.sha = "h1" ∧
      (nonCopies (listCommitStatuses maskedKeysStore "lint" "h1")).length = 0 := by
  decide

end GitOpsPromoter
