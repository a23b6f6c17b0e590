import GitOpsPromoter.CalculateStatus

/-!
# What a rollup says about the store

The key loop keeps, for each key, the single non-copy record at the hydrated sha, and drops
keys with none or several after setting the rollup to a sentinel.  When at least one record
was kept, the active rollup is decided by the kept records alone: `success` unless the first
kept record with a non-`success` observed state carries another spec state.  Keys that kept
nothing no longer count then.  With a prior status in spec order every environment's entry
carries its own rollups (`calculateStatus_of_ordered`); with another order it need not.
-/

namespace GitOpsPromoter

/-- The record a key contributes to the collected list: its non-copy match, when it has
exactly one. -/
def singleMatch (store : CommitStatusStore) (sha : String) (status : CommitStatusSelector) :
    Option CommitStatus :=
  match nonCopies (listCommitStatuses store status.key sha) with
  | [commitStatus] => some commitStatus
  | _ => none

/-- The records the key loop collects over `keys`. -/
def collectedCommitStatuses (store : CommitStatusStore) (sha : String)
    (keys : List CommitStatusSelector) : List CommitStatus :=
  keys.filterMap (singleMatch store sha)

/-- A rollup from collected records is `success` when the first record whose observed state
is not `success`, if any, has spec state `success`. -/
def FirstUnhealthyIsSuccess (collected : List CommitStatus) : Prop :=
  ∀ commitStatus, collected.find? (fun item => item.status.state != "success") = some commitStatus →
    commitStatus.spec.state = "success"

theorem singleMatch_eq_some_iff_length (store : CommitStatusStore) (sha : String)
    (status : CommitStatusSelector) :
    (singleMatch store sha status).isSome ↔
      (nonCopies (listCommitStatuses store status.key sha)).length = 1 := by
  unfold singleMatch
  split <;> simp_all [List.length_eq_one]

theorem collectedCommitStatuses_ne_nil_iff (store : CommitStatusStore) (sha : String)
    (keys : List CommitStatusSelector) :
    collectedCommitStatuses store sha keys ≠ [] ↔
      ∃ status ∈ keys, (nonCopies (listCommitStatuses store status.key sha)).length = 1 := by
  simp only [collectedCommitStatuses, ne_eq, List.filterMap_eq_nil_iff, not_forall,
    ← singleMatch_eq_some_iff_length, Option.isSome_iff_ne_none, exists_prop]

theorem collectCommitStatuses_collected (store : CommitStatusStore) (sha : String)
    (keys : List CommitStatusSelector) (summary : PromotionStrategyCommitStatus)
    (collected : List CommitStatus) :
    (collectCommitStatuses store sha keys summary collected).2 =
      collected ++ collectedCommitStatuses store sha keys := by
  induction keys generalizing summary collected with
  | nil => simp [collectCommitStatuses, collectedCommitStatuses]
  | cons status keys ih =>
      simp only [collectCommitStatuses, collectedCommitStatuses, List.filterMap_cons, singleMatch]
      split <;> simp_all [collectedCommitStatuses]

theorem collectCommitStatuses_summary_of_sentinel (store : CommitStatusStore) (sha : String)
    (keys : List CommitStatusSelector) {summary : PromotionStrategyCommitStatus}
    (collected : List CommitStatus) (sentinel : summary ∈ [toManyMatchingSha, noCommitStatusFound]) :
    (collectCommitStatuses store sha keys summary collected).1 ∈
      [toManyMatchingSha, noCommitStatusFound] := by
  induction keys generalizing summary collected with
  | nil => exact sentinel
  | cons status keys ih =>
      simp only [collectCommitStatuses]
      split
      · exact ih _ sentinel
      · exact ih _ (by simp)
      · exact ih _ (by simp)

theorem collectCommitStatuses_summary (store : CommitStatusStore) (sha : String)
    (keys : List CommitStatusSelector) (summary : PromotionStrategyCommitStatus)
    (collected : List CommitStatus) :
    (collectCommitStatuses store sha keys summary collected).1 ∈
      [summary, toManyMatchingSha, noCommitStatusFound] := by
  induction keys generalizing summary collected with
  | nil => simp [collectCommitStatuses]
  | cons status keys ih =>
      simp only [collectCommitStatuses]
      split
      · exact ih summary _
      all_goals exact .tail _ (collectCommitStatuses_summary_of_sentinel store sha keys _ (by simp))

theorem collectCommitStatuses_summary_of_unmatched (store : CommitStatusStore) (sha : String)
    (keys : List CommitStatusSelector) (summary : PromotionStrategyCommitStatus)
    (collected : List CommitStatus) (unmatched : ∃ status ∈ keys, singleMatch store sha status = none) :
    (collectCommitStatuses store sha keys summary collected).1 ∈
      [toManyMatchingSha, noCommitStatusFound] := by
  induction keys generalizing summary collected with
  | nil => simp at unmatched
  | cons status keys ih =>
      simp only [List.mem_cons] at unmatched
      simp only [collectCommitStatuses]
      split
      · rename_i single
        obtain ⟨other, (rfl | member), none⟩ := unmatched
        · simp [singleMatch, single] at none
        · exact ih summary _ ⟨other, member, none⟩
      · exact collectCommitStatuses_summary_of_sentinel store sha keys collected (by simp)
      · exact collectCommitStatuses_summary_of_sentinel store sha keys collected (by simp)

theorem bubbleUpSuccess_state_eq_success_iff (summary : PromotionStrategyCommitStatus)
    (collected : List CommitStatus) :
    (bubbleUpSuccess summary collected).state = "success" ↔ FirstUnhealthyIsSuccess collected := by
  unfold bubbleUpSuccess FirstUnhealthyIsSuccess
  split
  · rename_i commitStatus found
    simp [found]
  · rename_i found
    simp [found]

@[simp]
theorem bubbleUpProposed_active (store : CommitStatusStore) (ps : PromotionStrategy)
    (environment : Environment) (pc : ProposedCommit) (allActiveCSList : List CommitStatus)
    (entry : EnvironmentStatus) :
    (bubbleUpProposed store ps environment pc allActiveCSList entry).active = entry.active := by
  unfold bubbleUpProposed
  dsimp only
  split <;> rfl

theorem rolledUpEnvironmentStatus_active (store : CommitStatusStore) (ps : PromotionStrategy)
    (proposedCommitOf : String → ProposedCommit) (environment : Environment) :
    (rolledUpEnvironmentStatus store ps proposedCommitOf environment).active.commitStatus =
      let sha := (proposedCommitOf environment.branch).status.active.hydrated.sha
      let keyLoop := collectCommitStatuses store sha (activeCommitStatusList ps environment)
        ⟨"unknown", "unknown"⟩ []
      if collectedCommitStatuses store sha (activeCommitStatusList ps environment) = [] then keyLoop.1
      else bubbleUpSuccess keyLoop.1 (collectedCommitStatuses store sha (activeCommitStatusList ps environment)) := by
  simp only [rolledUpEnvironmentStatus, bubbleUp, bubbleUpProposed_active]
  unfold bubbleUpActive
  simp only [collectCommitStatuses_collected, List.nil_append, initialEnvironmentStatus,
    List.isEmpty_iff]
  split <;> rfl

theorem rolledUpEnvironmentStatus_proposed_of_nil (store : CommitStatusStore) (ps : PromotionStrategy)
    (proposedCommitOf : String → ProposedCommit) {environment : Environment}
    (noKeys : proposedCommitStatusList ps environment = []) :
    (rolledUpEnvironmentStatus store ps proposedCommitOf environment).proposed.commitStatus =
      ⟨"success", (proposedCommitOf environment.branch).status.active.hydrated.sha⟩ := by
  simp only [rolledUpEnvironmentStatus, bubbleUp]
  unfold bubbleUpProposed
  simp [noKeys, collectCommitStatuses]

@[simp]
theorem rolledUpEnvironmentStatus_active_dry (store : CommitStatusStore) (ps : PromotionStrategy)
    (proposedCommitOf : String → ProposedCommit) (environment : Environment) :
    (rolledUpEnvironmentStatus store ps proposedCommitOf environment).active.dry =
      (proposedCommitOf environment.branch).status.active.dry := by
  simp only [rolledUpEnvironmentStatus, bubbleUp, bubbleUpProposed_active]
  unfold bubbleUpActive
  dsimp only
  split <;> rfl

theorem rolledUpEnvironmentStatus_active_success {store : CommitStatusStore} {ps : PromotionStrategy}
    {proposedCommitOf : String → ProposedCommit} {environment : Environment}
    (success : (rolledUpEnvironmentStatus store ps proposedCommitOf environment).active.commitStatus.state =
      "success") :
    collectedCommitStatuses store (proposedCommitOf environment.branch).status.active.hydrated.sha
        (activeCommitStatusList ps environment) ≠ [] ∧
      FirstUnhealthyIsSuccess (collectedCommitStatuses store
        (proposedCommitOf environment.branch).status.active.hydrated.sha
        (activeCommitStatusList ps environment)) := by
  rw [rolledUpEnvironmentStatus_active] at success
  dsimp only at success
  split at success
  · have summary := collectCommitStatuses_summary store
      (proposedCommitOf environment.branch).status.active.hydrated.sha
      (activeCommitStatusList ps environment) ⟨"unknown", "unknown"⟩ []
    simp only [List.mem_cons, List.mem_singleton, List.not_mem_nil, or_false] at summary
    rcases summary with same | same | same <;> rw [same] at success <;>
      simp [toManyMatchingSha, noCommitStatusFound] at success
  · exact ⟨‹_›, (bubbleUpSuccess_state_eq_success_iff _ _).mp success⟩

theorem entryOf_map_of_nodup (label : Environment → EnvironmentStatus)
    (labelBranch : ∀ environment, (label environment).branch = environment.branch)
    {environments : List Environment} (distinct : (environments.map (·.branch)).Nodup)
    {environment : Environment} (member : environment ∈ environments) :
    entryOf (environments.map label) environment.branch = some (label environment) := by
  induction environments with
  | nil => simp at member
  | cons first environments ih =>
      simp only [List.map_cons, List.nodup_cons] at distinct
      rcases List.mem_cons.mp member with rfl | later
      · simp [entryOf, labelBranch]
      · have other : first.branch ≠ environment.branch := fun same =>
          distinct.1 (same ▸ List.mem_map_of_mem _ later)
        simpa [entryOf, labelBranch, other] using ih distinct.2 later

section Ordered

variable (store : CommitStatusStore) (ps : PromotionStrategy)
  (proposedCommitOf : String → ProposedCommit)

theorem entryOf_calculateStatus_of_ordered (distinct : ps.specBranches.Nodup)
    (ordered : ps.status.map (·.branch) <+: ps.specBranches)
    {environment : Environment} (member : environment ∈ ps.spec.environments) :
    ∃ statuses, calculateStatus store ps (proposedCommitMap ps.spec.environments proposedCommitOf) =
        .ok statuses ∧
      entryOf statuses environment.branch =
        some (rolledUpEnvironmentStatus store ps proposedCommitOf environment) :=
  ⟨_, calculateStatus_of_ordered store ps proposedCommitOf distinct ordered,
    entryOf_map_of_nodup _ (rolledUpEnvironmentStatus_branch store ps proposedCommitOf) distinct member⟩

/-- The active rollup of an environment, after `calculateStatus` on a prior status in spec
order.  When some key matched exactly one non-copy record, it is `success` exactly when the
first collected record with a non-`success` observed state, if any, has spec state `success`;
keys that matched none or several do not count.  When no key matched exactly once, a
non-empty key list leaves a sentinel. -/
theorem activeRollup_of_ordered (distinct : ps.specBranches.Nodup)
    (ordered : ps.status.map (·.branch) <+: ps.specBranches)
    {environment : Environment} (member : environment ∈ ps.spec.environments) :
    ∃ statuses entry,
      calculateStatus store ps (proposedCommitMap ps.spec.environments proposedCommitOf) =
        .ok statuses ∧
      entryOf statuses environment.branch = some entry ∧
      ((∃ status ∈ activeCommitStatusList ps environment,
          (nonCopies (listCommitStatuses store status.key
            (proposedCommitOf environment.branch).status.active.hydrated.sha)).length = 1) →
        (entry.active.commitStatus.state = "success" ↔
          FirstUnhealthyIsSuccess (collectedCommitStatuses store
            (proposedCommitOf environment.branch).status.active.hydrated.sha
            (activeCommitStatusList ps environment)))) ∧
      (activeCommitStatusList ps environment ≠ [] →
        (∀ status ∈ activeCommitStatusList ps environment,
          (nonCopies (listCommitStatuses store status.key
            (proposedCommitOf environment.branch).status.active.hydrated.sha)).length ≠ 1) →
        entry.active.commitStatus ∈ [toManyMatchingSha, noCommitStatusFound]) := by
  obtain ⟨statuses, calculated, found⟩ :=
    entryOf_calculateStatus_of_ordered store ps proposedCommitOf distinct ordered member
  refine ⟨statuses, _, calculated, found, fun someSingle => ?_, fun nonempty noSingle => ?_⟩
  · have collectedNonempty := (collectedCommitStatuses_ne_nil_iff _ _ _).mpr someSingle
    rw [rolledUpEnvironmentStatus_active, if_neg collectedNonempty]
    exact bubbleUpSuccess_state_eq_success_iff _ _
  · have collectedEmpty : collectedCommitStatuses store
        (proposedCommitOf environment.branch).status.active.hydrated.sha
        (activeCommitStatusList ps environment) = [] := by
      by_contra nonEmpty
      obtain ⟨status, keyMember, single⟩ := (collectedCommitStatuses_ne_nil_iff _ _ _).mp nonEmpty
      exact noSingle status keyMember single
    obtain ⟨first, rest, keys⟩ := List.exists_cons_of_ne_nil nonempty
    have unmatched : singleMatch store (proposedCommitOf environment.branch).status.active.hydrated.sha
        first = none := by
      simpa using mt (singleMatch_eq_some_iff_length _ _ first).mp (noSingle first (by simp [keys]))
    rw [rolledUpEnvironmentStatus_active, if_pos collectedEmpty]
    exact collectCommitStatuses_summary_of_unmatched _ _ _ _ _ ⟨first, by simp [keys], unmatched⟩

/-- An environment without proposed keys rolls its proposed side up to `success`, with the
active hydrated sha. -/
theorem proposedRollup_of_ordered_without_keys (distinct : ps.specBranches.Nodup)
    (ordered : ps.status.map (·.branch) <+: ps.specBranches)
    {environment : Environment} (member : environment ∈ ps.spec.environments)
    (noKeys : proposedCommitStatusList ps environment = []) :
    ∃ statuses entry,
      calculateStatus store ps (proposedCommitMap ps.spec.environments proposedCommitOf) =
        .ok statuses ∧
      entryOf statuses environment.branch = some entry ∧
      entry.proposed.commitStatus =
        ⟨"success", (proposedCommitOf environment.branch).status.active.hydrated.sha⟩ := by
  obtain ⟨statuses, calculated, found⟩ :=
    entryOf_calculateStatus_of_ordered store ps proposedCommitOf distinct ordered member
  exact ⟨statuses, _, calculated, found,
    rolledUpEnvironmentStatus_proposed_of_nil store ps proposedCommitOf noKeys⟩

end Ordered

/-- A resolved ProposedCommit: its four commits, all at `time`. -/
def resolvedProposedCommit (name activeDry activeHydrated proposedDry proposedHydrated : String)
    (time : Int) : ProposedCommit :=
  ⟨name, ⟨⟨⟨activeDry, time⟩, ⟨activeHydrated, time⟩⟩, ⟨⟨proposedDry, time⟩, ⟨proposedHydrated, time⟩⟩⟩⟩

/-- A CommitStatus `name` reporting `key` on `sha`, with its spec and observed states. -/
def reportedCommitStatus (name key sha specState statusState : String) : CommitStatus where
  «namespace» := "default"
  name := name
  labels := [(commitStatusLabel, key)]
  annotations := []
  spec := ⟨⟨"owner", "repository"⟩, sha, name, "", specState, ""⟩
  status := ⟨statusState⟩

/-- An environment with two active and two proposed keys. -/
def maskedKeysEnvironment : Environment :=
  ⟨"env/dev", none, [⟨"lint"⟩, ⟨"health"⟩], [⟨"scan"⟩, ⟨"freeze"⟩]⟩

/-- A strategy of `maskedKeysEnvironment` alone, with an empty prior status. -/
def maskedKeysStrategy : PromotionStrategy :=
  ⟨"ps", ⟨[], [], [maskedKeysEnvironment]⟩, []⟩

/-- Successful records for the second active and the second proposed key of
`maskedKeysEnvironment`; the first keys have none. -/
def maskedKeysStore : CommitStatusStore :=
  [reportedCommitStatus "health" "health" "h1" "success" "success",
    reportedCommitStatus "freeze" "freeze" "n1" "success" "success"]

/-- The ProposedCommit of `maskedKeysStrategy`: active hydrated `h1`, proposed hydrated `n1`. -/
def maskedKeysProposedCommit (_ : String) : ProposedCommit :=
  resolvedProposedCommit "ps-env-dev" "d1" "h1" "d2" "n1" 0

theorem activeRollup_of_maskedKeys :
    maskedKeysStrategy.specBranches.Nodup ∧
      maskedKeysStrategy.status.map (·.branch) <+: maskedKeysStrategy.specBranches ∧
      ∃ statuses entry,
        calculateStatus maskedKeysStore maskedKeysStrategy
            (proposedCommitMap maskedKeysStrategy.spec.environments maskedKeysProposedCommit) =
          .ok statuses ∧
        entryOf statuses "env/dev" = some entry ∧
        ((∃ status ∈ activeCommitStatusList maskedKeysStrategy maskedKeysEnvironment,
            (nonCopies (listCommitStatuses maskedKeysStore status.key "h1")).length = 1) →
          (entry.active.commitStatus.state = "success" ↔
            FirstUnhealthyIsSuccess (collectedCommitStatuses maskedKeysStore "h1"
              (activeCommitStatusList maskedKeysStrategy maskedKeysEnvironment)))) ∧
        (activeCommitStatusList maskedKeysStrategy maskedKeysEnvironment ≠ [] →
          (∀ status ∈ activeCommitStatusList maskedKeysStrategy maskedKeysEnvironment,
            (nonCopies (listCommitStatuses maskedKeysStore status.key "h1")).length ≠ 1) →
          entry.active.commitStatus ∈ [toManyMatchingSha, noCommitStatusFound]) :=
  ⟨by decide, by decide,
    @activeRollup_of_ordered maskedKeysStore maskedKeysStrategy maskedKeysProposedCommit
      (by decide) (by decide) maskedKeysEnvironment (by simp [maskedKeysStrategy])⟩

/-- The active rollup of `env/dev` is `success`, although its key `lint` has no record. -/
theorem activeRollup_success_with_unreported_key :
    (rollupsOf (calculateStatus maskedKeysStore maskedKeysStrategy
        (proposedCommitMap maskedKeysStrategy.spec.environments maskedKeysProposedCommit))
        "env/dev").map (·.1.state) = some "success" ∧
      (nonCopies (listCommitStatuses maskedKeysStore "lint" "h1")).length = 0 := by
  decide

theorem proposedRollup_of_keylessEnvironment :
    let ps : PromotionStrategy := ⟨"ps", ⟨[], [], [⟨"env/dev", none, [], []⟩]⟩, []⟩
    ps.specBranches.Nodup ∧ ps.status.map (·.branch) <+: ps.specBranches ∧
      proposedCommitStatusList ps ⟨"env/dev", none, [], []⟩ = [] ∧
      ∃ statuses entry,
        calculateStatus [] ps (proposedCommitMap ps.spec.environments maskedKeysProposedCommit) =
          .ok statuses ∧
        entryOf statuses "env/dev" = some entry ∧
        entry.proposed.commitStatus = ⟨"success", "h1"⟩ :=
  ⟨by decide, by decide, rfl,
    @proposedRollup_of_ordered_without_keys [] ⟨"ps", ⟨[], [], [⟨"env/dev", none, [], []⟩]⟩, []⟩
      maskedKeysProposedCommit (by decide) (by decide) ⟨"env/dev", none, [], []⟩ (by simp) rfl⟩

/-- The proposed rollup of `env/dev` is `success`, although its key `scan` has no record. -/
theorem proposedRollup_success_with_unreported_key :
    (rollupsOf (calculateStatus maskedKeysStore maskedKeysStrategy
        (proposedCommitMap maskedKeysStrategy.spec.environments maskedKeysProposedCommit))
        "env/dev").map (·.2.state) = some "success" ∧
      (nonCopies (listCommitStatuses maskedKeysStore "scan" "n1")).length = 0 := by
  decide

/-- Two environments, `env/dev` then `env/test`, without keys. -/
def swappedEnvironments : List Environment :=
  [⟨"env/dev", none, [], []⟩, ⟨"env/test", none, [], []⟩]

/-- The ProposedCommits of `swappedEnvironments`, at active hydrated `hDev` and `hTest`. -/
def swappedProposedCommit (branch : String) : ProposedCommit :=
  if branch = "env/dev" then resolvedProposedCommit "ps-env-dev" "d1" "hDev" "d1" "nDev" 0
  else resolvedProposedCommit "ps-env-test" "d1" "hTest" "d1" "nTest" 0

/-- The strategy of `swappedEnvironments` with a prior status listing `env/test` first. -/
def swappedStrategy : PromotionStrategy :=
  ⟨"ps", ⟨[], [], swappedEnvironments⟩,
    [initialEnvironmentStatus "env/test" (swappedProposedCommit "env/test"),
      initialEnvironmentStatus "env/dev" (swappedProposedCommit "env/dev")]⟩

/-- With the prior status in the other order, the rollup of `env/test` (its active hydrated
sha `hTest`) lands in the entry of `env/dev`, and the entry of `env/test` keeps `unknown`. -/
theorem calculateStatus_writes_rollup_into_other_branch :
    rollupsOf (calculateStatus [] swappedStrategy
        (proposedCommitMap swappedEnvironments swappedProposedCommit)) "env/dev" =
      some (⟨"unknown", "unknown"⟩, ⟨"success", "hTest"⟩) ∧
    rollupsOf (calculateStatus [] swappedStrategy
        (proposedCommitMap swappedEnvironments swappedProposedCommit)) "env/test" =
      some (⟨"unknown", "unknown"⟩, ⟨"unknown", "unknown"⟩) := by
  decide

end GitOpsPromoter
