import Mathlib.Data.List.Basic

/-!
# Resources of the promoter API

The records of `promoter.argoproj.io/v1alpha1` that the PromotionStrategy and PullRequest
reconcilers read and write, with the fields those reconcilers use.  Go's string-typed
enumerations (`CommitStatusState`, the rolled-up states) stay strings, since the reconcilers
compare and copy them as strings; `PullRequestState` is a closed enumeration.

Labels are Go maps `map[string]string`.  They are modelled as association lists on which
`setLabel` keeps one entry per key, so that `lookup` is the map read.
-/

namespace GitOpsPromoter

/-- A Go `map[string]string` of labels or annotations. -/
abbrev Labels := List (String × String)

/-- `labels[key]` in Go: the value, or `""` when the key is absent. -/
def labelValue (labels : Labels) (key : String) : String :=
  (labels.lookup key).getD ""

/-- `labels[key] = value` in Go. -/
def setLabel (labels : Labels) (key value : String) : Labels :=
  (key, value) :: labels.filter (fun entry => entry.1 != key)

/-- A selector built by `labels.SelectorFromSet` matches an object exactly when every pair
of the set is present among the object's labels. -/
def matchesLabels (selector labels : Labels) : Bool :=
  selector.all fun entry => labels.lookup entry.1 == some entry.2

@[simp]
theorem lookup_setLabel_self (labels : Labels) (key value : String) :
    (setLabel labels key value).lookup key = some value := by
  simp [setLabel]

theorem lookup_setLabel_of_ne (labels : Labels) {key other : String} (value : String)
    (distinct : other ≠ key) :
    (setLabel labels key value).lookup other = labels.lookup other := by
  have keyNe : (other == key) = false := by simpa using distinct
  simp only [setLabel, List.lookup_cons, keyNe]
  induction labels with
  | nil => rfl
  | cons entry rest ih =>
      obtain ⟨entryKey, entryValue⟩ := entry
      by_cases same : entryKey = key
      · simp [List.filter_cons, same, List.lookup_cons, keyNe, ih]
      · simp [List.filter_cons, same, List.lookup_cons, ih]

/-- The label keys the promoter reserves. -/
def promotionStrategyLabel : String := "promoter.argoproj.io/promotion-strategy"
def proposedCommitLabel : String := "promoter.argoproj.io/proposed-commit"
def environmentLabel : String := "promoter.argoproj.io/environment"
def commitStatusLabel : String := "promoter.argoproj.io/commit-status"
def commitStatusCopyLabel : String := "promoter.argoproj.io/commit-status-copy"
def commitStatusCopyFromLabel : String := "promoter.argoproj.io/commit-status-copy-from"
def commitStatusCopyFromShaLabel : String := "promoter.argoproj.io/commit-status-copy-from-sha"
def commitStatusCopyFromBranchLabel : String :=
  "promoter.argoproj.io/commit-status-copy-from-branch"

/-- `Repository`: the owner and name of a repository on its SCM provider. -/
structure Repository where
  owner : String
  name : String
  deriving DecidableEq, Repr

/-- `CommitStatusSpec`. -/
structure CommitStatusSpec where
  repositoryReference : Repository
  sha : String
  name : String
  description : String
  state : String
  url : String
  deriving DecidableEq, Repr

/-- `CommitStatusStatus`, of which the reconcilers read only the observed state. -/
structure CommitStatusStatus where
  state : String
  deriving DecidableEq, Repr

/-- A `CommitStatus` record: its object metadata, spec and status. -/
structure CommitStatus where
  «namespace» : String
  name : String
  labels : Labels
  annotations : Labels
  spec : CommitStatusSpec
  status : CommitStatusStatus
  deriving DecidableEq, Repr

/-- A copy made by `copyCommitStatuses`: its copy label is `"true"`. -/
def CommitStatus.isCopy (commitStatus : CommitStatus) : Bool :=
  labelValue commitStatus.labels commitStatusCopyLabel == "true"

/-- `CommitStatusSelector`: one status-check key. -/
structure CommitStatusSelector where
  key : String
  deriving DecidableEq, Repr

/-- `Environment`: one stage of the promotion pipeline. -/
structure Environment where
  branch : String
  autoMerge : Option Bool
  activeCommitStatuses : List CommitStatusSelector
  proposedCommitStatuses : List CommitStatusSelector
  deriving DecidableEq, Repr

/-- Modelled from the spec: `Environment.GetAutoMerge`, declared with the API types and absent
from the sources, reads the optional `autoMerge` flag with default true. -/
def Environment.getAutoMerge (environment : Environment) : Bool :=
  environment.autoMerge.getD true

/-- `ProposedCommitShaState`: a commit and its commit time (`metav1.Time`, as an integer
timestamp; `After` is strict comparison). -/
structure ShaState where
  sha : String
  commitTime : Int
  deriving DecidableEq, Repr

/-- `PromotionStrategyCommitStatus`: a rolled-up commit status. -/
structure PromotionStrategyCommitStatus where
  state : String
  sha : String
  deriving DecidableEq, Repr

/-- `PromotionStrategyBranchStateStatus`: one side (active or proposed) of an environment. -/
structure PromotionStrategyBranchStateStatus where
  dry : ShaState
  hydrated : ShaState
  commitStatus : PromotionStrategyCommitStatus
  deriving DecidableEq, Repr

/-- `HealthyDryShas`: an entry of the capped history of healthy dry commits. -/
structure HealthyDryShas where
  sha : String
  time : Int
  deriving DecidableEq, Repr

/-- `EnvironmentStatus`: the status entry of one environment, keyed by its branch. -/
structure EnvironmentStatus where
  branch : String
  active : PromotionStrategyBranchStateStatus
  proposed : PromotionStrategyBranchStateStatus
  lastHealthyDryShas : List HealthyDryShas
  deriving DecidableEq, Repr

/-- `PromotionStrategySpec`, without the repository reference no modelled function reads. -/
structure PromotionStrategySpec where
  activeCommitStatuses : List CommitStatusSelector
  proposedCommitStatuses : List CommitStatusSelector
  environments : List Environment
  deriving DecidableEq, Repr

/-- A `PromotionStrategy`: its name, spec and `Status.Environments`. -/
structure PromotionStrategy where
  name : String
  spec : PromotionStrategySpec
  status : List EnvironmentStatus
  deriving DecidableEq, Repr

/-- The branches of the spec's environments, in spec order. -/
def PromotionStrategy.specBranches (ps : PromotionStrategy) : List String :=
  ps.spec.environments.map (·.branch)

/-- One branch pair of a ProposedCommit's status: its dry and hydrated commits. -/
structure ProposedCommitBranchState where
  dry : ShaState
  hydrated : ShaState
  deriving DecidableEq, Repr

/-- `ProposedCommitStatus`. -/
structure ProposedCommitStatus where
  active : ProposedCommitBranchState
  proposed : ProposedCommitBranchState
  deriving DecidableEq, Repr

/-- A `ProposedCommit` record as the PromotionStrategy reconciler reads it. -/
structure ProposedCommit where
  name : String
  status : ProposedCommitStatus
  deriving DecidableEq, Repr

/-- `PullRequestState`. -/
inductive PullRequestState where
  | pullRequestOpen
  | pullRequestMerged
  | pullRequestClosed
  deriving DecidableEq, Repr

/-- `PullRequestSpec`, of which the reconcilers read the desired state; the title,
description and branches are handed to the provider unchanged. -/
structure PullRequestSpec where
  state : PullRequestState
  deriving DecidableEq, Repr

/-- `PullRequestStatus`: the observed state and the provider's id of the pull request (`none`
for Go's empty string), and the generation the status reflects. -/
structure PullRequestStatus where
  state : Option PullRequestState
  id : Option Nat
  observedGeneration : Nat
  deriving DecidableEq, Repr

/-- A `PullRequest` record: its object metadata (a non-zero `DeletionTimestamp` is
`deletionRequested`), spec and status. -/
structure PullRequest where
  «namespace» : String
  name : String
  labels : Labels
  generation : Nat
  resourceVersion : Nat
  finalizers : List String
  deletionRequested : Bool
  spec : PullRequestSpec
  status : PullRequestStatus
  deriving DecidableEq, Repr

end GitOpsPromoter
