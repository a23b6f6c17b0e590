import GitOpsPromoter.Resources

/-!
# The merge flip and other writers of the PullRequest

When the gate of an environment passes, `Reconcile` lists the PullRequests with the
environment's labels and, if the first one is `open` in both spec and status, flips its
desired state inside `retry.RetryOnConflict(retry.DefaultRetry, ...)`: the closure re-reads
the record with `Get`, sets `spec.state = merged` and writes it with `Update`, which fails with
a conflict when the record's `resourceVersion` moved since the `Get`; the closure runs at most
`DefaultRetry.Steps = 5` times.

Other writers (the PullRequest reconciler's status writes, a user closing the pull request)
may change the record between any two of the invocation's calls.  A run is a list of actions:
the invocation's next call, or a write by someone else.  Without other writers the flip is the
sequential write of the merged version (`flipRun_without_other_writers`), which is how
`Reconcile` models it.  But the closure does not re-check the states it reads: a writer that
closes the pull request between the List and the Get has its `closed` overwritten by `merged`
(`mergeFlip_overwrites_closed_spec`).
-/

namespace GitOpsPromoter

/-- `r.List` of PullRequests with every label of `selector`, in every namespace. -/
def listPullRequests (pullRequests : List PullRequest) (selector : Labels) : List PullRequest :=
  pullRequests.filter fun pr => matchesLabels selector pr.labels

/-- `r.Get` of the PullRequest `name` in `objectNamespace`. -/
def getPullRequest (pullRequests : List PullRequest) (objectNamespace name : String) :
    Option PullRequest :=
  pullRequests.find? fun pr => pr.namespace == objectNamespace && pr.name == name

/-- A successful `r.Update`: the record with the same namespace and name is replaced. -/
def updatePullRequest (pullRequests : List PullRequest) (pr : PullRequest) : List PullRequest :=
  pullRequests.map fun old => if old.namespace = pr.namespace ∧ old.name = pr.name then pr else old

/-- The record the retry closure writes over version `pr`: `spec.state = merged`, and the
store's next resourceVersion. -/
def mergedVersion (pr : PullRequest) : PullRequest :=
  { pr with spec := { pr.spec with state := .pullRequestMerged }, resourceVersion := pr.resourceVersion + 1 }

/-- The record is `open` in both spec and status: the condition the invocation checks on the
listed copy. -/
def PullRequest.isOpenOpen (pr : PullRequest) : Bool :=
  pr.spec.state == .pullRequestOpen && pr.status.state == some .pullRequestOpen

/-- `retry.DefaultRetry.Steps`: the closure runs at most this often. -/
def defaultRetrySteps : Nat := 5

/-- Where the invocation is: before the List; listed an `open` record, with `remaining`
closure calls left; inside the closure after its Get returned `copy`; finished, or failed after
its last conflict. -/
inductive FlipPhase where
  | start
  | listed (remaining : Nat)
  | read (copy : PullRequest) (remaining : Nat)
  | done
  | failed
  deriving DecidableEq, Repr

/-- The stored record, the invocation's phase, and for each Update of the invocation the copy
its Get read and the stored version it replaced. -/
structure FlipState where
  stored : PullRequest
  phase : FlipPhase
  updates : List (PullRequest × PullRequest)
  deriving DecidableEq, Repr

/-- One action of a run: the invocation's next call, or another writer setting the record's
desired and observed states. -/
inductive FlipAction where
  | invocation
  | otherWriter (specState : PullRequestState) (statusState : Option PullRequestState)
  deriving DecidableEq, Repr

/-- Another writer's Update: the states it sets, and a new resourceVersion. -/
def otherWrite (pr : PullRequest) (specState : PullRequestState)
    (statusState : Option PullRequestState) : PullRequest :=
  { pr with
    spec := { pr.spec with state := specState }
    status := { pr.status with state := statusState }
    resourceVersion := pr.resourceVersion + 1 }

/-- The invocation's next call: the List and its check; the closure's Get; the closure's
Update, applied when the resourceVersion is the one read and a conflict otherwise, after which
the closure runs again while calls remain. -/
def invocationStep (state : FlipState) : FlipState :=
  match state.phase with
  | .start =>
      { state with phase := if state.stored.isOpenOpen then .listed defaultRetrySteps else .done }
  | .listed 0 => { state with phase := .failed }
  | .listed (remaining + 1) => { state with phase := .read state.stored remaining }
  | .read copy remaining =>
      if copy.resourceVersion = state.stored.resourceVersion then
        ⟨mergedVersion copy, .done, state.updates ++ [(copy, state.stored)]⟩
      else { state with phase := .listed remaining }
  | .done => state
  | .failed => state

def flipStep (state : FlipState) : FlipAction → FlipState
  | .invocation => invocationStep state
  | .otherWriter specState statusState =>
      { state with stored := otherWrite state.stored specState statusState }

/-- A run from `state`. -/
def flipRun (state : FlipState) (actions : List FlipAction) : FlipState :=
  actions.foldl flipStep state

/-- The state before the invocation lists the record `pr`. -/
def FlipState.initial (pr : PullRequest) : FlipState := ⟨pr, .start, []⟩

/-- Without other writers, the flip of an `open`/`open` record is the sequential write of
`mergedVersion`. -/
theorem flipRun_without_other_writers {pr : PullRequest} (openOpen : pr.isOpenOpen) :
    flipRun (FlipState.initial pr) [.invocation, .invocation, .invocation] =
      ⟨mergedVersion pr, .done, [(pr, pr)]⟩ := by
  simp [flipRun, flipStep, invocationStep, FlipState.initial, openOpen, defaultRetrySteps]

/-- A listed `open`/`open` record at resourceVersion 1. -/
def openPullRequest : PullRequest where
  «namespace» := "default"
  name := "ps-env-test"
  labels := []
  generation := 1
  resourceVersion := 1
  finalizers := []
  deletionRequested := false
  spec := ⟨.pullRequestOpen⟩
  status := ⟨some .pullRequestOpen, some 1, 1⟩

/-- A user closes the pull request between the List and the Get. -/
def closeBeforeGet : List FlipAction :=
  [.invocation, .otherWriter .pullRequestClosed (some .pullRequestOpen), .invocation, .invocation]

/-- The invocation's Update is applied to the version the user closed, and turns it into
`merged`. -/
theorem mergeFlip_overwrites_closed_spec :
    (flipRun (FlipState.initial openPullRequest) closeBeforeGet).updates.map (·.2.spec.state) =
        [.pullRequestClosed] ∧
      (flipRun (FlipState.initial openPullRequest) closeBeforeGet).stored.spec.state =
        .pullRequestMerged := by
  decide

end GitOpsPromoter
