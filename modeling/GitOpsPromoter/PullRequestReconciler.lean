import GitOpsPromoter.MergeFlip

/-!
# The PullRequest reconciler over runs with failures

One PullRequest record and the SCM provider's pull requests created for it, by id.  A run is
a sequence of events: an invocation of `Reconcile`, in which any listed call fails; a deletion
request; a change of `spec.state` from `open` to `merged` or `closed`.  Every provider call is
logged with the provider's pull requests at the time of the call.

The provider contract: `FindOpen` reports whether one of the record's pull requests is open;
`Create` opens a new one and returns its id; `Merge` merges the open pull request of the id in
the record's status and fails otherwise; `Close` closes the pull request of that id if it is
open and fails without an id; a failing call has no effect.

The invariant holds when the writes that record what the provider did cannot fail: in every
run in which no status write and no provider `Update` fails, an open pull request is the one the
stored status calls open, and a merged pull request of the stored id is recorded as merged
(`pullRequestRun_invariant`), so the provider never holds two open pull requests for the record
(`pullRequestRun_open_unique`).  The reconciler decides from `status.state` alone: when the
provider `Update` or the status write after a successful `Create` or `Merge` fails, the next
invocations act on a status that no longer matches the provider, create a second pull request
and close a merged one (`reconcile_repeats_create_and_closes_merged`).
-/

namespace GitOpsPromoter

namespace PullRequestReconciler

/-- The finalizer, with the source's spelling. -/
def finalizerName : String := "pullrequest.promoter.argoporoj.io/finalizer"

/-- The calls of an invocation that can fail: the store writes and the provider calls. -/
inductive PullRequestCall where
  | addFinalizer
  | removeFinalizer
  | delete
  | statusUpdate
  | findOpen
  | create
  | update
  | merge
  | close
  deriving DecidableEq, Repr

/-- A provider call as the log records it, with the id it was given. -/
inductive ProviderCall where
  | findOpen
  | create
  | update
  | merge (id : Option Nat)
  | close (id : Option Nat)
  deriving DecidableEq, Repr

/-- The stored record (`none` once deleted), the provider's pull requests for it by id, and
the log of provider calls, each with the provider's pull requests when it was made. -/
structure PullRequestSystem where
  record : Option PullRequest
  provider : List PullRequestState
  calls : List (ProviderCall × List PullRequestState)
  deriving DecidableEq, Repr

/-- Make a provider call: it joins the log. -/
def PullRequestSystem.call (system : PullRequestSystem) (providerCall : ProviderCall) :
    PullRequestSystem :=
  { system with calls := system.calls ++ [(providerCall, system.provider)] }

@[simp]
theorem PullRequestSystem.call_provider (system : PullRequestSystem) (providerCall : ProviderCall) :
    (system.call providerCall).provider = system.provider :=
  rfl

/-- An invocation after a call: it has returned, or goes on with its in-memory copy `pr`. -/
inductive Progress where
  | returned (system : PullRequestSystem)
  | continuing (system : PullRequestSystem) (pr : PullRequest)

/-- The system an invocation leaves. -/
def Progress.system : Progress → PullRequestSystem
  | .returned system => system
  | .continuing system _ => system

/-- `Merge` on the provider: the open pull request `id` becomes merged. -/
def providerMerge (provider : List PullRequestState) : Option Nat → Option (List PullRequestState)
  | some id => if provider[id]? = some .pullRequestOpen then some (provider.set id .pullRequestMerged) else none
  | none => none

/-- `Close` on the provider: the pull request `id` is closed if it is open. -/
def providerClose (provider : List PullRequestState) : Option Nat → Option (List PullRequestState)
  | some id =>
      if id < provider.length then
        some (if provider[id]? = some .pullRequestOpen then provider.set id .pullRequestClosed else provider)
      else none
  | none => none

/-- `r.Delete`: a record with finalizers is marked for deletion, one without is removed. -/
def deleteRecord (pr : PullRequest) : Option PullRequest :=
  if pr.finalizers = [] then none else some { pr with deletionRequested := true }

/-- `r.Status().Update`: the in-memory status is stored. -/
def statusUpdate (failing : List PullRequestCall) (system : PullRequestSystem) (pr : PullRequest) :
    Progress :=
  if .statusUpdate ∈ failing then .returned system
  else
    let pr := { pr with resourceVersion := pr.resourceVersion + 1 }
    .continuing { system with record := some pr } pr

/-- `closePullRequest`: no call on a pull request the status calls merged; otherwise `Close`,
after which the in-memory status is `closed`. -/
def closePullRequest (failing : List PullRequestCall) (system : PullRequestSystem)
    (pr : PullRequest) : Progress :=
  if pr.status.state = some .pullRequestMerged then .continuing system pr
  else
    let system := system.call (.close pr.status.id)
    if .close ∈ failing then .returned system
    else
      match providerClose system.provider pr.status.id with
      | some provider =>
          .continuing { system with provider }
            { pr with status := { pr.status with state := some .pullRequestClosed } }
      | none => .returned system

/-- `createPullRequest`: `Create`, then the in-memory status is `open` with the new id. -/
def createPullRequest (failing : List PullRequestCall) (system : PullRequestSystem)
    (pr : PullRequest) : Progress :=
  let system := system.call .create
  if .create ∈ failing then .returned system
  else
    .continuing { system with provider := system.provider ++ [.pullRequestOpen] }
      { pr with status := { pr.status with state := some .pullRequestOpen, id := some system.provider.length } }

/-- `mergePullRequest`: `Merge`, then the in-memory status is `merged`. -/
def mergePullRequest (failing : List PullRequestCall) (system : PullRequestSystem)
    (pr : PullRequest) : Progress :=
  let system := system.call (.merge pr.status.id)
  if .merge ∈ failing then .returned system
  else
    match providerMerge system.provider pr.status.id with
    | some provider =>
        .continuing { system with provider }
          { pr with status := { pr.status with state := some .pullRequestMerged } }
    | none => .returned system

/-- `updatePullRequest`: `Update` of the title and description. -/
def updatePullRequest (failing : List PullRequestCall) (system : PullRequestSystem)
    (pr : PullRequest) : Progress :=
  let system := system.call .update
  if .update ∈ failing then .returned system else .continuing system pr

/-- `handleFinalizer`: add the finalizer to a live record; on a record marked for deletion,
close the pull request and remove the finalizer, which removes the record. -/
def handleFinalizer (failing : List PullRequestCall) (system : PullRequestSystem)
    (pr : PullRequest) : Progress :=
  if !pr.deletionRequested then
    if finalizerName ∈ pr.finalizers then .continuing system pr
    else if .addFinalizer ∈ failing then .returned system
    else
      let pr := { pr with
        finalizers := pr.finalizers ++ [finalizerName]
        resourceVersion := pr.resourceVersion + 1 }
      .continuing { system with record := some pr } pr
  else if finalizerName ∈ pr.finalizers then
    match closePullRequest failing system pr with
    | .returned system => .returned system
    | .continuing system _ =>
        if .removeFinalizer ∈ failing then .returned system
        else
          let remaining := pr.finalizers.erase finalizerName
          .returned { system with
            record := if remaining = [] then none
              else some { pr with finalizers := remaining, resourceVersion := pr.resourceVersion + 1 } }
  else .continuing system pr

/-- The tail of `Reconcile` once the pull request is open or needs no provider state change:
`Update` when the generation moved, then the status write of the observed generation. -/
def observeGeneration (failing : List PullRequestCall) (system : PullRequestSystem)
    (pr : PullRequest) : PullRequestSystem :=
  match (if pr.status.observedGeneration ≠ pr.generation then updatePullRequest failing system pr
      else .continuing system pr) with
  | .returned system => system
  | .continuing system pr =>
      (statusUpdate failing system { pr with status := { pr.status with observedGeneration := pr.generation } }).system

/-- `Reconcile` after the finalizer: `FindOpen`, the deletion of a record whose pull request is
gone, the no-op check, and the transitions towards `spec.state`. -/
def reconcileLive (failing : List PullRequestCall) (system : PullRequestSystem) (pr : PullRequest) :
    PullRequestSystem :=
  let system := system.call .findOpen
  if .findOpen ∈ failing then system
  else if !system.provider.contains .pullRequestOpen && pr.status.state ≠ none then
    if .delete ∈ failing then system else { system with record := deleteRecord pr }
  else if pr.status.state ≠ none ∧ pr.status.state = some pr.spec.state ∧
      pr.status.observedGeneration = pr.generation then system
  else
    match (if pr.spec.state = .pullRequestOpen ∧ pr.status.state ≠ some .pullRequestOpen then
        createPullRequest failing system pr else .continuing system pr) with
    | .returned system => system
    | .continuing system pr =>
        if pr.spec.state = .pullRequestMerged ∧ pr.status.state ≠ some .pullRequestMerged then
          match mergePullRequest failing system pr with
          | .returned system => system
          | .continuing system pr => (statusUpdate failing system pr).system
        else if pr.spec.state = .pullRequestClosed ∧ pr.status.state ≠ some .pullRequestClosed then
          match closePullRequest failing system pr with
          | .returned system => system
          | .continuing system pr => (statusUpdate failing system pr).system
        else observeGeneration failing system pr

/-- One invocation of `Reconcile`, in which the calls in `failing` fail. -/
def reconcile (failing : List PullRequestCall) (system : PullRequestSystem) : PullRequestSystem :=
  match system.record with
  | none => system
  | some pr =>
      match handleFinalizer failing system pr with
      | .returned system => system
      | .continuing system pr => reconcileLive failing system pr

/-- An event of a run. -/
inductive PullRequestEvent where
  | reconcile (failing : List PullRequestCall)
  | requestDeletion
  | changeSpec (state : PullRequestState)
  deriving DecidableEq, Repr

def pullRequestStep (system : PullRequestSystem) : PullRequestEvent → PullRequestSystem
  | .reconcile failing => reconcile failing system
  | .requestDeletion => { system with record := system.record.bind deleteRecord }
  | .changeSpec state =>
      { system with
        record := system.record.map fun pr =>
          if pr.spec.state = .pullRequestOpen ∧ state ≠ .pullRequestOpen then
            { pr with
              spec := ⟨state⟩
              generation := pr.generation + 1
              resourceVersion := pr.resourceVersion + 1 }
          else pr }

/-- A run from `system`. -/
def pullRequestRun (system : PullRequestSystem) (events : List PullRequestEvent) :
    PullRequestSystem :=
  events.foldl pullRequestStep system

/-- The system before the first invocation: the record, and no pull request on the provider. -/
def PullRequestSystem.initial (pr : PullRequest) : PullRequestSystem := ⟨some pr, [], []⟩

/-- A logged call is safe: a `Create` found no open pull request, a `Close` did not target a
merged one. -/
def providerCallSafe : ProviderCall × List PullRequestState → Bool
  | (.create, provider) => !provider.contains .pullRequestOpen
  | (.close (some id), provider) => provider[id]? != some .pullRequestMerged
  | _ => true

/-- Every logged provider call is safe. -/
def ProviderCallsSafe (calls : List (ProviderCall × List PullRequestState)) : Prop :=
  ∀ call ∈ calls, providerCallSafe call

instance (calls : List (ProviderCall × List PullRequestState)) :
    Decidable (ProviderCallsSafe calls) :=
  inferInstanceAs (Decidable (∀ call ∈ calls, providerCallSafe call))

/-- An event in which neither the status write nor the provider `Update` fails. -/
def PullRequestEvent.keepsWrites : PullRequestEvent → Bool
  | .reconcile failing => decide (PullRequestCall.statusUpdate ∉ failing ∧ PullRequestCall.update ∉ failing)
  | _ => true

/-- A record before its first invocation: `open`, no finalizer, an empty status. -/
def freshPullRequest : PullRequest :=
  { openPullRequest with resourceVersion := 1, status := ⟨none, none, 0⟩ }

theorem providerMerge_spec {provider provider' : List PullRequestState} {id : Option Nat}
    (merged : providerMerge provider id = some provider') :
    ∃ target, id = some target ∧ provider[target]? = some .pullRequestOpen ∧
      provider'[target]? = some .pullRequestMerged ∧
      ∀ other, other ≠ target → provider'[other]? = provider[other]? := by
  cases id with
  | none => cases merged
  | some target =>
      simp only [providerMerge] at merged
      split at merged
      · rename_i isOpen
        cases merged
        have bound : target < provider.length := by
          by_contra outside
          rw [List.getElem?_eq_none (by omega)] at isOpen
          cases isOpen
        exact ⟨target, rfl, isOpen, by simp [List.getElem?_set, bound],
          fun other otherNe => List.getElem?_set_ne (Ne.symm otherNe)⟩
      · cases merged

theorem providerClose_spec {provider provider' : List PullRequestState} {id : Option Nat}
    (closed : providerClose provider id = some provider') :
    ∃ target, id = some target ∧ provider'[target]? ≠ some .pullRequestOpen ∧
      (provider'[target]? = some .pullRequestMerged ↔ provider[target]? = some .pullRequestMerged) ∧
      ∀ other, other ≠ target → provider'[other]? = provider[other]? := by
  cases id with
  | none => cases closed
  | some target =>
      simp only [providerClose] at closed
      split at closed
      · rename_i bound
        cases closed
        refine ⟨target, rfl, ?_⟩
        split
        · rename_i isOpen
          exact ⟨by simp [List.getElem?_set, bound], by simp [List.getElem?_set, bound, isOpen],
            fun other otherNe => List.getElem?_set_ne (Ne.symm otherNe)⟩
        · exact ⟨‹_›, Iff.rfl, fun _ _ => rfl⟩
      · cases closed

/-- The stored record keeps up with the provider: a record marked for deletion holds a
finalizer (the store removes one that holds none); an open pull request is the one the stored
status calls open, on a record that holds a finalizer; a merged pull request of the stored id is
recorded as merged. -/
structure Tracks (provider : List PullRequestState) (record : Option PullRequest) : Prop where
  wellFormed : ∀ pr, record = some pr → pr.deletionRequested → pr.finalizers ≠ []
  openRecorded : ∀ id, provider[id]? = some .pullRequestOpen → ∃ pr, record = some pr ∧
    pr.finalizers ≠ [] ∧ pr.status.state = some .pullRequestOpen ∧ pr.status.id = some id
  mergedRecorded : ∀ pr id, record = some pr → pr.status.id = some id →
    provider[id]? = some .pullRequestMerged → pr.status.state = some .pullRequestMerged

/-- The invariant of a run: the record tracks the provider, and every provider call so far was
safe. -/
def PullRequestInvariant (system : PullRequestSystem) : Prop :=
  Tracks system.provider system.record ∧ ProviderCallsSafe system.calls

theorem providerCallsSafe_append {calls : List (ProviderCall × List PullRequestState)}
    {call : ProviderCall × List PullRequestState} (safe : ProviderCallsSafe calls)
    (callSafe : providerCallSafe call) : ProviderCallsSafe (calls ++ [call]) := by
  intro entry member
  rcases List.mem_append.mp member with earlier | last
  · exact safe entry earlier
  · rw [List.mem_singleton.mp last]
    exact callSafe

theorem Tracks.noOpen_of_not_open {provider : List PullRequestState} {pr : PullRequest}
    (tracks : Tracks provider (some pr)) (notOpen : pr.status.state ≠ some .pullRequestOpen) :
    ∀ id : Nat, provider[id]? ≠ some PullRequestState.pullRequestOpen := by
  intro id isOpen
  obtain ⟨_, same, -, recordedOpen, -⟩ := tracks.openRecorded id isOpen
  cases same
  exact notOpen recordedOpen

theorem Tracks.congr {provider : List PullRequestState} {pr pr' : PullRequest}
    (tracks : Tracks provider (some pr)) (sameState : pr'.status.state = pr.status.state)
    (sameId : pr'.status.id = pr.status.id) (held : pr.finalizers ≠ [] → pr'.finalizers ≠ [])
    (wellFormed : pr'.deletionRequested → pr'.finalizers ≠ []) : Tracks provider (some pr') where
  wellFormed := by
    rintro _ ⟨⟩
    exact wellFormed
  openRecorded := by
    intro id isOpen
    obtain ⟨_, ⟨⟩, holds, recordedOpen, recordedId⟩ := tracks.openRecorded id isOpen
    exact ⟨pr', rfl, held holds, sameState ▸ recordedOpen, sameId ▸ recordedId⟩
  mergedRecorded := by
    rintro _ id ⟨⟩ recordedId isMerged
    rw [sameState]
    exact tracks.mergedRecorded pr id rfl (sameId ▸ recordedId) isMerged

theorem Tracks.of_noOpen {provider : List PullRequestState} {record : Option PullRequest}
    (noOpen : ∀ id : Nat, provider[id]? ≠ some PullRequestState.pullRequestOpen)
    (wellFormed : ∀ pr, record = some pr → pr.deletionRequested → pr.finalizers ≠ [])
    (mergedRecorded : ∀ pr id, record = some pr → pr.status.id = some id →
      provider[id]? = some .pullRequestMerged → pr.status.state = some .pullRequestMerged) :
    Tracks provider record :=
  ⟨wellFormed, fun id isOpen => absurd isOpen (noOpen id), mergedRecorded⟩

theorem Tracks.of_noOpen_of_status {provider : List PullRequestState} {pr : PullRequest}
    {record : Option PullRequest}
    (noOpen : ∀ id : Nat, provider[id]? ≠ some PullRequestState.pullRequestOpen)
    (mergedRecorded : ∀ id, pr.status.id = some id → provider[id]? = some .pullRequestMerged →
      pr.status.state = some .pullRequestMerged)
    (kept : ∀ pr', record = some pr' → pr'.status = pr.status ∧ pr'.finalizers ≠ []) :
    Tracks provider record := by
  refine Tracks.of_noOpen noOpen (fun pr' stored _ => (kept pr' stored).2) ?_
  intro pr' id stored recordedId isMerged
  rw [(kept pr' stored).1] at recordedId ⊢
  exact mergedRecorded id recordedId isMerged

theorem tracks_deleteRecord {provider : List PullRequestState} {pr : PullRequest}
    (tracks : Tracks provider (some pr)) : Tracks provider (deleteRecord pr) := by
  unfold deleteRecord
  split
  · rename_i noFinalizer
    refine Tracks.of_noOpen (fun id isOpen => ?_) (by simp) (by simp)
    obtain ⟨_, ⟨⟩, holds, -⟩ := tracks.openRecorded id isOpen
    exact holds noFinalizer
  · exact tracks.congr rfl rfl id (fun _ => ‹_›)

/-- What a call of an invocation keeps: after a return, the invariant; while the invocation
goes on, the invariant for its in-memory copy, with the stored record still `stored`. -/
def Progress.Keeps (stored : Option PullRequest) : Progress → Prop
  | .returned system => PullRequestInvariant system
  | .continuing system pr =>
      Tracks system.provider (some pr) ∧ ProviderCallsSafe system.calls ∧ system.record = stored

section Calls

variable {failing : List PullRequestCall} {system : PullRequestSystem} {pr : PullRequest}

theorem createPullRequest_keeps (stored : system.record = some pr)
    (tracks : Tracks system.provider (some pr)) (safe : ProviderCallsSafe system.calls)
    (notOpen : pr.status.state ≠ some .pullRequestOpen) (held : pr.finalizers ≠ []) :
    (createPullRequest failing system pr).Keeps system.record := by
  have noOpen := tracks.noOpen_of_not_open notOpen
  have callSafe : providerCallSafe (.create, system.provider) := by
    simpa [providerCallSafe, List.mem_iff_getElem?] using noOpen
  unfold createPullRequest
  dsimp only
  split
  · exact ⟨stored ▸ tracks, providerCallsSafe_append safe callSafe⟩
  · refine ⟨⟨?_, fun id isOpen => ?_, ?_⟩, providerCallsSafe_append safe callSafe, rfl⟩
    · rintro _ ⟨⟩ -
      exact held
    · rw [PullRequestSystem.call_provider, List.getElem?_append] at isOpen
      split at isOpen
      · exact absurd isOpen (noOpen id)
      · have last : id = system.provider.length := by
          have small := (List.getElem?_eq_some_iff.mp isOpen).1
          simp only [List.length_singleton] at small
          omega
        exact ⟨_, rfl, held, rfl, by simp [last]⟩
    · rintro _ id ⟨⟩ recordedId isMerged
      simp only [PullRequestSystem.call_provider, Option.some.injEq] at recordedId
      simp [← recordedId] at isMerged

theorem mergePullRequest_keeps (stored : system.record = some pr)
    (tracks : Tracks system.provider (some pr)) (safe : ProviderCallsSafe system.calls) :
    (mergePullRequest failing system pr).Keeps system.record := by
  have callSafe : providerCallSafe (.merge pr.status.id, system.provider) := rfl
  unfold mergePullRequest
  dsimp only
  split
  · exact ⟨stored ▸ tracks, providerCallsSafe_append safe callSafe⟩
  · split
    · rename_i provider merged
      obtain ⟨target, recordedId, -, nowMerged, others⟩ := providerMerge_spec merged
      refine ⟨⟨?_, fun id isOpen => ?_, ?_⟩, providerCallsSafe_append safe callSafe, rfl⟩
      · rintro _ ⟨⟩ deleting
        exact tracks.wellFormed pr rfl deleting
      · have other : id ≠ target := fun same => by simp [same, nowMerged] at isOpen
        rw [others id other] at isOpen
        obtain ⟨_, ⟨⟩, -, -, openId⟩ := tracks.openRecorded id isOpen
        exact absurd (Option.some.inj (openId.symm.trans recordedId)) other
      · rintro _ id ⟨⟩ - -
        rfl
    · exact ⟨stored ▸ tracks, providerCallsSafe_append safe callSafe⟩

theorem Tracks.providerClose {provider provider' : List PullRequestState} {pr : PullRequest}
    (tracks : Tracks provider (some pr)) (closed : providerClose provider pr.status.id = some provider') :
    (∀ id : Nat, provider'[id]? ≠ some PullRequestState.pullRequestOpen) ∧
      ∀ id, pr.status.id = some id → provider'[id]? = some .pullRequestMerged →
        provider[id]? = some .pullRequestMerged := by
  obtain ⟨target, recordedId, notOpen, mergedIff, others⟩ := providerClose_spec closed
  refine ⟨fun id isOpen => ?_, fun id closedId isMerged => ?_⟩
  · by_cases same : id = target
    · exact notOpen (same ▸ isOpen)
    · rw [others id same] at isOpen
      obtain ⟨_, ⟨⟩, -, -, openId⟩ := tracks.openRecorded id isOpen
      exact same (Option.some.inj (openId.symm.trans recordedId))
  · obtain rfl : id = target := Option.some.inj (closedId.symm.trans recordedId)
    exact mergedIff.mp isMerged

theorem closePullRequest_cases (failing : List PullRequestCall) (system : PullRequestSystem)
    (pr : PullRequest) :
    pr.status.state = some .pullRequestMerged ∧ closePullRequest failing system pr = .continuing system pr ∨
      pr.status.state ≠ some .pullRequestMerged ∧
        (closePullRequest failing system pr = .returned (system.call (.close pr.status.id)) ∨
          ∃ provider, providerClose system.provider pr.status.id = some provider ∧
            closePullRequest failing system pr =
              .continuing { system.call (.close pr.status.id) with provider }
                { pr with status := { pr.status with state := some .pullRequestClosed } }) := by
  unfold closePullRequest
  split
  · exact .inl ⟨‹_›, rfl⟩
  · refine .inr ⟨‹_›, ?_⟩
    dsimp only
    split
    · exact .inl rfl
    · split
      · exact .inr ⟨_, ‹_›, rfl⟩
      · exact .inl rfl

theorem closePullRequest_keeps (stored : system.record = some pr)
    (tracks : Tracks system.provider (some pr)) (safe : ProviderCallsSafe system.calls) :
    (closePullRequest failing system pr).Keeps system.record := by
  rcases closePullRequest_cases failing system pr with ⟨-, closing⟩ | ⟨notMerged, closing⟩
  · rw [closing]
    exact ⟨tracks, safe, rfl⟩
  have callSafe : providerCallSafe (.close pr.status.id, system.provider) := by
    cases recordedId : pr.status.id with
    | none => rfl
    | some id =>
        simp only [providerCallSafe, bne_iff_ne, ne_eq]
        exact fun isMerged => notMerged (tracks.mergedRecorded pr id rfl recordedId isMerged)
  rcases closing with returned | ⟨provider, closed, continuing⟩
  · rw [returned]
    exact ⟨stored ▸ tracks, providerCallsSafe_append safe callSafe⟩
  · rw [continuing]
    obtain ⟨noOpen, stillMerged⟩ := tracks.providerClose closed
    refine ⟨Tracks.of_noOpen noOpen ?_ ?_, providerCallsSafe_append safe callSafe, rfl⟩
    · rintro _ ⟨⟩ deleting
      exact tracks.wellFormed pr rfl deleting
    · rintro _ id ⟨⟩ closedId isMerged
      exact absurd (tracks.mergedRecorded pr id rfl closedId (stillMerged id closedId isMerged))
        notMerged

theorem closePullRequest_continuing (tracks : Tracks system.provider (some pr))
    {next : PullRequestSystem} {closed : PullRequest}
    (continuing : closePullRequest failing system pr = .continuing next closed) :
    (∀ id : Nat, next.provider[id]? ≠ some PullRequestState.pullRequestOpen) ∧
      ∀ id, pr.status.id = some id → next.provider[id]? = some .pullRequestMerged →
        pr.status.state = some .pullRequestMerged := by
  rcases closePullRequest_cases failing system pr with
    ⟨isMerged, closing⟩ | ⟨-, returned | ⟨provider, closedProvider, closing⟩⟩
  · rw [closing] at continuing
    cases continuing
    exact ⟨tracks.noOpen_of_not_open (by simp [isMerged]), fun _ _ _ => isMerged⟩
  · rw [returned] at continuing
    cases continuing
  · rw [closing] at continuing
    cases continuing
    obtain ⟨noOpen, stillMerged⟩ := tracks.providerClose closedProvider
    exact ⟨noOpen, fun id recordedId isMerged =>
      tracks.mergedRecorded pr id rfl recordedId (stillMerged id recordedId isMerged)⟩

theorem updatePullRequest_of_reliable (reliable : .update ∉ failing) :
    updatePullRequest failing system pr = .continuing (system.call .update) pr := by
  simp [updatePullRequest, reliable]

theorem statusUpdate_of_reliable (reliable : .statusUpdate ∉ failing) :
    (statusUpdate failing system pr).system =
      { system with record := some { pr with resourceVersion := pr.resourceVersion + 1 } } := by
  simp [statusUpdate, reliable, Progress.system]

theorem statusUpdate_invariant (reliable : .statusUpdate ∉ failing)
    (tracks : Tracks system.provider (some pr)) (safe : ProviderCallsSafe system.calls) :
    PullRequestInvariant (statusUpdate failing system pr).system := by
  rw [statusUpdate_of_reliable reliable]
  exact ⟨tracks.congr rfl rfl id (tracks.wellFormed pr rfl), safe⟩

theorem observeGeneration_invariant (reliable : .statusUpdate ∉ failing ∧ .update ∉ failing)
    (tracks : Tracks system.provider (some pr)) (safe : ProviderCallsSafe system.calls) :
    PullRequestInvariant (observeGeneration failing system pr) := by
  obtain ⟨next, updated, sameProvider, nextSafe⟩ : ∃ next,
      (if pr.status.observedGeneration ≠ pr.generation then updatePullRequest failing system pr
        else .continuing system pr) = .continuing next pr ∧
      next.provider = system.provider ∧ ProviderCallsSafe next.calls := by
    split
    · exact ⟨_, updatePullRequest_of_reliable reliable.2, rfl, providerCallsSafe_append safe rfl⟩
    · exact ⟨_, rfl, rfl, safe⟩
  simp only [observeGeneration, updated]
  exact statusUpdate_invariant reliable.1
    (sameProvider ▸ tracks.congr rfl rfl id (tracks.wellFormed pr rfl)) nextSafe

end Calls

/-- What the finalizer handling leaves: after a return, the invariant; when `Reconcile` goes
on, the invariant, with the in-memory copy stored and holding a finalizer. -/
def Progress.Ready : Progress → Prop
  | .returned system => PullRequestInvariant system
  | .continuing system pr => PullRequestInvariant system ∧ system.record = some pr ∧ pr.finalizers ≠ []

section Invocation

variable {failing : List PullRequestCall} {system : PullRequestSystem} {pr : PullRequest}

theorem handleFinalizer_ready (stored : system.record = some pr)
    (invariant : PullRequestInvariant system) : (handleFinalizer failing system pr).Ready := by
  obtain ⟨tracks, safe⟩ := invariant
  rw [stored] at tracks
  unfold handleFinalizer
  split
  · split
    · rename_i present
      exact ⟨⟨stored ▸ tracks, safe⟩, stored, List.ne_nil_of_mem present⟩
    · split
      · exact ⟨stored ▸ tracks, safe⟩
      · exact ⟨⟨tracks.congr rfl rfl (fun _ => by simp) (fun _ => by simp), safe⟩, rfl, by simp⟩
  · rename_i deleting
    have deletingHeld := tracks.wellFormed pr rfl (by simpa using deleting)
    split
    · have closeKeeps : (closePullRequest failing system pr).Keeps system.record :=
        closePullRequest_keeps stored tracks safe
      generalize closing : closePullRequest failing system pr = progress at closeKeeps ⊢
      cases progress with
      | returned next => exact closeKeeps
      | continuing next closed =>
          obtain ⟨-, nextSafe, nextRecord⟩ := closeKeeps
          obtain ⟨noOpen, stillMerged⟩ := closePullRequest_continuing tracks closing
          dsimp only
          split <;> refine ⟨Tracks.of_noOpen_of_status noOpen stillMerged ?_, nextSafe⟩
          · rw [nextRecord, stored]
            rintro _ ⟨⟩
            exact ⟨rfl, deletingHeld⟩
          · dsimp only
            split
            · simp
            · rintro _ ⟨⟩
              exact ⟨rfl, ‹_›⟩
    · exact ⟨⟨stored ▸ tracks, safe⟩, stored, deletingHeld⟩

theorem createPullRequest_spec_of_continuing {next : PullRequestSystem} {created : PullRequest}
    (continuing : createPullRequest failing system pr = .continuing next created) :
    created.spec = pr.spec := by
  unfold createPullRequest at continuing
  dsimp only at continuing
  split at continuing
  · cases continuing
  · cases continuing
    rfl

theorem reconcileLive_invariant (reliable : .statusUpdate ∉ failing ∧ .update ∉ failing)
    (stored : system.record = some pr) (held : pr.finalizers ≠ [])
    (invariant : PullRequestInvariant system) :
    PullRequestInvariant (reconcileLive failing system pr) := by
  obtain ⟨tracks, safe⟩ := invariant
  rw [stored] at tracks
  have foundStored : (system.call .findOpen).record = some pr := stored
  have foundTracks : Tracks (system.call .findOpen).provider (some pr) := tracks
  have foundSafe : ProviderCallsSafe (system.call .findOpen).calls :=
    providerCallsSafe_append safe rfl
  have found : PullRequestInvariant (system.call .findOpen) := ⟨foundStored ▸ foundTracks, foundSafe⟩
  unfold reconcileLive
  dsimp only
  split
  · exact found
  split
  · split
    · exact found
    · exact ⟨tracks_deleteRecord tracks, foundSafe⟩
  split
  · exact found
  by_cases creates : pr.spec.state = .pullRequestOpen ∧ pr.status.state ≠ some .pullRequestOpen
  · rw [if_pos creates]
    have keeps : (createPullRequest failing (system.call .findOpen) pr).Keeps
        (system.call .findOpen).record :=
      createPullRequest_keeps foundStored foundTracks foundSafe creates.2 held
    generalize creating : createPullRequest failing (system.call .findOpen) pr = progress at keeps ⊢
    cases progress with
    | returned next => exact keeps
    | continuing next created =>
        obtain ⟨nextTracks, nextSafe, -⟩ := keeps
        have specOpen : created.spec.state = .pullRequestOpen :=
          (createPullRequest_spec_of_continuing creating) ▸ creates.1
        dsimp only
        rw [if_neg (by simp [specOpen]), if_neg (by simp [specOpen])]
        exact observeGeneration_invariant reliable nextTracks nextSafe
  · rw [if_neg creates]
    dsimp only
    split
    · have keeps : (mergePullRequest failing (system.call .findOpen) pr).Keeps
          (system.call .findOpen).record :=
        mergePullRequest_keeps foundStored foundTracks foundSafe
      generalize mergePullRequest failing (system.call .findOpen) pr = progress at keeps ⊢
      cases progress with
      | returned next => exact keeps
      | continuing next merged => exact statusUpdate_invariant reliable.1 keeps.1 keeps.2.1
    · split
      · have keeps : (closePullRequest failing (system.call .findOpen) pr).Keeps
            (system.call .findOpen).record :=
          closePullRequest_keeps foundStored foundTracks foundSafe
        generalize closePullRequest failing (system.call .findOpen) pr = progress at keeps ⊢
        cases progress with
        | returned next => exact keeps
        | continuing next closed => exact statusUpdate_invariant reliable.1 keeps.1 keeps.2.1
      · exact observeGeneration_invariant reliable foundTracks foundSafe

theorem reconcile_invariant (reliable : .statusUpdate ∉ failing ∧ .update ∉ failing)
    (invariant : PullRequestInvariant system) : PullRequestInvariant (reconcile failing system) := by
  unfold reconcile
  split
  · exact invariant
  · rename_i pr stored
    have ready : (handleFinalizer failing system pr).Ready := handleFinalizer_ready stored invariant
    generalize handleFinalizer failing system pr = progress at ready ⊢
    cases progress with
    | returned next => exact ready
    | continuing next current =>
        obtain ⟨nextInvariant, nextStored, nextHeld⟩ := ready
        exact reconcileLive_invariant reliable nextStored nextHeld nextInvariant

end Invocation

theorem pullRequestStep_invariant {system : PullRequestSystem} {event : PullRequestEvent}
    (reliable : event.keepsWrites) (invariant : PullRequestInvariant system) :
    PullRequestInvariant (pullRequestStep system event) := by
  obtain ⟨tracks, safe⟩ := invariant
  cases event with
  | reconcile failing =>
      simp only [PullRequestEvent.keepsWrites, decide_eq_true_eq] at reliable
      exact reconcile_invariant reliable ⟨tracks, safe⟩
  | requestDeletion =>
      refine ⟨?_, safe⟩
      cases recordEq : system.record with
      | none => simpa [pullRequestStep, recordEq] using tracks
      | some pr =>
          rw [recordEq] at tracks
          simpa only [pullRequestStep, recordEq, Option.some_bind] using tracks_deleteRecord tracks
  | changeSpec state =>
      refine ⟨?_, safe⟩
      cases recordEq : system.record with
      | none => simpa [pullRequestStep, recordEq] using tracks
      | some pr =>
          rw [recordEq] at tracks
          simp only [pullRequestStep, recordEq, Option.map_some']
          split
          · exact tracks.congr rfl rfl id (tracks.wellFormed pr rfl)
          · exact tracks

theorem pullRequestRun_invariant {system : PullRequestSystem} {events : List PullRequestEvent}
    (reliable : ∀ event ∈ events, event.keepsWrites) (invariant : PullRequestInvariant system) :
    PullRequestInvariant (pullRequestRun system events) := by
  induction events generalizing system with
  | nil => exact invariant
  | cons event events ih =>
      exact ih (fun later member => reliable later (List.mem_cons_of_mem _ member))
        (pullRequestStep_invariant (reliable event (List.mem_cons_self _ _)) invariant)

theorem pullRequestInvariant_initial {pr : PullRequest}
    (wellFormed : pr.deletionRequested → pr.finalizers ≠ []) :
    PullRequestInvariant (PullRequestSystem.initial pr) :=
  ⟨Tracks.of_noOpen (by simp [PullRequestSystem.initial])
    (by rintro _ ⟨⟩; exact wellFormed) (by simp [PullRequestSystem.initial]),
    by simp [ProviderCallsSafe, PullRequestSystem.initial]⟩

/-- The provider `Update` after a `Create` fails, so the status never says `open`: the next
invocation creates a second pull request while the first is open.  And when the status write
after a `Merge` fails, a deletion closes the merged pull request. -/
theorem reconcile_repeats_create_and_closes_merged :
    ¬ ProviderCallsSafe (pullRequestRun (PullRequestSystem.initial freshPullRequest)
        [.reconcile [.update], .reconcile []]).calls ∧
      ¬ ProviderCallsSafe (pullRequestRun (PullRequestSystem.initial freshPullRequest)
        [.reconcile [], .changeSpec .pullRequestMerged, .reconcile [.statusUpdate], .requestDeletion,
          .reconcile []]).calls := by
  decide

/-- In every run from a record the store accepts in which no status write and no provider
`Update` fails, the provider never holds two open pull requests for the record: both would be
the one the stored status names. -/
theorem pullRequestRun_open_unique (pr : PullRequest)
    (wellFormed : pr.deletionRequested → pr.finalizers ≠ []) (events : List PullRequestEvent)
    (reliable : ∀ event ∈ events, event.keepsWrites) {id other : Nat}
    (isOpen : (pullRequestRun (PullRequestSystem.initial pr) events).provider[id]? =
      some .pullRequestOpen)
    (otherOpen : (pullRequestRun (PullRequestSystem.initial pr) events).provider[other]? =
      some .pullRequestOpen) :
    id = other := by
  have tracks := (pullRequestRun_invariant reliable (pullRequestInvariant_initial wellFormed)).1
  obtain ⟨_, stored, -, -, recordedId⟩ := tracks.openRecorded id isOpen
  obtain ⟨_, otherStored, -, -, otherId⟩ := tracks.openRecorded other otherOpen
  cases stored.symm.trans otherStored
  exact Option.some.inj (recordedId.symm.trans otherId)

theorem pullRequestRun_open_unique_of_opened :
    (freshPullRequest.deletionRequested → freshPullRequest.finalizers ≠ []) ∧
      (∀ event ∈ [PullRequestEvent.reconcile []], event.keepsWrites) ∧
      (pullRequestRun (PullRequestSystem.initial freshPullRequest) [.reconcile []]).provider[0]? =
        some .pullRequestOpen ∧
      0 = 0 :=
  ⟨by decide, by decide, by decide,
    pullRequestRun_open_unique freshPullRequest (by decide) [.reconcile []] (by decide) (by decide)
      (by decide)⟩

end PullRequestReconciler

end GitOpsPromoter
