import GitOpsPromoter.PullRequestReconciler

/-!
# The PullRequest reconciler merges only what was asked for

`Reconcile` calls `Merge` only in the branch where the record's `spec.state` is `merged`, and
the copy an invocation works on keeps the spec of the record it read: the finalizer, `Create`,
`Close` and the status writes touch its metadata and status only.  A spec change moves a record
out of `open` only, so a record never leaves `merged` again.  Hence, whichever calls fail, in
every run a merged pull request on the provider belongs to a record that is gone or asks for
`merged` (`pullRequestRun_merge_requested`).
-/

namespace GitOpsPromoter

namespace PullRequestReconciler

/-- What an invocation that read a record asking for `spec` keeps: every stored record asks for
`spec`, and a merged pull request on the provider was there already (in `before`) or `spec`
asks for `merged`. -/
structure SpecKept (spec : PullRequestSpec) (before : List PullRequestState)
    (system : PullRequestSystem) : Prop where
  record : ∀ pr, system.record = some pr → pr.spec = spec
  merged : PullRequestState.pullRequestMerged ∈ system.provider →
    PullRequestState.pullRequestMerged ∈ before ∨ spec.state = .pullRequestMerged

/-- What a call keeps of the desired state: `SpecKept` after a return, and while the invocation
goes on, also an in-memory copy that asks for `spec`. -/
def Progress.KeepsSpec (spec : PullRequestSpec) (before : List PullRequestState) :
    Progress → Prop
  | .returned system => SpecKept spec before system
  | .continuing system pr => SpecKept spec before system ∧ pr.spec = spec

theorem Progress.KeepsSpec.system {spec : PullRequestSpec} {before : List PullRequestState}
    {progress : Progress} (keeps : progress.KeepsSpec spec before) :
    SpecKept spec before progress.system := by
  cases progress with
  | returned system => exact keeps
  | continuing system pr => exact keeps.1

theorem merged_mem_of_providerClose {provider provider' : List PullRequestState} {id : Option Nat}
    (closed : providerClose provider id = some provider')
    (member : PullRequestState.pullRequestMerged ∈ provider') :
    PullRequestState.pullRequestMerged ∈ provider := by
  obtain ⟨target, -, -, mergedIff, others⟩ := providerClose_spec closed
  obtain ⟨index, found⟩ := List.mem_iff_getElem?.mp member
  refine List.mem_iff_getElem?.mpr ⟨index, ?_⟩
  by_cases same : index = target
  · subst same
    exact mergedIff.mp found
  · rwa [others index same] at found

theorem deleteRecord_spec {pr marked : PullRequest} (kept : deleteRecord pr = some marked) :
    marked.spec = pr.spec := by
  unfold deleteRecord at kept
  split at kept
  · cases kept
  · cases kept
    rfl

section Calls

variable {failing : List PullRequestCall} {system : PullRequestSystem} {pr : PullRequest}
  {spec : PullRequestSpec} {before : List PullRequestState}

theorem SpecKept.call (kept : SpecKept spec before system) (providerCall : ProviderCall) :
    SpecKept spec before (system.call providerCall) :=
  ⟨kept.record, kept.merged⟩

theorem SpecKept.store (kept : SpecKept spec before system) (same : pr.spec = spec) :
    SpecKept spec before { system with record := some pr } :=
  ⟨by rintro _ ⟨⟩; exact same, kept.merged⟩

theorem statusUpdate_keepsSpec (kept : SpecKept spec before system) (same : pr.spec = spec) :
    (statusUpdate failing system pr).KeepsSpec spec before := by
  unfold statusUpdate
  split
  · exact kept
  · exact ⟨kept.store same, same⟩

theorem updatePullRequest_keepsSpec (kept : SpecKept spec before system) (same : pr.spec = spec) :
    (updatePullRequest failing system pr).KeepsSpec spec before := by
  unfold updatePullRequest
  dsimp only
  split
  · exact kept.call _
  · exact ⟨kept.call _, same⟩

theorem createPullRequest_keepsSpec (kept : SpecKept spec before system) (same : pr.spec = spec) :
    (createPullRequest failing system pr).KeepsSpec spec before := by
  unfold createPullRequest
  dsimp only
  split
  · exact kept.call _
  · refine ⟨⟨kept.record, fun merged => kept.merged ?_⟩, same⟩
    simpa using merged

theorem mergePullRequest_keepsSpec (kept : SpecKept spec before system) (same : pr.spec = spec)
    (asked : spec.state = .pullRequestMerged) :
    (mergePullRequest failing system pr).KeepsSpec spec before := by
  unfold mergePullRequest
  dsimp only
  split
  · exact kept.call _
  · split
    · exact ⟨⟨kept.record, fun _ => .inr asked⟩, same⟩
    · exact kept.call _

theorem closePullRequest_keepsSpec (kept : SpecKept spec before system) (same : pr.spec = spec) :
    (closePullRequest failing system pr).KeepsSpec spec before := by
  rcases closePullRequest_cases failing system pr with
    ⟨-, closing⟩ | ⟨-, returned | ⟨provider, closed, closing⟩⟩
  · rw [closing]
    exact ⟨kept, same⟩
  · rw [returned]
    exact kept.call _
  · rw [closing]
    exact ⟨⟨kept.record, fun merged => kept.merged (merged_mem_of_providerClose closed merged)⟩, same⟩

theorem observeGeneration_specKept (kept : SpecKept spec before system) (same : pr.spec = spec) :
    SpecKept spec before (observeGeneration failing system pr) := by
  have updated : (if pr.status.observedGeneration ≠ pr.generation then
      updatePullRequest failing system pr else .continuing system pr).KeepsSpec spec before := by
    split
    · exact updatePullRequest_keepsSpec kept same
    · exact ⟨kept, same⟩
  unfold observeGeneration
  split
  · rename_i next returned
    rw [returned] at updated
    exact updated
  · rename_i next current continuing
    rw [continuing] at updated
    have written : (statusUpdate failing next
        { current with status := { current.status with observedGeneration := current.generation } }).KeepsSpec
        spec before :=
      statusUpdate_keepsSpec updated.1 updated.2
    exact written.system

end Calls

section Invocation

variable {failing : List PullRequestCall} {system : PullRequestSystem} {pr : PullRequest}
  {before : List PullRequestState}

theorem handleFinalizer_keepsSpec (kept : SpecKept pr.spec before system) :
    (handleFinalizer failing system pr).KeepsSpec pr.spec before := by
  unfold handleFinalizer
  split
  · split
    · exact ⟨kept, rfl⟩
    · split
      · exact kept
      · exact ⟨kept.store rfl, rfl⟩
  · split
    · have closing : (closePullRequest failing system pr).KeepsSpec pr.spec before :=
        closePullRequest_keepsSpec kept rfl
      generalize closePullRequest failing system pr = progress at closing ⊢
      cases progress with
      | returned next => exact closing
      | continuing next closed =>
          dsimp only
          split
          · exact closing.1
          · refine ⟨fun remaining stored => ?_, closing.1.merged⟩
            dsimp only at stored
            split at stored
            · cases stored
            · cases stored
              rfl
    · exact ⟨kept, rfl⟩

theorem reconcileLive_specKept (kept : SpecKept pr.spec before system) :
    SpecKept pr.spec before (reconcileLive failing system pr) := by
  have found := kept.call .findOpen
  unfold reconcileLive
  dsimp only
  split
  · exact found
  split
  · split
    · exact found
    · exact ⟨fun _ stored => deleteRecord_spec stored, found.merged⟩
  split
  · exact found
  by_cases creates : pr.spec.state = .pullRequestOpen ∧ pr.status.state ≠ some .pullRequestOpen
  · rw [if_pos creates]
    have created : (createPullRequest failing (system.call .findOpen) pr).KeepsSpec pr.spec before :=
      createPullRequest_keepsSpec found rfl
    generalize createPullRequest failing (system.call .findOpen) pr = progress at created ⊢
    cases progress with
    | returned next => exact created
    | continuing next current =>
        obtain ⟨nextKept, currentSpec⟩ := created
        have specOpen : current.spec.state = .pullRequestOpen := currentSpec ▸ creates.1
        dsimp only
        rw [if_neg (by simp [specOpen]), if_neg (by simp [specOpen])]
        exact observeGeneration_specKept nextKept currentSpec
  · rw [if_neg creates]
    dsimp only
    split
    · rename_i merging
      have merged : (mergePullRequest failing (system.call .findOpen) pr).KeepsSpec pr.spec before :=
        mergePullRequest_keepsSpec found rfl merging.1
      generalize mergePullRequest failing (system.call .findOpen) pr = progress at merged ⊢
      cases progress with
      | returned next => exact merged
      | continuing next current => exact (statusUpdate_keepsSpec merged.1 merged.2).system
    · split
      · have closing : (closePullRequest failing (system.call .findOpen) pr).KeepsSpec pr.spec
            before :=
          closePullRequest_keepsSpec found rfl
        generalize closePullRequest failing (system.call .findOpen) pr = progress at closing ⊢
        cases progress with
        | returned next => exact closing
        | continuing next current => exact (statusUpdate_keepsSpec closing.1 closing.2).system
      · exact observeGeneration_specKept found rfl

theorem reconcile_specKept {stored : PullRequest} (read : system.record = some stored) :
    SpecKept stored.spec system.provider (reconcile failing system) := by
  have kept : SpecKept stored.spec system.provider system :=
    ⟨fun _ same => by rw [read] at same; cases same; rfl, .inl⟩
  unfold reconcile
  split
  · exact kept
  · rename_i current stillRead
    rw [read] at stillRead
    cases stillRead
    have ready : (handleFinalizer failing system stored).KeepsSpec stored.spec system.provider :=
      handleFinalizer_keepsSpec kept
    generalize handleFinalizer failing system stored = progress at ready ⊢
    cases progress with
    | returned next => exact ready
    | continuing next current =>
        obtain ⟨nextKept, currentSpec⟩ := ready
        rw [← currentSpec] at nextKept ⊢
        exact reconcileLive_specKept nextKept

end Invocation

/-- Every merged pull request on the provider was asked for: the record is gone, or asks for
`merged`. -/
def MergesRequested (system : PullRequestSystem) : Prop :=
  PullRequestState.pullRequestMerged ∈ system.provider →
    ∀ pr, system.record = some pr → pr.spec.state = .pullRequestMerged

theorem mergesRequested_reconcile {failing : List PullRequestCall} {system : PullRequestSystem}
    (requested : MergesRequested system) : MergesRequested (reconcile failing system) := by
  intro merged current stored
  cases read : system.record with
  | none =>
      have unchanged : reconcile failing system = system := by simp [reconcile, read]
      rw [unchanged, read] at stored
      cases stored
  | some pr =>
      have kept : SpecKept pr.spec system.provider (reconcile failing system) :=
        reconcile_specKept read
      rw [kept.record current stored]
      rcases kept.merged merged with earlier | asked
      · exact requested earlier pr read
      · exact asked

theorem mergesRequested_pullRequestStep {system : PullRequestSystem} (event : PullRequestEvent)
    (requested : MergesRequested system) : MergesRequested (pullRequestStep system event) := by
  cases event with
  | reconcile failing => exact mergesRequested_reconcile requested
  | requestDeletion =>
      intro merged current stored
      cases read : system.record with
      | none => simp [pullRequestStep, read] at stored
      | some pr =>
          simp only [pullRequestStep, read, Option.some_bind] at stored
          rw [deleteRecord_spec stored]
          exact requested merged pr read
  | changeSpec state =>
      intro merged current stored
      cases read : system.record with
      | none => simp [pullRequestStep, read] at stored
      | some pr =>
          have asked := requested merged pr read
          have notOpen : pr.spec.state ≠ .pullRequestOpen := by simp [asked]
          simp only [pullRequestStep, read, Option.map_some', notOpen, false_and, ite_false,
            Option.some.injEq] at stored
          rw [← stored]
          exact asked

theorem mergesRequested_pullRequestRun {system : PullRequestSystem} (events : List PullRequestEvent)
    (requested : MergesRequested system) : MergesRequested (pullRequestRun system events) := by
  induction events generalizing system with
  | nil => exact requested
  | cons event events ih => exact ih (mergesRequested_pullRequestStep event requested)

/-- In every run, whatever calls fail and whenever deletions and spec changes come, a merged
pull request on the provider belongs to a record that is gone or asks for `merged`. -/
theorem pullRequestRun_merge_requested (pr : PullRequest) (events : List PullRequestEvent)
    (merged : PullRequestState.pullRequestMerged ∈
      (pullRequestRun (PullRequestSystem.initial pr) events).provider)
    {current : PullRequest}
    (stored : (pullRequestRun (PullRequestSystem.initial pr) events).record = some current) :
    current.spec.state = .pullRequestMerged :=
  mergesRequested_pullRequestRun events (fun merged => by cases merged) merged current stored

/-- A record opened, then asked to merge, then merged. -/
def mergeRun : List PullRequestEvent :=
  [.reconcile [], .changeSpec .pullRequestMerged, .reconcile []]

theorem pullRequestRun_merge_requested_of_mergeRun :
    ∃ current, PullRequestState.pullRequestMerged ∈
        (pullRequestRun (PullRequestSystem.initial freshPullRequest) mergeRun).provider ∧
      (pullRequestRun (PullRequestSystem.initial freshPullRequest) mergeRun).record = some current ∧
      current.spec.state = .pullRequestMerged :=
  let current := (pullRequestRun (PullRequestSystem.initial freshPullRequest) mergeRun).record.getD
    freshPullRequest
  ⟨current, by decide, by decide,
    pullRequestRun_merge_requested freshPullRequest mergeRun (by decide) (by decide)⟩

end PullRequestReconciler

end GitOpsPromoter
