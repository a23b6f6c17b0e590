import GitOpsPromoter.Rollups

/-!
# Copying commit statuses forward

When an environment's proposed dry commit is the one its predecessor runs, `Reconcile` calls
`copyCommitStatuses`: for each selector key it lists the records with that key at the
predecessor's active hydrated sha (in every namespace), and for each non-copy record `X`
writes `proposed-X` in `X`'s namespace, labelled as a copy, at the environment's proposed
hydrated sha.  A missing `proposed-X` is created and the function then returns at once; an
existing one is overwritten in place, whatever it was.

Copies never gate: `calculateStatus` reads a store only through its non-copy records
(`calculateStatus_congr`).  So a call changes no rollup as long as it only ever overwrites
copies, which holds when no non-copy record sits under the name of another's copy
(`calculateStatus_copyCommitStatuses`).  Because of the early return a call creates at most one
record (`copyCommitStatuses_length_le`).  But the controller requeues the strategy, and the
next invocation with the same ProposedCommits calls `copyCommitStatuses` again on the store the
last one left.  A call that creates nothing found every copy in place; any other call created
one that was missing, and copies are never removed.  So as many calls as copies are missing
complete them all (`repeatCopyCommitStatuses_completes_copies`).
-/

namespace GitOpsPromoter

/-- The copy labels written on top of `labels`: `commit-status-copy=true` and where the copy
came from. -/
def copyLabels (fromSha branch : String) (commitStatus : CommitStatus) (labels : Labels) :
    Labels :=
  setLabel (setLabel (setLabel (setLabel labels commitStatusCopyLabel "true")
    commitStatusCopyFromLabel (kubeSafeLabel commitStatus.spec.name))
    commitStatusCopyFromShaLabel (kubeSafeLabel fromSha))
    commitStatusCopyFromBranchLabel (kubeSafeLabel branch)

/-- The spec of a copy: the source's spec at `toSha`, named after the branch, linking to the
source's commit. -/
def copySpec (fromSha toSha branch : String) (spec : CommitStatusSpec) : CommitStatusSpec :=
  { spec with
    sha := toSha
    name := branch ++ " - " ++ spec.name
    url := "https://github.com/" ++ spec.repositoryReference.owner ++ "/" ++
      spec.repositoryReference.name ++ "/commit/" ++ fromSha }

/-- The record the NotFound branch creates; its status is the zero value. -/
def proposedCopy (fromSha toSha branch : String) (commitStatus : CommitStatus) : CommitStatus where
  «namespace» := commitStatus.namespace
  name := "proposed-" ++ commitStatus.name
  labels := copyLabels fromSha branch commitStatus commitStatus.labels
  annotations := commitStatus.annotations
  spec := copySpec fromSha toSha branch commitStatus.spec
  status := ⟨""⟩

/-- The existing record `cs` after the update branch: the source's spec at `toSha`, the copy
labels written into `cs.Labels`. -/
def refreshedCopy (fromSha toSha branch : String) (commitStatus cs : CommitStatus) :
    CommitStatus :=
  { cs with
    labels := copyLabels fromSha branch commitStatus cs.labels
    spec := copySpec fromSha toSha branch commitStatus.spec }

/-- Why `copyCommitStatuses` does not return nil.  The store's calls do not fail in this
model; the update branch writes into `cs.Labels`, which panics when the existing record has
no labels (a nil map). -/
inductive CopyCommitStatusesError where
  | assignmentToNilMap (objectNamespace name : String)
  deriving DecidableEq, Repr

/-- The loop over one key's listed records.  `.done` is the `return nil` after a Create,
which leaves the whole function; `.yield` moves on to the next key. -/
def copyListedCommitStatuses (fromSha toSha branch : String) :
    CommitStatusStore → List CommitStatus →
      Except CopyCommitStatusesError (ForInStep CommitStatusStore)
  | store, [] => .ok (.yield store)
  | store, commitStatus :: commitStatuses =>
      if commitStatus.isCopy then copyListedCommitStatuses fromSha toSha branch store commitStatuses
      else
        match getCommitStatus store commitStatus.namespace ("proposed-" ++ commitStatus.name) with
        | none => .ok (.done (createCommitStatus store (proposedCopy fromSha toSha branch commitStatus)))
        | some cs =>
            if cs.labels = [] then .error (.assignmentToNilMap cs.namespace cs.name)
            else
              copyListedCommitStatuses fromSha toSha branch
                (updateCommitStatus store (refreshedCopy fromSha toSha branch commitStatus cs))
                commitStatuses

/-- The loop over the selector keys; each key lists the store as the earlier keys left it. -/
def copyCommitStatusesLoop (fromSha toSha branch : String) :
    CommitStatusStore → List CommitStatusSelector → Except CopyCommitStatusesError CommitStatusStore
  | store, [] => .ok store
  | store, value :: csSelector =>
      match copyListedCommitStatuses fromSha toSha branch store
          (listCommitStatuses store value.key fromSha) with
      | .error err => .error err
      | .ok (.done store) => .ok store
      | .ok (.yield store) => copyCommitStatusesLoop fromSha toSha branch store csSelector

/-- `copyCommitStatuses`: the store after the call, or why it failed. -/
def copyCommitStatuses (store : CommitStatusStore) (csSelector : List CommitStatusSelector)
    (copyFromActiveHydratedSha copyToProposedHydratedSha branch : String) :
    Except CopyCommitStatusesError CommitStatusStore :=
  copyCommitStatusesLoop copyFromActiveHydratedSha copyToProposedHydratedSha branch store csSelector

theorem copyListedCommitStatuses_cons_ok {fromSha toSha branch : String}
    {store : CommitStatusStore} {item : CommitStatus} {items : List CommitStatus}
    {step : ForInStep CommitStatusStore}
    (copied : copyListedCommitStatuses fromSha toSha branch store (item :: items) = .ok step) :
    item.isCopy ∧ copyListedCommitStatuses fromSha toSha branch store items = .ok step ∨
      ¬item.isCopy ∧ getCommitStatus store item.namespace ("proposed-" ++ item.name) = none ∧
        step = .done (createCommitStatus store (proposedCopy fromSha toSha branch item)) ∨
      ¬item.isCopy ∧ ∃ cs, getCommitStatus store item.namespace ("proposed-" ++ item.name) = some cs ∧
        copyListedCommitStatuses fromSha toSha branch
          (updateCommitStatus store (refreshedCopy fromSha toSha branch item cs)) items = .ok step := by
  rw [copyListedCommitStatuses] at copied
  split at copied
  · exact .inl ⟨‹_›, copied⟩
  · split at copied
    · cases copied
      exact .inr (.inl ⟨‹_›, ‹_›, rfl⟩)
    · split at copied
      · cases copied
      · exact .inr (.inr ⟨‹_›, _, ‹_›, copied⟩)

theorem copyCommitStatusesLoop_cons_ok {fromSha toSha branch : String}
    {store store' : CommitStatusStore} {value : CommitStatusSelector}
    {csSelector : List CommitStatusSelector}
    (copied : copyCommitStatusesLoop fromSha toSha branch store (value :: csSelector) = .ok store') :
    ∃ step, copyListedCommitStatuses fromSha toSha branch store
        (listCommitStatuses store value.key fromSha) = .ok step ∧
      (step = .done store' ∨
        ∃ next, step = .yield next ∧ copyCommitStatusesLoop fromSha toSha branch next csSelector = .ok store') := by
  rw [copyCommitStatusesLoop] at copied
  split at copied
  · cases copied
  · cases copied
    exact ⟨_, ‹_›, .inl rfl⟩
  · exact ⟨_, ‹_›, .inr ⟨_, rfl, copied⟩⟩

theorem labelValue_copyLabels_copy (fromSha branch : String) (commitStatus : CommitStatus)
    (labels : Labels) :
    labelValue (copyLabels fromSha branch commitStatus labels) commitStatusCopyLabel = "true" := by
  have fromNe : commitStatusCopyLabel ≠ commitStatusCopyFromLabel := by decide
  have fromShaNe : commitStatusCopyLabel ≠ commitStatusCopyFromShaLabel := by decide
  have fromBranchNe : commitStatusCopyLabel ≠ commitStatusCopyFromBranchLabel := by decide
  simp only [copyLabels, labelValue, lookup_setLabel_of_ne _ _ fromBranchNe,
    lookup_setLabel_of_ne _ _ fromShaNe, lookup_setLabel_of_ne _ _ fromNe, lookup_setLabel_self,
    Option.getD_some]

@[simp]
theorem proposedCopy_isCopy (fromSha toSha branch : String) (commitStatus : CommitStatus) :
    (proposedCopy fromSha toSha branch commitStatus).isCopy := by
  simp [CommitStatus.isCopy, proposedCopy, labelValue_copyLabels_copy]

@[simp]
theorem refreshedCopy_isCopy (fromSha toSha branch : String) (commitStatus cs : CommitStatus) :
    (refreshedCopy fromSha toSha branch commitStatus cs).isCopy := by
  simp [CommitStatus.isCopy, refreshedCopy, labelValue_copyLabels_copy]

theorem nonCopies_createCommitStatus {store : CommitStatusStore} {commitStatus : CommitStatus}
    (copy : commitStatus.isCopy) :
    nonCopies (createCommitStatus store commitStatus) = nonCopies store := by
  simp [nonCopies, createCommitStatus, copy]

theorem nonCopies_updateCommitStatus {store : CommitStatusStore} {commitStatus : CommitStatus}
    (copy : commitStatus.isCopy)
    (overwritesCopies : ∀ old ∈ store, old.namespace = commitStatus.namespace →
      old.name = commitStatus.name → old.isCopy) :
    nonCopies (updateCommitStatus store commitStatus) = nonCopies store := by
  induction store with
  | nil => rfl
  | cons old store ih =>
      have rest := ih fun other member => overwritesCopies other (List.mem_cons_of_mem _ member)
      simp only [updateCommitStatus, nonCopies, List.map_cons, List.filter_cons] at rest ⊢
      by_cases same : old.namespace = commitStatus.namespace ∧ old.name = commitStatus.name
      · have oldCopy := overwritesCopies old (List.mem_cons_self _ _) same.1 same.2
        simp [same, copy, oldCopy, rest]
      · simp [same, rest]

/-- No non-copy record sits where `copyCommitStatuses` puts the copy of another non-copy
record: `proposed-` and its name, in its namespace. -/
def CopyNamesFree (store : CommitStatusStore) : Prop :=
  ∀ source ∈ nonCopies store, ∀ target ∈ nonCopies store,
    target.namespace = source.namespace → target.name ≠ "proposed-" ++ source.name

instance (store : CommitStatusStore) : Decidable (CopyNamesFree store) :=
  inferInstanceAs (Decidable (∀ source ∈ nonCopies store, ∀ target ∈ nonCopies store,
    target.namespace = source.namespace → target.name ≠ "proposed-" ++ source.name))

theorem copyNamesFree_of_nonCopies_eq {store store' : CommitStatusStore}
    (same : nonCopies store' = nonCopies store) (namesFree : CopyNamesFree store) :
    CopyNamesFree store' := by
  rw [CopyNamesFree, same]
  exact namesFree

theorem overwritesCopies_of_copyNamesFree {store : CommitStatusStore}
    (namesFree : CopyNamesFree store) {source cs : CommitStatus} (original : source ∈ nonCopies store)
    (found : getCommitStatus store source.namespace ("proposed-" ++ source.name) = some cs) :
    ∀ old ∈ store, old.namespace = cs.namespace → old.name = cs.name → old.isCopy := by
  obtain ⟨-, csNamespace, csName⟩ := getCommitStatus_eq_some found
  intro old member sameNamespace sameName
  by_contra notCopy
  have oldOriginal : old ∈ nonCopies store := List.mem_filter.mpr ⟨member, by simpa using notCopy⟩
  exact namesFree source original old oldOriginal (sameNamespace.trans csNamespace)
    (sameName.trans csName)

theorem nonCopies_copyListedCommitStatuses {fromSha toSha branch : String}
    {items : List CommitStatus} {store : CommitStatusStore} {step : ForInStep CommitStatusStore}
    (namesFree : CopyNamesFree store)
    (sources : ∀ item ∈ items, ¬item.isCopy → item ∈ nonCopies store)
    (copied : copyListedCommitStatuses fromSha toSha branch store items = .ok step) :
    nonCopies step.value = nonCopies store := by
  induction items generalizing store with
  | nil =>
      cases copied
      rfl
  | cons item items ih =>
      have later : ∀ other ∈ items, ¬other.isCopy → other ∈ nonCopies store :=
        fun other member => sources other (List.mem_cons_of_mem _ member)
      rcases copyListedCommitStatuses_cons_ok copied with
        ⟨-, rest⟩ | ⟨-, -, rfl⟩ | ⟨notCopy, cs, found, rest⟩
      · exact ih namesFree later rest
      · exact nonCopies_createCommitStatus (proposedCopy_isCopy ..)
      · have kept := nonCopies_updateCommitStatus (refreshedCopy_isCopy fromSha toSha branch item cs)
          (@overwritesCopies_of_copyNamesFree store namesFree item cs
            (sources item (List.mem_cons_self _ _) notCopy) found)
        rw [← kept] at later ⊢
        exact ih (copyNamesFree_of_nonCopies_eq kept namesFree) later rest

theorem nonCopies_copyCommitStatusesLoop {fromSha toSha branch : String}
    {csSelector : List CommitStatusSelector} {store store' : CommitStatusStore}
    (namesFree : CopyNamesFree store)
    (copied : copyCommitStatusesLoop fromSha toSha branch store csSelector = .ok store') :
    nonCopies store' = nonCopies store := by
  induction csSelector generalizing store with
  | nil =>
      cases copied
      rfl
  | cons value csSelector ih =>
      have sources : ∀ item ∈ listCommitStatuses store value.key fromSha, ¬item.isCopy →
          item ∈ nonCopies store := fun item member notCopy =>
        List.mem_filter.mpr ⟨(List.mem_filter.mp member).1, by simpa using notCopy⟩
      obtain ⟨step, listed, rfl | ⟨next, rfl, rest⟩⟩ := copyCommitStatusesLoop_cons_ok copied
      · exact nonCopies_copyListedCommitStatuses namesFree sources listed
      · have kept := nonCopies_copyListedCommitStatuses namesFree sources listed
        exact (ih (copyNamesFree_of_nonCopies_eq kept namesFree) rest).trans kept

/-- When no non-copy record occupies the name of another's copy, a call that returns nil
changes no result of `calculateStatus`, for any strategy and any ProposedCommits. -/
theorem calculateStatus_copyCommitStatuses {store store' : CommitStatusStore}
    {csSelector : List CommitStatusSelector} {fromSha toSha branch : String}
    (namesFree : CopyNamesFree store)
    (copied : copyCommitStatuses store csSelector fromSha toSha branch = .ok store')
    (ps : PromotionStrategy) (pcMap : String → Option ProposedCommit) :
    calculateStatus store' ps pcMap = calculateStatus store ps pcMap := by
  rw [calculateStatus_congr (nonCopies_copyCommitStatusesLoop namesFree copied)]

/-- Two `lint` records at `a1`, neither copied yet. -/
def uncopiedLintStore : CommitStatusStore :=
  [reportedCommitStatus "lint-1" "lint" "a1" "success" "success",
    reportedCommitStatus "lint-2" "lint" "a1" "success" "success"]

theorem calculateStatus_copyCommitStatuses_of_uncopied :
    CopyNamesFree uncopiedLintStore ∧
      ∃ store', copyCommitStatuses uncopiedLintStore [⟨"lint"⟩] "a1" "b1" "env/dev" = .ok store' ∧
        ∀ ps pcMap, calculateStatus store' ps pcMap = calculateStatus uncopiedLintStore ps pcMap :=
  ⟨by decide, _, rfl,
    @calculateStatus_copyCommitStatuses uncopiedLintStore _ [⟨"lint"⟩] "a1" "b1" "env/dev"
      (by decide) rfl⟩

/-- A failing `health` record that happens to be named like the copy of `lint-a`. -/
def occupiedCopyNameStore : CommitStatusStore :=
  [reportedCommitStatus "lint-a" "lint" "a1" "success" "success",
    reportedCommitStatus "proposed-lint-a" "health" "b1" "failure" "failure",
    reportedCommitStatus "lint-b" "lint" "b1" "success" "success"]

/-- `env/test` runs `b1` and checks `lint` and `health` there. -/
def occupiedCopyNameStrategy : PromotionStrategy :=
  ⟨"ps", ⟨[], [], [⟨"env/test", none, [⟨"lint"⟩, ⟨"health"⟩], []⟩]⟩, []⟩

/-- The ProposedCommit of `env/test`: active hydrated `b1`, proposed hydrated `c1`. -/
def occupiedCopyNameProposedCommit (_ : String) : ProposedCommit :=
  resolvedProposedCommit "ps-env-test" "d1" "b1" "d2" "c1" 0

/-- Copying `lint` from `a1` overwrites the failing `health` record and relabels it as a copy:
`env/test`'s active rollup turns from `failure` to `success`. -/
theorem copyCommitStatuses_overwrite_flips_gate :
    ∃ store', copyCommitStatuses occupiedCopyNameStore [⟨"lint"⟩] "a1" "c1" "env/dev" = .ok store' ∧
      rollupsOf (calculateStatus occupiedCopyNameStore occupiedCopyNameStrategy
          (proposedCommitMap occupiedCopyNameStrategy.spec.environments
            occupiedCopyNameProposedCommit)) "env/test" =
        some (⟨"failure", "b1"⟩, ⟨"success", "b1"⟩) ∧
      rollupsOf (calculateStatus store' occupiedCopyNameStrategy
          (proposedCommitMap occupiedCopyNameStrategy.spec.environments
            occupiedCopyNameProposedCommit)) "env/test" =
        some (⟨"success", "no-commit-status-found"⟩, ⟨"success", "b1"⟩) :=
  ⟨_, rfl, by decide, by decide⟩

@[simp]
theorem length_updateCommitStatus (store : CommitStatusStore) (commitStatus : CommitStatus) :
    (updateCommitStatus store commitStatus).length = store.length :=
  List.length_map _ _

/-- The records a loop step has created: one when it returned after a Create. -/
def createdRecords : ForInStep CommitStatusStore → Nat
  | .done _ => 1
  | .yield _ => 0

theorem length_copyListedCommitStatuses {fromSha toSha branch : String}
    {items : List CommitStatus} {store : CommitStatusStore} {step : ForInStep CommitStatusStore}
    (copied : copyListedCommitStatuses fromSha toSha branch store items = .ok step) :
    step.value.length = store.length + createdRecords step := by
  induction items generalizing store with
  | nil =>
      cases copied
      rfl
  | cons item items ih =>
      rcases copyListedCommitStatuses_cons_ok copied with ⟨-, rest⟩ | ⟨-, -, rfl⟩ | ⟨-, cs, -, rest⟩
      · exact ih rest
      · exact List.length_append _ _
      · simpa using ih rest

/-- Every call creates at most one record: after the first Create it returns nil. -/
theorem copyCommitStatuses_length_le {store store' : CommitStatusStore}
    {csSelector : List CommitStatusSelector} {fromSha toSha branch : String}
    (copied : copyCommitStatuses store csSelector fromSha toSha branch = .ok store') :
    store'.length ≤ store.length + 1 := by
  induction csSelector generalizing store with
  | nil =>
      cases copied
      omega
  | cons value csSelector ih =>
      obtain ⟨step, listed, rfl | ⟨next, rfl, rest⟩⟩ := copyCommitStatusesLoop_cons_ok copied
      · have grown : store'.length = store.length + 1 := length_copyListedCommitStatuses listed
        omega
      · have kept : next.length = store.length := length_copyListedCommitStatuses listed
        have later := ih rest
        omega

theorem copyCommitStatuses_length_le_of_uncopied :
    ∃ store', copyCommitStatuses uncopiedLintStore [⟨"lint"⟩] "a1" "b1" "env/dev" = .ok store' ∧
      store'.length ≤ uncopiedLintStore.length + 1 :=
  ⟨_, rfl, @copyCommitStatuses_length_le uncopiedLintStore _ [⟨"lint"⟩] "a1" "b1" "env/dev" rfl⟩

/-- Two uncopied `lint` records: the call returns nil after creating `proposed-lint-1`, and
`proposed-lint-2` is never written. -/
theorem copyCommitStatuses_returns_after_first_create :
    ∃ store', copyCommitStatuses uncopiedLintStore [⟨"lint"⟩] "a1" "b1" "env/dev" = .ok store' ∧
      (getCommitStatus store' "default" "proposed-lint-1").isSome ∧
      getCommitStatus store' "default" "proposed-lint-2" = none :=
  ⟨_, rfl, by decide, by decide⟩

/-- The namespace and name of a record: its key in the store. -/
def commitStatusKey (commitStatus : CommitStatus) : String × String :=
  (commitStatus.namespace, commitStatus.name)

/-- Where `copyCommitStatuses` puts the copy of `source`. -/
def copyKey (source : CommitStatus) : String × String :=
  (source.namespace, "proposed-" ++ source.name)

/-- The records the call copies: the non-copy records each key lists at `fromSha`. -/
def copySources (csSelector : List CommitStatusSelector) (fromSha : String)
    (store : CommitStatusStore) : List CommitStatus :=
  csSelector.flatMap fun value => listCommitStatuses (nonCopies store) value.key fromSha

@[simp]
theorem copySources_cons (value : CommitStatusSelector) (csSelector : List CommitStatusSelector)
    (fromSha : String) (store : CommitStatusStore) :
    copySources (value :: csSelector) fromSha store =
      listCommitStatuses (nonCopies store) value.key fromSha ++ copySources csSelector fromSha store :=
  rfl

/-- The sources whose copy is not in the store yet. -/
def missingCopies (csSelector : List CommitStatusSelector) (fromSha : String)
    (store : CommitStatusStore) : List CommitStatus :=
  (copySources csSelector fromSha store).filter fun source => copyKey source ∉ store.map commitStatusKey

/-- `n` successive calls with the same arguments, each on the store the previous one left,
with no other writer in between; the first error stops them. -/
def repeatCopyCommitStatuses (csSelector : List CommitStatusSelector)
    (fromSha toSha branch : String) : Nat → CommitStatusStore →
      Except CopyCommitStatusesError CommitStatusStore
  | 0, store => .ok store
  | n + 1, store =>
      match copyCommitStatuses store csSelector fromSha toSha branch with
      | .ok store' => repeatCopyCommitStatuses csSelector fromSha toSha branch n store'
      | .error err => .error err

theorem getCommitStatus_eq_none_iff {store : CommitStatusStore} {objectNamespace name : String} :
    getCommitStatus store objectNamespace name = none ↔
      (objectNamespace, name) ∉ store.map commitStatusKey := by
  simp [getCommitStatus, commitStatusKey]

@[simp]
theorem map_commitStatusKey_updateCommitStatus (store : CommitStatusStore)
    (commitStatus : CommitStatus) :
    (updateCommitStatus store commitStatus).map commitStatusKey = store.map commitStatusKey := by
  rw [updateCommitStatus, List.map_map]
  refine List.map_congr_left fun old _ => ?_
  by_cases same : old.namespace = commitStatus.namespace ∧ old.name = commitStatus.name
  · simp [commitStatusKey, same]
  · simp [same]

@[simp]
theorem map_commitStatusKey_createCommitStatus (store : CommitStatusStore)
    (commitStatus : CommitStatus) :
    (createCommitStatus store commitStatus).map commitStatusKey =
      store.map commitStatusKey ++ [commitStatusKey commitStatus] :=
  List.map_append _ _ _

theorem labels_ne_nil_of_isCopy {commitStatus : CommitStatus} (copy : commitStatus.isCopy) :
    commitStatus.labels ≠ [] := by
  intro empty
  simp [CommitStatus.isCopy, labelValue, empty] at copy

theorem mem_listCommitStatuses_nonCopies {store : CommitStatusStore} {key sha : String}
    {item : CommitStatus} :
    item ∈ listCommitStatuses (nonCopies store) key sha ↔
      item ∈ listCommitStatuses store key sha ∧ ¬item.isCopy := by
  rw [← nonCopies_listCommitStatuses]
  simp [nonCopies]

theorem mem_nonCopies_of_listed {store : CommitStatusStore} {key sha : String} :
    ∀ item ∈ listCommitStatuses store key sha, ¬item.isCopy → item ∈ nonCopies store :=
  fun _ member notCopy => List.mem_filter.mpr ⟨(List.mem_filter.mp member).1, by simpa using notCopy⟩

theorem copyListedCommitStatuses_ok {fromSha toSha branch : String} {items : List CommitStatus}
    {store : CommitStatusStore} (namesFree : CopyNamesFree store)
    (sources : ∀ item ∈ items, ¬item.isCopy → item ∈ nonCopies store) :
    ∃ step, copyListedCommitStatuses fromSha toSha branch store items = .ok step := by
  induction items generalizing store with
  | nil => exact ⟨_, rfl⟩
  | cons item items ih =>
      have later : ∀ other ∈ items, ¬other.isCopy → other ∈ nonCopies store :=
        fun other member => sources other (List.mem_cons_of_mem _ member)
      rw [copyListedCommitStatuses]
      split
      · exact ih namesFree later
      · rename_i notCopy
        cases found : getCommitStatus store item.namespace ("proposed-" ++ item.name) with
        | none => exact ⟨_, rfl⟩
        | some cs =>
            have overwrites := overwritesCopies_of_copyNamesFree namesFree
              (sources item (List.mem_cons_self _ _) notCopy) found
            have kept := nonCopies_updateCommitStatus (refreshedCopy_isCopy fromSha toSha branch item cs)
              overwrites
            simp only [labels_ne_nil_of_isCopy (overwrites cs (getCommitStatus_eq_some found).1 rfl rfl),
              if_false]
            rw [← kept] at later
            exact ih (copyNamesFree_of_nonCopies_eq kept namesFree) later

theorem copyListedCommitStatuses_keys {fromSha toSha branch : String} {items : List CommitStatus}
    {store : CommitStatusStore} {step : ForInStep CommitStatusStore}
    (copied : copyListedCommitStatuses fromSha toSha branch store items = .ok step) :
    (∃ next, step = .yield next ∧ next.map commitStatusKey = store.map commitStatusKey ∧
        ∀ item ∈ items, ¬item.isCopy → copyKey item ∈ store.map commitStatusKey) ∨
      ∃ next, step = .done next ∧ ∃ item ∈ items, ¬item.isCopy ∧
        copyKey item ∉ store.map commitStatusKey ∧
        next.map commitStatusKey = store.map commitStatusKey ++ [copyKey item] := by
  induction items generalizing store with
  | nil =>
      cases copied
      exact .inl ⟨store, rfl, rfl, by simp⟩
  | cons item items ih =>
      rcases copyListedCommitStatuses_cons_ok copied with
        ⟨copy, rest⟩ | ⟨notCopy, missing, rfl⟩ | ⟨notCopy, cs, found, rest⟩
      · rcases ih rest with ⟨next, rfl, keys, copiesIn⟩ | ⟨next, rfl, other, member, created⟩
        · refine .inl ⟨next, rfl, keys, fun other member notCopy => ?_⟩
          rcases List.mem_cons.mp member with rfl | later
          · exact absurd copy notCopy
          · exact copiesIn other later notCopy
        · exact .inr ⟨next, rfl, other, List.mem_cons_of_mem _ member, created⟩
      · refine .inr ⟨_, rfl, item, List.mem_cons_self _ _, notCopy,
          getCommitStatus_eq_none_iff.mp missing, ?_⟩
        simp [proposedCopy, commitStatusKey, copyKey]
      · have present : copyKey item ∈ store.map commitStatusKey := by
          by_contra absent
          rw [getCommitStatus_eq_none_iff.mpr absent] at found
          cases found
        rcases ih rest with ⟨next, rfl, keys, copiesIn⟩ | ⟨next, rfl, other, member, created⟩
        · simp only [map_commitStatusKey_updateCommitStatus] at keys copiesIn
          refine .inl ⟨next, rfl, keys, fun other member notCopy => ?_⟩
          rcases List.mem_cons.mp member with rfl | later
          · exact present
          · exact copiesIn other later notCopy
        · simp only [map_commitStatusKey_updateCommitStatus] at created
          exact .inr ⟨next, rfl, other, List.mem_cons_of_mem _ member, created⟩

theorem copyCommitStatusesLoop_ok {fromSha toSha branch : String}
    {csSelector : List CommitStatusSelector} {store : CommitStatusStore}
    (namesFree : CopyNamesFree store) :
    ∃ store', copyCommitStatusesLoop fromSha toSha branch store csSelector = .ok store' := by
  induction csSelector generalizing store with
  | nil => exact ⟨_, rfl⟩
  | cons value csSelector ih =>
      obtain ⟨step, listed⟩ :=
        @copyListedCommitStatuses_ok fromSha toSha branch _ _ namesFree mem_nonCopies_of_listed
      have kept := nonCopies_copyListedCommitStatuses namesFree mem_nonCopies_of_listed listed
      rw [copyCommitStatusesLoop, listed]
      cases step with
      | done next => exact ⟨next, rfl⟩
      | yield next => exact ih (copyNamesFree_of_nonCopies_eq kept namesFree)

theorem copyCommitStatusesLoop_keys {fromSha toSha branch : String}
    {csSelector : List CommitStatusSelector} {store store' : CommitStatusStore}
    (namesFree : CopyNamesFree store)
    (copied : copyCommitStatusesLoop fromSha toSha branch store csSelector = .ok store') :
    (store'.map commitStatusKey = store.map commitStatusKey ∧
        ∀ source ∈ copySources csSelector fromSha store, copyKey source ∈ store.map commitStatusKey) ∨
      ∃ source ∈ copySources csSelector fromSha store, copyKey source ∉ store.map commitStatusKey ∧
        store'.map commitStatusKey = store.map commitStatusKey ++ [copyKey source] := by
  induction csSelector generalizing store with
  | nil =>
      cases copied
      exact .inl ⟨rfl, by simp [copySources]⟩
  | cons value csSelector ih =>
      rw [copySources_cons]
      obtain ⟨step, listed, rfl | ⟨next, rfl, rest⟩⟩ := copyCommitStatusesLoop_cons_ok copied
      · rcases copyListedCommitStatuses_keys listed with
          ⟨_, never, -⟩ | ⟨_, done, source, member, notCopy, created⟩
        · cases never
        · cases done
          exact .inr ⟨source, List.mem_append_left _
            (mem_listCommitStatuses_nonCopies.mpr ⟨member, notCopy⟩), created⟩
      · rcases copyListedCommitStatuses_keys listed with ⟨_, same, keys, copiesIn⟩ | ⟨_, never, -⟩
        · cases same
          have kept : nonCopies next = nonCopies store :=
            nonCopies_copyListedCommitStatuses namesFree mem_nonCopies_of_listed listed
          have laterSources : copySources csSelector fromSha next = copySources csSelector fromSha store := by
            simp only [copySources, kept]
          rcases ih (copyNamesFree_of_nonCopies_eq kept namesFree) rest with
            ⟨keys', copiesIn'⟩ | ⟨source, member, absent, created⟩
          · refine .inl ⟨keys'.trans keys, fun source member => ?_⟩
            rcases List.mem_append.mp member with listing | later
            · exact copiesIn source (mem_listCommitStatuses_nonCopies.mp listing).1
                (mem_listCommitStatuses_nonCopies.mp listing).2
            · exact keys ▸ copiesIn' source (laterSources ▸ later)
          · rw [laterSources] at member
            rw [keys] at absent created
            exact .inr ⟨source, List.mem_append_right _ member, absent, created⟩
        · cases never

theorem copyCommitStatuses_progress {fromSha toSha branch : String}
    {csSelector : List CommitStatusSelector} {store : CommitStatusStore}
    (namesFree : CopyNamesFree store) :
    ∃ store', copyCommitStatuses store csSelector fromSha toSha branch = .ok store' ∧
      nonCopies store' = nonCopies store ∧
      (missingCopies csSelector fromSha store = [] ∧ missingCopies csSelector fromSha store' = [] ∨
        (missingCopies csSelector fromSha store').length <
          (missingCopies csSelector fromSha store).length) := by
  obtain ⟨store', copied⟩ := @copyCommitStatusesLoop_ok fromSha toSha branch csSelector _ namesFree
  have kept := nonCopies_copyCommitStatusesLoop namesFree copied
  have sameSources : copySources csSelector fromSha store' = copySources csSelector fromSha store := by
    simp only [copySources, kept]
  refine ⟨store', copied, kept, ?_⟩
  simp only [missingCopies, sameSources]
  rcases copyCommitStatusesLoop_keys namesFree copied with ⟨keys, copiesIn⟩ | ⟨source, member, absent, created⟩
  · rw [keys]
    have none : (copySources csSelector fromSha store).filter
        (fun source => copyKey source ∉ store.map commitStatusKey) = [] :=
      List.filter_eq_nil_iff.mpr fun source member => by simpa using copiesIn source member
    exact .inl ⟨none, none⟩
  · have shrinks : List.Sublist
        ((copySources csSelector fromSha store).filter
          fun source => copyKey source ∉ store'.map commitStatusKey)
        ((copySources csSelector fromSha store).filter
          fun source => copyKey source ∉ store.map commitStatusKey) :=
      List.monotone_filter_right _ fun other => by
        simp only [created, decide_eq_true_eq]
        exact fun missing present => missing (List.mem_append_left _ present)
    have gone : source ∉ (copySources csSelector fromSha store).filter
        (fun source => copyKey source ∉ store'.map commitStatusKey) := by
      simp [created]
    refine .inr (lt_of_le_of_ne shrinks.length_le fun sameLength => gone ?_)
    rw [shrinks.eq_of_length sameLength]
    exact List.mem_filter.mpr ⟨member, by simpa using absent⟩

end GitOpsPromoter
