import GitOpsPromoter.Names

/-!
# The CommitStatus store

The reconcilers reach CommitStatus records through `r.List`, `r.Get`, `r.Create` and
`r.Update`.  The store is the list of all records, in the order a List returns them; a List
without a namespace option ranges over every namespace.  Reads see every earlier write of
the same invocation.
-/

namespace GitOpsPromoter

/-- All CommitStatus records, keyed by namespace and name. -/
abbrev CommitStatusStore := List CommitStatus

/-- `r.List` of CommitStatus records with label `commit-status = KubeSafeLabel(key)` and field
`.spec.sha = sha`. -/
def listCommitStatuses (store : CommitStatusStore) (key sha : String) : List CommitStatus :=
  store.filter fun commitStatus =>
    commitStatus.labels.lookup commitStatusLabel == some (kubeSafeLabel key) &&
      commitStatus.spec.sha == sha

/-- The records without `commit-status-copy=true`, the only ones a rollup or a copy reads. -/
def nonCopies (items : List CommitStatus) : List CommitStatus :=
  items.filter fun item => !item.isCopy

/-- `r.Get` of the CommitStatus `name` in `objectNamespace`. -/
def getCommitStatus (store : CommitStatusStore) (objectNamespace name : String) :
    Option CommitStatus :=
  store.find? fun commitStatus => commitStatus.namespace == objectNamespace && commitStatus.name == name

/-- `r.Update`: the record with the same namespace and name is replaced in place. -/
def updateCommitStatus (store : CommitStatusStore) (commitStatus : CommitStatus) :
    CommitStatusStore :=
  store.map fun old =>
    if old.namespace = commitStatus.namespace ∧ old.name = commitStatus.name then commitStatus
    else old

/-- `r.Create` of a record whose name is free: it joins the store. -/
def createCommitStatus (store : CommitStatusStore) (commitStatus : CommitStatus) :
    CommitStatusStore :=
  store ++ [commitStatus]

theorem getCommitStatus_eq_some {store : CommitStatusStore} {objectNamespace name : String}
    {commitStatus : CommitStatus}
    (found : getCommitStatus store objectNamespace name = some commitStatus) :
    commitStatus ∈ store ∧ commitStatus.namespace = objectNamespace ∧ commitStatus.name = name := by
  have keyMatches := List.find?_some found
  simp only [Bool.and_eq_true, beq_iff_eq] at keyMatches
  exact ⟨List.mem_of_find?_eq_some found, keyMatches⟩

theorem nonCopies_listCommitStatuses (store : CommitStatusStore) (key sha : String) :
    nonCopies (listCommitStatuses store key sha) = listCommitStatuses (nonCopies store) key sha := by
  simp only [nonCopies, listCommitStatuses, List.filter_filter, Bool.and_comm]

end GitOpsPromoter
