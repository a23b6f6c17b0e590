import GitOpsPromoter.EnvironmentStatus
import GitOpsPromoter.CommitStatusStore

/-!
# Rolling up commit statuses

`calculateStatus` walks the spec's environments.  For each it upserts a fresh status entry
with the ProposedCommit's commits and `unknown` rollups, looks the branch up in the
spec-ordered view to get an index `i`, and then writes both rollups into
`Status.Environments[i]` of the raw list.  The two rollups share their key loop
(`collectCommitStatuses`) and differ afterwards: the active side, when it collected nothing,
writes `success` into the proposed rollup, and the proposed side scans the active records.

The main result here is `calculateStatus_of_ordered`: when the prior status lists a prefix
of the spec's distinct branches in spec order, the result is the list of every environment's
own rolled-up entry, in spec order.
-/

namespace GitOpsPromoter

/-- The sentinel for a key with no matching record. -/
def noCommitStatusFound : PromotionStrategyCommitStatus :=
  ⟨"no-commit-status-found", "no-commit-status-found"⟩

/-- The sentinel for a key with several matching records (the source's spelling). -/
def toManyMatchingSha : PromotionStrategyCommitStatus :=
  ⟨"to-many-matching-sha", "to-many-matching-sha"⟩

/-- `activeCommitStatusList`: the environment's active keys, then the strategy's. -/
def activeCommitStatusList (ps : PromotionStrategy) (environment : Environment) :
    List CommitStatusSelector :=
  environment.activeCommitStatuses ++ ps.spec.activeCommitStatuses

/-- `proposedCommitStatusList`: the environment's proposed keys, then the strategy's. -/
def proposedCommitStatusList (ps : PromotionStrategy) (environment : Environment) :
    List CommitStatusSelector :=
  environment.proposedCommitStatuses ++ ps.spec.proposedCommitStatuses

/-- The key loop of a rollup: each key's non-copy records at `sha`; a single record is
collected, none or several set the rollup to a sentinel. -/
def collectCommitStatuses (store : CommitStatusStore) (sha : String) :
    List CommitStatusSelector → PromotionStrategyCommitStatus → List CommitStatus →
      PromotionStrategyCommitStatus × List CommitStatus
  | [], summary, collected => (summary, collected)
  | status :: statuses, summary, collected =>
      match nonCopies (listCommitStatuses store status.key sha) with
      | [commitStatus] =>
          collectCommitStatuses store sha statuses summary (collected ++ [commitStatus])
      | _ :: _ :: _ => collectCommitStatuses store sha statuses toManyMatchingSha collected
      | [] => collectCommitStatuses store sha statuses noCommitStatusFound collected

/-- The loop that bubbles up `success`: the first record whose observed state is not
`success` overrides the rollup with its spec state and sha. -/
def bubbleUpSuccess (summary : PromotionStrategyCommitStatus) (collected : List CommitStatus) :
    PromotionStrategyCommitStatus :=
  match collected.find? fun commitStatus => commitStatus.status.state != "success" with
  | some commitStatus => ⟨commitStatus.spec.state, commitStatus.spec.sha⟩
  | none => { summary with state := "success" }

/-- The fresh entry `calculateStatus` upserts for an environment. -/
def initialEnvironmentStatus (branch : String) (pc : ProposedCommit) : EnvironmentStatus where
  branch := branch
  active := ⟨pc.status.active.dry, pc.status.active.hydrated, ⟨"unknown", "unknown"⟩⟩
  proposed := ⟨pc.status.proposed.dry, pc.status.proposed.hydrated, ⟨"unknown", "unknown"⟩⟩
  lastHealthyDryShas := []

/-- Bubbling up the active CommitStatuses into `entry` (lines 294-346), returning the entry
and `allActiveCSList`.  When nothing was collected it writes `success` and the active
hydrated sha into the proposed rollup, leaving the active one as the key loop left it. -/
def bubbleUpActive (store : CommitStatusStore) (ps : PromotionStrategy)
    (environment : Environment) (pc : ProposedCommit) (entry : EnvironmentStatus) :
    EnvironmentStatus × List CommitStatus :=
  let keyLoop := collectCommitStatuses store pc.status.active.hydrated.sha
    (activeCommitStatusList ps environment) entry.active.commitStatus []
  let summary := keyLoop.1
  let allActiveCSList := keyLoop.2
  if allActiveCSList.isEmpty then
    ({ entry with
        active := { entry.active with commitStatus := summary }
        proposed := { entry.proposed with
          commitStatus := ⟨"success", pc.status.active.hydrated.sha⟩ } }, allActiveCSList)
  else
    ({ entry with
        active := { entry.active with
          commitStatus := bubbleUpSuccess summary allActiveCSList } }, allActiveCSList)

/-- Bubbling up the proposed CommitStatuses into `entry` (lines 348-398).  Its key loop
reads the proposed hydrated sha, but its final scan runs over `allActiveCSList`. -/
def bubbleUpProposed (store : CommitStatusStore) (ps : PromotionStrategy)
    (environment : Environment) (pc : ProposedCommit) (allActiveCSList : List CommitStatus)
    (entry : EnvironmentStatus) : EnvironmentStatus :=
  let keyLoop := collectCommitStatuses store pc.status.proposed.hydrated.sha
    (proposedCommitStatusList ps environment) entry.proposed.commitStatus []
  let summary := keyLoop.1
  let allProposdedCSList := keyLoop.2
  if allProposdedCSList.isEmpty then
    { entry with proposed := { entry.proposed with
        commitStatus := ⟨"success", pc.status.active.hydrated.sha⟩ } }
  else
    { entry with proposed := { entry.proposed with
        commitStatus := bubbleUpSuccess summary allActiveCSList } }

/-- Both rollups of one environment, written into `entry`. -/
def bubbleUp (store : CommitStatusStore) (ps : PromotionStrategy) (environment : Environment)
    (pc : ProposedCommit) (entry : EnvironmentStatus) : EnvironmentStatus :=
  let active := bubbleUpActive store ps environment pc entry
  bubbleUpProposed store ps environment pc active.2 active.1

/-- Why `calculateStatus` stops: the error it returns, or a runtime panic. -/
inductive CalculateStatusError where
  /-- `ProposedCommit not found for branch %s`. -/
  | proposedCommitNotFound (branch : String)
  /-- `Status.Environments[i]` with `i` outside the list: an index-out-of-range panic. -/
  | indexOutOfRange (index : Int)
  deriving DecidableEq, Repr

/-- One iteration of `calculateStatus`.  Line 290 reads `Status.Environments[i]` exactly when
`i >= len`, which panics; a negative `i` panics at the first write. -/
def calculateEnvironmentStatus (store : CommitStatusStore) (ps : PromotionStrategy)
    (pcMap : String → Option ProposedCommit) (statuses : List EnvironmentStatus)
    (environment : Environment) : Except CalculateStatusError (List EnvironmentStatus) :=
  match pcMap environment.branch with
  | none => .error (.proposedCommitNotFound environment.branch)
  | some pc =>
      let statuses := upsertEnvironmentStatus statuses
        (initialEnvironmentStatus environment.branch pc)
      let i := (getEnvironmentStatusByBranch { ps with status := statuses } environment.branch).1
      if 0 ≤ i then
        match statuses[i.toNat]? with
        | some entry => .ok (statuses.set i.toNat (bubbleUp store ps environment pc entry))
        | none => .error (.indexOutOfRange i)
      else .error (.indexOutOfRange i)

/-- `calculateStatus`: the new `Status.Environments`. -/
def calculateStatus (store : CommitStatusStore) (ps : PromotionStrategy)
    (pcMap : String → Option ProposedCommit) : Except CalculateStatusError (List EnvironmentStatus) :=
  ps.spec.environments.foldlM (calculateEnvironmentStatus store ps pcMap) ps.status

/-- The map `Reconcile` builds: the ProposedCommit of every spec branch. -/
def proposedCommitMap (environments : List Environment) (proposedCommitOf : String → ProposedCommit) :
    String → Option ProposedCommit :=
  fun branch => if environments.any (·.branch == branch) then some (proposedCommitOf branch) else none

/-- The status entry of `branch`: the first entry with that branch. -/
def entryOf (statuses : List EnvironmentStatus) (branch : String) : Option EnvironmentStatus :=
  statuses.find? (·.branch == branch)

/-- The active and proposed rollups a run of `calculateStatus` leaves in the entry of
`branch`. -/
def rollupsOf (result : Except CalculateStatusError (List EnvironmentStatus)) (branch : String) :
    Option (PromotionStrategyCommitStatus × PromotionStrategyCommitStatus) :=
  match result with
  | .ok statuses =>
      (entryOf statuses branch).map fun entry => (entry.active.commitStatus, entry.proposed.commitStatus)
  | .error _ => none

/-- `UpsertEnvironmentStatus` refines the insertion into a map from branches to entries: the
entry of `i`'s branch becomes `i`, and every other branch keeps its entry, whatever the order
and the duplicates of the slice. -/
theorem entryOf_upsertEnvironmentStatus (slice : List EnvironmentStatus) (i : EnvironmentStatus)
    (branch : String) :
    entryOf (upsertEnvironmentStatus slice i) branch =
      if i.branch = branch then some i else entryOf slice branch := by
  rw [upsertEnvironmentStatus_eq_loop]
  induction slice with
  | nil => by_cases same : i.branch = branch <;> simp [upsertEnvironmentStatusLoop, entryOf, same]
  | cons ele slice ih =>
      unfold entryOf at ih ⊢
      by_cases replaced : ele.branch = i.branch
      · by_cases same : i.branch = branch <;> simp [upsertEnvironmentStatusLoop, replaced, same]
      · by_cases found : ele.branch = branch
        · have other : i.branch ≠ branch := fun same => replaced (found.trans same.symm)
          simp [upsertEnvironmentStatusLoop, found, other, Ne.symm other]
        · simp [upsertEnvironmentStatusLoop, replaced, found, ih]

@[simp]
theorem bubbleUpActive_branch (store : CommitStatusStore) (ps : PromotionStrategy)
    (environment : Environment) (pc : ProposedCommit) (entry : EnvironmentStatus) :
    (bubbleUpActive store ps environment pc entry).1.branch = entry.branch := by
  unfold bubbleUpActive
  dsimp only
  split <;> rfl

@[simp]
theorem bubbleUp_branch (store : CommitStatusStore) (ps : PromotionStrategy)
    (environment : Environment) (pc : ProposedCommit) (entry : EnvironmentStatus) :
    (bubbleUp store ps environment pc entry).branch = entry.branch := by
  unfold bubbleUp bubbleUpProposed
  dsimp only
  split <;> exact bubbleUpActive_branch store ps environment pc entry

theorem proposedCommitMap_of_mem {environments : List Environment}
    (proposedCommitOf : String → ProposedCommit) {environment : Environment}
    (member : environment ∈ environments) :
    proposedCommitMap environments proposedCommitOf environment.branch =
      some (proposedCommitOf environment.branch) := by
  have found : environments.any (·.branch == environment.branch) = true :=
    List.any_eq_true.mpr ⟨environment, member, beq_self_eq_true _⟩
  simp only [proposedCommitMap, found, ite_true]

theorem collectCommitStatuses_congr {store store' : CommitStatusStore}
    (sameNonCopies : nonCopies store = nonCopies store') :
    collectCommitStatuses store = collectCommitStatuses store' := by
  funext sha keys summary collected
  induction keys generalizing summary collected with
  | nil => rfl
  | cons key keys ih =>
      simp only [collectCommitStatuses, nonCopies_listCommitStatuses, sameNonCopies, ih]

theorem calculateStatus_congr {store store' : CommitStatusStore}
    (sameNonCopies : nonCopies store = nonCopies store') :
    calculateStatus store = calculateStatus store' := by
  have sameBubbleUp : bubbleUp store = bubbleUp store' := by
    funext ps environment pc entry
    simp only [bubbleUp, bubbleUpActive, bubbleUpProposed, collectCommitStatuses_congr sameNonCopies]
  have sameStep : calculateEnvironmentStatus store = calculateEnvironmentStatus store' := by
    funext ps pcMap statuses environment
    simp only [calculateEnvironmentStatus, sameBubbleUp]
  funext ps pcMap
  simp only [calculateStatus, sameStep]

/-- The entry an environment's own iteration produces: the fresh entry of its branch with both
rollups written. -/
def rolledUpEnvironmentStatus (store : CommitStatusStore) (ps : PromotionStrategy)
    (proposedCommitOf : String → ProposedCommit) (environment : Environment) : EnvironmentStatus :=
  bubbleUp store ps environment (proposedCommitOf environment.branch)
    (initialEnvironmentStatus environment.branch (proposedCommitOf environment.branch))

@[simp]
theorem rolledUpEnvironmentStatus_branch (store : CommitStatusStore) (ps : PromotionStrategy)
    (proposedCommitOf : String → ProposedCommit) (environment : Environment) :
    (rolledUpEnvironmentStatus store ps proposedCommitOf environment).branch = environment.branch := by
  simp [rolledUpEnvironmentStatus, initialEnvironmentStatus]

section Ordered

variable (store : CommitStatusStore) (ps : PromotionStrategy)
  (proposedCommitOf : String → ProposedCommit)

theorem upsert_ordered {done : List EnvironmentStatus} {rest : List EnvironmentStatus}
    {fresh : EnvironmentStatus} (absent : fresh.branch ∉ done.map (·.branch))
    (leading : ∀ first ∈ rest.head?, first.branch = fresh.branch) :
    upsertEnvironmentStatus (done ++ rest) fresh = done ++ fresh :: rest.tail := by
  rw [upsertEnvironmentStatus_eq_loop]
  cases rest with
  | nil => simpa using upsertEnvironmentStatusLoop_of_not_mem fresh done absent
  | cons first rest =>
      exact upsertEnvironmentStatusLoop_append_of_not_mem fresh done first rest absent
        (leading first rfl)

theorem branches_prefix_cons {rest : List EnvironmentStatus} {branch : String} {todo : List String}
    (leading : rest.map (·.branch) <+: branch :: todo) :
    (∀ first ∈ rest.head?, first.branch = branch) ∧ rest.tail.map (·.branch) <+: todo := by
  cases rest with
  | nil => exact ⟨by simp, List.nil_prefix⟩
  | cons head rest =>
      obtain ⟨same, tail⟩ := List.cons_prefix_cons.mp leading
      exact ⟨by simpa using same, tail⟩

theorem calculateEnvironmentStatus_of_ordered (distinct : ps.specBranches.Nodup)
    {done todo : List Environment} {environment : Environment}
    (split : ps.spec.environments = done ++ environment :: todo) {rest : List EnvironmentStatus}
    (leading : rest.map (·.branch) <+: (environment :: todo).map (·.branch)) :
    calculateEnvironmentStatus store ps (proposedCommitMap ps.spec.environments proposedCommitOf)
        (done.map (rolledUpEnvironmentStatus store ps proposedCommitOf) ++ rest) environment =
      .ok (done.map (rolledUpEnvironmentStatus store ps proposedCommitOf) ++
        rolledUpEnvironmentStatus store ps proposedCommitOf environment :: rest.tail) := by
  set rolled := done.map (rolledUpEnvironmentStatus store ps proposedCommitOf)
  set fresh := initialEnvironmentStatus environment.branch (proposedCommitOf environment.branch)
  have rolledBranches : rolled.map (·.branch) = done.map (·.branch) := by simp [rolled]
  have distinctSplit := distinct
  rw [PromotionStrategy.specBranches, split, List.map_append, List.map_cons,
    List.nodup_append, List.nodup_cons] at distinctSplit
  have absent : environment.branch ∉ rolled.map (·.branch) := by
    rw [rolledBranches]
    exact fun member => distinctSplit.2.2 member (List.mem_cons_self _ _)
  obtain ⟨restHead, tailLeading⟩ := branches_prefix_cons leading
  have upserted := @upsert_ordered rolled rest fresh absent restHead
  have viewOrdered : (rolled ++ fresh :: rest.tail).map (·.branch) <+: ps.specBranches := by
    rw [PromotionStrategy.specBranches, split, List.map_append, List.map_append, rolledBranches]
    exact (List.prefix_append_right_inj _).mpr (List.cons_prefix_cons.mpr ⟨rfl, tailLeading⟩)
  have view : getEnvironmentsFromStatusInOrder { ps with status := rolled ++ fresh :: rest.tail } =
      rolled ++ fresh :: rest.tail :=
    inOrder_of_prefix _ _ distinct viewOrdered
  have index := environmentStatusByBranch_append environment.branch rolled fresh rest.tail 0
    absent rfl
  have found : proposedCommitMap ps.spec.environments proposedCommitOf environment.branch =
      some (proposedCommitOf environment.branch) :=
    proposedCommitMap_of_mem proposedCommitOf (by rw [split]; simp)
  simp only [calculateEnvironmentStatus, found, upserted, getEnvironmentStatusByBranch, view,
    index, Nat.zero_add, Int.natCast_nonneg, ite_true, Int.toNat_natCast,
    List.getElem?_append_right (Nat.le_refl _), Nat.sub_self, List.getElem?_cons_zero,
    List.set_append_right _ _ (Nat.le_refl _), List.set_cons_zero]
  rfl

theorem foldlM_calculateEnvironmentStatus_of_ordered (distinct : ps.specBranches.Nodup)
    (todo : List Environment) (done : List Environment)
    (split : ps.spec.environments = done ++ todo) (rest : List EnvironmentStatus)
    (leading : rest.map (·.branch) <+: todo.map (·.branch)) :
    todo.foldlM (calculateEnvironmentStatus store ps (proposedCommitMap ps.spec.environments proposedCommitOf))
        (done.map (rolledUpEnvironmentStatus store ps proposedCommitOf) ++ rest) =
      .ok (ps.spec.environments.map (rolledUpEnvironmentStatus store ps proposedCommitOf)) := by
  induction todo generalizing done rest with
  | nil =>
      have : rest = [] := List.map_eq_nil_iff.mp (List.eq_nil_of_prefix_nil leading)
      simp [this, split]
      rfl
  | cons environment todo ih =>
      rw [List.foldlM_cons,
        calculateEnvironmentStatus_of_ordered store ps proposedCommitOf distinct split leading]
      have next := ih (done ++ [environment]) (by simp [split]) rest.tail
        (branches_prefix_cons leading).2
      simpa using next

theorem calculateStatus_of_ordered (distinct : ps.specBranches.Nodup)
    (ordered : ps.status.map (·.branch) <+: ps.specBranches) :
    calculateStatus store ps (proposedCommitMap ps.spec.environments proposedCommitOf) =
      .ok (ps.spec.environments.map (rolledUpEnvironmentStatus store ps proposedCommitOf)) := by
  simpa using foldlM_calculateEnvironmentStatus_of_ordered store ps proposedCommitOf distinct
    ps.spec.environments [] rfl ps.status ordered

end Ordered

theorem map_branch_set_of_getElem? {statuses : List EnvironmentStatus} {i : Nat}
    {entry written : EnvironmentStatus} (found : statuses[i]? = some entry)
    (same : written.branch = entry.branch) :
    (statuses.set i written).map (·.branch) = statuses.map (·.branch) := by
  apply List.ext_getElem?
  intro j
  simp only [List.getElem?_map, List.getElem?_set]
  split
  · rename_i atI
    subst atI
    have bound : i < statuses.length := (List.getElem?_eq_some_iff.mp found).1
    simp [bound, found, same]
  · rfl

theorem calculateEnvironmentStatus_ok {store : CommitStatusStore} {ps : PromotionStrategy}
    {pcMap : String → Option ProposedCommit} {statuses next : List EnvironmentStatus}
    {environment : Environment}
    (step : calculateEnvironmentStatus store ps pcMap statuses environment = .ok next) :
    ∃ pc, pcMap environment.branch = some pc ∧ ∃ i entry,
      (upsertEnvironmentStatus statuses (initialEnvironmentStatus environment.branch pc))[i]? =
        some entry ∧
      next = (upsertEnvironmentStatus statuses (initialEnvironmentStatus environment.branch pc)).set i
        (bubbleUp store ps environment pc entry) := by
  unfold calculateEnvironmentStatus at step
  cases found : pcMap environment.branch with
  | none => simp [found] at step
  | some pc =>
      simp only [found] at step
      split at step
      · split at step
        · rename_i entry atIndex
          cases step
          exact ⟨pc, rfl, _, entry, atIndex, rfl⟩
        · cases step
      · cases step

theorem map_branch_calculateEnvironmentStatus {store : CommitStatusStore} {ps : PromotionStrategy}
    {pcMap : String → Option ProposedCommit} {statuses next : List EnvironmentStatus}
    {environment : Environment}
    (step : calculateEnvironmentStatus store ps pcMap statuses environment = .ok next) :
    next.map (·.branch) =
      if environment.branch ∈ statuses.map (·.branch) then statuses.map (·.branch)
      else statuses.map (·.branch) ++ [environment.branch] := by
  obtain ⟨pc, -, i, entry, found, rfl⟩ := calculateEnvironmentStatus_ok step
  rw [map_branch_set_of_getElem? found (bubbleUp_branch store ps environment pc entry),
    upsertEnvironmentStatus_eq_loop, map_branch_upsertEnvironmentStatusLoop]
  rfl

theorem foldlM_cons_eq_ok {α β ε : Type} {f : β → α → Except ε β} {x : α} {xs : List α}
    {init result : β} (run : (x :: xs).foldlM f init = .ok result) :
    ∃ mid, f init x = .ok mid ∧ xs.foldlM f mid = .ok result := by
  rw [List.foldlM_cons] at run
  cases step : f init x with
  | error err =>
      rw [step] at run
      cases run
  | ok mid =>
      rw [step] at run
      exact ⟨mid, rfl, run⟩

theorem map_branch_prefix_foldlM_calculateEnvironmentStatus {store : CommitStatusStore}
    {ps : PromotionStrategy} {pcMap : String → Option ProposedCommit} (todo : List Environment)
    (statuses : List EnvironmentStatus) {next : List EnvironmentStatus}
    (run : todo.foldlM (calculateEnvironmentStatus store ps pcMap) statuses = .ok next) :
    statuses.map (·.branch) <+: next.map (·.branch) := by
  induction todo generalizing statuses with
  | nil =>
      cases run
      exact List.prefix_refl _
  | cons environment todo ih =>
      obtain ⟨mid, step, rest⟩ := foldlM_cons_eq_ok run
      refine List.IsPrefix.trans ?_ (ih mid rest)
      rw [map_branch_calculateEnvironmentStatus step]
      split
      · exact List.prefix_refl _
      · exact List.prefix_append _ _

theorem map_branch_foldlM_calculateEnvironmentStatus {store : CommitStatusStore}
    {ps : PromotionStrategy} {pcMap : String → Option ProposedCommit} (todo : List Environment)
    (distinct : (todo.map (·.branch)).Nodup) (statuses : List EnvironmentStatus)
    {next : List EnvironmentStatus}
    (run : todo.foldlM (calculateEnvironmentStatus store ps pcMap) statuses = .ok next) :
    next.map (·.branch) =
      statuses.map (·.branch) ++ (todo.map (·.branch)).filter (· ∉ statuses.map (·.branch)) := by
  induction todo generalizing statuses with
  | nil =>
      cases run
      simp
  | cons environment todo ih =>
      rw [List.map_cons, List.nodup_cons] at distinct
      obtain ⟨mid, step, rest⟩ := foldlM_cons_eq_ok run
      rw [ih distinct.2 mid rest, map_branch_calculateEnvironmentStatus step]
      by_cases present : environment.branch ∈ statuses.map (·.branch)
      · rw [if_pos present, List.map_cons, List.filter_cons_of_neg (by simpa using present)]
      · have others : (todo.map (·.branch)).filter (· ∉ statuses.map (·.branch) ++ [environment.branch]) =
            (todo.map (·.branch)).filter (· ∉ statuses.map (·.branch)) :=
          List.filter_congr fun branch member => by
            have apart : branch ≠ environment.branch := fun same => distinct.1 (same ▸ member)
            simp [apart]
        rw [if_neg present, others, List.map_cons,
          List.filter_cons_of_pos (by simpa using present), List.append_assoc,
          List.singleton_append]

/-- `calculateStatus` never removes or reorders an entry: with distinct spec branches, the new
status lists the prior branches, then the spec branches it lacked, in spec order. -/
theorem calculateStatus_branches {store : CommitStatusStore} {ps : PromotionStrategy}
    {pcMap : String → Option ProposedCommit} (distinct : ps.specBranches.Nodup)
    {statuses : List EnvironmentStatus} (succeeded : calculateStatus store ps pcMap = .ok statuses) :
    statuses.map (·.branch) =
      ps.status.map (·.branch) ++ ps.specBranches.filter (· ∉ ps.status.map (·.branch)) :=
  map_branch_foldlM_calculateEnvironmentStatus _ distinct ps.status succeeded

/-- The spec of `reorderedStrategy` with only `env/prod` in the status. -/
def prodFirstStrategy : PromotionStrategy :=
  { reorderedStrategy with status := [emptyEnvironmentStatus "env/prod"] }

/-- Every branch has a ProposedCommit, active at dry `d1` and hydrated `h1`, proposed `n1`. -/
def uniformProposedCommits (branch : String) : Option ProposedCommit :=
  some ⟨branch, ⟨⟨⟨"d1", 0⟩, ⟨"h1", 0⟩⟩, ⟨⟨"d1", 0⟩, ⟨"n1", 0⟩⟩⟩⟩

theorem calculateStatus_branches_of_prodFirst :
    prodFirstStrategy.specBranches.Nodup ∧
      ∃ statuses, calculateStatus [] prodFirstStrategy uniformProposedCommits = .ok statuses ∧
        statuses.map (·.branch) = ["env/prod", "env/dev", "env/test"] :=
  have distinct : prodFirstStrategy.specBranches.Nodup := by decide
  ⟨distinct, _, rfl,
    (@calculateStatus_branches [] prodFirstStrategy uniformProposedCommits distinct _ rfl).trans
      (by decide)⟩

section Bounds

variable (store : CommitStatusStore) (ps : PromotionStrategy)
  (pcMap : String → Option ProposedCommit)

theorem calculateEnvironmentStatus_error (distinct : ps.specBranches.Nodup)
    {environment : Environment} (member : environment ∈ ps.spec.environments)
    (statuses : List EnvironmentStatus) {err : CalculateStatusError}
    (failed : calculateEnvironmentStatus store ps pcMap statuses environment = .error err) :
    pcMap environment.branch = none ∧ err = .proposedCommitNotFound environment.branch := by
  unfold calculateEnvironmentStatus at failed
  cases found : pcMap environment.branch with
  | none =>
      simp only [found, Except.error.injEq] at failed
      exact ⟨rfl, failed.symm⟩
  | some pc =>
      simp only [found] at failed
      set fresh := initialEnvironmentStatus environment.branch pc
      have freshMember : fresh ∈ upsertEnvironmentStatus statuses fresh :=
        upsertEnvironmentStatus_eq_loop statuses fresh ▸ self_mem_upsertEnvironmentStatusLoop fresh statuses
      set upserted := upsertEnvironmentStatus statuses fresh
      have inView : fresh ∈ getEnvironmentsFromStatusInOrder { ps with status := upserted } :=
        (mem_getEnvironmentsFromStatusInOrder _ _).mpr ⟨freshMember, List.mem_map_of_mem _ member⟩
      obtain ⟨k, bound, index⟩ := environmentStatusByBranch_lt environment.branch _ 0
        (List.mem_map_of_mem (·.branch) inView)
      have fits : k < upserted.length := Nat.lt_of_lt_of_le bound
        (length_getEnvironmentsFromStatusInOrder_le { ps with status := upserted } distinct)
      simp only [getEnvironmentStatusByBranch, index, Nat.zero_add, Int.natCast_nonneg, ite_true,
        Int.toNat_natCast, List.getElem?_eq_getElem fits] at failed
      cases failed

theorem foldlM_calculateEnvironmentStatus_error (distinct : ps.specBranches.Nodup)
    (todo : List Environment) (inSpec : ∀ environment ∈ todo, environment ∈ ps.spec.environments)
    (statuses : List EnvironmentStatus) {err : CalculateStatusError}
    (failed : todo.foldlM (calculateEnvironmentStatus store ps pcMap) statuses = .error err) :
    ∃ environment ∈ todo, pcMap environment.branch = none ∧
      err = .proposedCommitNotFound environment.branch := by
  induction todo generalizing statuses with
  | nil => cases failed
  | cons environment todo ih =>
      rw [List.foldlM_cons] at failed
      cases step : calculateEnvironmentStatus store ps pcMap statuses environment with
      | error stepErr =>
          rw [step] at failed
          cases failed
          exact ⟨environment, List.mem_cons_self _ _, calculateEnvironmentStatus_error store ps pcMap
            distinct (inSpec _ (List.mem_cons_self _ _)) statuses step⟩
      | ok next =>
          rw [step] at failed
          obtain ⟨later, member, rest⟩ :=
            ih (fun later member => inSpec later (List.mem_cons_of_mem _ member)) next failed
          exact ⟨later, List.mem_cons_of_mem _ member, rest⟩

/-- With distinct spec branches every index `calculateStatus` reads is inside the status list,
whatever the prior status: it never panics, and with the ProposedCommits `Reconcile` looks up
it succeeds. -/
theorem calculateStatus_in_bounds_of_distinct (distinct : ps.specBranches.Nodup) :
    (∀ index, calculateStatus store ps pcMap ≠ .error (.indexOutOfRange index)) ∧
      ∀ proposedCommitOf : String → ProposedCommit, ∃ statuses,
        calculateStatus store ps (proposedCommitMap ps.spec.environments proposedCommitOf) =
          .ok statuses := by
  refine ⟨fun index failed => ?_, fun proposedCommitOf => ?_⟩
  · obtain ⟨_, _, _, wrong⟩ := foldlM_calculateEnvironmentStatus_error store ps pcMap distinct _
      (fun _ member => member) ps.status failed
    cases wrong
  · cases result : calculateStatus store ps (proposedCommitMap ps.spec.environments proposedCommitOf) with
    | ok statuses => exact ⟨statuses, rfl⟩
    | error err =>
        obtain ⟨environment, member, missing, _⟩ := foldlM_calculateEnvironmentStatus_error store ps
          _ distinct _ (fun _ member => member) ps.status result
        rw [proposedCommitMap_of_mem proposedCommitOf member] at missing
        cases missing

end Bounds

theorem calculateStatus_in_bounds_of_reorderedStrategy :
    reorderedStrategy.specBranches.Nodup ∧
      ∃ statuses, calculateStatus [] reorderedStrategy
        (proposedCommitMap reorderedStrategy.spec.environments fun branch =>
          ⟨branch, ⟨⟨⟨"d1", 0⟩, ⟨"h1", 0⟩⟩, ⟨⟨"d1", 0⟩, ⟨"n1", 0⟩⟩⟩⟩) = .ok statuses :=
  have distinct : reorderedStrategy.specBranches.Nodup := by decide
  ⟨distinct, (calculateStatus_in_bounds_of_distinct [] reorderedStrategy (fun _ => none) distinct).2 _⟩

/-- A spec that lists `env/dev` twice before `env/test`, with no prior status. -/
def repeatedBranchStrategy : PromotionStrategy :=
  ⟨"ps", ⟨[], [], [⟨"env/dev", none, [], []⟩, ⟨"env/dev", none, [], []⟩,
    ⟨"env/test", none, [], []⟩]⟩, []⟩

/-- With a repeated spec branch the view lists its entry twice: on the iteration of `env/test`
the view is `[dev, dev, test]` over a status list of two entries, and the index 2 of
`env/test` is read past the end, whatever the store and the ProposedCommits. -/
theorem calculateStatus_index_out_of_range_of_repeated_branch (store : CommitStatusStore)
    (proposedCommitOf : String → ProposedCommit) :
    calculateStatus store repeatedBranchStrategy
        (proposedCommitMap repeatedBranchStrategy.spec.environments proposedCommitOf) =
      .error (.indexOutOfRange 2) := by
  simp [calculateStatus, calculateEnvironmentStatus, proposedCommitMap, repeatedBranchStrategy,
    upsertEnvironmentStatus, upsertEnvironmentStatusLoop, getEnvironmentStatusByBranch,
    getEnvironmentsFromStatusInOrder, environmentStatusByBranch, initialEnvironmentStatus, bind,
    Except.bind]

end GitOpsPromoter
