import GitOpsPromoter.Resources
import Mathlib.Data.List.Nodup

/-!
# Looking up environment status entries

`Status.Environments` is a list of entries keyed by branch, in whatever order upserts left
it.  The utilities read it through a view in spec order: for each spec environment, every
status entry of its branch.  When the status lists a prefix of the spec's (distinct)
branches in spec order, that view is the status list itself (`inOrder_of_prefix`).
-/

namespace GitOpsPromoter

/-- `GetEnvironmentsFromStatusInOrder`: for each spec environment in turn, the status entries
with its branch, in status order. -/
def getEnvironmentsFromStatusInOrder (ps : PromotionStrategy) : List EnvironmentStatus :=
  ps.spec.environments.flatMap fun specEnvironment =>
    ps.status.filter fun statusEvents => statusEvents.branch == specEnvironment.branch

/-- The loop of `GetPreviousEnvironmentStatusByBranch` from index `i`, with `previous` the
entry at `i - 1` (none at index 0): the first match at an index `i ≥ 1` returns
`(i + 1, environments[i-1])`; a match at index 0 is skipped. -/
def previousEnvironmentStatus (currentBranch : String) :
    Option EnvironmentStatus → List EnvironmentStatus → Nat → Int × Option EnvironmentStatus
  | _, [], _ => (-1, none)
  | previous, environment :: environments, i =>
      match previous with
      | some before =>
          if environment.branch = currentBranch then ((i : Int) + 1, some before)
          else previousEnvironmentStatus currentBranch (some environment) environments (i + 1)
      | none => previousEnvironmentStatus currentBranch (some environment) environments (i + 1)

/-- `GetPreviousEnvironmentStatusByBranch`. -/
def getPreviousEnvironmentStatusByBranch (ps : PromotionStrategy) (currentBranch : String) :
    Int × Option EnvironmentStatus :=
  previousEnvironmentStatus currentBranch none (getEnvironmentsFromStatusInOrder ps) 0

/-- The loop of `GetEnvironmentStatusByBranch` from index `i`: the first entry with the
branch and its index, or `(-1, nil)`. -/
def environmentStatusByBranch (branch : String) :
    List EnvironmentStatus → Nat → Int × Option EnvironmentStatus
  | [], _ => (-1, none)
  | environment :: environments, i =>
      if environment.branch = branch then (i, some environment)
      else environmentStatusByBranch branch environments (i + 1)

/-- `GetEnvironmentStatusByBranch`: the index in the spec-ordered view, and the entry. -/
def getEnvironmentStatusByBranch (ps : PromotionStrategy) (branch : String) :
    Int × Option EnvironmentStatus :=
  environmentStatusByBranch branch (getEnvironmentsFromStatusInOrder ps) 0

/-- The loop of `UpsertEnvironmentStatus` on a non-empty slice: replace the first entry with
the branch of `i`, or append `i`. -/
def upsertEnvironmentStatusLoop (i : EnvironmentStatus) :
    List EnvironmentStatus → List EnvironmentStatus
  | [] => [i]
  | ele :: slice =>
      if ele.branch = i.branch then i :: slice else ele :: upsertEnvironmentStatusLoop i slice

/-- `UpsertEnvironmentStatus`; the empty slice takes its own path in the source. -/
def upsertEnvironmentStatus (slice : List EnvironmentStatus) (i : EnvironmentStatus) :
    List EnvironmentStatus :=
  if slice.isEmpty then slice ++ [i] else upsertEnvironmentStatusLoop i slice

theorem upsertEnvironmentStatus_eq_loop (slice : List EnvironmentStatus) (i : EnvironmentStatus) :
    upsertEnvironmentStatus slice i = upsertEnvironmentStatusLoop i slice := by
  cases slice <;> rfl

theorem upsertEnvironmentStatusLoop_of_not_mem (i : EnvironmentStatus)
    (slice : List EnvironmentStatus) (absent : i.branch ∉ slice.map (·.branch)) :
    upsertEnvironmentStatusLoop i slice = slice ++ [i] := by
  induction slice with
  | nil => rfl
  | cons ele slice ih =>
      simp only [List.map_cons, List.mem_cons, not_or] at absent
      simp [upsertEnvironmentStatusLoop, Ne.symm absent.1, ih absent.2]

theorem upsertEnvironmentStatusLoop_append_of_not_mem (i : EnvironmentStatus)
    (front : List EnvironmentStatus) (ele : EnvironmentStatus) (rest : List EnvironmentStatus)
    (absent : i.branch ∉ front.map (·.branch)) (same : ele.branch = i.branch) :
    upsertEnvironmentStatusLoop i (front ++ ele :: rest) = front ++ i :: rest := by
  induction front with
  | nil => simp [upsertEnvironmentStatusLoop, same]
  | cons first front ih =>
      simp only [List.map_cons, List.mem_cons, not_or] at absent
      simp [upsertEnvironmentStatusLoop, Ne.symm absent.1, ih absent.2]

theorem self_mem_upsertEnvironmentStatusLoop (i : EnvironmentStatus)
    (slice : List EnvironmentStatus) : i ∈ upsertEnvironmentStatusLoop i slice := by
  induction slice with
  | nil => simp [upsertEnvironmentStatusLoop]
  | cons ele slice ih =>
      by_cases same : ele.branch = i.branch <;> simp [upsertEnvironmentStatusLoop, same, ih]

/-- The upsert the spec describes: the first entry with `i`'s branch replaced by `i`, or `i`
appended when no entry has that branch. -/
def replaceFirstOrAppend (slice : List EnvironmentStatus) (i : EnvironmentStatus) :
    List EnvironmentStatus :=
  if slice.findIdx (·.branch == i.branch) < slice.length then
    slice.set (slice.findIdx (·.branch == i.branch)) i
  else slice ++ [i]

theorem upsertEnvironmentStatusLoop_eq_replaceFirstOrAppend (i : EnvironmentStatus)
    (slice : List EnvironmentStatus) :
    upsertEnvironmentStatusLoop i slice = replaceFirstOrAppend slice i := by
  induction slice with
  | nil => rfl
  | cons ele slice ih =>
      by_cases same : ele.branch = i.branch
      · simp [upsertEnvironmentStatusLoop, replaceFirstOrAppend, List.findIdx_cons, same]
      · have notSame : (ele.branch == i.branch) = false := by simpa using same
        simp only [upsertEnvironmentStatusLoop, same, ite_false, ih, replaceFirstOrAppend,
          List.findIdx_cons, notSame, cond_false, List.length_cons, Nat.add_lt_add_iff_right]
        split <;> simp

theorem map_branch_upsertEnvironmentStatusLoop (i : EnvironmentStatus)
    (slice : List EnvironmentStatus) :
    (upsertEnvironmentStatusLoop i slice).map (·.branch) =
      if i.branch ∈ slice.map (·.branch) then slice.map (·.branch)
      else slice.map (·.branch) ++ [i.branch] := by
  induction slice with
  | nil => simp [upsertEnvironmentStatusLoop]
  | cons ele slice ih =>
      by_cases same : ele.branch = i.branch
      · simp [upsertEnvironmentStatusLoop, same]
      · by_cases member : i.branch ∈ slice.map (·.branch) <;>
          simp [upsertEnvironmentStatusLoop, same, Ne.symm same, ih, member]

theorem upsertEnvironmentStatusLoop_idempotent (i : EnvironmentStatus)
    (slice : List EnvironmentStatus) :
    upsertEnvironmentStatusLoop i (upsertEnvironmentStatusLoop i slice) =
      upsertEnvironmentStatusLoop i slice := by
  induction slice with
  | nil => simp [upsertEnvironmentStatusLoop]
  | cons ele slice ih =>
      by_cases same : ele.branch = i.branch
      · simp [upsertEnvironmentStatusLoop, same]
      · simp [upsertEnvironmentStatusLoop, same, ih]

/-- `UpsertEnvironmentStatus` replaces the first entry with `x`'s branch by `x`, or appends
`x`, on every list, the empty one included; so it keeps distinct branches distinct, leaves
every other entry at its position, and is idempotent. -/
theorem upsertEnvironmentStatus_spec (l : List EnvironmentStatus) (x : EnvironmentStatus) :
    upsertEnvironmentStatus l x = replaceFirstOrAppend l x ∧
      ((l.map (·.branch)).Nodup → ((upsertEnvironmentStatus l x).map (·.branch)).Nodup) ∧
      (∀ j < l.length, j ≠ l.findIdx (·.branch == x.branch) →
        (upsertEnvironmentStatus l x)[j]? = l[j]?) ∧
      upsertEnvironmentStatus (upsertEnvironmentStatus l x) x = upsertEnvironmentStatus l x := by
  simp only [upsertEnvironmentStatus_eq_loop]
  refine ⟨upsertEnvironmentStatusLoop_eq_replaceFirstOrAppend x l, fun distinct => ?_,
    fun j bound other => ?_, upsertEnvironmentStatusLoop_idempotent x l⟩
  · rw [map_branch_upsertEnvironmentStatusLoop]
    split
    · exact distinct
    · rename_i absent
      exact List.nodup_append.mpr ⟨distinct, List.nodup_singleton _,
        fun _ member single => absent (List.mem_singleton.mp single ▸ member)⟩
  · rw [upsertEnvironmentStatusLoop_eq_replaceFirstOrAppend, replaceFirstOrAppend]
    split
    · exact List.getElem?_set_ne (Ne.symm other)
    · exact List.getElem?_append_left bound

theorem filter_branch_eq_nil (statuses : List EnvironmentStatus) (branch : String)
    (absent : branch ∉ statuses.map (·.branch)) :
    statuses.filter (fun entry => entry.branch == branch) = [] := by
  rw [List.filter_eq_nil_iff]
  intro entry member same
  exact absent (List.mem_map.mpr ⟨entry, member, by simpa using same⟩)

theorem inOrder_of_prefix (environments : List Environment) (statuses : List EnvironmentStatus)
    (distinct : (environments.map (·.branch)).Nodup)
    (leading : statuses.map (·.branch) <+: environments.map (·.branch)) :
    environments.flatMap (fun specEnvironment =>
      statuses.filter fun statusEvents => statusEvents.branch == specEnvironment.branch) =
      statuses := by
  induction environments generalizing statuses with
  | nil =>
      have empty : statuses = [] := List.map_eq_nil_iff.mp (List.eq_nil_of_prefix_nil leading)
      simp [empty]
  | cons environment environments ih =>
      cases statuses with
      | nil => simp
      | cons entry statuses =>
          simp only [List.map_cons, List.cons_prefix_cons] at leading
          simp only [List.map_cons, List.nodup_cons] at distinct
          have restAbsent : environment.branch ∉ statuses.map (·.branch) :=
            fun member => distinct.1 (leading.2.subset member)
          have entryOutside : ∀ later ∈ environments, (entry.branch == later.branch) = false := by
            intro later member
            simp only [beq_eq_false_iff_ne, leading.1]
            intro same
            exact distinct.1 (List.mem_map.mpr ⟨later, member, same.symm⟩)
          have dropEntry : environments.flatMap (fun later =>
              (entry :: statuses).filter fun statusEvents => statusEvents.branch == later.branch) =
              environments.flatMap (fun later =>
                statuses.filter fun statusEvents => statusEvents.branch == later.branch) :=
            List.flatMap_congr fun later member => by simp [entryOutside later member]
          rw [List.flatMap_cons, dropEntry, ih statuses distinct.2 leading.2]
          simp [List.filter_cons, leading.1, filter_branch_eq_nil statuses _ restAbsent]

theorem environmentStatusByBranch_append (branch : String) (front : List EnvironmentStatus)
    (entry : EnvironmentStatus) (rest : List EnvironmentStatus) (i : Nat)
    (absent : branch ∉ front.map (·.branch)) (same : entry.branch = branch) :
    environmentStatusByBranch branch (front ++ entry :: rest) i =
      (((i + front.length : Nat) : Int), some entry) := by
  induction front generalizing i with
  | nil => simp [environmentStatusByBranch, same]
  | cons first front ih =>
      simp only [List.map_cons, List.mem_cons, not_or] at absent
      rw [List.cons_append, environmentStatusByBranch, if_neg (Ne.symm absent.1),
        ih (i + 1) absent.2, List.length_cons, Nat.add_right_comm, Nat.add_assoc]

theorem environmentStatusByBranch_lt (branch : String) (environments : List EnvironmentStatus)
    (i : Nat) (present : branch ∈ environments.map (·.branch)) :
    ∃ k < environments.length,
      (environmentStatusByBranch branch environments i).1 = ((i + k : Nat) : Int) := by
  induction environments generalizing i with
  | nil => simp at present
  | cons environment environments ih =>
      by_cases same : environment.branch = branch
      · exact ⟨0, by simp, by simp [environmentStatusByBranch, same]⟩
      · have rest : branch ∈ environments.map (·.branch) := by
          simpa [Ne.symm same] using present
        obtain ⟨k, bound, index⟩ := ih (i + 1) rest
        refine ⟨k + 1, by simpa using bound, ?_⟩
        simp only [environmentStatusByBranch, same, ite_false, index]
        omega

theorem previousEnvironmentStatus_append (branch : String) (previous : Option EnvironmentStatus)
    (front : List EnvironmentStatus) (before entry : EnvironmentStatus) (rest : List EnvironmentStatus)
    (i : Nat) (absent : branch ∉ (front ++ [before]).map (·.branch)) (same : entry.branch = branch) :
    (previousEnvironmentStatus branch previous (front ++ before :: entry :: rest) i).2 = some before := by
  induction front generalizing previous i with
  | nil =>
      have beforeNe : before.branch ≠ branch := fun hit => absent (by simp [hit])
      cases previous <;> simp [previousEnvironmentStatus, beforeNe, same]
  | cons first front ih =>
      simp only [List.cons_append, List.map_cons, List.mem_cons, not_or] at absent
      cases previous <;> simp [previousEnvironmentStatus, Ne.symm absent.1, ih _ _ absent.2]

theorem previousEnvironmentStatus_of_not_mem (branch : String) (previous : Option EnvironmentStatus)
    (environments : List EnvironmentStatus) (i : Nat)
    (absent : branch ∉ environments.map (·.branch)) :
    previousEnvironmentStatus branch previous environments i = (-1, none) := by
  induction environments generalizing previous i with
  | nil => rfl
  | cons environment environments ih =>
      simp only [List.map_cons, List.mem_cons, not_or] at absent
      cases previous <;> simp [previousEnvironmentStatus, Ne.symm absent.1, ih _ _ absent.2]

theorem previousEnvironmentStatus_head (environments : List EnvironmentStatus)
    (distinct : (environments.map (·.branch)).Nodup) (h : 0 < environments.length) :
    previousEnvironmentStatus environments[0].branch none environments 0 = (-1, none) := by
  cases environments with
  | nil => contradiction
  | cons environment environments =>
      rw [List.map_cons, List.nodup_cons] at distinct
      exact previousEnvironmentStatus_of_not_mem _ _ environments 1 distinct.1

theorem environmentStatusByBranch_getElem (environments : List EnvironmentStatus)
    (distinct : (environments.map (·.branch)).Nodup) (k : Nat) (hk : k < environments.length)
    (i : Nat) :
    environmentStatusByBranch environments[k].branch environments i =
      (((i + k : Nat) : Int), some environments[k]) := by
  induction environments generalizing k i with
  | nil => contradiction
  | cons environment environments ih =>
      rw [List.map_cons, List.nodup_cons] at distinct
      cases k with
      | zero => simp [environmentStatusByBranch]
      | succ k =>
          have bound : k < environments.length := Nat.lt_of_succ_lt_succ hk
          have later : environment.branch ≠ environments[k].branch := fun same =>
            distinct.1 (same ▸ List.mem_map_of_mem _ (List.getElem_mem bound))
          simp only [List.getElem_cons_succ, environmentStatusByBranch, later, ite_false,
            ih distinct.2 k bound (i + 1), Nat.add_right_comm i 1 k]
          rfl

theorem previousEnvironmentStatus_getElem_succ (environments : List EnvironmentStatus)
    (distinct : (environments.map (·.branch)).Nodup) (k : Nat) (hk : k + 1 < environments.length)
    (previous : Option EnvironmentStatus) (i : Nat) :
    (previousEnvironmentStatus environments[k + 1].branch previous environments i).2 =
      some environments[k] := by
  induction environments generalizing k previous i with
  | nil => contradiction
  | cons environment environments ih =>
      rw [List.map_cons, List.nodup_cons] at distinct
      have bound : k < environments.length := Nat.lt_of_succ_lt_succ hk
      have later : environment.branch ≠ environments[k].branch := fun same =>
        distinct.1 (same ▸ List.mem_map_of_mem _ (List.getElem_mem bound))
      cases k with
      | zero =>
          cases environments with
          | nil => contradiction
          | cons next environments =>
              have apart : environment.branch ≠ next.branch := later
              cases previous <;> simp [previousEnvironmentStatus, apart]
      | succ k =>
          cases previous <;>
            simp [previousEnvironmentStatus, later, ih distinct.2 k (by simpa using hk)]

theorem mem_getEnvironmentsFromStatusInOrder (ps : PromotionStrategy) (entry : EnvironmentStatus) :
    entry ∈ getEnvironmentsFromStatusInOrder ps ↔
      entry ∈ ps.status ∧ entry.branch ∈ ps.specBranches := by
  simp only [getEnvironmentsFromStatusInOrder, List.mem_flatMap, List.mem_filter, beq_iff_eq,
    PromotionStrategy.specBranches, List.mem_map]
  exact ⟨fun ⟨environment, member, present, same⟩ => ⟨present, environment, member, same.symm⟩,
    fun ⟨present, environment, member, same⟩ => ⟨environment, member, present, same.symm⟩⟩

theorem length_getEnvironmentsFromStatusInOrder_le (ps : PromotionStrategy)
    (distinct : ps.specBranches.Nodup) :
    (getEnvironmentsFromStatusInOrder ps).length ≤ ps.status.length := by
  obtain ⟨name, ⟨activeKeys, proposedKeys, environments⟩, statuses⟩ := ps
  simp only [getEnvironmentsFromStatusInOrder, PromotionStrategy.specBranches] at distinct ⊢
  induction environments generalizing statuses with
  | nil => simp
  | cons environment environments ih =>
      rw [List.map_cons, List.nodup_cons] at distinct
      have others : environments.flatMap (fun later =>
          statuses.filter fun statusEvents => statusEvents.branch == later.branch) =
          environments.flatMap (fun later =>
            (statuses.filter fun statusEvents => !(statusEvents.branch == environment.branch)).filter
              fun statusEvents => statusEvents.branch == later.branch) :=
        List.flatMap_congr fun later member => by
          have apart : later.branch ≠ environment.branch := fun same =>
            distinct.1 (same ▸ List.mem_map_of_mem _ member)
          rw [List.filter_filter]
          refine List.filter_congr fun statusEvents _ => ?_
          by_cases hit : statusEvents.branch = later.branch <;> simp [hit, apart]
      rw [List.flatMap_cons, List.length_append, others,
        List.length_eq_length_filter_add (l := statuses)
          fun statusEvents => statusEvents.branch == environment.branch]
      exact Nat.add_le_add_left (ih _ distinct.2) _

theorem filter_branch_eq_find? (statuses : List EnvironmentStatus) (branch : String)
    (distinct : (statuses.map (·.branch)).Nodup) :
    statuses.filter (fun entry => entry.branch == branch) =
      (statuses.find? fun entry => entry.branch == branch).toList := by
  induction statuses with
  | nil => rfl
  | cons entry statuses ih =>
      rw [List.map_cons, List.nodup_cons] at distinct
      by_cases same : entry.branch = branch
      · simp [List.filter_cons, same, filter_branch_eq_nil statuses branch (same ▸ distinct.1)]
      · simp [List.filter_cons, List.find?_cons, same, ih distinct.2]

theorem getEnvironmentsFromStatusInOrder_eq_filterMap (ps : PromotionStrategy)
    (statusDistinct : (ps.status.map (·.branch)).Nodup) :
    getEnvironmentsFromStatusInOrder ps =
      ps.spec.environments.filterMap fun environment =>
        ps.status.find? (·.branch == environment.branch) := by
  rw [List.filterMap_eq_flatMap_toList]
  exact List.flatMap_congr fun environment _ =>
    filter_branch_eq_find? ps.status environment.branch statusDistinct

theorem getEnvironmentsFromStatusInOrder_nodup (ps : PromotionStrategy)
    (specDistinct : ps.specBranches.Nodup) (statusDistinct : (ps.status.map (·.branch)).Nodup) :
    (getEnvironmentsFromStatusInOrder ps).Nodup := by
  have byBranch : getEnvironmentsFromStatusInOrder ps =
      ps.specBranches.filterMap fun branch => ps.status.find? (·.branch == branch) := by
    rw [getEnvironmentsFromStatusInOrder_eq_filterMap ps statusDistinct,
      PromotionStrategy.specBranches, List.filterMap_map]
    rfl
  rw [byBranch]
  refine specDistinct.filterMap fun branch other entry first second => ?_
  have first := List.find?_some (Option.mem_def.mp first)
  have second := List.find?_some (Option.mem_def.mp second)
  simp only [beq_iff_eq] at first second
  exact first.symm.trans second

theorem map_branch_getEnvironmentsFromStatusInOrder (ps : PromotionStrategy)
    (statusDistinct : (ps.status.map (·.branch)).Nodup)
    (covered : ∀ environment ∈ ps.spec.environments,
      ∃ entry ∈ ps.status, entry.branch = environment.branch) :
    (getEnvironmentsFromStatusInOrder ps).map (·.branch) = ps.specBranches := by
  rw [getEnvironmentsFromStatusInOrder_eq_filterMap ps statusDistinct, List.map_filterMap,
    PromotionStrategy.specBranches, List.filterMap_eq_map_iff_forall_eq_some]
  intro environment member
  obtain ⟨entry, present, same⟩ := covered environment member
  obtain ⟨found, hit⟩ : ∃ found, ps.status.find? (·.branch == environment.branch) = some found :=
    Option.isSome_iff_exists.mp (List.find?_isSome.mpr ⟨entry, present, beq_iff_eq.mpr same⟩)
  have foundBranch := List.find?_some hit
  simpa [hit] using foundBranch

theorem getElem_getEnvironmentsFromStatusInOrder (ps : PromotionStrategy)
    (statusDistinct : (ps.status.map (·.branch)).Nodup)
    (covered : ∀ environment ∈ ps.spec.environments,
      ∃ entry ∈ ps.status, entry.branch = environment.branch)
    (k : Nat) (hk : k < ps.spec.environments.length) (entry : EnvironmentStatus)
    (present : entry ∈ ps.status) (same : entry.branch = ps.spec.environments[k].branch) :
    ∃ hv : k < (getEnvironmentsFromStatusInOrder ps).length,
      (getEnvironmentsFromStatusInOrder ps)[k] = entry := by
  have listed := map_branch_getEnvironmentsFromStatusInOrder ps statusDistinct covered
  have lengths := congrArg List.length listed
  simp only [List.length_map, PromotionStrategy.specBranches] at lengths
  have hv : k < (getEnvironmentsFromStatusInOrder ps).length := lengths ▸ hk
  have branchAt := List.getElem_of_eq listed (by simpa using hv)
  simp only [List.getElem_map, PromotionStrategy.specBranches, ← same] at branchAt
  have inView := (mem_getEnvironmentsFromStatusInOrder ps _).mp (List.getElem_mem hv)
  exact ⟨hv, List.inj_on_of_nodup_map statusDistinct inView.1 present branchAt⟩

/-- With distinct spec and status branches, the spec-ordered view is the status entries of
the spec's branches, each once, in spec order.  When every spec branch has an entry, the
lookups answer by spec position whatever the order of the status list: the entry of
`spec[k]` at index `k`, no predecessor for the first environment, and the entry of
`spec[k]` as the predecessor of `spec[k+1]`. -/
theorem getEnvironmentsFromStatusInOrder_spec (ps : PromotionStrategy)
    (specDistinct : ps.specBranches.Nodup) (statusDistinct : (ps.status.map (·.branch)).Nodup) :
    getEnvironmentsFromStatusInOrder ps =
        ps.spec.environments.filterMap (fun environment =>
          ps.status.find? (·.branch == environment.branch)) ∧
      (∀ entry, entry ∈ getEnvironmentsFromStatusInOrder ps ↔
        entry ∈ ps.status ∧ entry.branch ∈ ps.specBranches) ∧
      (getEnvironmentsFromStatusInOrder ps).Nodup ∧
      ((∀ environment ∈ ps.spec.environments,
          ∃ entry ∈ ps.status, entry.branch = environment.branch) →
        (∀ (k : Nat) (hk : k < ps.spec.environments.length), ∀ entry ∈ ps.status,
          entry.branch = ps.spec.environments[k].branch →
          getEnvironmentStatusByBranch ps ps.spec.environments[k].branch =
            ((k : Int), some entry)) ∧
        (∀ hk : 0 < ps.spec.environments.length,
          getPreviousEnvironmentStatusByBranch ps ps.spec.environments[0].branch = (-1, none)) ∧
        (∀ (k : Nat) (hk : k + 1 < ps.spec.environments.length), ∀ before ∈ ps.status,
          before.branch = ps.spec.environments[k].branch →
          (getPreviousEnvironmentStatusByBranch ps ps.spec.environments[k + 1].branch).2 =
            some before)) := by
  refine ⟨getEnvironmentsFromStatusInOrder_eq_filterMap ps statusDistinct,
    mem_getEnvironmentsFromStatusInOrder ps,
    getEnvironmentsFromStatusInOrder_nodup ps specDistinct statusDistinct, fun covered => ?_⟩
  have viewDistinct : ((getEnvironmentsFromStatusInOrder ps).map (·.branch)).Nodup := by
    rw [map_branch_getEnvironmentsFromStatusInOrder ps statusDistinct covered]
    exact specDistinct
  have at_ := getElem_getEnvironmentsFromStatusInOrder ps statusDistinct covered
  refine ⟨fun k hk entry present same => ?_, fun hk => ?_, fun k hk before present same => ?_⟩
  · obtain ⟨hv, atK⟩ := at_ k hk entry present same
    rw [← same, ← atK, getEnvironmentStatusByBranch,
      environmentStatusByBranch_getElem _ viewDistinct k hv 0, Nat.zero_add]
  · obtain ⟨entry, present, same⟩ := covered _ (List.getElem_mem hk)
    obtain ⟨hv, atZero⟩ := at_ 0 hk entry present same
    rw [← same, ← atZero, getPreviousEnvironmentStatusByBranch,
      previousEnvironmentStatus_head _ viewDistinct hv]
  · obtain ⟨next, nextPresent, nextSame⟩ := covered _ (List.getElem_mem hk)
    obtain ⟨hv, atNext⟩ := at_ (k + 1) hk next nextPresent nextSame
    obtain ⟨_, atK⟩ := at_ k (by omega) before present same
    rw [← nextSame, ← atNext, getPreviousEnvironmentStatusByBranch,
      previousEnvironmentStatus_getElem_succ _ viewDistinct k hv, atK]

/-- A status entry of `branch` with nothing observed yet. -/
def emptyEnvironmentStatus (branch : String) : EnvironmentStatus :=
  ⟨branch, ⟨⟨"", 0⟩, ⟨"", 0⟩, ⟨"", ""⟩⟩, ⟨⟨"", 0⟩, ⟨"", 0⟩, ⟨"", ""⟩⟩, []⟩

/-- Three environments whose status entries upserts left in the order prod, dev, test. -/
def reorderedStrategy : PromotionStrategy :=
  ⟨"ps", ⟨[], [], [⟨"env/dev", none, [], []⟩, ⟨"env/test", none, [], []⟩,
      ⟨"env/prod", none, [], []⟩]⟩,
    [emptyEnvironmentStatus "env/prod", emptyEnvironmentStatus "env/dev",
      emptyEnvironmentStatus "env/test"]⟩

theorem getEnvironmentsFromStatusInOrder_spec_of_reorderedStrategy :
    (reorderedStrategy.specBranches.Nodup ∧ (reorderedStrategy.status.map (·.branch)).Nodup) ∧
      getEnvironmentStatusByBranch reorderedStrategy "env/prod" =
        (2, some (emptyEnvironmentStatus "env/prod")) ∧
      (getPreviousEnvironmentStatusByBranch reorderedStrategy "env/prod").2 =
        some (emptyEnvironmentStatus "env/test") :=
  have lookups := (getEnvironmentsFromStatusInOrder_spec reorderedStrategy (by decide)
    (by decide)).2.2.2 (by decide)
  ⟨⟨by decide, by decide⟩,
    lookups.1 2 (by decide) (emptyEnvironmentStatus "env/prod") (by decide) rfl,
    lookups.2.2 1 (by decide) (emptyEnvironmentStatus "env/test") (by decide) rfl⟩

end GitOpsPromoter
