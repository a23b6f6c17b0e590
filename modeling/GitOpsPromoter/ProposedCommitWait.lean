import GitOpsPromoter.Resources

/-!
# Waiting for a ProposedCommit's status

`createOrGetProposedCommit` gets the environment's ProposedCommit, creating it when it is
not found, and then loops on `Get` until the four SHAs of its status are set.  A pass of the
loop returns on an error other than NotFound and breaks on a resolved ProposedCommit; on
NotFound it re-reads at once, and on an unresolved commit it sleeps and re-reads.  Nothing in
the loop reads the reconcile context, which reaches it only as the argument of each `Get`.

The loop is modelled with fuel, the number of passes it may still make, and `none` means it
has not returned within them.  While the store answers NotFound or an unresolved commit it
makes every pass it is given, whether or not the context has been cancelled
(`createOrGetProposedCommitLoop_never_returns`).
-/

namespace GitOpsPromoter

/-- The reconcile invocation's `context.Context`, of which only cancellation matters here. -/
structure ReconcileContext where
  cancelled : Bool
  deriving DecidableEq, Repr

/-- The context of an invocation cancelled from pass `cancelledAt` on. -/
def ReconcileContext.cancelledFrom (cancelledAt pass : Nat) : ReconcileContext :=
  ⟨decide (cancelledAt ≤ pass)⟩

/-- The answer of one `r.Get` of the ProposedCommit. -/
inductive ProposedCommitGet where
  | notFound
  | failed (err : String)
  | found (pc : ProposedCommit)
  deriving DecidableEq, Repr

/-- The loop's exit test: all four SHAs of the status are set. -/
def ProposedCommit.resolved (pc : ProposedCommit) : Bool :=
  pc.status.active.dry.sha != "" && pc.status.active.hydrated.sha != "" &&
    pc.status.proposed.dry.sha != "" && pc.status.proposed.hydrated.sha != ""

/-- One pass of the wait loop on the answer of its `Get`: the value the function returns, or
`none` to go round again. -/
def createOrGetProposedCommitIteration : ProposedCommitGet → Option (Except String ProposedCommit)
  | .notFound => none
  | .failed err => some (.error err)
  | .found pc => if pc.resolved then some (.ok pc) else none

/-- The wait loop from pass `pass` with `fuel` passes left; `get pass (context pass)` is the
store's answer to the `Get` of pass `pass`, made under that pass's context. -/
def createOrGetProposedCommitLoop (get : Nat → ReconcileContext → ProposedCommitGet)
    (context : Nat → ReconcileContext) (pass : Nat) : Nat → Option (Except String ProposedCommit)
  | 0 => none
  | fuel + 1 =>
      match createOrGetProposedCommitIteration (get pass (context pass)) with
      | some result => some result
      | none => createOrGetProposedCommitLoop get context (pass + 1) fuel

/-- `createOrGetProposedCommit` once the name is computed: the first `Get` (pass 0), the
`Create` on NotFound, whose error is returned, and the wait loop from pass 1. -/
def createOrGetProposedCommit (get : Nat → ReconcileContext → ProposedCommitGet)
    (context : Nat → ReconcileContext) (create : Except String Unit) (fuel : Nat) :
    Option (Except String ProposedCommit) :=
  match get 0 (context 0) with
  | .failed err => some (.error err)
  | .notFound =>
      match create with
      | .error err => some (.error err)
      | .ok () => createOrGetProposedCommitLoop get context 1 fuel
  | .found _ => createOrGetProposedCommitLoop get context 1 fuel

/-- A store answer on which the loop goes round again: NotFound, or a ProposedCommit whose
four SHAs are not all set. -/
def ProposedCommitGet.Pending (answer : ProposedCommitGet) : Prop :=
  answer = .notFound ∨ ∃ pc, answer = .found pc ∧ pc.resolved = false

theorem createOrGetProposedCommitIteration_of_pending {answer : ProposedCommitGet}
    (pending : answer.Pending) : createOrGetProposedCommitIteration answer = none := by
  rcases pending with rfl | ⟨pc, rfl, unresolved⟩
  · rfl
  · simp [createOrGetProposedCommitIteration, unresolved]

/-- While every answer of the store is NotFound or an unresolved ProposedCommit, the loop makes
every pass it is given: cancelling the context, at whatever pass, does not end it. -/
theorem createOrGetProposedCommitLoop_never_returns
    (get : Nat → ReconcileContext → ProposedCommitGet)
    (pending : ∀ pass context, (get pass context).Pending) (cancelledAt pass fuel : Nat) :
    createOrGetProposedCommitLoop get (ReconcileContext.cancelledFrom cancelledAt) pass fuel =
      none := by
  induction fuel generalizing pass with
  | zero => rfl
  | succ fuel ih =>
      simp only [createOrGetProposedCommitLoop,
        createOrGetProposedCommitIteration_of_pending (pending _ _), ih]

/-- A ProposedCommit the ProposedCommit controller has not reconciled yet: no SHA is set. -/
def unreconciledProposedCommit : ProposedCommit :=
  ⟨"ps-env-dev", ⟨⟨⟨"", 0⟩, ⟨"", 0⟩⟩, ⟨⟨"", 0⟩, ⟨"", 0⟩⟩⟩⟩

theorem createOrGetProposedCommitLoop_never_returns_of_unreconciled :
    (∀ (_ : Nat) (_ : ReconcileContext), (ProposedCommitGet.found unreconciledProposedCommit).Pending) ∧
      createOrGetProposedCommitLoop (fun _ _ => .found unreconciledProposedCommit)
        (ReconcileContext.cancelledFrom 0) 0 1000 = none :=
  have pending : ∀ (_ : Nat) (_ : ReconcileContext),
      (ProposedCommitGet.found unreconciledProposedCommit).Pending :=
    fun _ _ => .inr ⟨_, rfl, rfl⟩
  ⟨pending, createOrGetProposedCommitLoop_never_returns _ pending 0 0 1000⟩

end GitOpsPromoter
