import GitOpsPromoter.Resources
import GitOpsPromoter.Names
import GitOpsPromoter.EnvironmentStatus
import GitOpsPromoter.CommitStatusStore
import GitOpsPromoter.CalculateStatus
import GitOpsPromoter.Rollups
import GitOpsPromoter.CopyCommitStatuses
import GitOpsPromoter.MergeFlip
import GitOpsPromoter.Reconcile
import GitOpsPromoter.PullRequestReconciler
import GitOpsPromoter.PullRequestMerges
import GitOpsPromoter.ProposedCommitWait
import GitOpsPromoter.PromotionRun
