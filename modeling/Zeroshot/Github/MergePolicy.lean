import Zeroshot.Github.Policy

set_option autoImplicit false

/-!
# The permitted merge method

The merge policy query answers with pages of the rules of the base branch, each page with the
repository's settings and the pull request. `classify` picks the first merge method that the
settings, the linear-history protection and every rule allow, once it has made sure that the pages
hold every rule exactly once.
-/

namespace Zeroshot.Github.MergePolicy

open Delivery (SourceReviewReceipt)

/-! ## The wire form -/

/-- `MergeMethod`. -/
inductive MergeMethod
  | queue
  | merge
  | squash
  | rebase
  deriving DecidableEq, Repr

/-- `LinearHistory`. -/
structure LinearHistory where
  requiresLinearHistory : Bool
  deriving DecidableEq, Repr

/-- `PageInfo`. -/
structure PageInfo where
  hasNextPage : Bool
  endCursor : Option String
  deriving DecidableEq, Repr

/-- `Restriction`: the allowed methods are those of a pull-request rule. -/
inductive Restriction
  | requiredLinearHistory
  | pullRequest (allowedMergeMethods : Option (List String))
  | other
  deriving DecidableEq, Repr

/-- `Rule`. -/
structure Rule where
  id : String
  restriction : Restriction
  deriving DecidableEq, Repr

/-- `Rules`. -/
structure Rules where
  totalCount : Nat
  pageInfo : PageInfo
  nodes : List Rule
  deriving DecidableEq, Repr

/-- `BaseRef`. -/
structure BaseRef where
  name : String
  branchProtectionRule : Option LinearHistory
  refUpdateRule : Option LinearHistory
  rules : Option Rules
  deriving DecidableEq, Repr

/-- `PullRequest`. -/
structure PullRequest where
  id : String
  number : Nat
  baseRefName : String
  headRefName : String
  headRefOid : String
  isMergeQueueEnabled : Bool
  baseRef : BaseRef
  deriving DecidableEq, Repr

/-- `Repository`, which is what a page holds. -/
structure Repository where
  nameWithOwner : String
  mergeCommitAllowed : Bool
  squashMergeAllowed : Bool
  rebaseMergeAllowed : Bool
  pullRequest : PullRequest
  deriving DecidableEq, Repr

/-! ## The policy of a page -/

/-- `invalid`. -/
def invalid (detail : String) : SourceDeliveryError :=
  apiError ("Cannot determine a permitted merge method: " ++ detail ++ ".")

/-- `require_identity`. -/
def requireIdentity (repository : Repository) (review : SourceReviewReceipt) :
    Except SourceDeliveryError Unit :=
  let pullRequest := repository.pullRequest
  if repository.nameWithOwner ≠ review.repository ∨
      toString pullRequest.number ≠ review.reviewId ∨
      pullRequest.baseRefName ≠ review.targetBranch ∨
      pullRequest.baseRef.name ≠ review.targetBranch ∨
      pullRequest.headRefName ≠ review.headBranch ∨
      pullRequest.headRefOid ≠ review.headRevision ∨ pullRequest.id = "" then
    .error (identityError
      "Merge policy no longer matches the admitted pull request, base branch, and exact head.")
  else .ok ()

/-- `same_policy`. -/
def samePolicy (first current : Repository) : Bool :=
  first.mergeCommitAllowed = current.mergeCommitAllowed &&
    first.squashMergeAllowed = current.squashMergeAllowed &&
    first.rebaseMergeAllowed = current.rebaseMergeAllowed &&
    first.pullRequest.id = current.pullRequest.id &&
    first.pullRequest.isMergeQueueEnabled = current.pullRequest.isMergeQueueEnabled &&
    first.pullRequest.baseRef.branchProtectionRule =
      current.pullRequest.baseRef.branchProtectionRule &&
    first.pullRequest.baseRef.refUpdateRule = current.pullRequest.baseRef.refUpdateRule

/-- The loop of `validate_identity_and_policy`. -/
def validatePages (review : SourceReviewReceipt) (first : Repository) :
    List Repository → Except SourceDeliveryError Unit
  | [] => .ok ()
  | page :: pages => do
    requireIdentity page review
    if samePolicy first page then validatePages review first pages
    else .error (invalid "repository or branch policy changed during pagination").temporary

/-- `validate_identity_and_policy`. -/
def validateIdentityAndPolicy (pages : List Repository) (review : SourceReviewReceipt) :
    Except SourceDeliveryError Repository :=
  match pages with
  | [] => .error (invalid "no response pages")
  | first :: _ => do
    validatePages review first pages
    .ok first

/-- `rules`. -/
def rules (repository : Repository) : Except SourceDeliveryError Rules :=
  match repository.pullRequest.baseRef.rules with
  | none => .error (invalid "GitHub did not return the base-branch rules")
  | some rules => .ok rules

/-! ## Rules -/

/-- Which of `Merge`, `Squash` and `Rebase` are allowed. -/
structure Allowed where
  merge : Bool
  squash : Bool
  rebase : Bool
  deriving DecidableEq, Repr

/-- `apply_restriction`. -/
def applyRestriction (restriction : Restriction) (allowed : Allowed) : Allowed :=
  match restriction with
  | .requiredLinearHistory => { allowed with merge := false }
  | .pullRequest (some methods) =>
    { merge := allowed.merge && methods.contains "MERGE"
      squash := allowed.squash && methods.contains "SQUASH"
      rebase := allowed.rebase && methods.contains "REBASE" }
  | .pullRequest none => allowed
  | .other => allowed

/-- `validate_page`: the cursors seen then. -/
def validatePage (rules : Rules) (hasNextPage : Bool) (cursors : OrdSet String) :
    Except SourceDeliveryError (OrdSet String) :=
  if rules.pageInfo.hasNextPage ≠ hasNextPage then
    .error (invalid "incomplete branch-rule pagination")
  else do
    let cursors ← match rules.pageInfo.endCursor with
      | some cursor =>
        if cursor = "" ∨ cursors.contains cursor then
          .error (invalid "branch-rule pagination repeated an empty or previous cursor")
        else .ok (cursors.insert cursor)
      | none =>
        if hasNextPage then .error (invalid "branch-rule pagination omitted its next cursor")
        else .ok cursors
    if hasNextPage && rules.nodes.isEmpty then
      .error (invalid "branch-rule pagination made no progress")
    else .ok cursors

/-- The rules seen so far, and what they allow. -/
structure Applied where
  ruleIds : OrdSet String
  allowed : Allowed

/-- The inner loop of `apply_rules`. -/
def applyNodes : List Rule → Applied → Except SourceDeliveryError Applied
  | [], applied => .ok applied
  | rule :: nodes, applied =>
    if rule.id = "" ∨ applied.ruleIds.contains rule.id then
      .error (invalid "branch-rule pagination repeated an empty or previous rule ID")
    else applyNodes nodes
      ⟨applied.ruleIds.insert rule.id, applyRestriction rule.restriction applied.allowed⟩

/-- The outer loop of `apply_rules`. -/
def applyPages (expectedCount : Nat) :
    List Repository → OrdSet String → Applied → Except SourceDeliveryError Applied
  | [], _, applied => .ok applied
  | page :: pages, cursors, applied => do
    let rules ← rules page
    if rules.totalCount ≠ expectedCount then
      .error (invalid "branch rules changed during pagination").temporary
    else do
      let cursors ← validatePage rules (!pages.isEmpty) cursors
      let applied ← applyNodes rules.nodes applied
      applyPages expectedCount pages cursors applied

/-- `apply_rules`. -/
def applyRules (pages : List Repository) (expectedCount : Nat) (allowed : Allowed) :
    Except SourceDeliveryError Allowed := do
  let applied ← applyPages expectedCount pages [] ⟨[], allowed⟩
  if applied.ruleIds.length ≠ expectedCount then
    .error (invalid "branch-rule count does not match the complete paginated response")
  else .ok applied.allowed

/-! ## The method -/

/-- Whether the base branch requires a linear history. -/
def BaseRef.linear (base : BaseRef) : Bool :=
  base.branchProtectionRule.any LinearHistory.requiresLinearHistory ||
    base.refUpdateRule.any LinearHistory.requiresLinearHistory

/-- What the settings and the protection of a page allow. -/
def Repository.allowed (repository : Repository) : Allowed where
  merge := repository.mergeCommitAllowed && !repository.pullRequest.baseRef.linear
  squash := repository.squashMergeAllowed
  rebase := repository.rebaseMergeAllowed

/-- The first method that is allowed. -/
def Allowed.method (allowed : Allowed) : Option MergeMethod :=
  if allowed.merge then some .merge
  else if allowed.squash then some .squash
  else if allowed.rebase then some .rebase
  else none

/-- `classify`. -/
def classify (response : Except String (List Repository)) (review : SourceReviewReceipt) :
    Except SourceDeliveryError MergeMethod := do
  let pages ← response.mapError fun error => invalid ("invalid response: " ++ error)
  let first ← validateIdentityAndPolicy pages review
  if first.pullRequest.isMergeQueueEnabled then .ok .queue
  else
    let allowed ← applyRules pages (← rules first).totalCount first.allowed
    match allowed.method with
    | some method => .ok method
    | none => .error (apiError <|
        "No merge method is allowed by both repository settings and base-branch " ++
        "protection/rulesets. Enable a compatible merge method or use a merge queue before " ++
        "retrying delivery.")

end Zeroshot.Github.MergePolicy
