import Zeroshot.Delivery.Review
import Zeroshot.Lib.Logged
import Zeroshot.Protocol.Payload

set_option autoImplicit false

/-!
# The delivery policy of a pull request

The delivery policy query answers with pages: each holds the pull request and a part of its check
contexts. `classifyPolicy` trusts the pages only when every page names the review, the pages agree
and their pagination is complete; `policySnapshot` then reads the rules of the base branch, and
`mergeAction` decides from the snapshot whether to submit a merge.

A response is what its decoder makes of it: the pages, or the text of the decoder's error.
-/

namespace Zeroshot.Github

open Delivery (SourceReviewReceipt validBranch validRevision)

/-! ## Errors -/

def maxSourceApiDiagnosticBytes : Nat := 32 * 1024

def diagnosticTruncated : String := "\n[diagnostic truncated]"

/-- The longest beginning of a text within a number of bytes. -/
def truncateBytes : Nat → List Char → List Char
  | _, [] => []
  | budget, c :: text =>
    if c.utf8Size ≤ budget then c :: truncateBytes (budget - c.utf8Size) text else []

/-- The diagnostic of `SourceApiFailure::new`. -/
def boundedDiagnostic (diagnostic : String) : String :=
  let diagnostic := if diagnostic.toList.contains '\x00' then "source API diagnostic redacted"
    else diagnostic
  if maxSourceApiDiagnosticBytes < diagnostic.utf8ByteSize then
    String.ofList (truncateBytes (maxSourceApiDiagnosticBytes - diagnosticTruncated.utf8ByteSize)
      diagnostic.toList) ++ diagnosticTruncated
  else diagnostic

/-- `SourceApiFailure`. -/
structure SourceApiFailure where
  status : Option Nat
  diagnostic : String
  transient : Bool
  deriving DecidableEq, Repr

/-- `SourceDeliveryError`, without the failures of commands. -/
inductive SourceDeliveryError
  | unavailable
  | rejected
  | identity (diagnostic : String)
  | api (failure : SourceApiFailure)
  | repairable (diagnostic : String)
  deriving DecidableEq, Repr

/-- `SourceDeliveryError::api` without a status. -/
def apiError (diagnostic : String) : SourceDeliveryError :=
  .api ⟨none, boundedDiagnostic diagnostic, false⟩

/-- `SourceDeliveryError::identity`. -/
def identityError (diagnostic : String) : SourceDeliveryError :=
  .identity (boundedDiagnostic diagnostic)

/-- `SourceDeliveryError::temporary`. -/
def SourceDeliveryError.temporary : SourceDeliveryError → SourceDeliveryError
  | .api failure => .api { failure with transient := true }
  | error => error

/-! ## The wire form -/

/-- `CheckAppWire`. -/
structure CheckAppWire where
  databaseId : Option Nat
  deriving DecidableEq, Repr

/-- `CheckSuiteWire`. -/
structure CheckSuiteWire where
  app : Option CheckAppWire
  deriving DecidableEq, Repr

/-- `CheckContextWire`. -/
inductive CheckContextWire
  | checkRun (name status : String) (conclusion detailsUrl : Option String)
      (databaseId : Option Nat) (checkSuite : Option CheckSuiteWire) (required : Bool)
  | statusContext (context state : String) (description targetUrl : Option String)
      (required : Bool)
  deriving DecidableEq, Repr

/-- `PageInfoWire`. -/
structure PageInfoWire where
  hasNextPage : Bool
  endCursor : Option String
  deriving DecidableEq, Repr

/-- `CheckContextConnectionWire`. -/
structure CheckContextConnectionWire where
  pageInfo : PageInfoWire
  nodes : List CheckContextWire
  deriving DecidableEq, Repr

/-- `CommitWire`: the contexts of its check roll-up. -/
structure CommitWire where
  statusCheckRollup : Option CheckContextConnectionWire
  deriving DecidableEq, Repr

/-- `RefUpdateRuleWire`. -/
structure RefUpdateRuleWire where
  requiredApprovingReviewCount : Nat
  requiredStatusCheckContexts : Option (List (Option String))
  requiresCodeOwnerReviews : Bool
  requiresConversationResolution : Bool
  requiresLinearHistory : Bool
  requiresSignatures : Bool
  deriving DecidableEq, Repr

/-- `RefWire`. -/
structure RefWire where
  name : String
  refUpdateRule : Option RefUpdateRuleWire
  deriving DecidableEq, Repr

/-- `PullRequestPolicyWire`. -/
structure PullRequestPolicyWire where
  id : String
  number : Nat
  state : String
  merged : Bool
  mergeCommit : Option String
  mergeable : String
  mergeStateStatus : String
  reviewDecision : Option String
  isDraft : Bool
  isInMergeQueue : Bool
  isMergeQueueEnabled : Bool
  autoMergeRequest : Option Value
  baseRefName : String
  baseRef : RefWire
  headRefName : String
  headRefOid : String
  commits : List CommitWire
  deriving DecidableEq

/-- `RepositoryPolicyWire`. -/
structure RepositoryPolicyWire where
  nameWithOwner : String
  pullRequest : Option PullRequestPolicyWire
  deriving DecidableEq

/-- `QueryPageWire`. -/
structure QueryPageWire where
  repository : Option RepositoryPolicyWire
  deriving DecidableEq

/-! ## Texts -/

/-- `char::is_whitespace`. -/
def isWhitespace (c : Char) : Bool :=
  (0x09 ≤ c.toNat && c.toNat ≤ 0x0D) || c.toNat = 0x20 || c.toNat = 0x85 || c.toNat = 0xA0 ||
    c.toNat = 0x1680 || (0x2000 ≤ c.toNat && c.toNat ≤ 0x200A) || c.toNat = 0x2028 ||
    c.toNat = 0x2029 || c.toNat = 0x202F || c.toNat = 0x205F || c.toNat = 0x3000

/-- Whether nothing is left of a trimmed text. -/
def isBlank (value : String) : Bool := value.toList.all isWhitespace

/-- The words between white space. -/
def splitWhitespace (value : List Char) : List (List Char) :=
  (value.splitOnP isWhitespace).filter fun word => !word.isEmpty

/-- `one_line`. -/
def oneLine (value : String) : String :=
  String.intercalate " " ((splitWhitespace value.toList).map String.ofList)

/-- `bounded_text`. -/
def boundedText (value : String) (maximum : Nat) : String :=
  let truncated := "[diagnostic truncated]".toList
  if value.toList.length ≤ maximum then value
  else String.ofList (value.toList.take (maximum - truncated.length) ++ truncated.take maximum)

def maxFailureItemChars : Nat := 1024

def maxFailureDiagnosticChars : Nat := 8 * 1024

def maxFailedCheckLogs : Nat := 8

/-- `failure_item`. -/
def failureItem (name conclusion : String) (description url : Option String) : String :=
  let item := oneLine name ++ " concluded " ++ oneLine conclusion
  let item := match description.filter fun value => !isBlank value with
    | some description => item ++ ": " ++ oneLine description
    | none => item
  let item := match url.filter fun value => !isBlank value with
    | some url => item ++ " (" ++ oneLine url ++ ")"
    | none => item
  boundedText item maxFailureItemChars

/-- `failure_diagnostic`. -/
def failureDiagnostic (failures : List String) : String :=
  boundedText ("Required CI checks failed:\n" ++
    String.intercalate "\n" (failures.map fun failure => "- " ++ failure)) maxFailureDiagnosticChars

/-! ## Required checks -/

/-- `RequiredChecks`. -/
inductive RequiredChecks
  | absent
  | pending
  | passed
  deriving DecidableEq, Repr

/-- `RequiredCheckOutcome`. -/
inductive RequiredCheckOutcome
  | passed
  | pending
  | failed (diagnostic : String) (jobId : Option Nat)
  deriving DecidableEq, Repr

namespace CheckContextWire

/-- `is_required`. -/
def isRequired : CheckContextWire → Bool
  | .checkRun _ _ _ _ _ _ required => required
  | .statusContext _ _ _ _ required => required

/-- `integration_id`. -/
def integrationId : CheckContextWire → Option Nat
  | .checkRun _ _ _ _ _ checkSuite _ =>
    (checkSuite.bind CheckSuiteWire.app).bind CheckAppWire.databaseId
  | .statusContext _ _ _ _ _ => none

/-- `name`. -/
def name : CheckContextWire → String
  | .checkRun name _ _ _ _ _ _ => name
  | .statusContext context _ _ _ _ => context

end CheckContextWire

/-- `check_run_outcome`. -/
def checkRunOutcome (name status : String) (conclusion detailsUrl : Option String)
    (jobId : Option Nat) : RequiredCheckOutcome :=
  if status ≠ "COMPLETED" then .pending
  else
    let conclusion := conclusion.getD ""
    if ["SUCCESS", "NEUTRAL", "SKIPPED"].contains conclusion then .passed
    else if ["FAILURE", "CANCELLED", "TIMED_OUT", "ACTION_REQUIRED", "STALE",
        "STARTUP_FAILURE"].contains conclusion then
      .failed (failureItem name conclusion none detailsUrl) jobId
    else .pending

/-- `status_context_outcome`. -/
def statusContextOutcome (context state : String) (description targetUrl : Option String) :
    RequiredCheckOutcome :=
  if state = "SUCCESS" then .passed
  else if state = "ERROR" ∨ state = "FAILURE" then
    .failed (failureItem context state description targetUrl) none
  else .pending

/-- `check_outcome`. -/
def checkOutcome : CheckContextWire → RequiredCheckOutcome
  | .checkRun name status conclusion detailsUrl databaseId _ _ =>
    checkRunOutcome name status conclusion detailsUrl databaseId
  | .statusContext context state description targetUrl _ =>
    statusContextOutcome context state description targetUrl

/-- `required_check_outcome`. -/
def requiredCheckOutcome (context : CheckContextWire) : Option RequiredCheckOutcome :=
  if context.isRequired then some (checkOutcome context) else none

/-- `RequiredCheckEvidence`. -/
structure RequiredCheckEvidence where
  checks : RequiredChecks
  failures : List String
  failedJobIds : List Nat
  deriving DecidableEq, Repr

/-- The evidence of one more context. -/
def RequiredCheckEvidence.add (evidence : RequiredCheckEvidence) (context : CheckContextWire) :
    RequiredCheckEvidence :=
  match requiredCheckOutcome context with
  | none => evidence
  | some .passed => if evidence.checks = .absent then { evidence with checks := .passed }
    else evidence
  | some .pending => { evidence with checks := .pending }
  | some (.failed diagnostic jobId) =>
    { evidence with failures := evidence.failures ++ [diagnostic],
                    failedJobIds := evidence.failedJobIds ++ jobId.toList }

/-- `append_supporting_failures`. -/
def appendSupportingFailures (contexts : List CheckContextWire)
    (evidence : RequiredCheckEvidence) : RequiredCheckEvidence :=
  contexts.foldl (fun evidence context =>
    if context.isRequired then evidence
    else match checkOutcome context with
      | .failed diagnostic jobId =>
        { evidence with failures := evidence.failures ++ ["Supporting check: " ++ diagnostic],
                        failedJobIds := evidence.failedJobIds ++ jobId.toList }
      | _ => evidence) evidence

/-- What `classify_required_checks` keeps of the failed jobs. -/
def limitFailedJobs (evidence : RequiredCheckEvidence) : RequiredCheckEvidence :=
  let failedJobIds := evidence.failedJobIds.eraseDups
  if maxFailedCheckLogs < failedJobIds.length then
    { evidence with
      failures := evidence.failures ++ ["Log excerpts limited to " ++ toString maxFailedCheckLogs ++
        " of " ++ toString failedJobIds.length ++ " failed jobs; see check URLs"]
      failedJobIds := failedJobIds.take maxFailedCheckLogs }
  else { evidence with failedJobIds := failedJobIds }

/-- `classify_required_checks`. -/
def classifyRequiredChecks (contexts : List CheckContextWire) : RequiredCheckEvidence :=
  let evidence := contexts.foldl RequiredCheckEvidence.add ⟨.absent, [], []⟩
  limitFailedJobs (if evidence.failures.isEmpty then evidence
    else appendSupportingFailures contexts evidence)

/-! ## Snapshots -/

/-- `SourceChecks`. -/
inductive SourceChecks
  | notRequired
  | pending
  | passed
  | failed (diagnostic : String)
  deriving DecidableEq, Repr

/-- `SourceReviewState`. -/
inductive SourceReviewState
  | openReview (checks : SourceChecks)
  | merged (mergeRevision : String)
  | conflict
  | closed
  deriving DecidableEq, Repr

/-- `PolicySnapshot`; the observed required checks are a set. -/
structure PolicySnapshot where
  pullRequestId : String
  isInMergeQueue : Bool
  autoMergeEnabled : Bool
  state : SourceReviewState
  failedJobIds : List Nat
  isMergeQueueEnabled : Bool
  headUpdate : Option String
  pullRequestReady : Bool
  observedRequiredChecks : List (String × Option Nat)
  deriving DecidableEq, Repr

/-- `required_context_is_missing`. -/
def requiredContextIsMissing (pullRequest : PullRequestPolicyWire)
    (contexts : List CheckContextWire) : Bool :=
  match pullRequest.baseRef.refUpdateRule.bind
      RefUpdateRuleWire.requiredStatusCheckContexts with
  | none => false
  | some required =>
    let observed := (contexts.filter CheckContextWire.isRequired).map CheckContextWire.name
    (required.filterMap id).any fun name => !name.isEmpty && !observed.contains name

/-- `head_update`. -/
def headUpdate (pullRequest : PullRequestPolicyWire) : Option String :=
  if !pullRequest.isMergeQueueEnabled && !pullRequest.isDraft && !pullRequest.isInMergeQueue &&
      pullRequest.mergeable = "MERGEABLE" && pullRequest.mergeStateStatus = "BEHIND" then
    some pullRequest.id
  else none

/-- `merge_gate_ready`. -/
def mergeGateReady (pullRequest : PullRequestPolicyWire) : Bool :=
  let stateReady := ["BEHIND", "CLEAN", "HAS_HOOKS", "UNSTABLE"].contains
    pullRequest.mergeStateStatus
  !pullRequest.isDraft && !pullRequest.isInMergeQueue &&
    (pullRequest.isMergeQueueEnabled || (pullRequest.mergeable = "MERGEABLE" && stateReady))

/-- `approval_handoff_policy_ready`. -/
def approvalHandoffPolicyReady (baseRef : RefWire) : Bool :=
  match baseRef.refUpdateRule with
  | none => false
  | some rule =>
    (0 < rule.requiredApprovingReviewCount || rule.requiresCodeOwnerReviews) &&
      !rule.requiresConversationResolution && !rule.requiresLinearHistory &&
      !rule.requiresSignatures

/-- `pull_request_ready`. -/
def pullRequestReady (pullRequest : PullRequestPolicyWire) : Bool :=
  !pullRequest.isDraft && !pullRequest.isInMergeQueue &&
    pullRequest.mergeable = "MERGEABLE" && pullRequest.mergeStateStatus = "BLOCKED" &&
    (pullRequest.reviewDecision = some "REVIEW_REQUIRED" ||
      pullRequest.reviewDecision = some "CHANGES_REQUESTED") &&
    approvalHandoffPolicyReady pullRequest.baseRef

/-- `waiting_snapshot`. -/
def waitingSnapshot : PolicySnapshot where
  pullRequestId := ""
  isInMergeQueue := false
  autoMergeEnabled := false
  state := .openReview .pending
  failedJobIds := []
  isMergeQueueEnabled := false
  headUpdate := none
  pullRequestReady := false
  observedRequiredChecks := []

/-- The snapshot of a pull request that is no candidate for a merge. -/
def settledSnapshot (pullRequest : PullRequestPolicyWire) (state : SourceReviewState) :
    PolicySnapshot where
  pullRequestId := pullRequest.id
  isInMergeQueue := pullRequest.isInMergeQueue
  autoMergeEnabled := pullRequest.autoMergeRequest.isSome
  state := state
  failedJobIds := []
  isMergeQueueEnabled := false
  headUpdate := none
  pullRequestReady := false
  observedRequiredChecks := []

/-- `merged_snapshot`. -/
def mergedSnapshot (pullRequest : PullRequestPolicyWire) :
    Except SourceDeliveryError PolicySnapshot :=
  match pullRequest.mergeCommit.filter validRevision with
  | none => .error .rejected
  | some mergeRevision =>
    if pullRequest.state = "MERGED" then .ok (settledSnapshot pullRequest (.merged mergeRevision))
    else .error .rejected

/-- `terminal_snapshot`. -/
def terminalSnapshot (pullRequest : PullRequestPolicyWire) :
    Except SourceDeliveryError (Option PolicySnapshot) :=
  if pullRequest.merged then (mergedSnapshot pullRequest).map some
  else if pullRequest.state = "CLOSED" then .ok (some (settledSnapshot pullRequest .closed))
  else if pullRequest.state = "OPEN" then
    if pullRequest.mergeable = "CONFLICTING" ∨ pullRequest.mergeStateStatus = "DIRTY" then
      .ok (some (settledSnapshot pullRequest .conflict))
    else .ok none
  else .error .rejected

/-- The checks of an open pull request without failures. -/
def readyChecks (policyReady : Bool) : RequiredChecks → SourceChecks
  | .absent => if policyReady then .notRequired else .pending
  | .passed => if policyReady then .passed else .pending
  | .pending => .pending

/-- `classify_snapshot`. -/
def classifySnapshot (pullRequest : PullRequestPolicyWire) (contexts : List CheckContextWire) :
    PolicySnapshot :=
  let evidence := classifyRequiredChecks contexts
  let checks := if requiredContextIsMissing pullRequest contexts then .pending
    else evidence.checks
  if !evidence.failures.isEmpty then
    { pullRequestId := pullRequest.id
      isInMergeQueue := pullRequest.isInMergeQueue
      autoMergeEnabled := pullRequest.autoMergeRequest.isSome
      state := .openReview (.failed (failureDiagnostic evidence.failures))
      failedJobIds := evidence.failedJobIds
      isMergeQueueEnabled := pullRequest.isMergeQueueEnabled
      headUpdate := headUpdate pullRequest
      pullRequestReady := false
      observedRequiredChecks := [] }
  else
    { pullRequestId := pullRequest.id
      isInMergeQueue := pullRequest.isInMergeQueue
      autoMergeEnabled := pullRequest.autoMergeRequest.isSome
      state := .openReview
        (readyChecks (mergeGateReady pullRequest || pullRequestReady pullRequest) checks)
      failedJobIds := []
      isMergeQueueEnabled := pullRequest.isMergeQueueEnabled
      headUpdate := headUpdate pullRequest
      pullRequestReady := checks ≠ .pending && pullRequestReady pullRequest
      observedRequiredChecks := (contexts.filter CheckContextWire.isRequired).map fun context =>
        (context.name, context.integrationId) }

/-! ## Pages -/

/-- `require_identity`. -/
def requireIdentity (repository : RepositoryPolicyWire) (review : SourceReviewReceipt) :
    Except SourceDeliveryError PullRequestPolicyWire :=
  match repository.pullRequest with
  | none => .error .rejected
  | some pullRequest =>
    if !isBlank pullRequest.id && repository.nameWithOwner = review.repository &&
        toString pullRequest.number = review.reviewId &&
        pullRequest.baseRefName = review.targetBranch &&
        pullRequest.baseRef.name = review.targetBranch &&
        pullRequest.headRefName = review.headBranch &&
        pullRequest.headRefOid = review.headRevision then
      .ok pullRequest
    else .error .rejected

/-- What `same_policy` compares. -/
def PullRequestPolicyWire.policy (pullRequest : PullRequestPolicyWire) : PullRequestPolicyWire :=
  { pullRequest with baseRefName := "", headRefName := "", headRefOid := "", commits := [] }

/-- `same_policy`. -/
def samePolicy (left right : PullRequestPolicyWire) : Bool := left.policy = right.policy

/-- `check_contexts`. -/
def checkContexts (pullRequest : PullRequestPolicyWire) :
    Except SourceDeliveryError (Option CheckContextConnectionWire) :=
  match pullRequest.commits with
  | [commit] => .ok commit.statusCheckRollup
  | _ => .error .rejected

/-- `page_is_complete`, with the cursors seen then. -/
def pageIsComplete (contexts : CheckContextConnectionWire) (index pageCount : Nat)
    (cursors : OrdSet String) : Bool × OrdSet String :=
  let paginationMatches := contexts.pageInfo.hasNextPage != (index + 1 == pageCount)
  match contexts.pageInfo.endCursor with
  | some cursor =>
    if paginationMatches then (!cursors.contains cursor, cursors.insert cursor)
    else (false, cursors)
  | none => (paginationMatches && !contexts.pageInfo.hasNextPage, cursors)

/-- What `collect_contexts` has collected. -/
structure Collected where
  contexts : List CheckContextWire
  complete : Bool
  cursors : OrdSet String

/-- One round of the loop of `collect_contexts`. -/
def collectPage (first : RepositoryPolicyWire) (review : SourceReviewReceipt)
    (pageCount index : Nat) (page : QueryPageWire) (collected : Collected) :
    Except SourceDeliveryError Collected :=
  match page.repository with
  | none => .error .rejected
  | some repository => do
    let pullRequest ← requireIdentity repository review
    match first.pullRequest with
    | none => .error .rejected
    | some firstPullRequest =>
      let stable := samePolicy firstPullRequest pullRequest
      match ← checkContexts pullRequest with
      | none => .ok { collected with complete := collected.complete && stable && pageCount == 1 }
      | some pageContexts =>
        let (complete, cursors) := pageIsComplete pageContexts index pageCount collected.cursors
        .ok ⟨collected.contexts ++ pageContexts.nodes, collected.complete && stable && complete,
          cursors⟩

/-- The loop of `collect_contexts`. -/
def collectPages (first : RepositoryPolicyWire) (review : SourceReviewReceipt) (pageCount : Nat) :
    Nat → List QueryPageWire → Collected → Except SourceDeliveryError Collected
  | _, [], collected => .ok collected
  | index, page :: pages, collected => do
    let collected ← collectPage first review pageCount index page collected
    collectPages first review pageCount (index + 1) pages collected

/-- `collect_contexts`. -/
def collectContexts (pages : List QueryPageWire) (review : SourceReviewReceipt)
    (first : RepositoryPolicyWire) : Except SourceDeliveryError Collected :=
  collectPages first review pages.length 0 pages ⟨[], true, []⟩

/-- The end of `classify_policy`. -/
def classifyCollected (pullRequest : PullRequestPolicyWire) (collected : Collected) :
    Except SourceDeliveryError PolicySnapshot :=
  if !collected.complete then .ok waitingSnapshot
  else do
    match ← terminalSnapshot pullRequest with
    | some snapshot => .ok snapshot
    | none => .ok (classifySnapshot pullRequest collected.contexts)

/-- `classify_policy` on decoded pages. -/
def classifyPages (pages : List QueryPageWire) (review : SourceReviewReceipt) :
    Except SourceDeliveryError PolicySnapshot :=
  match pages.head?.bind QueryPageWire.repository with
  | none => .error .rejected
  | some first => do
    let firstPullRequest ← requireIdentity first review
    let collected ← collectContexts pages review first
    classifyCollected firstPullRequest collected

/-- `classify_policy`. -/
def classifyPolicy (response : Except String (List QueryPageWire)) (review : SourceReviewReceipt) :
    Except SourceDeliveryError PolicySnapshot := do
  let pages ← response.mapError fun error =>
    apiError ("GitHub returned invalid delivery policy: " ++ error)
  classifyPages pages review

/-! ## Branch rules -/

/-- `BranchCheckWire`. -/
structure BranchCheckWire where
  context : String
  integrationId : Option Nat
  deriving DecidableEq, Repr

/-- `BranchRuleWire`. -/
inductive BranchRuleWire
  | requiredStatusChecks (checks : List BranchCheckWire)
  | other
  deriving DecidableEq, Repr

/-- The required checks of a rule. -/
def BranchRuleWire.checks : BranchRuleWire → List BranchCheckWire
  | .requiredStatusChecks checks => checks
  | .other => []

/-- Whether a required check was observed. -/
def PolicySnapshot.observes (snapshot : PolicySnapshot) (check : BranchCheckWire) : Bool :=
  snapshot.observedRequiredChecks.any fun observed =>
    observed.1 = check.context &&
      check.integrationId.all fun id => some id = observed.2

/-- `apply_branch_rules` on one required check. -/
def PolicySnapshot.applyCheck (snapshot : PolicySnapshot) (check : BranchCheckWire) :
    Except SourceDeliveryError PolicySnapshot :=
  if isBlank check.context then
    .error (apiError "GitHub returned an empty required check context")
  else if snapshot.observes check then .ok snapshot
  else .ok { snapshot with state := .openReview .pending, pullRequestReady := false }

/-- The loops of `apply_branch_rules`. -/
def PolicySnapshot.applyChecks : PolicySnapshot → List BranchCheckWire →
    Except SourceDeliveryError PolicySnapshot
  | snapshot, [] => .ok snapshot
  | snapshot, check :: checks => do
    let snapshot ← snapshot.applyCheck check
    snapshot.applyChecks checks

/-- `apply_branch_rules`. -/
def PolicySnapshot.applyBranchRules (snapshot : PolicySnapshot)
    (response : Except String (List (List BranchRuleWire))) :
    Except SourceDeliveryError PolicySnapshot := do
  let pages ← response.mapError fun error =>
    apiError ("GitHub returned invalid branch rules: " ++ error)
  if pages.isEmpty then .error (apiError "GitHub returned no branch-rule pages")
  else snapshot.applyChecks (pages.flatten.flatMap BranchRuleWire.checks)

/-! ## The merge action -/

/-- What the forge answers to the queries of `policy_snapshot`. -/
structure PolicyAnswers where
  policy : Except SourceDeliveryError (Except String (List QueryPageWire))
  branchRules : Except SourceDeliveryError (Except String (List (List BranchRuleWire)))

/-- `str::parse::<u64>`. -/
def parseU64 (text : String) : Option Nat :=
  let digits := match text.toList with
    | '+' :: rest => rest
    | rest => rest
  if digits.isEmpty || !digits.all Char.isDigit then none
  else
    let number := digits.foldl (fun number c => number * 10 + (c.toNat - 0x30)) 0
    if number < 18446744073709551616 then some number else none

/-- Whether `review_query_arguments` accepts the review. -/
def validQuery (review : SourceReviewReceipt) : Bool :=
  (match review.repository.toList.splitOn '/' with
    | [owner, name] => !owner.isEmpty && !name.isEmpty
    | _ => false) &&
  match parseU64 review.reviewId with
    | some number => 0 < number
    | none => false

/-- Whether a state is open and allows a merge. -/
def SourceReviewState.mergeable : SourceReviewState → Bool
  | .openReview .notRequired => true
  | .openReview .passed => true
  | _ => false

/-- The end of `policy_snapshot`: the branch rules are read for a mergeable snapshot only. -/
def PolicySnapshot.readBranchRules (snapshot : PolicySnapshot)
    (answer : Except SourceDeliveryError (Except String (List (List BranchRuleWire))))
    (review : SourceReviewReceipt) : Except SourceDeliveryError PolicySnapshot := do
  if snapshot.state.mergeable then
    if !validBranch review.targetBranch then .error .rejected
    else snapshot.applyBranchRules (← answer)
  else .ok snapshot

/-- `policy_snapshot`. -/
def policySnapshot (answers : PolicyAnswers) (review : SourceReviewReceipt) :
    Except SourceDeliveryError PolicySnapshot := do
  if !validQuery review then .error .rejected
  else
    let snapshot ← classifyPolicy (← answers.policy) review
    snapshot.readBranchRules answers.branchRules review

/-- `SourceMergeRequestOutcome`. -/
inductive SourceMergeRequestOutcome
  | accepted
  | pending
  | headUpdateRequired
  | conflict
  deriving DecidableEq, Repr

/-- `MergeAction`. -/
inductive MergeAction
  | complete (outcome : SourceMergeRequestOutcome)
  | submit (queued : Bool)
  deriving DecidableEq, Repr

/-- `merge_action`. -/
def mergeAction (snapshot : PolicySnapshot) : Except SourceDeliveryError MergeAction :=
  match snapshot.state with
  | .merged _ => .ok (.complete .accepted)
  | .conflict => .ok (.complete .conflict)
  | .closed => .error .rejected
  | .openReview _ =>
    if snapshot.state.mergeable && !snapshot.pullRequestReady then
      match snapshot.headUpdate with
      | none => .ok (.submit snapshot.isMergeQueueEnabled)
      | some _ => .ok (.complete .headUpdateRequired)
    else .ok (.complete .pending)

/-- `policy_snapshot` followed by `merge_action`. -/
def mergeVerdict (answers : PolicyAnswers) (review : SourceReviewReceipt) :
    Except SourceDeliveryError MergeAction := do
  mergeAction (← policySnapshot answers review)

end Zeroshot.Github
