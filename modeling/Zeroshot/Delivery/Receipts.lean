import Zeroshot.Delivery.Feedback
import Zeroshot.Protocol.Graph

set_option autoImplicit false

/-!
# Delivery receipts

When the output of a delivery says what the admission asked for: which deliveries a graph declares,
what they are to deliver, and the checks on a Git receipt and on a comment receipt. What the forge
adapters say about links and comments comes from outside.
-/

namespace Zeroshot.Delivery

/-! ## Delivery nodes -/

/-- `DeliveryMode::from_worker`. -/
def DeliveryMode.fromWorker (worker : WorkerRef) : Option DeliveryMode :=
  match worker.asStr with
  | "builtin.git-delivery.push@1" => some .push
  | "builtin.git-delivery.pr@1" => some .pullRequest
  | "builtin.git-delivery.pr@2" => some .pullRequestV2
  | "builtin.git-delivery.merge@1" => some .mergeV1
  | "builtin.git-delivery.merge@2" => some .merge
  | "builtin.git-delivery.merge@3" => some .mergeV3
  | _ => none

def DeliveryMode.label : DeliveryMode → String
  | .push => "push"
  | .pullRequest | .pullRequestV2 => "pr"
  | .mergeV1 | .merge | .mergeV3 => "merge"

def DeliveryMode.successOutcome : DeliveryMode → String
  | .push => "pushed"
  | .pullRequest => "opened"
  | .pullRequestV2 => "ready"
  | .mergeV1 | .merge | .mergeV3 => "merged"

def DeliveryMode.resultVersion : DeliveryMode → String
  | .push | .pullRequest | .mergeV1 => "v1"
  | .pullRequestV2 | .merge => "v2"
  | .mergeV3 => "v3"

def DeliveryMode.createsReview : DeliveryMode → Bool
  | .push => false
  | _ => true

/-- `COMMENT_DELIVERY_WORKER_REF`. -/
def commentDeliveryWorkerRef : String := "builtin.comment-delivery.post@1"

/-- `executable_declarations`: the name and the worker of every step and verifier. -/
def executableDeclarations (root : GraphNode) : List (NodeName × WorkerRef) :=
  root.descendants.filterMap fun node =>
    match node with
    | .step step => some (step.name, step.worker)
    | .verifier verifier => some (verifier.name, verifier.worker)
    | _ => none

/-- `sole_delivery_node`. -/
def soleDeliveryNode (root : GraphNode) : Option (NodeName × DeliveryMode) :=
  match (executableDeclarations root).filterMap fun declaration =>
      (DeliveryMode.fromWorker declaration.2).map fun mode => (declaration.1, mode) with
  | [selected] => some selected
  | _ => none

/-- `comment_node`: the first one, in authored order. -/
def commentNode (root : GraphNode) : Option VerifierNode :=
  root.descendants.findSome? fun node =>
    match node with
    | .verifier verifier =>
      if verifier.worker.asStr = commentDeliveryWorkerRef then some verifier else none
    | _ => none

/-! ## Targets -/

/-- `SourceForgeIdentity`. -/
structure SourceForgeIdentity where
  provider : String
  repository : String
  baseUrl : Option String
  deriving DecidableEq, Repr

/-- The parts of a resolved source that deliveries read. -/
structure DeliverySource where
  repository : String
  branch : String
  revision : String
  forge : Option SourceForgeIdentity
  deriving DecidableEq, Repr

structure DeliveryTarget where
  repository : String
  targetBranch : String
  baseRevision : String
  deriving DecidableEq, Repr

inductive DeliveryConfigError
  | repository
  | branch
  | revision
  deriving DecidableEq, Repr

/-- `DeliveryTarget::new`. -/
def DeliveryTarget.new (repository targetBranch baseRevision : String) :
    Except DeliveryConfigError DeliveryTarget :=
  if !validRepository repository then .error .repository
  else if !validBranch targetBranch then .error .branch
  else if !validRevision baseRevision then .error .revision
  else .ok ⟨repository, targetBranch, baseRevision⟩

/-- `source_target`. -/
def sourceTarget (source : DeliverySource) (mode : DeliveryMode) :
    Except DeliveryConfigError DeliveryTarget :=
  let repository :=
    if mode.createsReview then (source.forge.map SourceForgeIdentity.repository).getD
      source.repository
    else source.repository
  DeliveryTarget.new repository source.branch source.revision

/-! ## Reading structures -/

/-- The field values of a structure that denies unknown fields, with `null` for a missing one. The
fields may also come as an array. -/
def structFields (names : List String) : Value → Option (List Value)
  | .object fields =>
    if fields.all fun field => names.contains field.1 then
      some (names.map fun name => (fields.lookup name).getD .null)
    else none
  | .array items => if items.length = names.length then some items else none
  | _ => none

def textField : Value → Option String
  | .string text => some text
  | _ => none

def optionalTextField : Value → Option (Option String)
  | .null => some none
  | .string text => some (some text)
  | _ => none

structure DeliveryLinksWire where
  url : Option String
  commitUrl : Option String
  deriving DecidableEq, Repr

def DeliveryLinksWire.fromValue (value : Value) : Option DeliveryLinksWire :=
  match structFields ["url", "commitUrl"] value with
  | some [url, commitUrl] => do
    some ⟨← optionalTextField url, ← optionalTextField commitUrl⟩
  | _ => none

def optionalLinks : Value → Option (Option DeliveryLinksWire)
  | .null => some none
  | value => (DeliveryLinksWire.fromValue value).map some

structure DeliveryResultWire where
  version : String
  mode : String
  outcome : String
  repository : String
  targetBranch : String
  headRevision : String
  headBranch : Option String
  pullRequestId : Option String
  mergeRevision : Option String
  links : Option DeliveryLinksWire
  deriving DecidableEq, Repr

def DeliveryResultWire.fromValue (value : Value) : Option DeliveryResultWire :=
  match structFields ["version", "mode", "outcome", "repository", "targetBranch", "headRevision",
      "headBranch", "pullRequestId", "mergeRevision", "links"] value with
  | some [version, mode, outcome, repository, targetBranch, headRevision, headBranch,
      pullRequestId, mergeRevision, links] => do
    some ⟨← textField version, ← textField mode, ← textField outcome, ← textField repository,
      ← textField targetBranch, ← textField headRevision, ← optionalTextField headBranch,
      ← optionalTextField pullRequestId, ← optionalTextField mergeRevision, ← optionalLinks links⟩
  | _ => none

/-! ## Forge adapters -/

inductive SourceDiscussionKind
  | issue
  | pullRequest
  deriving DecidableEq, Repr

structure SourceCommentDestination where
  provider : String
  baseUrl : Option String
  repository : String
  discussionId : String
  kind : SourceDiscussionKind
  url : String
  deriving DecidableEq, Repr

/-- What the adapters of the source forges, and the URLs they parse, decide. -/
structure SourceAdapters where
  samePublicOrigin : String → String → Bool
  commentDestination : String → Option SourceForgeIdentity → Option SourceCommentDestination
  validReviewScope : SourceCommentDestination → Value → Bool
  validCommentDestination : SourceCommentDestination → Bool
  validCommentPermalink : SourceCommentDestination → String → String → Bool

section

variable (adapters : SourceAdapters)

/-! ## Git receipts -/

/-- `valid_result_links`. -/
def validResultLinks (result : DeliveryResultWire) : Bool :=
  match result.links with
  | none => true
  | some ⟨none, none⟩ => true
  | some ⟨some url, some commit⟩ => adapters.samePublicOrigin url commit
  | some _ => false

/-- `valid_pull_request_receipt`. -/
def validPullRequestReceipt (result : DeliveryResultWire) : Bool :=
  result.pullRequestId.any validReviewId

/-- `receipt_mode_matches`. -/
def receiptModeMatches (result : DeliveryResultWire) : DeliveryMode → Bool
  | .push =>
    result.headBranch.any validBranch && result.pullRequestId.isNone &&
      result.mergeRevision.isNone
  | .pullRequest | .pullRequestV2 | .mergeV1 =>
    validPullRequestReceipt result && result.mergeRevision.isNone
  | .merge | .mergeV3 =>
    validPullRequestReceipt result && result.mergeRevision.any validRevision

/-- `receipt_matches_target`. -/
def receiptMatchesTarget (result : DeliveryResultWire) (mode : DeliveryMode)
    (target : DeliveryTarget) : Bool :=
  validResultLinks adapters result && result.repository = target.repository &&
    result.targetBranch = target.targetBranch && validRevision result.headRevision &&
    result.headRevision ≠ target.baseRevision && receiptModeMatches result mode

/-- `is_matching_success_receipt`. -/
def isMatchingSuccessReceipt (output : Value) (mode : DeliveryMode) (target : DeliveryTarget) :
    Bool :=
  match DeliveryResultWire.fromValue output with
  | none => false
  | some result =>
    result.version = mode.resultVersion && result.mode = mode.label &&
      result.outcome = mode.successOutcome && receiptMatchesTarget adapters result mode target

/-! ## Comment receipts -/

/-- The path bound to an input field of the node, `root_binding`: an error when it is bound to
anything but the caller's input. -/
def rootBinding (node : VerifierNode) (field : String) : Except String (Option FieldPath) :=
  match node.inputBindings.find? fun binding =>
      binding.target.segments.map Identifier.asStr = [field] with
  | none => .ok none
  | some ⟨_, .state path⟩ => .ok (some path)
  | some _ => .error "comment destination and scope must bind directly from caller input"

/-- `value_at`. -/
def valueAt : Value → List FieldName → Option Value
  | value, [] => some value
  | .object fields, segment :: segments =>
    (fields.lookup segment.asStr).bind fun value => valueAt value segments
  | _, _ :: _ => none

/-- `unresolved_input` of a comment node: the URL and the review scope. -/
def unresolvedInput (node : VerifierNode) (input : Value) :
    Except String (String × Option Value) := do
  match ← rootBinding node "url" with
  | none => .error "comment URL requires caller input"
  | some path =>
    match (valueAt input path.segments).bind textField with
    | none => .error "comment URL is missing"
    | some url =>
      match ← rootBinding node "reviewScope" with
      | none => .ok (url, none)
      | some path =>
        match valueAt input path.segments with
        | none => .error "comment reviewScope is missing"
        | some scope => .ok (url, some scope)

/-- `resolve_comment_input_at`, as far as a receipt needs it: the destination. -/
def resolveCommentDestination (root : GraphNode) (input : Value)
    (forge : Option SourceForgeIdentity) : Option SourceCommentDestination :=
  (commentNode root).bind fun node =>
    match unresolvedInput node input with
    | .error _ => none
    | .ok (url, scope) =>
      (adapters.commentDestination url forge).bind fun destination =>
        if scope.all (adapters.validReviewScope destination) then some destination else none

structure CommentReceipt where
  version : String
  mode : String
  outcome : String
  destinationUrl : String
  repository : String
  discussionKind : String
  discussionId : String
  commentId : String
  url : String
  bodyHash : String
  sourceRevision : Option String
  deriving DecidableEq, Repr

/-- `CommentOutput`. -/
def CommentReceipt.fromOutput (value : Value) : Option CommentReceipt :=
  match structFields ["receipt"] value with
  | some [receipt] =>
    match structFields ["version", "mode", "outcome", "destinationUrl", "repository",
        "discussionKind", "discussionId", "commentId", "url", "bodyHash", "sourceRevision"]
        receipt with
    | some [version, mode, outcome, destinationUrl, repository, discussionKind, discussionId,
        commentId, url, bodyHash, sourceRevision] => do
      some ⟨← textField version, ← textField mode, ← textField outcome,
        ← textField destinationUrl, ← textField repository, ← textField discussionKind,
        ← textField discussionId, ← textField commentId, ← textField url, ← textField bodyHash,
        ← optionalTextField sourceRevision⟩
    | _ => none
  | _ => none

/-- `valid_digest`. -/
def validDigest (value : String) : Bool :=
  let bytes := value.toUTF8.toList
  bytes.length = 64 &&
    bytes.all fun byte => (0x30 ≤ byte && byte ≤ 0x39) || (0x61 ≤ byte && byte ≤ 0x66)

/-- `valid_id`: graphic ASCII. -/
def validCommentId (value : String) : Bool :=
  let bytes := value.toUTF8.toList
  !value.isEmpty && bytes.length ≤ 256 && bytes.all fun byte => 0x21 ≤ byte && byte ≤ 0x7E

/-- `valid_receipt_fields`. -/
def validReceiptFields (receipt : CommentReceipt) : Bool :=
  receipt.version = "v1" && receipt.mode = "comment" && receipt.outcome = "posted" &&
    validDigest receipt.bodyHash

def SourceDiscussionKind.label : SourceDiscussionKind → String
  | .issue => "issue"
  | .pullRequest => "pull_request"

/-- `receipt_matches_destination`. -/
def receiptMatchesDestination (receipt : CommentReceipt)
    (destination : SourceCommentDestination) : Bool :=
  receipt.repository = destination.repository &&
    receipt.discussionKind = destination.kind.label &&
    receipt.discussionId = destination.discussionId && validCommentId receipt.commentId &&
    adapters.validCommentPermalink destination receipt.commentId receipt.url

/-- `is_matching_success_receipt_for`. -/
def isMatchingSuccessReceiptFor (output : Value) (destination : SourceCommentDestination)
    (sourceRevision : Option String) : Bool :=
  match CommentReceipt.fromOutput output with
  | none => false
  | some receipt =>
    adapters.validCommentDestination destination && validReceiptFields receipt &&
      receipt.destinationUrl = destination.url &&
      receiptMatchesDestination adapters receipt destination &&
      receipt.sourceRevision = sourceRevision

end

end Zeroshot.Delivery
