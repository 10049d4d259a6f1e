import Mathlib.Algebra.GroupWithZero.Nat
import Mathlib.Data.List.Basic

set_option autoImplicit false

/-!
# Reviews

What names the review of a delivery, and which names the forge may return.
-/

namespace Zeroshot.Delivery

/-- `SourceReviewReceipt`. -/
structure SourceReviewReceipt where
  reviewId : String
  repository : String
  targetBranch : String
  headBranch : String
  headRevision : String
  deriving DecidableEq, Repr

/-- `char::is_control`. -/
def isControl (c : Char) : Bool := c.toNat < 0x20 || (0x7F ≤ c.toNat && c.toNat ≤ 0x9F)

/-- `valid_delivery_repository`. -/
def validRepository (value : String) : Bool :=
  !value.isEmpty && value.utf8ByteSize ≤ 2048 && !value.toList.any isControl

/-- `valid_git_branch`. -/
def validBranch (value : String) : Bool :=
  let bytes := value.toUTF8.toList
  !value.isEmpty && bytes.length ≤ 256 && bytes.head? != some 0x2D &&
    !((bytes.zip bytes.tail).any fun pair => pair == (0x2E, 0x2E)) &&
    bytes.getLast? != some 0x2E && bytes.getLast? != some 0x2F &&
    !bytes.any fun byte => byte < 0x20 || byte == 0x7F || byte == 0x20 ||
      [0x7E, 0x5E, 0x3A, 0x3F, 0x2A, 0x5B, 0x5C].contains byte

/-- `valid_git_revision`. -/
def validRevision (value : String) : Bool :=
  let bytes := value.toUTF8.toList
  (bytes.length = 40 || bytes.length = 64) &&
    bytes.all fun byte => (0x30 ≤ byte && byte ≤ 0x39) || (0x61 ≤ byte && byte ≤ 0x66)

/-- `valid_review_id`. -/
def validReviewId (value : String) : Bool :=
  !value.isEmpty && value.utf8ByteSize ≤ 256 && !value.toList.any isControl

end Zeroshot.Delivery
